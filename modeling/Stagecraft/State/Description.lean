import Stagecraft.Grammar.Clause
import Stagecraft.State.Reaction
/-!
# Reading the description of a state

A description is written in one of two forms, and a colon anywhere selects the first:

```text
:on click :enter left move 40px :go shown     clauses between colons
on click enter left move 40px go shown        clauses opened by keywords
```

Both come down to one list of clauses.  An `on` clause opens a reaction; what stands before the first of them
belongs to the reaction to the entry.  Unless an `on active` is written somewhere, that first reaction is there
even if it is empty.
-/
namespace Stagecraft

/-- One clause of a description. -/
inductive StateClause
  | on (occasion : Occasion)
  /-- The state to go to; without a name, none. -/
  | goto (state : Option String)
  | loop (marker : String)
  /-- An effect as written, from its keyword to its last word. -/
  | effect (text : String)
  deriving DecidableEq, Repr

/-- What a description comes to. -/
structure Description where
  reactions : List Reaction
  skipped : List Diagnostic
  deriving DecidableEq, Repr

/-! ## From clauses to reactions -/

namespace Reaction

/-- The reaction with one more clause; `on` opens another reaction and adds nothing to this one. -/
def add (r : Reaction) : StateClause → Reaction
  | .on _ => r
  | .goto state => { r with goto := state }
  | .loop marker => { r with loop := some marker }
  | .effect text => r.addEffect text

def ofClauses (on : Occasion) (cs : List StateClause) : Reaction := cs.foldl add { on }

/-- Whether a clause has left something in the reaction. -/
def isWritten (r : Reaction) : Bool := r.hasAction || r.goto.isSome || r.loop.isSome

end Reaction

namespace Description

/-- The clauses before the first `on`, and each `on` with the clauses up to the next. -/
def sections : List StateClause → List StateClause × List (Occasion × List StateClause)
  | [] => ([], [])
  | .on occasion :: cs => ([], (occasion, (sections cs).1) :: (sections cs).2)
  | c :: cs => (c :: (sections cs).1, (sections cs).2)

/-- The reactions that a list of clauses declares.  The one before the first `on` is left out only where the entry
is declared elsewhere (`entryNamed`) and nothing is written in it. -/
def reactionsOf (entryNamed : Bool) (cs : List StateClause) : List Reaction :=
  let head := Reaction.ofClauses .entry (sections cs).1
  let rest := (sections cs).2.map fun (on, body) => Reaction.ofClauses on body
  if entryNamed && !head.isWritten then rest else head :: rest

/-! ## Clauses opened by keywords -/

/-- A word that opens a clause. -/
def isKeyword (word : String) : Bool :=
  word = "on" || word = "go" || word = "loop" || (EffectKind.ofKeyword? word).isSome

/-- Reads the clause that `w` opens.  `on` and `go` take the next word whatever it is; `loop` takes it unless it is
a keyword; an effect takes all words up to the next keyword. -/
def readKeyword (w : Word) (ws : List Word) : Reading StateClause × Nat :=
  match w.text with
  | "on" =>
    match ws with
    | name :: _ => (.meant (.on (.parse name.text)), 1)
    | [] => (.skip w .onWithoutEvent, 0)
  | "go" =>
    match ws with
    | state :: _ => (.meant (.goto (some state.text)), 1)
    | [] => (.skip w .goWithoutState, 0)
  | "loop" =>
    match ws with
    | marker :: _ => if isKeyword marker.text then (.meant (.loop ""), 0) else (.meant (.loop marker.text), 1)
    | [] => (.meant (.loop ""), 0)
  | other =>
    if (EffectKind.ofKeyword? other).isSome then
      let body := ws.takeWhile fun v => !isKeyword v.text
      (.meant (.effect (Word.span (w :: body))), body.length)
    else (.skip w .unknownKeyword, 0)

/-! ## Clauses between colons -/

/-- What a run of words between colons means, if it is a clause.  The first word opens it and the rest, as it
stands, is its argument. -/
def meaning (w : Word) (ws : List Word) : Reading StateClause :=
  match w.text with
  | "on" => if ws.isEmpty then .skip w .onWithoutEvent else .meant (.on (.parse (Word.span ws)))
  | "go" => .meant (.goto (Text.filled (Word.span ws)))
  | "loop" => .meant (.loop (Word.span ws))
  | other =>
    if (EffectKind.ofKeyword? other).isSome then .meant (.effect (Word.span (w :: ws)))
    else .skip w .unknownClause

/-- The words of a clause in which a keyword would be out of place.  The name of an event may be a keyword. -/
def interior (w : Word) (ws : List Word) : List Word := if w.text = "on" then ws.drop 1 else ws

/-- Reads a run of words between colons; an empty run is no clause.  A keyword inside is part of the clause, and the
first such word is reported. -/
def readRun : List Word → List (Reading StateClause)
  | [] => []
  | w :: ws =>
    let inside := ((interior w ws).find? fun v => isKeyword v.text).toList
    let reading := meaning w ws
    [{ reading with skipped := inside.map (Diagnostic.skipping · .keywordInside) ++ reading.skipped }]

/-! ## Descriptions -/

/-- What each clause of a description comes to, in the form that the description is written in. -/
def readings (tokens : List Token) : List (Reading StateClause) :=
  if tokens.any Token.isColon then (Token.runs tokens).flatMap readRun
  else Reading.clauses readKeyword (tokens.filterMap Token.word?)

/-- Whether the word `on` is followed at once by a word that names the entry, as a clause or not. -/
def namesEntry : List Token → Bool
  | .word a :: .word b :: ts => (a.text = "on" && (Occasion.parse b.text).isEntry) || namesEntry (.word b :: ts)
  | _ :: ts => namesEntry ts
  | [] => false

/-- Reads a description.  This cannot fail: what is not understood is skipped and reported. -/
def read (src : String) : Description :=
  let tokens := Token.ofText src
  let rs := readings tokens
  ⟨reactionsOf (namesEntry tokens) (Reading.meanings rs), Reading.diagnostics rs⟩

end Description

/-- A state from its name, the text of its trigger if it has one, and its description.  A malformed trigger
counts as none. -/
def StateDecl.parse (name : String) (trigger : Option String) (src : String) : StateDecl :=
  ⟨name, (Description.read src).reactions, trigger.bind Trigger.parse?⟩

end Stagecraft
