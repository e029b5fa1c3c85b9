import Stagecraft.Proofs.State.Entry
/-!
# Descriptions while they are read

A description is read clause by clause.  At each moment some reactions are complete, one is being written, and some words
have been skipped; the next clause adds to this, and at the end the reaction that is being written is complete, too.  A
clause without its argument is skipped and changes nothing, except for `go` between colons, which takes back where the
reaction leads to.
-/
namespace Stagecraft

namespace Reading

variable {α : Type}

/-- The words that open clauses, each with all words behind it.  The first `taken` words belong to a clause that has been
read. -/
def openingsFrom (read : Word → List Word → Reading α × Nat) : Nat → List Word → List (Word × List Word)
  | _, [] => []
  | 0, w :: ws => (w, ws) :: openingsFrom read (read w ws).2 ws
  | n + 1, _ :: ws => openingsFrom read n ws

theorem clausesFrom_eq_map (read : Word → List Word → Reading α × Nat) : ∀ (n : Nat) (ws : List Word),
    clausesFrom read n ws = (openingsFrom read n ws).map fun (w, ws) => (read w ws).1
  | _, [] => by simp only [clausesFrom, openingsFrom, List.map_nil]
  | 0, w :: ws => by rw [clausesFrom, openingsFrom, clausesFrom_eq_map read _ ws, List.map_cons]
  | n + 1, _ :: ws => clausesFrom_eq_map read n ws

end Reading

namespace Description

open Token

/-! ## The clauses that are met -/

/-- The clauses that the reader meets: the word that opens each, and the words behind it, between colons only those of the
same run. -/
def met (tokens : List Token) : List (Word × List Word) :=
  if tokens.any isColon then (runs tokens).filterMap fun
    | [] => none
    | w :: ws => some (w, ws)
  else Reading.openingsFrom readKeyword 0 (tokens.filterMap word?)

/-- What a clause that is met comes to. -/
def readMet (tokens : List Token) (clause : Word × List Word) : List (Reading StateClause) :=
  if tokens.any isColon then readRun (clause.1 :: clause.2) else [(readKeyword clause.1 clause.2).1]

theorem readings_eq_met (tokens : List Token) : readings tokens = (met tokens).flatMap (readMet tokens) := by
  unfold readings met readMet
  split
  · induction runs tokens with
    | nil => rfl
    | cons run rs ih =>
      rw [List.flatMap_cons, ih]
      cases run with
      | nil => rfl
      | cons w ws => rfl
  · rw [Reading.clauses, Reading.clausesFrom_eq_map, List.map_eq_flatMap]

/-! ## Drafts -/

/-- A description while it is read. -/
structure Draft where
  /-- The reactions that are complete. -/
  written : List Reaction := []
  /-- The reaction that clauses apply to. -/
  current : Reaction := { on := .entry }
  /-- Whether an `on` has opened it. -/
  opened : Bool := false
  skipped : List Diagnostic := []
  deriving DecidableEq, Repr

namespace Draft

variable (entryNamed : Bool)

/-- The reactions when the current one is complete, too.  The one before the first `on` may be left out. -/
def close (d : Draft) : List Reaction :=
  if !d.opened && (entryNamed && !d.current.isWritten) then d.written else d.written ++ [d.current]

/-- The draft with one more clause. -/
def add (d : Draft) (r : Reading StateClause) : Draft :=
  match r.clause with
  | some (.on occasion) => ⟨d.close entryNamed, { on := occasion }, true, d.skipped ++ r.skipped⟩
  | some c => { d with current := d.current.add c, skipped := d.skipped ++ r.skipped }
  | none => { d with skipped := d.skipped ++ r.skipped }

/-- What has been read, if the description ends here. -/
def finish (d : Draft) : Description := ⟨d.close entryNamed, d.skipped⟩

/-- Clauses up to the next `on` apply to the current reaction, and each `on` completes it. -/
theorem close_foldl (rs : List (Reading StateClause)) : ∀ d : Draft,
    (rs.foldl (add entryNamed) d).close entryNamed =
      { d with current := (sections (Reading.meanings rs)).1.foldl Reaction.add d.current }.close entryNamed ++
        (sections (Reading.meanings rs)).2.map fun (on, body) => Reaction.ofClauses on body := by
  induction rs with
  | nil => exact fun d => (List.append_nil _).symm
  | cons r rs ih =>
    intro d
    rw [List.foldl_cons, ih]
    obtain ⟨clause, skipped⟩ := r
    cases clause with
    | none => rfl
    | some c =>
      cases c with
      | on occasion =>
        simp only [Reading.meanings, List.filterMap_cons, sections, add, List.foldl_nil, List.map_cons]
        rw [List.append_cons]
        rfl
      | goto | loop | effect =>
        simp only [Reading.meanings, List.filterMap_cons, sections, add, List.foldl_cons]
        rfl

theorem reactionsOf_eq_close (cs : List StateClause) : reactionsOf entryNamed cs =
    ({ current := Reaction.ofClauses .entry (sections cs).1 } : Draft).close entryNamed ++
      (sections cs).2.map fun (on, body) => Reaction.ofClauses on body := by
  simp only [reactionsOf, close, Bool.not_false, Bool.true_and]
  by_cases hleft : (entryNamed && !(Reaction.ofClauses .entry (sections cs).1).isWritten) = true
  · rw [if_pos hleft, if_pos hleft, List.nil_append]
  · rw [if_neg hleft, if_neg hleft, List.nil_append, List.singleton_append]

theorem skipped_foldl (rs : List (Reading StateClause)) : ∀ d : Draft,
    (rs.foldl (add entryNamed) d).skipped = d.skipped ++ Reading.diagnostics rs := by
  induction rs with
  | nil => exact fun d => (List.append_nil _).symm
  | cons r rs ih =>
    intro d
    have hadd : (d.add entryNamed r).skipped = d.skipped ++ r.skipped := by
      unfold add
      split <;> rfl
    rw [List.foldl_cons, ih, hadd, List.append_assoc]
    rfl

end Draft

/-- The draft after one more clause that is met. -/
def Draft.meet (tokens : List Token) (d : Draft) (clause : Word × List Word) : Draft :=
  (readMet tokens clause).foldl (add (namesEntry tokens)) d

/-- **A description is what the draft comes to** when all its clauses have been met. -/
theorem read_eq_finish (src : String) : read src =
    ((met (ofText src)).foldl (Draft.meet (ofText src)) {}).finish (namesEntry (ofText src)) := by
  have hfold : (met (ofText src)).foldl (Draft.meet (ofText src)) {} =
      (readings (ofText src)).foldl (Draft.add (namesEntry (ofText src))) {} := by
    rw [readings_eq_met, List.foldl_flatMap]
    rfl
  have hreactions := (Draft.close_foldl (namesEntry (ofText src)) (readings (ofText src)) {}).trans
    (Draft.reactionsOf_eq_close _ _).symm
  have hskipped := Draft.skipped_foldl (namesEntry (ofText src)) (readings (ofText src)) {}
  rw [hfold, Draft.finish, hreactions, hskipped, List.nil_append, read]

/-! ## Clauses without an argument -/

/-- In either form an `on` without an event means nothing. -/
theorem readMet_on {tokens : List Token} {w : Word} (hw : w.text = "on") :
    readMet tokens (w, []) = [.skip w .onWithoutEvent] := by
  unfold readMet
  split
  · change readRun [w] = _
    simp only [readRun, meaning, interior, hw]
    rfl
  · change [(readKeyword w []).1] = _
    simp only [readKeyword, hw]

/-- Between colons a `go` without a state leads nowhere; among keywords it means nothing. -/
theorem readMet_go {tokens : List Token} {w : Word} (hw : w.text = "go") : readMet tokens (w, []) =
    if tokens.any isColon then [.meant (.goto none)] else [.skip w .goWithoutState] := by
  unfold readMet
  split
  · change readRun [w] = _
    simp only [readRun, meaning, interior, hw]
    rfl
  · change [(readKeyword w []).1] = _
    simp only [readKeyword, hw]

/-- **An `on` or a `go` without its argument is skipped**: what is complete, what is being written and whether an `on` has
been read all stay, and one diagnostic is added, for this word.  Only a `go` that is alone between colons is not skipped;
it takes back where the current reaction leads to, and leaves everything else.  The reading goes on from there. -/
theorem clause_without_argument_is_skipped {src : String} {before after : List (Word × List Word)} {w : Word}
    (hmet : met (ofText src) = before ++ (w, []) :: after) (hw : w.text = "on" ∨ w.text = "go") :
    let meet := Draft.meet (ofText src)
    let d := before.foldl meet {}
    read src = (after.foldl meet (meet d (w, []))).finish (namesEntry (ofText src)) ∧
    meet d (w, []) =
      if w.text = "go" ∧ (ofText src).any isColon = true then { d with current := { d.current with goto := none } }
      else { d with skipped := d.skipped ++ [.skipping w (if w.text = "on" then .onWithoutEvent else .goWithoutState)] } := by
  refine ⟨?_, ?_⟩
  · rw [read_eq_finish, hmet, List.foldl_append, List.foldl_cons]
  · generalize before.foldl (Draft.meet (ofText src)) {} = d
    unfold Draft.meet
    rcases hw with hw | hw
    · rw [readMet_on hw, if_neg (by rw [hw]; exact fun h => absurd h.1 (by decide)), if_pos hw]
      rfl
    · rw [readMet_go hw]
      by_cases hcolon : (ofText src).any isColon = true
      · rw [if_pos hcolon, if_pos ⟨hw, hcolon⟩]
        simp only [List.foldl_cons, List.foldl_nil, Draft.add, Reading.meant, List.append_nil, Reaction.add]
      · rw [if_neg hcolon, if_neg fun h => hcolon h.2, if_neg (by rw [hw]; decide)]
        rfl

/-- Between colons the `on` is reported, and the last `go` takes back the state that the click leads to.  Among keywords
the `go` is reported and the state stays. -/
theorem clause_without_argument_is_skipped_twice :
    let d : Draft := ⟨[{ on := .entry }], { on := .event "click", goto := some "a" }, true, []⟩
    let spared : Draft := { d with skipped := [⟨17, "on", .onWithoutEvent⟩] }
    read ":on click :go a :on :go" = { spared with current := { on := .event "click" } }.finish false ∧
    Draft.meet (ofText ":on click :go a :on :go") d (⟨[], "on".toList, 17⟩, []) = spared ∧
    read "on click go a go" = { d with skipped := [⟨14, "go", .goWithoutState⟩] }.finish false := by
  intro d spared
  let word (gap text : String) (offset : Nat) : Word := ⟨gap.toList, text.toList, offset⟩
  have hon := @clause_without_argument_is_skipped ":on click :go a :on :go"
    [(word "" "on" 1, [word " " "click" 4]), (word "" "go" 11, [word " " "a" 14])] [(word "" "go" 21, [])]
    (word "" "on" 17) (by decide) (.inl rfl)
  have hgo := @clause_without_argument_is_skipped ":on click :go a :on :go"
    [(word "" "on" 1, [word " " "click" 4]), (word "" "go" 11, [word " " "a" 14]), (word "" "on" 17, [])] []
    (word "" "go" 21) (by decide) (.inr rfl)
  have hkeywords := @clause_without_argument_is_skipped "on click go a go"
    [(word "" "on" 0, [word " " "click" 3, word " " "go" 9, word " " "a" 12, word " " "go" 14]),
      (word " " "go" 9, [word " " "a" 12, word " " "go" 14])] [] (word " " "go" 14) (by decide) (.inr rfl)
  have hd : [(word "" "on" 1, [word " " "click" 4]), (word "" "go" 11, [word " " "a" 14])].foldl
      (Draft.meet (ofText ":on click :go a :on :go")) {} = d := by decide
  refine ⟨hgo.1.trans ?_, ?_, hkeywords.1.trans ?_⟩
  · rw [List.foldl_nil, hgo.2]
    decide
  · rw [← hd]
    exact hon.2.trans (by decide)
  · rw [List.foldl_nil, hkeywords.2]
    decide

end Description
end Stagecraft
