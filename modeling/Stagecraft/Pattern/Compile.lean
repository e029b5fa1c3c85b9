import Stagecraft.Pattern.Meaning
/-!
# From a text to a pattern

`Pattern.parse` reads a text, finds out what it means, and refuses what would take too much room, which repetitions of
repetitions soon do.
-/
namespace Stagecraft
namespace Pattern

/-- Why there is no pattern for a text. -/
inductive Refusal
  | fault (f : SpanFault)
  /-- It asks where words of all scripts begin and end. -/
  | scripts
  | tooLarge
  deriving DecidableEq, Repr

/-- The room in bytes that a pattern may take. -/
def roomLimit : Nat := 10485760

def Refusal.message (text : String) : Refusal → String
  | .fault f => f.report text
  | .scripts => "error building NFA"
  | .tooLarge => "Compiled regex exceeds size limit of " ++ Text.decimal roomLimit ++ " bytes."

/-! ## Room

A pattern is carried out by a machine whose states take 32 bytes each, and 4 more for each way out of a choice.  A
character takes a state for each of its bytes, and a part that is repeated is there once for each time. -/

/-- The room of one state. -/
def stateRoom : Nat := 32

/-- The room of a choice between two ways. -/
def choiceRoom : Nat := stateRoom + 8

/-- The room of a set: of a single character, of some characters of ASCII, of characters that differ in length. -/
def setRoom (s : CharSet) : Nat :=
  match s.ranges with
  | [(a, b)] => if a = b then (Char.ofNat a).utf8Size * stateRoom else several
  | _ => several
where
  several : Nat := if s.isAscii then 2 * stateRoom else 20 * stateRoom

/-- Whether only the stretch without characters can fit. -/
def isVoid : Pattern → Bool
  | .empty | .anchor _ => true
  | .one _ => false
  | .seq p q | .alt p q => p.isVoid && q.isVoid
  | .times _ most p => most = some 0 || p.isVoid
  | .group p => p.isVoid

/-- The room of a part that takes `room` once, for all the times that it can be repeated. -/
def repeatedRoom (least room : Nat) : Option Nat → Nat
  | some most => least * room + (most - least) * (choiceRoom + room) + stateRoom
  | none => max least 1 * room + choiceRoom

/-- The room that a pattern takes.  What fits no characters is there once at most. -/
def room : Pattern → Nat
  | .empty | .anchor _ => stateRoom
  | .one s => setRoom s
  | .seq p q => p.room + q.room
  | .alt p q => choiceRoom + p.room + q.room
  | .times least most p =>
    if p.isVoid then repeatedRoom (min least 1) p.room (some (min (most.getD 1) 1)) else repeatedRoom least p.room most
  | .group p => p.room + 2 * stateRoom

/-- Reads a pattern. -/
def parse (text : String) : Except Refusal Pattern := do
  let written ← (Written.parse text).mapError .fault
  let (p, sense) ← (StateT.run written.meaning {}).mapError .fault
  if sense.asksForScripts then throw .scripts
  else if roomLimit < p.room then throw .tooLarge
  else pure p

end Pattern
end Stagecraft
