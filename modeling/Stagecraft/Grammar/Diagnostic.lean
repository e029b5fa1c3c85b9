import Stagecraft.Text.Numeral
import Stagecraft.Text.Quoted
import Stagecraft.Grammar.Token
/-!
# Diagnostics

Both grammars are tolerant: what they cannot use they skip, and a diagnostic says which word was skipped and why.
Nothing here ever ends a reading.
-/
namespace Stagecraft

/-- Why a word was skipped. -/
inductive Fault
  /-- A clause between colons holds a word that would open a clause of its own. -/
  | keywordInside
  | onWithoutEvent
  | goWithoutState
  | unknownClause
  | unknownKeyword
  | expectedDuration
  | expectedEasing
  | expectedMove
  | expectedPower
  | expectedTurn
  | expectedAngle
  | unknownMotion
  deriving DecidableEq, Repr

def Fault.message : Fault → String
  | .keywordInside => "keyword inside a \x60:\x60 clause is read as part of that clause"
  | .onWithoutEvent => "\x60on\x60 without an event name"
  | .goWithoutState => "\x60go\x60 without a target state"
  | .unknownClause => "unrecognized clause"
  | .unknownKeyword => "unrecognized keyword"
  | .expectedDuration => "expected a duration"
  | .expectedEasing => "expected a timing function"
  | .expectedMove => "expected a side or a distance"
  | .expectedPower => "expected a power"
  | .expectedTurn => "expected \x60left\x60 or \x60right\x60"
  | .expectedAngle => "expected an angle"
  | .unknownMotion => "unknown motion keyword"

/-- A skipped word: where it starts, how it is written, and why it was skipped. -/
structure Diagnostic where
  offset : Nat
  token : String
  fault : Fault
  deriving DecidableEq, Repr

namespace Diagnostic

def skipping (w : Word) (fault : Fault) : Diagnostic := ⟨w.offset, w.text, fault⟩

def text (d : Diagnostic) : String :=
  "skipped " ++ Text.quoted d.token ++ " at byte " ++ Text.decimal d.offset ++ ": " ++ d.fault.message

end Diagnostic
end Stagecraft
