import Stagecraft.Grammar.Clause
import Stagecraft.Motion.Basic
/-!
# Reading a motion

```text
enter left move 120px over 0.5s after 100ms scale up 20
transform move top 40px twist left 10
```

Colons separate words here and mean nothing.  The word that names the kind of an effect may stand first.
-/
namespace Stagecraft
namespace Motion

/-- Reads the next word with `f`, if there is one and `f` accepts it, and counts it. -/
def param? {α : Type} (f : String → Option α) : List Word → Option α × Nat
  | [] => (none, 0)
  | w :: _ =>
    match f w.text with
    | some a => (some a, 1)
    | none => (none, 0)

/-- A clause of one parameter that has to be there. -/
def required {α : Type} (f : String → Option α) (mean : α → MotionClause) (fault : Fault) (w : Word)
    (ws : List Word) : Reading MotionClause × Nat :=
  match param? f ws with
  | (some a, n) => (.meant (mean a), n)
  | (none, n) => (.skip w fault, n)

def readMove (w : Word) (ws : List Word) : Reading MotionClause × Nat :=
  let (side, i) := param? Side.parse? ws
  let (distance, j) := param? Length.parse? (ws.drop i)
  if side.isNone && distance.isNone then (.skip w .expectedMove, i + j)
  else (.meant (.move ⟨side, distance⟩), i + j)

/-- A direction without a power is taken and lost. -/
def readScale (w : Word) (ws : List Word) : Reading MotionClause × Nat :=
  let (direction, i) := param? ScaleDirection.parse? ws
  match param? power? (ws.drop i) with
  | (some power, j) => (.meant (.scale ⟨direction, power⟩), i + j)
  | (none, j) => (.skip w .expectedPower, i + j)

/-- The two sides that an element can be twisted to. -/
def turn? (word : String) : Option Side := (Side.parse? word).filter fun s => !s.isVertical

/-- A side without an angle is taken and lost. -/
def readTwist (w : Word) (ws : List Word) : Reading MotionClause × Nat :=
  match param? turn? ws with
  | (none, i) => (.skip w .expectedTurn, i)
  | (some side, i) =>
    match param? Degrees.parse? (ws.drop i) with
    | (some angle, j) => (.meant (.twist ⟨side, angle⟩), i + j)
    | (none, j) => (.skip w .expectedAngle, i + j)

/-- Reads the clause that `w` opens. -/
def readClause (w : Word) (ws : List Word) : Reading MotionClause × Nat :=
  match w.text with
  | "enter" => (.meant (.enter (param? Side.parse? ws).1), (param? Side.parse? ws).2)
  | "after" => required Seconds.parse? .after .expectedDuration w ws
  | "wait" => required Seconds.parse? .after .expectedDuration w ws
  | "over" => required Seconds.parse? .over .expectedDuration w ws
  | "ease" => required Easing.parse? .ease .expectedEasing w ws
  | "easing" => required Easing.parse? .ease .expectedEasing w ws
  | "move" => readMove w ws
  | "scale" => readScale w ws
  | "twist" => readTwist w ws
  | _ => (.skip w .unknownMotion, 0)

/-- Without the kind of the effect in front. -/
def body : List Word → List Word
  | [] => []
  | w :: ws => if w.text = "transform" || w.text = "animate" then ws else w :: ws

/-- What each clause of a motion text comes to. -/
def readings (src : String) : List (Reading MotionClause) :=
  Reading.clauses readClause (body (Token.wordsOf src))

def parse (src : String) : Motion := ofClauses (Reading.meanings (readings src))

def diagnostics (src : String) : List Diagnostic := Reading.diagnostics (readings src)

end Motion
end Stagecraft
