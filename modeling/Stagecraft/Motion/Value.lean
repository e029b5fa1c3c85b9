import Stagecraft.Binary32.Decimal
/-!
# Values a motion is described with

Sides, lengths, times, angles and easings, each with the words it is read from and the text it is written as.
A number comes first and its unit follows without a blank.
-/
namespace Stagecraft

/-! ## Sides -/

inductive Side
  | left
  | right
  | top
  | bottom
  deriving DecidableEq, Repr

namespace Side

def word : Side → String
  | .left => "left"
  | .right => "right"
  | .top => "top"
  | .bottom => "bottom"

def parse? : String → Option Side
  | "left" => some .left
  | "right" => some .right
  | "top" => some .top
  | "bottom" => some .bottom
  | _ => none

def isVertical : Side → Bool
  | .top | .bottom => true
  | .left | .right => false

/-- Left and top lie towards negative coordinates. -/
def isNegative : Side → Bool
  | .left | .top => true
  | .right | .bottom => false

/-- The other side of the same axis. -/
def opposite : Side → Side
  | .left => .right
  | .right => .left
  | .top => .bottom
  | .bottom => .top

theorem opposite_opposite (s : Side) : s.opposite.opposite = s := by cases s <;> rfl

theorem isVertical_opposite (s : Side) : s.opposite.isVertical = s.isVertical := by cases s <;> rfl

theorem isNegative_opposite (s : Side) : s.opposite.isNegative = !s.isNegative := by cases s <;> rfl

end Side

/-! ## Numbers with a unit -/

namespace Quantity

def isNumeric (c : Char) : Bool := (Text.digit? c).isSome || c == '.'

def isSign (c : Char) : Bool := c == '+' || c == '-'

/-- The number in front of a word and what follows it: a sign may come first, then digits and points. -/
def cut : List Char → List Char × List Char
  | [] => ([], [])
  | c :: cs =>
    if isSign c || isNumeric c then (c :: cs.takeWhile isNumeric, cs.dropWhile isNumeric)
    else ([], c :: cs)

/-- The value of the number in front of a word, if it is finite, and the unit that follows. -/
def split? (word : String) : Option (Binary32 × String) :=
  match Binary32.read? (cut word.toList).1 with
  | some x => if x.isFinite then some (x, String.ofList (cut word.toList).2) else none
  | none => none

end Quantity

inductive LengthUnit
  | px
  | percent
  | em
  | rem
  | vw
  | vh
  deriving DecidableEq, Repr

namespace LengthUnit

def suffix : LengthUnit → String
  | .px => "px"
  | .percent => "%"
  | .em => "em"
  | .rem => "rem"
  | .vw => "vw"
  | .vh => "vh"

/-- A bare number counts pixels. -/
def ofSuffix? : String → Option LengthUnit
  | "" => some .px
  | "px" => some .px
  | "%" => some .percent
  | "em" => some .em
  | "rem" => some .rem
  | "vw" => some .vw
  | "vh" => some .vh
  | _ => none

end LengthUnit

structure Length where
  value : Binary32
  unit : LengthUnit
  deriving DecidableEq, Repr

namespace Length

def parse? (word : String) : Option Length :=
  match Quantity.split? word with
  | some (x, suffix) => (LengthUnit.ofSuffix? suffix).map fun u => ⟨x, u⟩
  | none => none

def neg (l : Length) : Length := { l with value := l.value.neg }

def isZero (l : Length) : Bool := l.value.isZero

/-- Written without the sign of a zero, so that a zero has one text. -/
def css (l : Length) : String := l.value.plainZero.text ++ l.unit.suffix

end Length

/-- A time that is not negative. -/
structure Seconds where
  value : Binary32
  deriving DecidableEq, Repr

namespace Seconds

/-- The factor, as a denominator, that a unit of time stands for. -/
def divisor? : String → Option Nat
  | "" => some 1
  | "s" => some 1
  | "ms" => some 1000
  | _ => none

def parse? (word : String) : Option Seconds :=
  match Quantity.split? word with
  | some (x, suffix) =>
    match divisor? suffix with
    | some d =>
      let t := x.scale 1 d
      if t.isNonneg then some ⟨t⟩ else none
    | none => none
  | none => none

def css (t : Seconds) : String := t.value.text ++ "s"

end Seconds

structure Degrees where
  value : Binary32
  deriving DecidableEq, Repr

namespace Degrees

def parse? (word : String) : Option Degrees :=
  match Quantity.split? word with
  | some (x, suffix) => if suffix = "" || suffix = "deg" then some ⟨x⟩ else none
  | none => none

def neg (a : Degrees) : Degrees := ⟨a.value.neg⟩

/-- Written without the sign of a zero. -/
def css (a : Degrees) : String := a.value.plainZero.text ++ "deg"

end Degrees

/-- A percentage, with or without its sign. -/
def power? (word : String) : Option Binary32 :=
  match Quantity.split? word with
  | some (x, suffix) => if suffix = "" || suffix = "%" then some x else none
  | none => none

/-! ## Easings -/

inductive Easing
  | linear
  | ease
  | easeIn
  | easeOut
  | easeInOut
  deriving DecidableEq, Repr

namespace Easing

def css : Easing → String
  | .linear => "linear"
  | .ease => "ease"
  | .easeIn => "ease-in"
  | .easeOut => "ease-out"
  | .easeInOut => "ease-in-out"

def parse? : String → Option Easing
  | "linear" => some .linear
  | "ease" => some .ease
  | "ease-in" => some .easeIn
  | "ease-out" => some .easeOut
  | "ease-in-out" => some .easeInOut
  | _ => none

end Easing
end Stagecraft
