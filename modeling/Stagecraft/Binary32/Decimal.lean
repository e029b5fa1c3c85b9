import Stagecraft.Binary32.Basic
import Stagecraft.Text.Numeral
/-!
# Binary32 in decimal

`read?` takes a plain numeral: an optional sign, then digits with at most one point.  `text` writes the decimal
with the fewest digits that `nearestRank` takes back to the same number, and never an exponent.
-/
namespace Stagecraft
namespace Binary32

/-! ## Reading -/

/-- An unsigned numeral: the digits as one whole number, and how many of them follow the point. -/
structure Numeral where
  whole : Nat
  places : Nat
  deriving DecidableEq, Repr

/-- Reads the rest of a numeral.  `point` tells whether the point has been passed, `any` whether a digit has. -/
def numeralFrom (point any : Bool) (acc : Numeral) : List Char → Option Numeral
  | [] => if any then some acc else none
  | c :: cs =>
    if c = '.' then
      if point then none else numeralFrom true any acc cs
    else match Text.digit? c with
      | none => none
      | some d => numeralFrom point true ⟨10 * acc.whole + d, if point then acc.places + 1 else acc.places⟩ cs

/-- Digits with at most one point and at least one digit. -/
def numeral? : List Char → Option Numeral := numeralFrom false false ⟨0, 0⟩

/-- The number nearest to a decimal fraction. -/
def ofNumeral (negative : Bool) (n : Numeral) : Binary32 := ofRatio negative n.whole (Nat.pow 10 n.places)

/-- A numeral after an optional sign. -/
def read? : List Char → Option Binary32
  | '+' :: cs => (numeral? cs).map (ofNumeral false)
  | '-' :: cs => (numeral? cs).map (ofNumeral true)
  | cs => (numeral? cs).map (ofNumeral false)

/-! ## Writing

A decimal on the grid `10^g` is a whole number of steps.  The search goes from the coarsest grid to the finest;
on each it tries the two neighbours of the value.  On the last grid, `10^-149`, every finite value is itself a
point, so the search always ends with an answer. -/

/-- A decimal: `steps` times the power of ten `exponent`. -/
structure Decimal where
  steps : Nat
  exponent : Int
  deriving DecidableEq, Repr

/-- Numerator and denominator of a decimal. -/
def Decimal.ratio (d : Decimal) : Nat × Nat :=
  (d.steps * Nat.pow 10 d.exponent.toNat, Nat.pow 10 (-d.exponent).toNat)

/-- Whether the number nearest to the decimal has this rank. -/
def Decimal.readsBack (d : Decimal) (rank : Nat) : Bool := nearestRank d.ratio.1 d.ratio.2 == rank

/-- Of two neighbours, one that reads back as the value of `rank`.  If both do it is the low one exactly if that is
`near`. -/
def neighbour? (rank : Nat) (near : Bool) (low high : Decimal) : Option Decimal :=
  if low.readsBack rank && (near || !high.readsBack rank) then some low
  else if high.readsBack rank then some high
  else none

/-- The decimal on the grid `10^g` that reads back as the value of `rank`, if one of the two neighbours of the
value does.  If both do it is the nearer one, and the greater one when they are equally near. -/
def onGrid? (rank : Nat) (g : Int) : Option Decimal :=
  let num := grains rank * Nat.pow 10 (-g).toNat
  let den := unitGrains * Nat.pow 10 g.toNat
  neighbour? rank (2 * (num % den) < den) ⟨num / den, g⟩ ⟨num / den + 1, g⟩

/-- The exponents of the grids, from the coarsest that can hold a finite value to the finest that is needed. -/
def grids : List Int := (List.range 189).map fun (k : Nat) => (39 : Int) - k

/-- The decimal with the fewest digits that reads back as the value of `rank`. -/
def shortest (rank : Nat) : Decimal := (grids.findSome? (onGrid? rank)).getD ⟨0, 0⟩

/-- A decimal written out, without an exponent. -/
def Decimal.chars (d : Decimal) : List Char :=
  let places := (-d.exponent).toNat
  let ds := Text.digits d.ratio.1
  if places = 0 then ds
  else
    let padded := List.replicate (places + 1 - ds.length) '0' ++ ds
    padded.take (padded.length - places) ++ '.' :: padded.drop (padded.length - places)

/-- The absolute value as text. -/
def magnitude (x : Binary32) : List Char :=
  if x.isFinite then (shortest x.rank.val).chars else "inf".toList

/-- The number as text, with a sign if it is negative; a negative zero is. -/
def text (x : Binary32) : String :=
  String.ofList (if x.negative then '-' :: x.magnitude else x.magnitude)

end Binary32
end Stagecraft
