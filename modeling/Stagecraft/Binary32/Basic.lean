/-!
# Binary32 — 32-bit floating point numbers, exactly

A number is a sign and a *rank*: its place among the non-negative values `0, 2^-149, …`, with infinity last.  The
rank of a value is what the format stores in its low 31 bits, so no field can hold anything but a number, and
there is no "not a number".  Everything is computed in natural numbers: a finite value is a whole number of
*grains* of `2^-149`, and every operation rounds one exact quotient with `nearestRank`.
-/
namespace Stagecraft

/-- The rank of infinity: one past the greatest finite value. -/
def infinityRank : Nat := 0x7F800000

/-- A 32-bit floating point number, finite or infinite. -/
structure Binary32 where
  negative : Bool
  rank : Fin (infinityRank + 1)
  deriving DecidableEq, Repr

namespace Binary32

/-! ## Ranks and grains

From rank `2^24` on, each block of `2^23` ranks has grains twice as large as the block before it. -/

/-- The number of ranks in a block, `2^23`. -/
def block : Nat := 8388608

/-- The binary exponent of the spacing at a rank, in grains. -/
def spacing (rank : Nat) : Nat := rank / block - 1

/-- The value of a finite rank, in grains. -/
def grains (rank : Nat) : Nat := (rank - spacing rank * block) * Nat.pow 2 (spacing rank)

/-- The number of grains in one. -/
def unitGrains : Nat := Nat.pow 2 149

/-- The whole number nearest to `num / den`; halfway between two, the even one. -/
def roundEven (num den : Nat) : Nat :=
  let q := num / den
  let r := num % den
  if 2 * r < den then q
  else if den < 2 * r then q + 1
  else q + q % 2

/-- The rank of the value nearest to `num / den`; halfway between two, the even one.  What is too large for
any finite value has the rank of infinity. -/
def nearestRank (num den : Nat) : Nat :=
  let s := Nat.log2 (num * unitGrains / den) - 23
  min infinityRank (s * block + roundEven (num * unitGrains) (den * Nat.pow 2 s))

theorem nearestRank_lt (num den : Nat) : nearestRank num den < infinityRank + 1 :=
  Nat.lt_succ_of_le (Nat.min_le_left _ _)

/-- The number nearest to `num / den`, with the given sign. -/
def ofRatio (negative : Bool) (num den : Nat) : Binary32 :=
  ⟨negative, ⟨nearestRank num den, nearestRank_lt num den⟩⟩

/-! ## Reading a number -/

def isFinite (x : Binary32) : Bool := x.rank.val != infinityRank

def isZero (x : Binary32) : Bool := x.rank.val == 0

/-- The absolute value in grains, where it is finite. -/
def grainCount (x : Binary32) : Nat := grains x.rank.val

/-- Equality of values: the two zeros are the same number. -/
def same (x y : Binary32) : Bool := x == y || (x.isZero && y.isZero)

/-- At least zero; a negative zero is. -/
def isNonneg (x : Binary32) : Bool := !x.negative || x.isZero

def zero : Binary32 := ofRatio false 0 1

/-! ## Arithmetic -/

def neg (x : Binary32) : Binary32 := { x with negative := !x.negative }

theorem neg_neg (x : Binary32) : x.neg.neg = x := by
  simp [neg]

/-- Zero without its sign, and every other number as it is. -/
def plainZero (x : Binary32) : Binary32 := if x.isZero then { x with negative := false } else x

/-- The product with `num / den`, rounded once.  An infinity stays one. -/
def scale (x : Binary32) (num den : Nat) : Binary32 :=
  if x.isFinite then ofRatio x.negative (x.grainCount * num) (unitGrains * den) else x

/-- The sum with one, rounded once.  Opposite terms that cancel leave a positive zero. -/
def addOne (x : Binary32) : Binary32 :=
  if !x.isFinite then x
  else if !x.negative then ofRatio false (unitGrains + x.grainCount) unitGrains
  else if x.grainCount ≤ unitGrains then ofRatio false (unitGrains - x.grainCount) unitGrains
  else ofRatio true (x.grainCount - unitGrains) unitGrains

/-- The nearest whole number; a half goes away from zero. -/
def round (x : Binary32) : Binary32 :=
  if x.isFinite then ofRatio x.negative ((2 * x.grainCount + unitGrains) / (2 * unitGrains)) 1 else x

end Binary32
end Stagecraft
