/-!
# Whole numbers in decimal

Writing is `decimal`; reading is `readWord64`, which accepts what fits in 64 bits and says why it refused
anything else.
-/
namespace Stagecraft
namespace Text

/-- The digits of a number, least significant last; zero has one digit. -/
def digits (n : Nat) : List Char := Nat.toDigits 10 n

def decimal (n : Nat) : String := Nat.repr n

/-- The value of a decimal digit. -/
def digit? (c : Char) : Option Nat :=
  if '0' ≤ c && c ≤ '9' then some (c.toNat - '0'.toNat) else none

/-- Text set flush right in a field of `width` places. -/
def flushRight (width : Nat) (s : String) : String :=
  String.ofList (List.replicate (width - s.length) ' ') ++ s

/-- Text set flush left in a field of `width` places. -/
def flushLeft (width : Nat) (s : String) : String :=
  s ++ String.ofList (List.replicate (width - s.length) ' ')

/-! ## Reading numbers of 64 bits -/

/-- Why a text is not a number of 64 bits. -/
inductive NumberFault
  | empty
  | badDigit
  | tooLarge
  deriving DecidableEq, Repr

def NumberFault.message : NumberFault → String
  | .empty => "cannot parse integer from empty string"
  | .badDigit => "invalid digit found in string"
  | .tooLarge => "number too large to fit in target type"

/-- The least number that needs more than 64 bits. -/
def word64Bound : Nat := 0x10000000000000000

/-- Reads digits onto `acc` from left to right; the first fault met is the one reported. -/
def readDigits (acc : Nat) : List Char → Except NumberFault Nat
  | [] => .ok acc
  | c :: cs =>
    match digit? c with
    | none => .error .badDigit
    | some d => if 10 * acc + d < word64Bound then readDigits (10 * acc + d) cs else .error .tooLarge

/-- A number below `word64Bound`, after an optional `+`. -/
def readWord64 : List Char → Except NumberFault Nat
  | [] => .error .empty
  | ['+'] => .error .badDigit
  | '+' :: cs => readDigits 0 cs
  | cs => readDigits 0 cs

end Text
end Stagecraft
