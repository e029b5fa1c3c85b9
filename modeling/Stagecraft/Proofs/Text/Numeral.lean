import Stagecraft.Text.Numeral
/-!
# Digits and their values

A number written in digits is read back as that number, as long as it fits.
-/
namespace Stagecraft
namespace Text

theorem digit?_of_isDigit {c : Char} (h : c.isDigit = true) : digit? c = some (c.toNat - '0'.toNat) := if_pos h

theorem isDigit_of_digit? {c : Char} {d : Nat} (h : digit? c = some d) :
    c.isDigit = true ∧ d = c.toNat - '0'.toNat := by
  unfold digit? at h
  split at h
  · rename_i hc
    exact ⟨hc, (Option.some.inj h).symm⟩
  · cases h

theorem isSome_digit? (c : Char) : (digit? c).isSome = c.isDigit := by
  cases h : c.isDigit with
  | true => rw [digit?_of_isDigit h, Option.isSome_some]
  | false =>
    cases hd : digit? c with
    | none => rfl
    | some d =>
      rw [(isDigit_of_digit? hd).1] at h
      cases h

theorem ofDigitChars_digits (n : Nat) : Nat.ofDigitChars 10 (digits n) 0 = n :=
  Nat.ofDigitChars_toDigits (by decide) (by decide)

/-- More digits never make a number smaller. -/
theorem le_ofDigitChars : ∀ (ds : List Char) (acc : Nat), acc ≤ Nat.ofDigitChars 10 ds acc
  | [], acc => Nat.le_of_eq Nat.ofDigitChars_nil.symm
  | c :: ds, acc => by
    rw [Nat.ofDigitChars_cons]
    exact Nat.le_trans (by omega) (le_ofDigitChars ds _)

/-- Digits are read as their value if it fits; then so do the values on the way. -/
theorem readDigits_of_isDigit : ∀ {ds : List Char} {acc : Nat}, (∀ c ∈ ds, c.isDigit = true) →
    Nat.ofDigitChars 10 ds acc < word64Bound → readDigits acc ds = .ok (Nat.ofDigitChars 10 ds acc)
  | [], acc, _, _ => by rw [readDigits, Nat.ofDigitChars_nil]
  | c :: ds, acc, hds, hfits => by
    rw [Nat.ofDigitChars_cons] at hfits ⊢
    have hnext : 10 * acc + (c.toNat - '0'.toNat) < word64Bound := Nat.lt_of_le_of_lt (le_ofDigitChars ds _) hfits
    rw [readDigits, digit?_of_isDigit (hds c List.mem_cons_self)]
    simp only
    rw [if_pos hnext]
    exact readDigits_of_isDigit (fun d hd => hds d (List.mem_cons_of_mem _ hd)) hfits

/-- **A number that fits is read back from its digits.** -/
theorem readWord64_digits {n : Nat} (h : n < word64Bound) : readWord64 (digits n) = .ok n := by
  have hdigits : ∀ c ∈ digits n, c.isDigit = true := fun c => Nat.isDigit_of_mem_toDigits (by decide) (by decide)
  have hread : readDigits 0 (digits n) = .ok n := by
    rw [readDigits_of_isDigit hdigits (by rwa [ofDigitChars_digits]), ofDigitChars_digits]
  -- no sign stands in front of digits
  have hplus : '+' ∉ digits n := fun hmem => absurd (hdigits _ hmem) (by decide)
  unfold readWord64
  split
  · rename_i hnil
    exact absurd hnil Nat.toDigits_ne_nil
  · rename_i heq
    exact absurd (heq ▸ List.mem_cons_self) hplus
  · rename_i heq
    exact absurd (heq ▸ List.mem_cons_self) hplus
  · exact hread

end Text
end Stagecraft
