import Stagecraft.Binary32.Decimal
/-!
# What a number looks like when it is written

Whatever its value, a number is written as an optional sign, then digits with at most one point between digits, or
`inf` for an infinity.  Readers and class names rest on this shape alone, never on which digits were chosen.
-/
namespace Stagecraft
namespace Binary32

/-- The text of an absolute value. -/
inductive Unsigned : List Char → Prop
  | infinite : Unsigned ['i', 'n', 'f']
  | whole {ds : List Char} : ds ≠ [] → (∀ c ∈ ds, c.isDigit = true) → Unsigned ds
  | fraction {ds fs : List Char} : ds ≠ [] → (∀ c ∈ ds, c.isDigit = true) → (∀ c ∈ fs, c.isDigit = true) →
      Unsigned (ds ++ '.' :: fs)

/-- The text of a number. -/
inductive Written : List Char → Prop
  | plain {n : List Char} : Unsigned n → Written n
  | negative {n : List Char} : Unsigned n → Written ('-' :: n)

theorem isDigit_of_mem_digits {n : Nat} {c : Char} (h : c ∈ Text.digits n) : c.isDigit = true :=
  Nat.isDigit_of_mem_toDigits (by decide) (by decide) h

/-- A decimal is written with digits on both sides of its point. -/
theorem unsigned_chars (d : Decimal) : Unsigned d.chars := by
  unfold Decimal.chars
  simp only
  have hdigits : ∀ c ∈ Text.digits d.ratio.1, c.isDigit = true := fun c hc => isDigit_of_mem_digits hc
  by_cases hp : (-d.exponent).toNat = 0
  · rw [if_pos hp]
    exact .whole Nat.toDigits_ne_nil hdigits
  · rw [if_neg hp]
    generalize (-d.exponent).toNat = places
    generalize Text.digits d.ratio.1 = ds at hdigits
    -- zeros in front make room for a digit before the point
    have hpadded : ∀ c ∈ List.replicate (places + 1 - ds.length) '0' ++ ds, c.isDigit = true := by
      intro c hc
      rcases List.mem_append.1 hc with hc | hc
      · rw [List.eq_of_mem_replicate hc]; decide
      · exact hdigits c hc
    have hlen : places + 1 ≤ (List.replicate (places + 1 - ds.length) '0' ++ ds).length := by
      rw [List.length_append, List.length_replicate]; omega
    generalize List.replicate (places + 1 - ds.length) '0' ++ ds = padded at hpadded hlen
    refine .fraction ?_ (fun c hc => hpadded c (List.mem_of_mem_take hc))
      (fun c hc => hpadded c (List.mem_of_mem_drop hc))
    intro h
    have := congrArg List.length h
    rw [List.length_take, List.length_nil] at this
    omega

theorem unsigned_magnitude (x : Binary32) : Unsigned x.magnitude := by
  unfold magnitude
  split
  · exact unsigned_chars _
  · exact .infinite

/-- **Every number is written in this shape.** -/
theorem written_text (x : Binary32) : Written x.text.toList := by
  unfold text
  rw [String.toList_ofList]
  split
  · exact .negative (unsigned_magnitude x)
  · exact .plain (unsigned_magnitude x)

end Binary32
end Stagecraft
