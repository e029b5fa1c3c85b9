import Stagecraft.Proofs.Binary32.Exact
/-!
# Numbers in figures

A figure is a number as it may be written: a sign if there is one, digits, and digits behind a point if there is one.
The reader takes the figures and nothing else, and what is written of a finite number is a figure of just that number.
-/
namespace Stagecraft

/-- A sign in front of a number, if there is one. -/
inductive Sign
  | absent
  | plus
  | minus
  deriving DecidableEq, Repr

namespace Sign

def chars : Sign → List Char
  | .absent => []
  | .plus => ['+']
  | .minus => ['-']

def isMinus : Sign → Bool
  | .minus => true
  | _ => false

end Sign

/-- A number in figures. -/
structure Figure where
  sign : Sign := .absent
  /-- The digits before the point. -/
  whole : List Char
  /-- The digits behind the point, if there is a point. -/
  fraction : Option (List Char) := none
  isDigit : ∀ c ∈ whole ++ fraction.getD [], c.isDigit = true
  ne_nil : whole ++ fraction.getD [] ≠ []

namespace Figure

def digits (n : Figure) : List Char := n.whole ++ n.fraction.getD []

/-- What stands behind the sign. -/
def body (n : Figure) : List Char := n.whole ++ n.fraction.elim [] ('.' :: ·)

def chars (n : Figure) : List Char := n.sign.chars ++ n.body

/-- The number nearest to what the digits say. -/
def value (n : Figure) : Binary32 :=
  .ofRatio n.sign.isMinus (Nat.ofDigitChars 10 n.digits 0) (10 ^ (n.fraction.getD []).length)

theorem mem_body {n : Figure} {c : Char} (h : c ∈ n.body) : c.isDigit = true ∨ c = '.' := by
  have hdigit := n.isDigit
  unfold body at h
  cases hfraction : n.fraction with
  | none =>
    rw [hfraction, Option.elim_none, List.append_nil] at h
    exact .inl (hdigit c (List.mem_append_left _ h))
  | some fs =>
    rw [hfraction, Option.getD_some] at hdigit
    rw [hfraction, Option.elim_some, List.mem_append, List.mem_cons] at h
    rcases h with h | rfl | h
    · exact .inl (hdigit c (List.mem_append_left _ h))
    · exact .inr rfl
    · exact .inl (hdigit c (List.mem_append_right _ h))

theorem body_ne_nil (n : Figure) : n.body ≠ [] := by
  have hne := n.ne_nil
  unfold body
  cases hfraction : n.fraction with
  | none => rwa [hfraction, Option.getD_none] at hne
  | some fs =>
    rw [Option.elim_some]
    exact List.append_ne_nil_of_right_ne_nil _ (List.cons_ne_nil _ _)

end Figure

namespace Binary32

open Text (digit?_of_isDigit isDigit_of_digit?)

/-! ## Figures are read -/

/-- A run of digits is added to what has been read. -/
theorem numeralFrom_digits (point : Bool) (rest : List Char) : ∀ {ds : List Char} (any : Bool) (acc : Numeral),
    (∀ c ∈ ds, c.isDigit = true) → numeralFrom point any acc (ds ++ rest) =
      numeralFrom point (any || !ds.isEmpty)
        ⟨Nat.ofDigitChars 10 ds acc.whole, acc.places + if point then ds.length else 0⟩ rest
  | [], any, acc, _ => by
    rw [List.nil_append, List.isEmpty_nil, Bool.not_true, Bool.or_false, Nat.ofDigitChars_nil, List.length_nil, ite_self,
      Nat.add_zero]
  | c :: ds, any, acc, hds => by
    have hc := hds c List.mem_cons_self
    have hpoint : c ≠ '.' := by
      rintro rfl
      cases hc
    rw [List.cons_append, numeralFrom, if_neg hpoint, digit?_of_isDigit hc]
    simp only
    rw [numeralFrom_digits point rest true _ fun d hd => hds d (List.mem_cons_of_mem _ hd), Nat.ofDigitChars_cons,
      Bool.true_or, List.isEmpty_cons, Bool.not_false, Bool.or_true]
    cases point with
    | false => rfl
    | true => simp only [if_true, List.length_cons, Nat.add_assoc, Nat.add_comm 1]

/-- What stands behind the sign of a figure is read as its digits. -/
theorem numeral?_body (n : Figure) :
    numeral? n.body = some ⟨Nat.ofDigitChars 10 n.digits 0, (n.fraction.getD []).length⟩ := by
  obtain ⟨sign, whole, fraction, hdigit, hne⟩ := n
  rw [numeral?, Figure.body, Figure.digits]
  rw [numeralFrom_digits false _ false _ fun c hc => hdigit c (List.mem_append_left _ hc)]
  cases fraction with
  | none =>
    rw [Option.getD_none, List.append_nil] at hne
    have hany : whole.isEmpty = false := List.isEmpty_eq_false_iff.2 hne
    simp only [Option.elim_none, numeralFrom, hany, Option.getD_none, List.append_nil]
    rfl
  | some fs =>
    rw [Option.getD_some] at hdigit hne
    have hfs : ∀ c ∈ fs, c.isDigit = true := fun c hc => hdigit c (List.mem_append_right _ hc)
    have hany : (!whole.isEmpty || !fs.isEmpty) = true := by
      cases whole with
      | cons => rfl
      | nil =>
        rw [List.nil_append] at hne
        rw [List.isEmpty_eq_false_iff.2 hne]
        rfl
    have hread := numeralFrom_digits true [] (!whole.isEmpty) ⟨Nat.ofDigitChars 10 whole 0, 0⟩ hfs
    rw [List.append_nil, hany, ← Nat.ofDigitChars_append] at hread
    simp only [Option.elim_some, Bool.false_or, Bool.false_eq_true, if_false, Nat.add_zero, Option.getD_some]
    rw [numeralFrom, if_pos rfl, if_neg Bool.false_ne_true, hread, numeralFrom, if_pos rfl, if_pos rfl, Nat.zero_add]

/-- Whatever is read consists of digits, with a point among them if there has been none before. -/
theorem exists_of_numeralFrom : ∀ {cs : List Char} {point any : Bool} {acc m : Numeral},
    numeralFrom point any acc cs = some m → ∃ (whole : List Char) (fraction : Option (List Char)),
      cs = whole ++ fraction.elim [] ('.' :: ·) ∧ (∀ c ∈ whole ++ fraction.getD [], c.isDigit = true) ∧
      (any = true ∨ whole ++ fraction.getD [] ≠ []) ∧ (point = true → fraction = none)
  | [], point, any, acc, m, h => by
    rw [numeralFrom] at h
    split at h
    · rename_i hany
      exact ⟨[], none, rfl, nofun, .inl hany, fun _ => rfl⟩
    · cases h
  | c :: cs, point, any, acc, m, h => by
    rw [numeralFrom] at h
    split at h
    · rename_i hc
      split at h
      · cases h
      · rename_i hpoint
        obtain ⟨whole, fraction, rfl, hdigit, hany, hnone⟩ := exists_of_numeralFrom h
        obtain rfl := hnone rfl
        rw [Option.getD_none, List.append_nil] at hdigit hany
        refine ⟨[], some whole, ?_, hdigit, hany, fun h => absurd h hpoint⟩
        rw [hc, Option.elim_none, List.append_nil, Option.elim_some, List.nil_append]
    · split at h
      · cases h
      · rename_i d hd
        obtain ⟨whole, fraction, rfl, hdigit, -, hnone⟩ := exists_of_numeralFrom h
        refine ⟨c :: whole, fraction, rfl, ?_, .inr (List.cons_ne_nil _ _), hnone⟩
        rw [List.cons_append, List.forall_mem_cons]
        exact ⟨(isDigit_of_digit? hd).1, hdigit⟩

/-- A sign is told from what stands behind it by its first character. -/
theorem read?_chars (n : Figure) : read? n.chars = some n.value := by
  have hbody : (numeral? n.body).map (ofNumeral n.sign.isMinus) = some n.value := by
    rw [numeral?_body]
    rfl
  unfold Figure.chars
  cases hsign : n.sign with
  | plus | minus =>
    rw [hsign] at hbody
    exact hbody
  | absent =>
    rw [hsign] at hbody
    have hhead : ∀ {c cs}, n.body = c :: cs → c ≠ '+' ∧ c ≠ '-' := by
      intro c cs heq
      have hc := Figure.mem_body (heq ▸ List.mem_cons_self : c ∈ n.body)
      constructor <;> rintro rfl <;> exact absurd hc (by decide)
    rw [Sign.chars, List.nil_append]
    unfold read?
    split
    · rename_i heq
      exact absurd rfl (hhead heq).1
    · rename_i heq
      exact absurd rfl (hhead heq).2
    · exact hbody

/-- **The reader takes just the figures**, each as its value. -/
theorem read?_eq_some_iff {cs : List Char} {x : Binary32} :
    read? cs = some x ↔ ∃ n : Figure, cs = n.chars ∧ x = n.value := by
  refine ⟨fun h => ?_, ?_⟩
  · have hbody : ∀ (sign : Sign) {body : List Char}, (numeral? body).map (ofNumeral sign.isMinus) = some x →
        ∃ n : Figure, sign.chars ++ body = n.chars ∧ x = n.value := by
      intro sign body h
      obtain ⟨m, hm, rfl⟩ := Option.map_eq_some_iff.1 h
      obtain ⟨whole, fraction, rfl, hdigit, hany, -⟩ := exists_of_numeralFrom hm
      let n : Figure := ⟨sign, whole, fraction, hdigit, hany.resolve_left Bool.false_ne_true⟩
      have hn := hm.symm.trans (numeral?_body n)
      exact ⟨n, rfl, by rw [Option.some.inj hn]; rfl⟩
    unfold read? at h
    split at h
    · exact hbody .plus h
    · exact hbody .minus h
    · exact hbody .absent h
  · rintro ⟨n, rfl, rfl⟩
    exact read?_chars n

/-! ## Numbers are written as figures -/

/-- A decimal is written as a figure. -/
theorem exists_figure_of_decimal (sign : Sign) (d : Decimal) : ∃ n : Figure,
    n.chars = sign.chars ++ d.chars ∧ n.value = ofRatio sign.isMinus d.ratio.1 d.ratio.2 := by
  have hdigits : ∀ c ∈ Text.digits d.ratio.1, c.isDigit = true := fun c hc => isDigit_of_mem_digits hc
  have hvalue := Text.ofDigitChars_digits d.ratio.1
  have hden : d.ratio.2 = 10 ^ (-d.exponent).toNat := rfl
  unfold Decimal.chars
  simp only
  by_cases hplaces : (-d.exponent).toNat = 0
  · rw [if_pos hplaces]
    have hne : Text.digits d.ratio.1 ≠ [] := Nat.toDigits_ne_nil
    refine ⟨⟨sign, Text.digits d.ratio.1, none, by simpa using hdigits, by simpa using hne⟩, ?_, ?_⟩
    · simp only [Figure.chars, Figure.body, Option.elim_none, List.append_nil]
    · rw [hden, hplaces]
      simp only [Figure.value, Figure.digits, Option.getD_none, List.append_nil, List.length_nil, hvalue]
  · rw [if_neg hplaces, hden]
    generalize (-d.exponent).toNat = places at hplaces
    generalize Text.digits d.ratio.1 = ds at hdigits hvalue
    -- zeros in front say nothing
    have hpadded : ∀ c ∈ List.replicate (places + 1 - ds.length) '0' ++ ds, c.isDigit = true := by
      intro c hc
      rcases List.mem_append.1 hc with hc | hc
      · rw [List.eq_of_mem_replicate hc]
        decide
      · exact hdigits c hc
    have hsame : Nat.ofDigitChars 10 (List.replicate (places + 1 - ds.length) '0' ++ ds) 0 = d.ratio.1 := by
      rw [Nat.ofDigitChars_append, Nat.ofDigitChars_replicate_zero, Nat.mul_zero, hvalue]
    have hlength : places + 1 ≤ (List.replicate (places + 1 - ds.length) '0' ++ ds).length := by
      rw [List.length_append, List.length_replicate]
      omega
    generalize List.replicate (places + 1 - ds.length) '0' ++ ds = padded at hpadded hsame hlength
    have hsplit := List.take_append_drop (padded.length - places) padded
    refine ⟨⟨sign, padded.take (padded.length - places), some (padded.drop (padded.length - places)), ?_, ?_⟩, ?_, ?_⟩
    · rwa [Option.getD_some, hsplit]
    · rw [Option.getD_some, hsplit]
      rintro rfl
      exact absurd hlength (Nat.not_succ_le_zero _)
    · simp only [Figure.chars, Figure.body, Option.elim_some]
    · have hbehind : padded.length - (padded.length - places) = places := by omega
      simp only [Figure.value, Figure.digits, Option.getD_some, hsplit, hsame, List.length_drop, hbehind]

theorem ofRatio_of_readsBack {x : Binary32} {d : Decimal} (h : d.readsBack x.rank.val = true) :
    ofRatio x.negative d.ratio.1 d.ratio.2 = x := by
  have hrank : nearestRank d.ratio.1 d.ratio.2 = x.rank.val := beq_iff_eq.1 h
  exact congrArg (Binary32.mk x.negative) (Fin.ext hrank)

/-- A decimal that reads back is, behind the sign of the number, a figure of the number. -/
theorem exists_figure_of_readsBack {x : Binary32} {d : Decimal} (h : d.readsBack x.rank.val = true) :
    ∃ n : Figure, n.chars = (if x.negative then '-' :: d.chars else d.chars) ∧ n.value = x := by
  have hvalue := ofRatio_of_readsBack h
  cases hx : x.negative with
  | true =>
    rw [hx] at hvalue
    obtain ⟨n, hn, hnear⟩ := exists_figure_of_decimal .minus d
    exact ⟨n, hn, hnear.trans hvalue⟩
  | false =>
    rw [hx] at hvalue
    obtain ⟨n, hn, hnear⟩ := exists_figure_of_decimal .absent d
    exact ⟨n, hn, hnear.trans hvalue⟩

/-- **The text of a finite number is a figure of that number.** -/
theorem exists_figure_of_text {x : Binary32} (h : x.isFinite = true) :
    ∃ n : Figure, x.text.toList = n.chars ∧ n.value = x := by
  obtain ⟨n, hn, hvalue⟩ := exists_figure_of_readsBack (readsBack_shortest (isFinite_iff.1 h))
  refine ⟨n, ?_, hvalue⟩
  rw [hn, text, String.toList_ofList, magnitude, if_pos h]

end Binary32
end Stagecraft
