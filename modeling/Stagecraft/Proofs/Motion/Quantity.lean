import Stagecraft.Proofs.Binary32.Figure
import Stagecraft.Proofs.Motion.Sound
import Stagecraft.Proofs.Style.SameValues
import Stagecraft.Proofs.Style.Spelled
/-!
# Words for lengths, times and angles

Such a word is a figure with a suffix directly behind it.  The scan for the end of the number takes a sign only in front
and stops at whatever is neither a digit nor a point, and no suffix begins with one of these, so the scan finds the cut
between the two.  What is written of a value is again a word for it.
-/
namespace Stagecraft

namespace Quantity

/-! ## The cut between a figure and its suffix -/

theorem isNumeric_of_mem_body {n : Figure} {c : Char} (h : c ∈ n.body) : isNumeric c = true := by
  rw [isNumeric, Text.isSome_digit?]
  rcases Figure.mem_body h with hc | rfl
  · rw [hc, Bool.true_or]
  · rfl

/-- Whether nothing in front of this could belong to it as well: it does not begin like the rest of a number. -/
def Detached (rest : List Char) : Prop := ∀ c ∈ rest.head?, isNumeric c = false

theorem detached_nil : Detached [] := nofun

theorem detached_cons {c : Char} (h : isNumeric c = false) (cs : List Char) : Detached (c :: cs) := by
  intro d hd
  cases hd
  exact h

theorem takeWhile_append_of_detached {ds rest : List Char} (hds : ∀ c ∈ ds, isNumeric c = true) (hrest : Detached rest) :
    (ds ++ rest).takeWhile isNumeric = ds ∧ (ds ++ rest).dropWhile isNumeric = rest := by
  rw [List.takeWhile_append_of_pos hds, List.dropWhile_append_of_pos hds]
  cases rest with
  | nil => exact ⟨List.append_nil ds, rfl⟩
  | cons c rest =>
    have hc := Bool.eq_false_iff.1 (hrest c rfl)
    rw [List.takeWhile_cons_of_neg hc, List.dropWhile_cons_of_neg hc]
    exact ⟨List.append_nil ds, rfl⟩

/-- The scan stops behind a figure, whatever its sign. -/
theorem cut_chars_append (n : Figure) {rest : List Char} (h : Detached rest) : cut (n.chars ++ rest) = (n.chars, rest) := by
  have hbody : ∀ c ∈ n.body, isNumeric c = true := fun c => isNumeric_of_mem_body
  unfold Figure.chars
  cases n.sign with
  | plus | minus =>
    obtain ⟨htake, hdrop⟩ := takeWhile_append_of_detached hbody h
    simp only [Sign.chars, List.cons_append, List.nil_append, cut]
    rw [if_pos (by decide), htake, hdrop]
  | absent =>
    rw [Sign.chars, List.nil_append]
    obtain ⟨c, cs, hcs⟩ := List.exists_cons_of_ne_nil n.body_ne_nil
    rw [hcs] at hbody ⊢
    obtain ⟨htake, hdrop⟩ := takeWhile_append_of_detached (fun d hd => hbody d (List.mem_cons_of_mem c hd)) h
    rw [List.cons_append, cut, hbody c List.mem_cons_self, Bool.or_true, if_pos rfl, htake, hdrop]

theorem cut_append_cut : ∀ cs : List Char, (cut cs).1 ++ (cut cs).2 = cs
  | [] => rfl
  | c :: cs => by
    rw [cut]
    split
    · rw [List.cons_append, List.takeWhile_append_dropWhile]
    · rfl

theorem detached_cut : ∀ cs : List Char, Detached (cut cs).2
  | [] => nofun
  | c :: cs => by
    rw [cut]
    split
    · intro d hd
      have hnot := List.head?_dropWhile_not isNumeric cs
      rw [Option.mem_def.1 hd] at hnot
      exact hnot
    · rename_i hc
      intro d hd
      cases hd
      exact Bool.eq_false_iff.2 fun hnumeric => hc (by rw [hnumeric, Bool.or_true])

/-- A word that is the figure and, directly behind it, the suffix. -/
def Spells (word : String) (n : Figure) (suffix : String) : Prop := word.toList = n.chars ++ suffix.toList

/-- **A word is cut into a figure of a finite number and what stands behind it.** -/
theorem split?_eq_some_iff {word suffix : String} {x : Binary32} : split? word = some (x, suffix) ↔
    ∃ n : Figure, Spells word n suffix ∧ Detached suffix.toList ∧ n.value.isFinite = true ∧ x = n.value := by
  unfold split?
  constructor
  · intro h
    split at h
    · rename_i y hread
      obtain ⟨n, hcut, rfl⟩ := Binary32.read?_eq_some_iff.1 hread
      split at h
      · rename_i hfinite
        cases h
        have hword := cut_append_cut word.toList
        rw [hcut] at hword
        refine ⟨n, ?_, ?_, hfinite, rfl⟩
        · rw [Spells, String.toList_ofList, hword]
        · rw [String.toList_ofList]
          exact detached_cut _
      · cases h
    · cases h
  · rintro ⟨n, hword, hdetached, hfinite, rfl⟩
    rw [show word.toList = _ from hword, cut_chars_append n hdetached, Binary32.read?_chars]
    simp only
    rw [if_pos hfinite, String.ofList_toList]

end Quantity

open Quantity (Spells Detached detached_nil detached_cons split?_eq_some_iff)

/-! ## Numbers without the sign of a zero -/

namespace Binary32

theorem same_plainZero (x : Binary32) : x.plainZero.same x = true := by
  unfold plainZero
  split
  · rename_i h
    rw [same, h, show isZero { x with negative := false } = true from h, Bool.and_true, Bool.or_true]
  · rw [same, beq_self_eq_true, Bool.true_or]

end Binary32

/-- What is written of a finite number, with the suffix behind it, is a word that is cut into just these. -/
theorem Quantity.split?_text {x : Binary32} {suffix : String} (h : x.isFinite = true) (hsuffix : Detached suffix.toList) :
    split? (x.text ++ suffix) = some (x, suffix) := by
  obtain ⟨n, htext, rfl⟩ := Binary32.exists_figure_of_text h
  refine split?_eq_some_iff.2 ⟨n, ?_, hsuffix, h, rfl⟩
  rw [Spells, String.toList_append, htext]

/-! ## Lengths -/

namespace LengthUnit

/-- The suffixes of lengths, each with what it counts; a bare number counts pixels. -/
def suffixes : List (String × LengthUnit) :=
  [("", .px), ("px", .px), ("%", .percent), ("em", .em), ("rem", .rem), ("vw", .vw), ("vh", .vh)]

theorem ofSuffix?_eq_some_iff {s : String} {u : LengthUnit} : ofSuffix? s = some u ↔ (s, u) ∈ suffixes := by
  constructor
  · intro h
    unfold ofSuffix? at h
    split at h <;> cases h
    all_goals decide
  · intro h
    simp only [suffixes, List.mem_cons, List.not_mem_nil, or_false, Prod.mk.injEq] at h
    rcases h with ⟨rfl, rfl⟩ | ⟨rfl, rfl⟩ | ⟨rfl, rfl⟩ | ⟨rfl, rfl⟩ | ⟨rfl, rfl⟩ | ⟨rfl, rfl⟩ | ⟨rfl, rfl⟩ <;> rfl

theorem suffix_mem_suffixes (u : LengthUnit) : (u.suffix, u) ∈ suffixes := by
  cases u <;> decide

theorem detached_of_mem_suffixes {s : String} {u : LengthUnit} (h : (s, u) ∈ suffixes) : Detached s.toList := by
  simp only [suffixes, List.mem_cons, List.not_mem_nil, or_false, Prod.mk.injEq] at h
  rcases h with ⟨rfl, -⟩ | ⟨rfl, -⟩ | ⟨rfl, -⟩ | ⟨rfl, -⟩ | ⟨rfl, -⟩ | ⟨rfl, -⟩ | ⟨rfl, -⟩
  · exact detached_nil
  all_goals exact detached_cons rfl _

end LengthUnit

namespace Length

/-- A word for a length. -/
theorem parse?_eq_some_iff {word : String} {l : Length} : parse? word = some l ↔
    ∃ (n : Figure) (suffix : String), Spells word n suffix ∧ (suffix, l.unit) ∈ LengthUnit.suffixes ∧
      n.value.isFinite = true ∧ l.value = n.value := by
  obtain ⟨value, unit⟩ := l
  unfold parse?
  constructor
  · intro h
    split at h
    · rename_i x suffix hsplit
      obtain ⟨u, hu, rfl, rfl⟩ := Option.map_eq_some_iff.1 h
      obtain ⟨n, hword, -, hfinite, hvalue⟩ := split?_eq_some_iff.1 hsplit
      exact ⟨n, suffix, hword, LengthUnit.ofSuffix?_eq_some_iff.1 hu, hfinite, hvalue⟩
    · cases h
  · rintro ⟨n, suffix, hword, hsuffix, hfinite, rfl⟩
    have hdetached := LengthUnit.detached_of_mem_suffixes hsuffix
    rw [split?_eq_some_iff.2 ⟨n, hword, hdetached, hfinite, rfl⟩]
    simp only
    rw [LengthUnit.ofSuffix?_eq_some_iff.2 hsuffix, Option.map_some]

theorem parse?_css {l : Length} (h : l.value.isFinite = true) : parse? l.css = some ⟨l.value.plainZero, l.unit⟩ := by
  have hsuffix := l.unit.suffix_mem_suffixes
  have hdetached := LengthUnit.detached_of_mem_suffixes hsuffix
  rw [parse?, css, Quantity.split?_text ((Binary32.isFinite_plainZero _).trans h) hdetached]
  simp only
  rw [LengthUnit.ofSuffix?_eq_some_iff.2 hsuffix, Option.map_some]

end Length

/-! ## Times -/

namespace Seconds

theorem divisor?_eq_some_iff {s : String} {d : Nat} :
    divisor? s = some d ↔ (s = "" ∨ s = "s") ∧ d = 1 ∨ s = "ms" ∧ d = 1000 := by
  constructor
  · intro h
    unfold divisor? at h
    split at h <;> cases h
    · exact .inl ⟨.inl rfl, rfl⟩
    · exact .inl ⟨.inr rfl, rfl⟩
    · exact .inr ⟨rfl, rfl⟩
  · rintro (⟨rfl | rfl, rfl⟩ | ⟨rfl, rfl⟩) <;> rfl

/-- A word for a time.  It is the time that must not be negative: a number of milliseconds below zero may be so small that
it is a negative zero in seconds. -/
theorem parse?_eq_some_iff {word : String} {t : Seconds} : parse? word = some t ↔
    ∃ (n : Figure) (suffix : String), Spells word n suffix ∧ n.value.isFinite = true ∧ t.value.isNonneg = true ∧
      ((suffix = "" ∨ suffix = "s") ∧ t.value = n.value ∨ suffix = "ms" ∧ t.value = n.value.scale 1 1000) := by
  obtain ⟨value⟩ := t
  unfold parse?
  constructor
  · intro h
    split at h
    · rename_i x suffix hsplit
      obtain ⟨n, hword, -, hfinite, rfl⟩ := split?_eq_some_iff.1 hsplit
      split at h
      · rename_i d hd
        simp only at h
        split at h
        · rename_i hnonneg
          cases h
          refine ⟨n, suffix, hword, hfinite, hnonneg, ?_⟩
          rcases divisor?_eq_some_iff.1 hd with ⟨hsuffix, rfl⟩ | ⟨hsuffix, rfl⟩
          · exact .inl ⟨hsuffix, Binary32.scale_one_one _⟩
          · exact .inr ⟨hsuffix, rfl⟩
        · cases h
      · cases h
    · cases h
  · rintro ⟨n, suffix, hword, hfinite, hnonneg, hsuffix⟩
    have hdetached : Detached suffix.toList := by
      rcases hsuffix with ⟨rfl | rfl, -⟩ | ⟨rfl, -⟩
      · exact detached_nil
      · exact detached_cons rfl _
      · exact detached_cons rfl _
    obtain ⟨d, hd, hvalue⟩ : ∃ d, divisor? suffix = some d ∧ n.value.scale 1 d = value := by
      rcases hsuffix with ⟨hunit, rfl⟩ | ⟨hunit, rfl⟩
      · exact ⟨1, divisor?_eq_some_iff.2 (.inl ⟨hunit, rfl⟩), Binary32.scale_one_one _⟩
      · exact ⟨1000, divisor?_eq_some_iff.2 (.inr ⟨hunit, rfl⟩), rfl⟩
    rw [split?_eq_some_iff.2 ⟨n, hword, hdetached, hfinite, rfl⟩]
    simp only [hd, hvalue]
    rw [if_pos hnonneg]

theorem parse?_css {t : Seconds} (h : t.value.isFinite = true) (hnonneg : t.value.isNonneg = true) :
    parse? t.css = some t := by
  have hdetached : Detached "s".toList := detached_cons rfl _
  rw [parse?, css, Quantity.split?_text h hdetached]
  simp only [divisor?, Binary32.scale_one_one]
  rw [if_pos hnonneg]

end Seconds

/-! ## Angles -/

namespace Degrees

/-- A word for an angle. -/
theorem parse?_eq_some_iff {word : String} {a : Degrees} : parse? word = some a ↔
    ∃ (n : Figure) (suffix : String), Spells word n suffix ∧ (suffix = "" ∨ suffix = "deg") ∧
      n.value.isFinite = true ∧ a.value = n.value := by
  obtain ⟨value⟩ := a
  unfold parse?
  constructor
  · intro h
    split at h
    · rename_i x suffix hsplit
      obtain ⟨n, hword, -, hfinite, rfl⟩ := split?_eq_some_iff.1 hsplit
      split at h
      · rename_i hsuffix
        cases h
        exact ⟨n, suffix, hword, by simpa using hsuffix, hfinite, rfl⟩
      · cases h
    · cases h
  · rintro ⟨n, suffix, hword, hsuffix, hfinite, rfl⟩
    have hdetached : Detached suffix.toList := by
      rcases hsuffix with rfl | rfl
      · exact detached_nil
      · exact detached_cons rfl _
    rw [split?_eq_some_iff.2 ⟨n, hword, hdetached, hfinite, rfl⟩]
    simp only
    rw [if_pos (by simpa using hsuffix)]

theorem parse?_css {a : Degrees} (h : a.value.isFinite = true) : parse? a.css = some ⟨a.value.plainZero⟩ := by
  have hdetached : Detached "deg".toList := detached_cons rfl _
  rw [parse?, css, Quantity.split?_text ((Binary32.isFinite_plainZero _).trans h) hdetached]
  rfl

end Degrees

/-- **The words for lengths, times and angles are exactly the figures of finite numbers with a suffix of their kind, and
what is written of a finite value is read as the same value.** -/
theorem Quantity.parse?_iff_spells_and_parse?_css :
    (∀ (word : String) (l : Length), Length.parse? word = some l ↔
      ∃ (n : Figure) (suffix : String), Spells word n suffix ∧ (suffix, l.unit) ∈ LengthUnit.suffixes ∧
        n.value.isFinite = true ∧ l.value = n.value) ∧
    (∀ (word : String) (t : Seconds), Seconds.parse? word = some t ↔
      ∃ (n : Figure) (suffix : String), Spells word n suffix ∧ n.value.isFinite = true ∧ t.value.isNonneg = true ∧
        ((suffix = "" ∨ suffix = "s") ∧ t.value = n.value ∨ suffix = "ms" ∧ t.value = n.value.scale 1 1000)) ∧
    (∀ (word : String) (a : Degrees), Degrees.parse? word = some a ↔
      ∃ (n : Figure) (suffix : String), Spells word n suffix ∧ (suffix = "" ∨ suffix = "deg") ∧
        n.value.isFinite = true ∧ a.value = n.value) ∧
    (∀ l : Length, l.value.isFinite = true →
      ∃ l', Length.parse? l.css = some l' ∧ l'.value.same l.value = true ∧ l'.unit = l.unit) ∧
    (∀ t : Seconds, t.value.isFinite = true → t.value.isNonneg = true → Seconds.parse? t.css = some t) ∧
    (∀ a : Degrees, a.value.isFinite = true →
      ∃ a', Degrees.parse? a.css = some a' ∧ a'.value.same a.value = true) := by
  refine ⟨fun _ _ => Length.parse?_eq_some_iff, fun _ _ => Seconds.parse?_eq_some_iff,
    fun _ _ => Degrees.parse?_eq_some_iff, fun l h => ?_, fun t h hnonneg => Seconds.parse?_css h hnonneg, fun a h => ?_⟩
  · exact ⟨_, Length.parse?_css h, Binary32.same_plainZero l.value, rfl⟩
  · exact ⟨_, Degrees.parse?_css h, Binary32.same_plainZero a.value⟩

/-- A word with a sign and a point, and three values written and read back, a negative zero among them. -/
theorem Quantity.spells_em_and_parse?_css_zero :
    (∃ l, Length.parse? "-2.5em" = some l ∧ l.unit = .em) ∧
    (∃ l, Length.parse? (Length.css ⟨⟨true, 0⟩, .vw⟩) = some l ∧ l.value.same ⟨true, 0⟩ = true ∧ l.unit = .vw) ∧
    Seconds.parse? (Seconds.css ⟨⟨false, 0x3F800000⟩⟩) = some ⟨⟨false, 0x3F800000⟩⟩ ∧
    ∃ a, Degrees.parse? (Degrees.css ⟨⟨true, 0x3F800000⟩⟩) = some a ∧ a.value.same ⟨true, 0x3F800000⟩ = true := by
  obtain ⟨length, -, -, lengthBack, secondsBack, degreesBack⟩ := parse?_iff_spells_and_parse?_css
  refine ⟨⟨⟨.ofRatio true 25 10, .em⟩, ?_, rfl⟩, lengthBack _ (by decide), secondsBack _ (by decide) (by decide),
    degreesBack _ (by decide)⟩
  let n : Figure := ⟨.minus, ['2'], some ['5'], List.all_eq_true.1 (by decide), by decide⟩
  exact (length _ _).2 ⟨n, "em", rfl, by decide, by decide +kernel, rfl⟩

end Stagecraft
