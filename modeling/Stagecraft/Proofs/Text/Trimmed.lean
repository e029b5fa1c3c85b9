import Stagecraft.Proofs.Grammar.Scanned
/-!
# Trimming and the words of a text

Trimming takes away blanks at either end and nothing else, so what it leaves can be told from any character that is not
blank: what stands before it is trimmed at its start, and what stands behind it at its end.
-/
namespace Stagecraft
namespace Text

variable {b u : List Char}

/-- Not empty, and without a blank. -/
def Single (w : List Char) : Prop := w ≠ [] ∧ ∀ c ∈ w, isBlank c = false

instance (w : List Char) : Decidable (Single w) :=
  decidable_of_iff (w ≠ [] ∧ (w.all fun c => !isBlank c) = true) (by simp [Single])

theorem Single.newline_not_mem {w : List Char} (hw : Single w) : '\n' ∉ w := fun hmem => nomatch hw.2 _ hmem

theorem isBlank_of_isDigit {c : Char} (h : c.isDigit = true) : isBlank c = false := by
  have hbounds : 48 ≤ c.toNat ∧ c.toNat ≤ 57 := by
    simpa [Char.isDigit, UInt32.le_iff_toNat_le] using h
  rw [isBlank, inRanges, List.any_eq_false]
  intro r hr
  simp only [blankRanges, List.mem_cons, List.not_mem_nil, or_false] at hr
  simp only [Bool.and_eq_true, decide_eq_true_eq]
  rcases hr with rfl | rfl | rfl | rfl | rfl | rfl | rfl | rfl | rfl | rfl <;> omega

/-! ## Blanks at the ends -/

theorem blanks_singleton {c : Char} (hc : isBlank c = true) : Blanks [c] := by
  intro d hd
  rwa [List.mem_singleton.1 hd]

theorem trimStart_blanks_append (hb : Blanks b) (cs : List Char) : trimStart (b ++ cs) = trimStart cs :=
  List.dropWhile_append_of_pos hb

theorem Blanks.trimStart (hb : Blanks b) : trimStart b = [] := by
  have h := trimStart_blanks_append hb []
  rwa [List.append_nil] at h

theorem trimEnd_append_blanks (hb : Blanks b) (cs : List Char) : trimEnd (cs ++ b) = trimEnd cs := by
  rw [trimEnd, List.reverse_append, List.dropWhile_append_of_pos fun c hc => hb c (List.mem_reverse.1 hc), trimEnd]

theorem trim_blanks_append (hb : Blanks b) (cs : List Char) : trim (b ++ cs) = trim cs := by
  rw [trim, trimStart_blanks_append hb, trim]

theorem trim_append_blanks (hb : Blanks b) (cs : List Char) : trim (cs ++ b) = trim cs := by
  have hstart : trimEnd (trimStart (cs ++ b)) = trimEnd (trimStart cs) := by
    rw [trimStart, trimStart, List.dropWhile_append]
    split
    · rename_i hnil
      rw [List.isEmpty_iff.1 hnil, show b.dropWhile isBlank = [] from hb.trimStart]
    · exact trimEnd_append_blanks hb _
  exact hstart

theorem Blanks.trim (hb : Blanks b) : trim b = [] := by
  have h := trim_blanks_append hb []
  rwa [List.append_nil] at h

/-- What trimming at the start takes away. -/
theorem exists_trimStart (cs : List Char) : ∃ b, Blanks b ∧ cs = b ++ trimStart cs :=
  ⟨cs.takeWhile isBlank, List.all_eq_true.1 List.all_takeWhile, List.takeWhile_append_dropWhile.symm⟩

/-- What trimming at the end takes away. -/
theorem exists_trimEnd (cs : List Char) : ∃ b, Blanks b ∧ cs = trimEnd cs ++ b := by
  have hblank : Blanks (cs.reverse.takeWhile isBlank) := List.all_eq_true.1 List.all_takeWhile
  refine ⟨(cs.reverse.takeWhile isBlank).reverse, fun c hc => hblank c (List.mem_reverse.1 hc), ?_⟩
  rw [trimEnd, ← List.reverse_append, List.takeWhile_append_dropWhile, List.reverse_reverse]

theorem trim_trimStart (cs : List Char) : trim (trimStart cs) = trim cs := by
  obtain ⟨b, hb, hcs⟩ := exists_trimStart cs
  have h := trim_blanks_append hb (trimStart cs)
  rwa [← hcs, eq_comm] at h

theorem trim_trimEnd (cs : List Char) : trim (trimEnd cs) = trim cs := by
  obtain ⟨b, hb, hcs⟩ := exists_trimEnd cs
  have h := trim_append_blanks hb (trimEnd cs)
  rwa [← hcs, eq_comm] at h

theorem trim_eq_of_trimmed {s : String} (h : trimmed s = s) : trim s.toList = s.toList := by
  have hlist := congrArg String.toList h
  rwa [trimmed, String.toList_ofList] at hlist

/-! ## Characters that are not blank -/

theorem trimEnd_cons {s : Char} (hs : isBlank s = false) (cs : List Char) : trimEnd (s :: cs) = s :: trimEnd cs := by
  rw [trimEnd, List.reverse_cons, List.dropWhile_append]
  split
  · rename_i hnil
    rw [List.dropWhile_cons_of_neg (by rw [hs]; exact Bool.false_ne_true), trimEnd, List.isEmpty_iff.1 hnil]
    rfl
  · rw [List.reverse_append, trimEnd]
    rfl

/-- What stands behind characters that are not blank is trimmed at its end. -/
theorem trimEnd_append (hu : ∀ c ∈ u, isBlank c = false) (cs : List Char) : trimEnd (u ++ cs) = u ++ trimEnd cs := by
  induction u with
  | nil => rfl
  | cons c u ih =>
    rw [List.cons_append, trimEnd_cons (hu c List.mem_cons_self), ih fun d hd => hu d (List.mem_cons_of_mem c hd),
      List.cons_append]

theorem trimStart_append_cons {s : Char} (hs : isBlank s = false) (xs ys : List Char) :
    trimStart (xs ++ s :: ys) = trimStart xs ++ s :: ys := by
  rw [trimStart, trimStart, List.dropWhile_append]
  split
  · rename_i hnil
    rw [List.isEmpty_iff.1 hnil, List.dropWhile_cons_of_neg (by rw [hs]; exact Bool.false_ne_true), List.nil_append]
  · rfl

theorem trimEnd_append_cons {s : Char} (hs : isBlank s = false) (ys : List Char) :
    ∀ xs : List Char, trimEnd (xs ++ s :: ys) = xs ++ s :: trimEnd ys
  | [] => trimEnd_cons hs ys
  | x :: xs => by
    have ih := trimEnd_append_cons hs ys xs
    rw [trimEnd, List.reverse_eq_iff] at ih
    rw [trimEnd, List.cons_append, List.reverse_cons, List.dropWhile_append, ih]
    simp

/-- **Trimming on both sides of a character that is not blank.** -/
theorem trim_append_cons {s : Char} (hs : isBlank s = false) (xs ys : List Char) :
    trim (xs ++ s :: ys) = trimStart xs ++ s :: trimEnd ys := by
  rw [trim, trimStart_append_cons hs, trimEnd_append_cons hs]

/-! ## The first word -/

theorem Single.trim {w : List Char} (hw : Single w) : trim w = w := by
  obtain ⟨c, cs, rfl⟩ := List.exists_cons_of_ne_nil hw.1
  have hend := trimEnd_append hw.2 []
  rw [List.append_nil] at hend
  have hstart := trimStart_append_cons (hw.2 c List.mem_cons_self) [] cs
  rw [Text.trim, show trimStart (c :: cs) = c :: cs from hstart, hend]
  exact List.append_nil _

/-- A first word stays whole. -/
theorem trim_blanks_single_append {w : List Char} (hb : Blanks b) (hw : Single w) (tail : List Char) :
    trim (b ++ w ++ tail) = w ++ trimEnd tail := by
  rw [List.append_assoc, trim_blanks_append hb, ← trimEnd_append hw.2, trim]
  obtain ⟨c, cs, rfl⟩ := List.exists_cons_of_ne_nil hw.1
  have hstart := trimStart_append_cons (hw.2 c List.mem_cons_self) [] (cs ++ tail)
  exact congrArg trimEnd hstart

theorem blanks_of_trim {cs : List Char} (h : trim cs = []) : Blanks cs := by
  intro c hc
  by_contra hblank
  obtain ⟨d, hd, -⟩ := exists_of_trim ⟨c, hc, Bool.eq_false_iff.2 hblank⟩
  rw [h] at hd
  cases hd

/-- Where no word goes on. -/
def Parted (cs : List Char) : Prop := ∀ c ∈ cs.head?, isBlank c = true

theorem cutAt?_append_cons {p : Char → Bool} {s : Char} (hs : p s = true) (rest : List Char) :
    ∀ {xs : List Char}, (∀ c ∈ xs, p c = false) → cutAt? p (xs ++ s :: rest) = some (xs, rest)
  | [], _ => by rw [List.nil_append, cutAt?, if_pos hs]
  | x :: xs, h => by
    have hx := h x List.mem_cons_self
    rw [List.cons_append, cutAt?, if_neg (by rw [hx]; exact Bool.false_ne_true),
      cutAt?_append_cons hs rest fun c hc => h c (List.mem_cons_of_mem x hc)]
    rfl

/-- A trimmed text is cut behind its first word, if another follows; and what follows is as it was, but for blanks. -/
theorem cutAt?_trim {w tail : List Char} (hb : Blanks b) (hw : Single w) (htail : Parted tail) (hne : trim tail ≠ []) :
    ∃ rest, cutAt? isBlank (trim (b ++ w ++ tail)) = some (w, rest) ∧ trim rest = trim tail := by
  have htrim := trim_trimEnd tail
  have hprefix := trimEnd_prefix tail
  cases hend : trimEnd tail with
  | nil =>
    rw [hend] at htrim
    exact absurd htrim.symm hne
  | cons c rest =>
    rw [hend] at htrim hprefix
    obtain ⟨more, hmore⟩ := hprefix
    have hc : isBlank c = true := htail c (by rw [← hmore]; rfl)
    rw [trim_blanks_single_append hb hw, hend, cutAt?_append_cons hc rest hw.2]
    refine ⟨rest, rfl, ?_⟩
    rw [← htrim]
    exact (trim_blanks_append (blanks_singleton hc) rest).symm

/-! ## The words of a text -/

theorem Blanks.words (hb : Blanks b) : words b = [] := by
  have h := words_blanks_append hb []
  rwa [List.append_nil] at h

theorem words_append_blanks (hb : Blanks b) : ∀ cs : List Char, words (cs ++ b) = words cs
  | [] => hb.words
  | [c] => by
    cases b with
    | nil => rw [List.append_nil]
    | cons d b => simp only [List.cons_append, List.nil_append, words, hb.words, hb d List.mem_cons_self, if_true]
  | c :: d :: cs => by
    have ih := words_append_blanks hb (d :: cs)
    rw [List.cons_append] at ih
    rw [List.cons_append, List.cons_append, words, words, ih]

theorem words_trim (cs : List Char) : words (trim cs) = words cs := by
  obtain ⟨b, hb, hstart⟩ := exists_trimStart cs
  obtain ⟨b', hb', hend⟩ := exists_trimEnd (trimStart cs)
  have hfront := words_blanks_append hb (trimStart cs)
  have hback := words_append_blanks hb' (trimEnd (trimStart cs))
  rw [← hstart] at hfront
  rw [← hend] at hback
  rw [hfront, hback, trim]

end Text
end Stagecraft
