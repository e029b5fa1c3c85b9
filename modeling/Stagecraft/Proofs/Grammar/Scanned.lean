import Stagecraft.Proofs.State.Entry
/-!
# Texts scanned in place

A text without colons that begins and ends with a word is cut into the same words wherever it stands, as long as blanks
or a colon set it off from what follows.  So the words of a composed text are known part by part.
-/
namespace Stagecraft

namespace Text

/-! ## Texts without blanks at either end -/

/-- Trimmed already, and without a colon. -/
def Clean (s : String) : Prop := trimmed s = s ∧ ':' ∉ s.toList

/-- Whether a word that stands in front ends here. -/
def Breaks (rest : List Char) : Prop := ∀ c ∈ rest.head?, isBlank c = true ∨ c = ':'

/-- Only blanks. -/
def Blanks (cs : List Char) : Prop := ∀ c ∈ cs, isBlank c = true

theorem Blanks.nil : Blanks [] := fun _ hc => by cases hc

theorem Blanks.append {a b : List Char} (ha : Blanks a) (hb : Blanks b) : Blanks (a ++ b) := fun c hc =>
  (List.mem_append.1 hc).elim (ha c) (hb c)

theorem Blanks.breaks {b : List Char} (hb : Blanks b) (hne : b ≠ []) (rest : List Char) : Breaks (b ++ rest) := by
  obtain ⟨c, b, rfl⟩ := List.exists_cons_of_ne_nil hne
  intro d hd
  obtain rfl : c = d := by simpa using hd
  exact .inl (hb c List.mem_cons_self)

/-- A run of characters that begins and ends with a word, without colons. -/
structure Solid (u : List Char) : Prop where
  ne_nil : u ≠ []
  first : ∀ c ∈ u.head?, isBlank c = false
  last : ∀ c ∈ u.getLast?, isBlank c = false
  colon : ':' ∉ u

theorem solid_of {u : List Char} (hfirst : u.head?.any (fun c => !isBlank c) = true)
    (hlast : u.getLast?.all (fun c => !isBlank c) = true) (hcolon : ':' ∉ u) : Solid u := by
  refine ⟨?_, fun c hc => ?_, fun c hc => ?_, hcolon⟩
  · rintro rfl
    cases hfirst
  · rw [Option.mem_def.1 hc] at hfirst
    simpa using hfirst
  · rw [Option.mem_def.1 hc] at hlast
    simpa using hlast

theorem trimEnd_prefix (cs : List Char) : trimEnd cs <+: cs := by
  rw [← List.reverse_suffix, trimEnd, List.reverse_reverse]
  exact List.dropWhile_suffix _

theorem isBlank_head_dropWhile (cs : List Char) : ∀ c ∈ (cs.dropWhile isBlank).head?, isBlank c = false := by
  intro c hc
  have h := List.head?_dropWhile_not isBlank cs
  rw [Option.mem_def.1 hc] at h
  simpa using h

theorem dropWhile_of_head {cs : List Char} (h : ∀ c ∈ cs.head?, isBlank c = false) : cs.dropWhile isBlank = cs := by
  cases cs with
  | nil => rfl
  | cons c cs => rw [List.dropWhile_cons_of_neg (by rw [h c rfl]; exact Bool.false_ne_true)]

/-- A text that trimming leaves alone has no blank at either end. -/
theorem Clean.solid {s : String} (h : Clean s) (hne : s ≠ "") : Solid s.toList := by
  have htrim : trim s.toList = s.toList := by
    rw [← String.toList_ofList (l := trim s.toList)]
    exact congrArg String.toList h.1
  have hstart : trimStart s.toList = s.toList := by
    have hprefix := trimEnd_prefix (trimStart s.toList)
    rw [show trimEnd (trimStart s.toList) = s.toList from htrim] at hprefix
    exact (List.dropWhile_suffix isBlank).eq_of_length_le hprefix.length_le
  refine ⟨fun hnil => hne (String.toList_eq_nil_iff.1 hnil), fun c hc => ?_, fun c hc => ?_, h.2⟩
  · rw [← hstart] at hc
    exact isBlank_head_dropWhile _ c hc
  · rw [← htrim, trim, trimEnd, List.getLast?_reverse] at hc
    exact isBlank_head_dropWhile _ c hc

theorem Clean.filled {s : String} (h : Clean s) (hne : s ≠ "") : filled s = some s := by
  rw [Text.filled, h.1, if_neg (by simpa using hne)]

theorem words_blanks_append {b : List Char} (hb : Blanks b) : ∀ u, words (b ++ u) = words u := by
  induction b with
  | nil => exact fun _ => rfl
  | cons c b ih =>
    intro u
    have hc := hb c List.mem_cons_self
    rw [← ih (fun d hd => hb d (List.mem_cons_of_mem _ hd)) u, List.cons_append]
    cases b ++ u with
    | nil => simp only [words, hc, if_true]
    | cons d v => rw [words, if_pos hc]

end Text

/-! ## The tokens of a text in place -/

namespace Token

open Text

/-- What breaks off a word does not begin with a word that could join it. -/
theorem gap_ne_nil_of_breaks {rest : List Char} (h : Breaks rest) {offset : Nat} {w : Word} {ts : List Token}
    (heq : scan offset rest = .word w :: ts) : w.gap ≠ [] := by
  cases rest with
  | nil => cases heq
  | cons c cs =>
    rw [scan] at heq
    unfold push at heq
    by_cases hc : c = ':'
    · rw [if_pos hc] at heq
      cases heq
    · have hblank := (h c rfl).resolve_right hc
      rw [if_neg hc, if_pos hblank] at heq
      split at heq
      · cases heq
        exact List.cons_ne_nil _ _
      · rename_i hnone
        exact absurd heq (hnone w ts)

theorem scan_colon (offset : Nat) (cs : List Char) :
    scan offset (':' :: cs) = .colon offset :: scan (offset + ':'.utf8Size) cs := by
  rw [scan]
  unfold push
  rw [if_pos rfl]

theorem push_blank {c : Char} (hc : isBlank c = true) (n : Nat) (t : Token) (ts : List Token) :
    push c n (t :: ts) = (match t with | .word w => .word { w with gap := c :: w.gap } | t => t) :: ts := by
  have hcolon : c ≠ ':' := by
    rintro rfl
    exact absurd hc (by decide)
  unfold push
  rw [if_neg hcolon, if_pos hc]
  cases t <;> rfl

/-- Blanks in front of the end leave no token. -/
theorem scan_end {b : List Char} (hb : Blanks b) : ∀ n, scan n b = [.stop (n + bytes b)] := by
  induction b with
  | nil => exact fun n => rfl
  | cons c b ih =>
    intro n
    rw [scan, ih (fun d hd => hb d (List.mem_cons_of_mem _ hd)), push_blank (hb c List.mem_cons_self), bytes,
      Nat.add_assoc]

/-- Blanks in front of a colon leave no token. -/
theorem scan_colon_behind {b : List Char} (hb : Blanks b) (rest : List Char) :
    ∀ n, scan n (b ++ ':' :: rest) = .colon (n + bytes b) :: scan (n + bytes b + 1) rest := by
  induction b with
  | nil => exact fun n => scan_colon n rest
  | cons c b ih =>
    intro n
    rw [List.cons_append, scan, ih (fun d hd => hb d (List.mem_cons_of_mem _ hd)), push_blank (hb c List.mem_cons_self),
      bytes, ← Nat.add_assoc]

/-- **A text that ends with a word is scanned by itself**, if something breaks off its last word. -/
theorem scan_append {rest : List Char} (hrest : Breaks rest) : ∀ {t : List Char}, t ≠ [] → ':' ∉ t →
    (∀ c ∈ t.getLast?, isBlank c = false) → ∀ offset, ∃ w ws offset',
      scan offset (t ++ rest) = .word w :: (ws.map .word ++ scan offset' rest) ∧
      w.gap ++ w.chars ++ ws.flatMap (fun v => v.gap ++ v.chars) = t ∧ (w :: ws).map Word.chars = words t ∧
      (w.gap = [] ↔ ∀ c ∈ t.head?, isBlank c = false)
  | [], hne, _, _, _ => absurd rfl hne
  | [c], _, hcolon, hlast, offset => by
    have hc : c ≠ ':' := fun h => hcolon (h ▸ List.mem_cons_self)
    have hblank : isBlank c = false := hlast c rfl
    refine ⟨⟨[], [c], offset⟩, [], offset + c.utf8Size, ?_, rfl, by simp [words, hblank], by simp [hblank]⟩
    rw [List.singleton_append, scan]
    unfold push
    rw [if_neg hc, if_neg (by simp [hblank]), List.map_nil, List.nil_append]
    split
    · rename_i cs start ts heq
      exact absurd rfl (gap_ne_nil_of_breaks hrest heq)
    · rfl
  | c :: d :: t, _, hcolon, hlast, offset => by
    obtain ⟨w, ws, offset', hscan, hchars, hwords, hgap⟩ := scan_append hrest (t := d :: t) (List.cons_ne_nil _ _)
      (fun h => hcolon (List.mem_cons_of_mem _ h)) (by rwa [List.getLast?_cons_cons] at hlast) (offset + c.utf8Size)
    have hc : c ≠ ':' := fun h => hcolon (h ▸ List.mem_cons_self)
    rw [List.cons_append, scan, hscan]
    unfold push
    rw [if_neg hc]
    by_cases hblank : isBlank c = true
    · -- the blank joins the gap of the first word
      refine ⟨{ w with gap := c :: w.gap }, ws, offset', by rw [if_pos hblank], ?_, ?_, by simp [hblank]⟩
      · simp only [List.cons_append, ← hchars]
      · rw [words, if_pos hblank, ← hwords]
        rfl
    · rw [if_neg hblank]
      have hblank : isBlank c = false := by simpa using hblank
      by_cases hd : isBlank d = true
      · -- a word of one character stands before a gap
        have hne : w.gap ≠ [] := by simp [hgap, hd]
        refine ⟨⟨[], [c], offset⟩, w :: ws, offset', ?_, ?_, ?_, by simp [hblank]⟩
        · split
          · rename_i cs start ts heq
            cases heq
            exact absurd rfl hne
          · rfl
        · simp only [List.flatMap_cons, List.nil_append, List.cons_append, ← hchars]
        · rw [words, hblank, hd, if_neg Bool.false_ne_true, if_pos rfl, ← hwords]
          rfl
      · -- the character joins the first word
        have hd : isBlank d = false := by simpa using hd
        obtain ⟨gap, chars, start⟩ := w
        obtain rfl : gap = [] := hgap.2 (by simp [hd])
        refine ⟨⟨[], c :: chars, offset⟩, ws, offset', rfl, ?_, ?_, by simp [hblank]⟩
        · simp only [List.nil_append, List.cons_append] at hchars ⊢
          rw [hchars]
        · rw [words, hblank, hd, if_neg Bool.false_ne_true, if_neg Bool.false_ne_true, ← hwords]
          rfl

/-- The words are those of the text, written back as it stands. -/
def Spell (ws : List Word) (s : String) : Prop := Word.span ws = s ∧ ws.map Word.text = Text.wordsOf s

/-- **A text behind blanks is cut into its own words.** -/
theorem scan_spaced {b rest : List Char} {s : String} (hb : Blanks b) (hs : Solid s.toList) (hrest : Breaks rest)
    (offset : Nat) : ∃ w ws offset', scan offset (b ++ (s.toList ++ rest)) = .word w :: (ws.map .word ++ scan offset' rest) ∧
      Spell (w :: ws) s := by
  obtain ⟨w, ws, offset', hscan, hchars, hwords, -⟩ := scan_append hrest (t := b ++ s.toList)
    (fun h => hs.ne_nil (List.append_eq_nil_iff.1 h).2)
    (fun h => (List.mem_append.1 h).elim (fun h => absurd (hb _ h) (by decide)) hs.colon)
    (by rw [List.getLast?_append_of_ne_nil _ hs.ne_nil]; exact hs.last) offset
  refine ⟨w, ws, offset', by rw [← List.append_assoc, hscan], ?_, ?_⟩
  · -- the gap of the first word is what stands before the text
    have hcut : Cut (scan offset (b ++ s.toList ++ rest)) := .scan _ _
    rw [hscan] at hcut
    have hfirst : [w].map Token.word <+: .word w :: (ws.map .word ++ scan offset' rest) := ⟨_, rfl⟩
    have hw := (hcut.words hfirst).1 w List.mem_cons_self
    obtain ⟨c, cs, hcs⟩ := List.exists_cons_of_ne_nil hw.ne_nil
    have hspan := congrArg (List.dropWhile isBlank) hchars
    rw [List.append_assoc, List.dropWhile_append_of_pos hw.gap, List.dropWhile_append_of_pos hb,
      dropWhile_of_head hs.first, hcs, List.cons_append,
      List.dropWhile_cons_of_neg (by rw [hw.chars c (hcs ▸ List.mem_cons_self)]; exact Bool.false_ne_true)] at hspan
    rw [Word.span, hcs, List.cons_append, hspan, String.ofList_toList]
  · rw [Text.wordsOf, ← words_blanks_append hb, ← hwords, List.map_map]
    rfl

end Token
end Stagecraft
