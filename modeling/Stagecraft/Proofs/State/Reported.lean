import Mathlib.Data.List.Perm.Subperm
import Stagecraft.Motion.Reader
import Stagecraft.Proofs.State.Inside
/-!
# What diagnostics are about

A diagnostic is about one word of the text.  A clause reports at most the word that opens it, and between colons one more
word inside; and no word belongs to two clauses.  So no word is reported twice, and where clauses report just the words
that open them, these come in the order of the text.
-/
namespace Stagecraft

/-! ## Places of words -/

/-- Where a word stands, and how it is written. -/
def Word.place (w : Word) : Nat × String := (w.offset, w.text)

/-- Where a skipped word stands, and how it is written. -/
def Diagnostic.place (d : Diagnostic) : Nat × String := (d.offset, d.token)

namespace Token

theorem mem_wordsOf {src : String} {w : Word} : w ∈ wordsOf src ↔ .word w ∈ ofText src := by
  rw [wordsOf, List.mem_filterMap]
  constructor
  · rintro ⟨t, ht, hw⟩
    cases t <;> cases hw
    exact ht
  · exact fun h => ⟨_, h, rfl⟩

/-- No two words stand at one place. -/
theorem eq_of_mem_wordsOf {src : String} {v w : Word} (hv : v ∈ wordsOf src) (hw : w ∈ wordsOf src)
    (h : v.offset = w.offset) : v = w := by
  have hwords : (wordsOf src).Pairwise fun v w => v.offset ≠ w.offset := (pairwise_wordsOf src).imp fun h => h.ne
  by_contra hne
  have hsymm : Std.Symm fun v w : Word => v.offset ≠ w.offset := ⟨fun _ _ h => h.symm⟩
  exact hwords.forall hv hw hne h

theorem pairwise_places (src : String) : ((wordsOf src).map Word.place).Pairwise fun p q => p.1 < q.1 :=
  List.pairwise_map.2 (pairwise_wordsOf src)

end Token

namespace Reading

variable {α : Type}

/-! ## Clauses that report the words that open them -/

theorem places_meant (a : α) (w : Word) : ((meant a).skipped.map Diagnostic.place).Sublist [w.place] := List.nil_sublist _

theorem places_skip (w : Word) (fault : Fault) :
    ((skip w fault : Reading α).skipped.map Diagnostic.place).Sublist [w.place] := List.Sublist.refl _

/-- **A run of clauses reports its words in order**, if each clause reports nothing but the word that opens it. -/
theorem places_clausesFrom {read : Word → List Word → Reading α × Nat}
    (hread : ∀ w ws, ((read w ws).1.skipped.map Diagnostic.place).Sublist [w.place]) : ∀ (n : Nat) (ws : List Word),
      ((diagnostics (clausesFrom read n ws)).map Diagnostic.place).Sublist (ws.map Word.place)
  | _, [] => List.nil_sublist _
  | 0, w :: ws => by
    rw [clausesFrom, diagnostics, List.flatMap_cons, List.map_append]
    exact (hread w ws).append (places_clausesFrom hread _ ws)
  | n + 1, w :: ws => by
    rw [clausesFrom]
    exact (places_clausesFrom hread n ws).cons _

end Reading

namespace Motion

theorem places_required {β : Type} (f : String → Option β) (mean : β → MotionClause) (fault : Fault) (w : Word)
    (ws : List Word) : ((required f mean fault w ws).1.skipped.map Diagnostic.place).Sublist [w.place] := by
  unfold required
  split
  · exact Reading.places_meant _ w
  · exact Reading.places_skip w _

theorem places_readClause (w : Word) (ws : List Word) :
    ((readClause w ws).1.skipped.map Diagnostic.place).Sublist [w.place] := by
  unfold readClause
  split
  · exact Reading.places_meant _ w
  iterate 5 exact places_required _ _ _ w ws
  · unfold readMove
    simp only
    split
    · exact Reading.places_skip w _
    · exact Reading.places_meant _ w
  · unfold readScale
    simp only
    split
    · exact Reading.places_meant _ w
    · exact Reading.places_skip w _
  · unfold readTwist
    split
    · exact Reading.places_skip w _
    · split
      · exact Reading.places_meant _ w
      · exact Reading.places_skip w _
  · exact Reading.places_skip w _

theorem body_suffix (ws : List Word) : body ws <:+ ws := by
  cases ws with
  | nil => exact List.suffix_refl _
  | cons w ws =>
    rw [body]
    split
    · exact List.suffix_cons w ws
    · exact List.suffix_refl _

/-- **A motion text reports words in the order of the text.** -/
theorem places_diagnostics (src : String) :
    ((diagnostics src).map Diagnostic.place).Sublist ((Token.wordsOf src).map Word.place) :=
  (Reading.places_clausesFrom places_readClause 0 _).trans ((body_suffix _).sublist.map _)

end Motion

namespace Description

open Token

theorem places_readKeyword (w : Word) (ws : List Word) :
    ((readKeyword w ws).1.skipped.map Diagnostic.place).Sublist [w.place] := by
  unfold readKeyword
  split
  · split
    · exact Reading.places_meant _ w
    · exact Reading.places_skip w _
  · split
    · exact Reading.places_meant _ w
    · exact Reading.places_skip w _
  · split
    · split <;> exact Reading.places_meant _ w
    · exact Reading.places_meant _ w
  · simp only
    split
    · exact Reading.places_meant _ w
    · exact Reading.places_skip w _

/-- **Without colons a description reports words in the order of the text.** -/
theorem places_skipped_of_keywords {src : String} (hcolon : (ofText src).any isColon = false) :
    ((read src).skipped.map Diagnostic.place).Sublist ((wordsOf src).map Word.place) := by
  change ((Reading.diagnostics (readings (ofText src))).map Diagnostic.place).Sublist _
  rw [readings, if_neg (by rw [hcolon]; exact Bool.false_ne_true)]
  exact Reading.places_clausesFrom places_readKeyword 0 _

/-! ## Clauses between colons -/

theorem places_meaning (w : Word) (ws : List Word) : ((meaning w ws).skipped.map Diagnostic.place).Sublist [w.place] := by
  unfold meaning
  split
  · split
    · exact Reading.places_skip w _
    · exact Reading.places_meant _ w
  · exact Reading.places_meant _ w
  · exact Reading.places_meant _ w
  · split
    · exact Reading.places_meant _ w
    · exact Reading.places_skip w _

/-- The word that is reported inside comes first, though it stands behind the one that opens the clause. -/
theorem places_readRun (run : List Word) :
    ((Reading.diagnostics (readRun run)).map Diagnostic.place).Subperm (run.map Word.place) := by
  cases run with
  | nil => exact (List.nil_sublist _).subperm
  | cons w ws =>
    have hinside : (((interior w ws).find? fun v => isKeyword v.text).toList.map Word.place).Sublist (ws.map Word.place) := by
      have hinterior : (interior w ws).Sublist ws := by
        unfold interior
        split
        · exact List.drop_sublist 1 ws
        · exact List.Sublist.refl ws
      refine List.Sublist.map _ (List.Sublist.trans ?_ hinterior)
      cases h : (interior w ws).find? fun v => isKeyword v.text with
      | none => exact List.nil_sublist _
      | some v => exact List.singleton_sublist.2 (List.mem_of_find?_eq_some h)
    rw [readRun, Reading.diagnostics, List.flatMap_singleton, List.map_append, List.map_map]
    exact List.perm_append_comm.subperm.trans ((places_meaning w ws).append hinside).subperm

/-- **A description reports no word twice.** -/
theorem places_skipped (src : String) :
    ((read src).skipped.map Diagnostic.place).Subperm ((wordsOf src).map Word.place) := by
  cases hcolon : (ofText src).any isColon with
  | false => exact (places_skipped_of_keywords hcolon).subperm
  | true =>
    rw [skipped_eq hcolon, ← flatten_runs_ofText]
    generalize runs (ofText src) = rs
    induction rs with
    | nil => exact List.Subperm.refl _
    | cons r rs ih =>
      rw [List.flatMap_cons, List.flatten_cons, List.map_append, List.map_append]
      exact (places_readRun r).append ih

end Description

/-! ## Diagnostics -/

/-- Diagnostics that are about some of the words of a text, about each at most once. -/
theorem about_words_of_subperm {src : String} {ds : List Diagnostic}
    (h : (ds.map Diagnostic.place).Subperm ((Token.wordsOf src).map Word.place)) :
    (∀ d ∈ ds, ∃! w : Word, .word w ∈ Token.ofText src ∧ d.offset = w.offset ∧ d.token = w.text) ∧
    ds.Pairwise fun d e => d.offset ≠ e.offset := by
  constructor
  · intro d hd
    obtain ⟨w, hw, hplace⟩ := List.mem_map.1 (h.subset (List.mem_map_of_mem hd))
    obtain ⟨hoffset, htoken⟩ := Prod.mk.inj hplace.symm
    refine ⟨w, ⟨Token.mem_wordsOf.1 hw, hoffset, htoken⟩, fun v hv => ?_⟩
    exact Token.eq_of_mem_wordsOf (Token.mem_wordsOf.2 hv.1) hw (hv.2.1.symm.trans hoffset)
  · obtain ⟨ps, hperm, hsub⟩ := h
    have hps : ps.Pairwise fun p q => p.1 ≠ q.1 := ((Token.pairwise_places src).sublist hsub).imp fun h => h.ne
    exact (List.pairwise_map (f := Diagnostic.place)).1 ((hperm.pairwise_iff fun h => h.symm).1 hps)

theorem offsets_increase_of_sublist {src : String} {ds : List Diagnostic}
    (h : (ds.map Diagnostic.place).Sublist ((Token.wordsOf src).map Word.place)) :
    ds.Pairwise fun d e => d.offset < e.offset :=
  (List.pairwise_map (f := Diagnostic.place)).1 ((Token.pairwise_places src).sublist h)

/-- **Diagnostics are about words, each about another.**  Whatever a description or a motion text skips is one of its words,
where it stands and in full, and no word is skipped twice.  In a motion text, and in a description without colons, the
words are reported in the order in which they stand. -/
theorem diagnostics_are_about_words (src : String) :
    (∀ ds ∈ [(Description.read src).skipped, Motion.diagnostics src],
      (∀ d ∈ ds, ∃! w : Word, .word w ∈ Token.ofText src ∧ d.offset = w.offset ∧ d.token = w.text) ∧
      ds.Pairwise fun d e => d.offset ≠ e.offset) ∧
    ((Token.ofText src).any Token.isColon = false →
      (Description.read src).skipped.Pairwise fun d e => d.offset < e.offset) ∧
    (Motion.diagnostics src).Pairwise fun d e => d.offset < e.offset := by
  refine ⟨fun ds hds => ?_, fun hcolon => ?_, offsets_increase_of_sublist (Motion.places_diagnostics src)⟩
  · simp only [List.mem_cons, List.not_mem_nil, or_false] at hds
    rcases hds with rfl | rfl
    · exact about_words_of_subperm (Description.places_skipped src)
    · exact about_words_of_subperm (Motion.places_diagnostics src).subperm
  · exact offsets_increase_of_sublist (Description.places_skipped_of_keywords hcolon)

/-- One clause between colons that reports two words, the second of them first; the same words without colons; and a
motion in which parameters have been taken before a clause is skipped. -/
theorem diagnostics_are_about_words_skipped :
    let between := (Description.read ":fade \u00e9t\u00e9 go").skipped
    let plain := (Description.read "fade \u00e9t\u00e9 go").skipped
    let motion := Motion.diagnostics "enter left twist left scale up ease 1s"
    between.map Diagnostic.place = [(12, "go"), (1, "fade")] ∧
    between.Pairwise (fun d e => d.offset ≠ e.offset) ∧
    plain.map Diagnostic.place = [(0, "fade"), (5, "\u00e9t\u00e9"), (11, "go")] ∧
    plain.Pairwise (fun d e => d.offset < e.offset) ∧
    motion.map Diagnostic.place = [(11, "twist"), (22, "scale"), (31, "ease"), (36, "1s")] ∧
    motion.Pairwise fun d e => d.offset < e.offset := by
  refine ⟨by decide +kernel, ?_, by decide +kernel, ?_, by decide +kernel, ?_⟩
  · exact ((diagnostics_are_about_words _).1 _ List.mem_cons_self).2
  · exact (diagnostics_are_about_words _).2.1 (by decide +kernel)
  · exact (diagnostics_are_about_words _).2.2

end Stagecraft
