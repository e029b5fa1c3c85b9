import Mathlib.Data.List.Pairwise
import Stagecraft.Proofs.Grammar.Tiled
/-!
# Keywords inside clauses

Between colons a keyword that does not open its clause is read as part of it, and that may not be what the author meant.
Of the keywords inside one clause the first is reported.  The others are not, for no other diagnostic is about them.
-/
namespace Stagecraft

/-! ## Words and their clauses -/

namespace Token

/-- Every word belongs to a run. -/
theorem flatten_runs {ts : List Token} (h : Cut ts) : (runs ts).flatten = ts.filterMap word? := by
  induction h with
  | stop n => rfl
  | colon n h ih => exact ih
  | @word w ts hw hgap h ih =>
    obtain ⟨r, rs, hruns, hword⟩ := runs_word w ts
    rw [hruns] at ih
    rw [hword, List.flatten_cons, List.cons_append, ← List.flatten_cons, ih]
    rfl

theorem flatten_runs_ofText (src : String) : (runs (ofText src)).flatten = wordsOf src := flatten_runs (.scan _ _)

/-- The words stand one behind another. -/
theorem pairwise_wordsOf (src : String) : (wordsOf src).Pairwise fun v w => v.offset < w.offset := by
  have hlaid : Laid 0 src.toList (ofText src) := laid_iff.2 rfl
  refine hlaid.pairwise_offset.filterMap _ fun s t hlt v hv w hw => ?_
  cases s <;> cases hv
  cases t <;> cases hw
  exact hlt

/-- Words of one place are words of one clause. -/
theorem eq_of_offset {src : String} {r r' : List Word} (hr : r ∈ runs (ofText src)) (hr' : r' ∈ runs (ofText src))
    {v v' : Word} (hv : v ∈ r) (hv' : v' ∈ r') (h : v.offset = v'.offset) : r = r' := by
  have hwords := pairwise_wordsOf src
  rw [← flatten_runs_ofText, List.pairwise_flatten] at hwords
  by_contra hne
  let Apart (x y : List Word) : Prop := ∀ v ∈ x, ∀ w ∈ y, v.offset ≠ w.offset
  have hsymm : Std.Symm Apart := ⟨fun _ _ h v hv w hw => (h w hw v hv).symm⟩
  have hruns : (runs (ofText src)).Pairwise Apart := hwords.2.imp fun h v hv w hw => (h v hv w hw).ne
  exact hruns.forall hr hr' hne v hv v' hv' h

theorem pairwise_of_mem_runs {src : String} {r : List Word} (hr : r ∈ runs (ofText src)) :
    r.Pairwise fun v w => v.offset < w.offset := by
  have hwords := pairwise_wordsOf src
  rw [← flatten_runs_ofText, List.pairwise_flatten] at hwords
  exact hwords.1 r hr

end Token

namespace Description

open Token

/-! ## What is skipped in a clause -/

/-- A clause that cannot be used is skipped at the word that opens it. -/
theorem skipped_meaning {w : Word} {ws : List Word} {d : Diagnostic} (h : d ∈ (meaning w ws).skipped) :
    ∃ fault, d = .skipping w fault := by
  unfold meaning at h
  split at h
  · split at h
    · exact ⟨_, List.mem_singleton.1 h⟩
    · cases h
  · cases h
  · cases h
  · split at h
    · cases h
    · exact ⟨_, List.mem_singleton.1 h⟩

/-- What is reported of a clause is its first word, or the first keyword inside. -/
theorem exists_of_mem_diagnostics {run : List Word} {d : Diagnostic} (h : d ∈ Reading.diagnostics (readRun run)) :
    ∃ w ws v fault, run = w :: ws ∧ d = .skipping v fault ∧
      (v = w ∨ v ∈ (interior w ws).find? fun v => isKeyword v.text) := by
  cases run with
  | nil => cases h
  | cons w ws =>
    rw [readRun, Reading.diagnostics, List.flatMap_singleton, List.mem_append, List.mem_map] at h
    rcases h with ⟨v, hv, rfl⟩ | h
    · exact ⟨w, ws, v, _, rfl, rfl, .inr (Option.mem_toList.1 hv)⟩
    · obtain ⟨fault, rfl⟩ := skipped_meaning h
      exact ⟨w, ws, w, fault, rfl, rfl, .inl rfl⟩

theorem mem_diagnostics_of_find? {w v : Word} {ws : List Word} (h : (interior w ws).find? (fun v => isKeyword v.text) = some v) :
    .skipping v .keywordInside ∈ Reading.diagnostics (readRun (w :: ws)) := by
  rw [readRun, Reading.diagnostics, List.flatMap_singleton, h]
  exact List.mem_append_left _ List.mem_cons_self

/-- Between colons each clause reports for itself. -/
theorem skipped_eq {src : String} (hcolon : (ofText src).any isColon = true) :
    (read src).skipped = (runs (ofText src)).flatMap fun run => Reading.diagnostics (readRun run) := by
  change Reading.diagnostics (readings (ofText src)) = _
  rw [readings, if_pos hcolon, Reading.diagnostics, List.flatMap_assoc]
  rfl

theorem interior_append {w v : Word} {front back : List Word} (hname : w.text = "on" → front ≠ []) :
    interior w (front ++ v :: back) = interior w front ++ v :: back := by
  unfold interior
  split
  · rename_i hon
    obtain ⟨u, front, rfl⟩ := List.exists_cons_of_ne_nil (hname hon)
    rfl
  · rfl

theorem interior_subset (w : Word) (ws : List Word) : interior w ws ⊆ ws := by
  unfold interior
  split
  · exact List.drop_subset 1 ws
  · exact List.Subset.refl ws

/-- **Of the keywords inside a clause just the first is reported.**  Every word belongs to a clause.  If it is a keyword
that neither opens its clause nor names an event behind `on`, then a diagnostic is about it exactly if no other such
keyword stands before it in its clause. -/
theorem first_keyword_inside_is_reported {src : String} (hcolon : (ofText src).any isColon = true) :
    (runs (ofText src)).flatten = wordsOf src ∧
    ∀ w front v back, w :: (front ++ v :: back) ∈ runs (ofText src) → isKeyword v.text = true →
      (w.text = "on" → front ≠ []) →
        ((∃ d ∈ (read src).skipped, d.offset = v.offset ∧ d.token = v.text) ↔
          ∀ u ∈ interior w front, isKeyword u.text = false) := by
  refine ⟨flatten_runs_ofText src, fun w front v back hrun hv hname => ?_⟩
  rw [skipped_eq hcolon]
  constructor
  · rintro ⟨d, hd, hoffset, -⟩ u hu
    by_contra hkeyword
    rw [Bool.not_eq_false] at hkeyword
    obtain ⟨run', hrun', hd⟩ := List.mem_flatMap.1 hd
    obtain ⟨w', ws', v', fault, rfl, rfl, hv'⟩ := exists_of_mem_diagnostics hd
    have hmem : v' ∈ w' :: ws' := by
      rcases hv' with rfl | hv'
      · exact List.mem_cons_self
      · exact List.mem_cons_of_mem _ (interior_subset _ _ (List.mem_of_find?_eq_some hv'))
    -- the word that is reported stands in the same clause, but before `v`
    have hsame := eq_of_offset hrun hrun' (List.mem_cons_of_mem _ (List.mem_append_right _ List.mem_cons_self)) hmem
      hoffset.symm
    obtain ⟨rfl, rfl⟩ := List.cons.inj hsame
    obtain ⟨hfirst, hrest⟩ := List.pairwise_cons.1 (pairwise_of_mem_runs hrun)
    have hbefore : v'.offset < v.offset := by
      rcases hv' with rfl | hv'
      · exact hfirst v (List.mem_append_right _ List.mem_cons_self)
      · rw [interior_append hname, List.find?_append,
          Option.or_of_isSome (List.find?_isSome.2 ⟨u, hu, hkeyword⟩)] at hv'
        exact (List.pairwise_append.1 hrest).2.2 v' (interior_subset _ _ (List.mem_of_find?_eq_some hv')) v
          List.mem_cons_self
    exact hbefore.ne hoffset
  · intro hnone
    refine ⟨_, List.mem_flatMap.2 ⟨_, hrun, mem_diagnostics_of_find? ?_⟩, rfl, rfl⟩
    rw [interior_append hname, List.find?_append, List.find?_eq_none.2 fun u hu => by simp [hnone u hu],
      Option.none_or]
    exact List.find?_cons_of_pos hv

/-- In the only clause `go` is reported, and `loop` behind it is not. -/
theorem first_keyword_inside_is_reported_twice :
    let src := ":animate wave go out loop it"
    (∃ d ∈ (read src).skipped, d.offset = 14 ∧ d.token = "go") ∧
    ¬ ∃ d ∈ (read src).skipped, d.offset = 21 ∧ d.token = "loop" := by
  intro src
  have hcolon : (ofText src).any isColon = true := by decide
  let word (gap text : String) (offset : Nat) : Word := ⟨gap.toList, text.toList, offset⟩
  have hgo := (first_keyword_inside_is_reported hcolon).2 (word "" "animate" 1) [word " " "wave" 9] (word " " "go" 14)
    [word " " "out" 17, word " " "loop" 21, word " " "it" 26] (by decide) (by decide) (by decide)
  have hloop := (first_keyword_inside_is_reported hcolon).2 (word "" "animate" 1)
    [word " " "wave" 9, word " " "go" 14, word " " "out" 17] (word " " "loop" 21) [word " " "it" 26] (by decide)
    (by decide) (by decide)
  refine ⟨hgo.2 (by decide), fun h => absurd (hloop.1 h (word " " "go" 14) (by decide)) (by decide)⟩

end Description
end Stagecraft
