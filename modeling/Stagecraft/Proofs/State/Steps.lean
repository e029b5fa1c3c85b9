import Stagecraft.State.Reaction
/-!
# The steps of a sequence

A step is a word, so a sequence that has steps has something to run, and each of its steps describes an effect that can
be played.
-/
namespace Stagecraft

namespace Text

theorem words_ne_nil : ∀ {cs : List Char}, (∃ c ∈ cs, isBlank c = false) → words cs ≠ []
  | [], ⟨_, hc, _⟩ => by cases hc
  | [c], ⟨d, hd, hblank⟩ => by
    rw [List.mem_singleton.1 hd] at hblank
    rw [words, hblank]
    exact List.cons_ne_nil _ _
  | c :: d :: cs, ⟨e, he, hblank⟩ => by
    rw [words]
    by_cases hc : isBlank c = true
    · rw [if_pos hc]
      rcases List.mem_cons.1 he with rfl | he
      · rw [hc] at hblank
        cases hblank
      · exact words_ne_nil ⟨e, he, hblank⟩
    · rw [if_neg hc]
      split
      · exact List.cons_ne_nil _ _
      · split <;> exact List.cons_ne_nil _ _

/-- What stands before a blank is one word if it has no blank itself. -/
theorem words_append_blank {b : Char} (hb : isBlank b = true) : ∀ {u : List Char} (v : List Char), u ≠ [] →
    (∀ c ∈ u, isBlank c = false) → words (u ++ b :: v) = u :: words v
  | [], _, hne, _ => absurd rfl hne
  | [c], v, _, hu => by
    have hc := hu c List.mem_cons_self
    have hv : words (b :: v) = words v := by
      cases v with
      | nil => simp only [words, hb, if_true]
      | cons d v => rw [words, if_pos hb]
    rw [List.cons_append, List.nil_append, words, hc, if_neg Bool.false_ne_true, if_pos hb, hv]
  | c :: d :: u, v, _, hu => by
    have hc := hu c List.mem_cons_self
    have hd := hu d (List.mem_cons_of_mem _ List.mem_cons_self)
    have ih := words_append_blank hb (u := d :: u) v (List.cons_ne_nil _ _) fun x hx => hu x (List.mem_cons_of_mem _ hx)
    rw [List.cons_append] at ih
    rw [List.cons_append, List.cons_append, words, hc, hd, if_neg Bool.false_ne_true, if_neg Bool.false_ne_true, ih]

theorem exists_of_words_ne_nil : ∀ {cs : List Char}, words cs ≠ [] → ∃ c ∈ cs, isBlank c = false
  | [], h => absurd rfl h
  | [c], h => by
    by_cases hc : isBlank c = true
    · rw [words, if_pos hc] at h
      exact absurd rfl h
    · exact ⟨c, List.mem_cons_self, by simpa using hc⟩
  | c :: d :: cs, h => by
    by_cases hc : isBlank c = true
    · rw [words, if_pos hc] at h
      obtain ⟨e, he, hblank⟩ := exists_of_words_ne_nil h
      exact ⟨e, List.mem_cons_of_mem _ he, hblank⟩
    · exact ⟨c, List.mem_cons_self, by simpa using hc⟩

theorem dropWhile_ne_nil {p : Char → Bool} : ∀ {cs : List Char}, (∃ c ∈ cs, p c = false) →
    ∃ c ∈ cs.dropWhile p, p c = false
  | [], ⟨_, hc, _⟩ => by cases hc
  | c :: cs, ⟨d, hd, hp⟩ => by
    rw [List.dropWhile_cons]
    split
    · rename_i hc
      rcases List.mem_cons.1 hd with rfl | hd
      · rw [hc] at hp
        cases hp
      · exact dropWhile_ne_nil ⟨d, hd, hp⟩
    · exact ⟨d, hd, hp⟩

/-- Trimming leaves something of a text that is not blank. -/
theorem exists_of_trim {cs : List Char} (h : ∃ c ∈ cs, isBlank c = false) : ∃ c ∈ trim cs, isBlank c = false := by
  obtain ⟨c, hc, hblank⟩ := dropWhile_ne_nil h
  obtain ⟨d, hd, hblank⟩ := dropWhile_ne_nil (p := isBlank) ⟨c, List.mem_reverse.2 hc, hblank⟩
  exact ⟨d, List.mem_reverse.2 hd, hblank⟩

/-- A text that has something to it is not blank. -/
theorem exists_of_filled {s t : String} (h : filled s = some t) : ∃ c ∈ s.toList, isBlank c = false := by
  cases hstart : trimStart s.toList with
  | nil =>
    rw [filled, trimmed, trim, hstart] at h
    cases h
  | cons c cs =>
    obtain ⟨us, hus⟩ := List.dropWhile_suffix (l := s.toList) isBlank
    have hc := List.head?_dropWhile_not isBlank s.toList
    rw [show s.toList.dropWhile isBlank = c :: cs from hstart] at hc hus
    exact ⟨c, hus ▸ List.mem_append_right us List.mem_cons_self, by simpa using hc⟩

theorem mem_of_mem_pieces {sep c : Char} : ∀ {cs piece : List Char}, piece ∈ pieces sep cs → c ∈ piece → c ∈ cs
  | [], piece, h, hc => by
    rw [pieces, List.mem_singleton] at h
    exact h ▸ hc
  | d :: cs, piece, h, hc => by
    rw [pieces] at h
    split at h
    · rcases List.mem_cons.1 h with rfl | h
      · cases hc
      · exact List.mem_cons_of_mem _ (mem_of_mem_pieces h hc)
    · split at h
      · rename_i p ps heq
        rcases List.mem_cons.1 h with rfl | h
        · rcases List.mem_cons.1 hc with rfl | hc
          · exact List.mem_cons_self
          · exact List.mem_cons_of_mem _ (mem_of_mem_pieces (heq ▸ List.mem_cons_self) hc)
        · exact List.mem_cons_of_mem _ (mem_of_mem_pieces (heq ▸ List.mem_cons_of_mem _ h) hc)
      · rw [List.mem_singleton] at h
        rw [h, List.mem_singleton] at hc
        exact hc ▸ List.mem_cons_self

end Text

namespace Reaction

open Text

theorem exists_of_mem_steps {r : Reaction} {step : String} (h : step ∈ r.steps) :
    ∃ c ∈ step.toList, isBlank c = false := by
  obtain ⟨w, hw, rfl⟩ := List.mem_map.1 h
  obtain ⟨hne, hblank⟩ := words_spec _ w hw
  obtain ⟨c, hc⟩ := List.exists_mem_of_ne_nil w hne
  rw [String.toList_ofList]
  exact ⟨c, hc, hblank c hc⟩

/-- An action that is not blank is something to run. -/
theorem hasAction_of_exists {r : Reaction} (h : ∃ c ∈ (r.action.getD "").toList, isBlank c = false) :
    r.hasAction = true := by
  unfold hasAction
  cases ha : r.action with
  | none =>
    obtain ⟨c, hc, -⟩ := h
    rw [ha] at hc
    cases hc
  | some a =>
    rw [ha, Option.getD_some] at h
    obtain ⟨c, hc, -⟩ := exists_of_trim h
    simp only [trimmed, Bool.not_eq_true', String.isEmpty_eq_false_iff]
    intro hempty
    rw [← String.toList_inj, String.toList_ofList] at hempty
    rw [hempty] at hc
    cases hc

/-- A sequence that has steps has something to run. -/
theorem hasAction_of_steps {r : Reaction} (h : r.steps ≠ []) : r.hasAction = true := by
  rw [steps, wordsOf, ne_eq, List.map_eq_nil_iff] at h
  exact hasAction_of_exists (exists_of_words_ne_nil h)

/-- A reaction that has effects has something to run. -/
theorem hasAction_of_actions {r : Reaction} (h : r.actions ≠ []) : r.hasAction = true := by
  obtain ⟨action, haction⟩ := List.exists_mem_of_ne_nil _ h
  obtain ⟨piece, hpiece, hfilled⟩ := List.mem_filterMap.1 haction
  obtain ⟨cs, hcs, rfl⟩ := List.mem_map.1 hpiece
  obtain ⟨c, hc, hblank⟩ := exists_of_filled hfilled
  rw [String.toList_ofList] at hc
  exact hasAction_of_exists ⟨c, mem_of_mem_pieces hcs hc, hblank⟩

/-- The name of the keyframes is never missing in a step. -/
theorem keyframe?_step (kind : EffectKind) {r : Reaction} {step : String} (h : step ∈ r.steps) :
    ((Effect.step kind step).keyframe?).isSome = true := by
  obtain ⟨c, hc, hblank⟩ := exists_of_trim (exists_of_mem_steps h)
  have hspace : " ".toList = [' '] := rfl
  have hkeyword : kind.keyword.toList ≠ [] ∧ kind.keyword.toList.all (fun c => !isBlank c) = true := by
    cases kind <;> decide
  have hwords : words ((kind.keyword ++ " " ++ trimmed step).toList) =
      kind.keyword.toList :: words (trim step.toList) := by
    rw [String.toList_append, String.toList_append, hspace, trimmed, String.toList_ofList, List.append_assoc,
      List.cons_append, List.nil_append]
    refine words_append_blank isBlank_space _ hkeyword.1 fun d hd => ?_
    simpa using List.all_eq_true.1 hkeyword.2 d hd
  have hne := words_ne_nil ⟨c, hc, hblank⟩
  obtain ⟨w, ws, hw⟩ := List.exists_cons_of_ne_nil hne
  rw [Effect.keyframe?, Effect.step, wordsOf, hwords, hw]
  rfl

end Reaction
end Stagecraft
