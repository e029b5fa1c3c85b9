import Stagecraft.Proofs.Stage.Played
/-!
# What tasks unfold into

Whatever a task leads to is done before the tasks that were waiting behind it.  Without scripts this comes to an end, so
a task unfolds into the list of all that is done until the next one of those is.
-/
namespace Stagecraft

/-- With `rest` waiting behind them the tasks `us` unfold into `ts`: these are done one by one, and then only `rest` is
left.  They lead from the stage `s` to `s'`. -/
inductive Unfolds (rest : List Task) : Stage → List Task → List Task → Stage → Prop
  | nil (s : Stage) : Unfolds rest s [] [] s
  | cons {s s' : Stage} {t : Task} {us ts : List Task}
      (h : Unfolds rest (t.carryOut s (us ++ rest)).1 ((t.carryOut s (us ++ rest)).2 ++ us) ts s') :
      Unfolds rest s (t :: us) (t :: ts) s'

open Stage

variable {s s' : Stage} {t : Task} {us vs ts rest : List Task}

namespace Unfolds

/-- A run does just what the tasks unfold into. -/
theorem run (h : Unfolds rest s us ts s') : Config.run ts.length ⟨s, us ++ rest⟩ = ⟨s', rest⟩ := by
  induction h with
  | nil => rfl
  | cons _ ih =>
    rw [List.append_assoc] at ih
    exact ih

theorem cons_inv (h : Unfolds rest s (t :: us) ts s') : ∃ ts', ts = t :: ts' ∧
    Unfolds rest (t.carryOut s (us ++ rest)).1 ((t.carryOut s (us ++ rest)).2 ++ us) ts' s' := by
  cases h with
  | cons h => exact ⟨_, rfl, h⟩

/-- What a single task unfolds into begins with the task. -/
theorem single (h : Unfolds rest s [t] ts s') : ∃ ts', ts = t :: ts' ∧
    Unfolds rest (t.carryOut s rest).1 (t.carryOut s rest).2 ts' s' := by
  obtain ⟨ts', hts, h'⟩ := h.cons_inv
  exact ⟨ts', hts, by rwa [List.append_nil] at h'⟩

/-- What comes first is done to its end before what comes behind it. -/
theorem split (us : List Task) (h : Unfolds rest s (us ++ vs) ts s') : ∃ ts₁ s₁ ts₂, ts = ts₁ ++ ts₂ ∧
    Unfolds (vs ++ rest) s us ts₁ s₁ ∧ Unfolds rest s₁ vs ts₂ s' := by
  generalize hws : us ++ vs = ws at h
  induction h generalizing us with
  | nil s =>
    obtain ⟨rfl, rfl⟩ := List.append_eq_nil_iff.1 hws
    exact ⟨[], s, [], rfl, .nil s, .nil s⟩
  | @cons s s' t ws ts h ih =>
    cases us with
    | nil =>
      rw [List.nil_append] at hws
      exact ⟨[], s, t :: ts, rfl, .nil s, hws ▸ .cons h⟩
    | cons u us =>
      rw [List.cons_append, List.cons.injEq] at hws
      obtain ⟨rfl, rfl⟩ := hws
      obtain ⟨ts₁, s₁, ts₂, rfl, h₁, h₂⟩ := ih _ (List.append_assoc ..)
      rw [List.append_assoc] at h₁
      exact ⟨u :: ts₁, s₁, ts₂, rfl, .cons h₁, h₂⟩

theorem scriptless (h : Unfolds rest s us ts s') (hs : Scriptless ⟨s, us ++ rest⟩) : Scriptless ⟨s', rest⟩ := by
  induction h with
  | nil => exact hs
  | cons _ ih =>
    rw [List.append_assoc] at ih
    exact ih (scriptless_after hs)

/-- **What every task hands on to those that it leaves is true of all that is done.** -/
theorem of_all {P : Task → Prop}
    (hstep : ∀ {s t rest}, Scriptless ⟨s, t :: rest⟩ → P t → ∀ t' ∈ (t.carryOut s rest).2, P t')
    (h : Unfolds rest s us ts s') (hs : Scriptless ⟨s, us ++ rest⟩) (hus : ∀ u ∈ us, P u) : ∀ t ∈ ts, P t := by
  induction h with
  | nil => exact hus
  | @cons s s' t us ts _ ih =>
    obtain ⟨ht, hus⟩ := List.forall_mem_cons.1 hus
    rw [List.append_assoc] at ih
    refine List.forall_mem_cons.2 ⟨ht, ih (scriptless_after hs) fun u hu => ?_⟩
    rcases List.mem_append.1 hu with hu | hu
    · exact hstep hs ht u hu
    · exact hus u hu

/-- **If every task has enough for itself and for those that it leaves, then there is enough for all that is done.**
What a task has is its `share`, and those that are `counted` use one each. -/
theorem countP_le {P : Task → Prop} {counted : Task → Bool} {share : Task → Nat}
    (hstep : ∀ {s t rest}, Scriptless ⟨s, t :: rest⟩ → P t → ∀ t' ∈ (t.carryOut s rest).2, P t')
    (hshare : ∀ {s t rest}, Scriptless ⟨s, t :: rest⟩ → P t →
      (counted t).toNat + ((t.carryOut s rest).2.map share).sum ≤ share t)
    (h : Unfolds rest s us ts s') (hs : Scriptless ⟨s, us ++ rest⟩) (hus : ∀ u ∈ us, P u) :
    ts.countP counted ≤ (us.map share).sum := by
  induction h with
  | nil => exact Nat.le_refl 0
  | @cons s s' t us ts _ ih =>
    obtain ⟨ht, hus⟩ := List.forall_mem_cons.1 hus
    rw [List.append_assoc] at ih
    rw [List.cons_append] at hs
    have hrest := ih (scriptless_after hs) fun u hu => by
      rcases List.mem_append.1 hu with hu | hu
      · exact hstep hs ht u hu
      · exact hus u hu
    have hfirst := hshare hs ht
    rw [List.map_append, List.sum_append] at hrest
    rw [List.countP_cons, List.map_cons, List.sum_cons]
    have hcounted : (if counted t then 1 else 0) = (counted t).toNat := by cases counted t <;> rfl
    omega

end Unfolds

theorem Scriptless.opened {manners : Manners} (h : manners.reflexes = []) : Scriptless ⟨.opened manners, []⟩ :=
  ⟨h, rfl, nofun, nofun, nofun, nofun, nofun⟩

theorem Scriptless.called (h : Scriptless ⟨s, []⟩) {c : Cue} (hc : c.isScriptless = true) : Scriptless ⟨s, [.cue c]⟩ :=
  { h with agenda := List.forall_mem_singleton.2 hc }

/-- **Without scripts, tasks unfold** into what is done of them in the end. -/
theorem Scriptless.unfolds (h : Scriptless ⟨s, us ++ rest⟩) : ∃ ts s', Unfolds rest s us ts s' := by
  have hfounded : WellFounded fun v w : Multiset (ℕ ×ₗ ℕ) => v.IsDershowitzMannaLT w :=
    Multiset.wellFounded_isDershowitzMannaLT
  generalize hw : (Config.mk s (us ++ rest)).load = w
  induction w using hfounded.induction generalizing s us with
  | _ w ih =>
    cases us with
    | nil => exact ⟨[], s, .nil s⟩
    | cons t us =>
      have hafter : Config.after s t (us ++ rest) =
          ⟨(t.carryOut s (us ++ rest)).1, (t.carryOut s (us ++ rest)).2 ++ us ++ rest⟩ := by
        rw [Config.after, List.append_assoc]
      rw [List.cons_append] at h
      have hload := load_after h
      have hscriptless := scriptless_after h
      rw [hafter] at hload hscriptless
      obtain ⟨ts, s', h'⟩ := ih _ (hw ▸ hload) hscriptless rfl
      exact ⟨t :: ts, s', .cons h'⟩

/-- **Without scripts, cues can be played**, however many there are. -/
theorem Scriptless.plays : ∀ {cues : List Cue} {s : Stage}, Scriptless ⟨s, []⟩ →
    (∀ c ∈ cues, c.isScriptless = true) → ∃ s', Plays s cues s' ∧ Scriptless ⟨s', []⟩
  | [], s, h, _ => ⟨s, .nil s, h⟩
  | c :: cues, s, h, hcues => by
    obtain ⟨hc, hcues⟩ := List.forall_mem_cons.1 hcues
    have hs := h.called hc
    obtain ⟨ts, s₁, hfirst⟩ : ∃ ts s₁, Unfolds [] s [.cue c] ts s₁ := hs.unfolds
    obtain ⟨s', hlater, h'⟩ := plays (hfirst.scriptless hs) hcues
    exact ⟨s', .cons ts.length hfirst.run hlater, h'⟩

end Stagecraft
