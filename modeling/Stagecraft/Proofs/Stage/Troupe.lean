import Stagecraft.Proofs.Stage.Lockstep
/-!
# Two roles on one stage

All that is done on the stage is done for one of two roles that have nothing in common.  Seen from one of them the tasks
of the other do nothing.  So two runs in which a role has the same to do leave it in the same condition, whatever the
other one does in between.
-/
namespace Stagecraft

open Stage

/-- The role is in the same condition in two runs, and has the same to do. -/
structure Alike (r : Role) (ids : List (Nat × Nat)) (c c' : Config) : Prop where
  stage : Mirrors r ids c.stage c'.stage
  agenda : Shares r ids c.agenda c'.agenda

/-- Whether a task is done for one of the two roles. -/
def Task.isShared (r r' : Role) : Task → Bool
  | .frame calls => calls.all fun c => c.isOf r || c.isOf r'
  | t => t.isMine r || t.isMine r' || t.isIdle

/-- All that is done is done for one of the two roles. -/
structure Troupe (r r' : Role) (c : Config) : Prop where
  scriptless : Scriptless c
  frames : ∀ f ∈ c.stage.frames.waiting, f.isOf r = true ∨ f.isOf r' = true
  agenda : ∀ t ∈ c.agenda, t.isShared r r' = true
  first : ∃ ids, Alike r ids c c
  second : ∃ ids, Alike r' ids c c

/-- The task does nothing to the role. -/
structure Spares (r : Role) (s : Stage) (t : Task) (rest : List Task) : Prop where
  own : (t.carryOut s rest).1.own r = s.own r
  mine : (t.carryOut s rest).2.flatMap (Task.mine r) = t.mine r
  secluded {known : List Nat} : Secluded r known s → Secluded r known (t.carryOut s rest).1

section
variable {s s' : Stage} {t t' : Task} {rest rest' ts ts' : List Task} {r r' : Role} {ids : List (Nat × Nat)}
  {c c' : Config}

/-! ## What there is to do for a role -/

theorem Task.mine_of_isMine (h : t.isMine r = true) : t.mine r = [t] := by
  cases t with
  | frame => cases h
  | _ => exact if_pos h

theorem Task.mine_of_not_isMine (h : t.isMine r ≠ true) (hframe : ∀ calls, t ≠ .frame calls) : t.mine r = [] := by
  cases t with
  | frame calls => exact absurd rfl (hframe calls)
  | _ => simp [Task.mine, h]

theorem Task.mine_of_isIdle (h : t.isIdle = true) : t.mine r = [] := by
  cases t with
  | frame calls =>
    cases calls with
    | nil => rfl
    | cons => cases h
  | deliver once listeners ran =>
    cases once with
    | cons => cases h
    | nil =>
      cases listeners with
      | cons => cases h
      | nil => rfl
  | release hold =>
    cases hold with
    | host => rfl
    | _ => cases h
  | reply | frameOver | lose => rfl
  | _ => cases h

theorem OnceCall.not_isOf (hapart : r.Apart r') {c : OnceCall} (h : c.isOf r' = true) : c.isOf r = false := by
  cases c with
  | outside => cases h
  | effectEnd el classes token =>
    obtain ⟨hel, -⟩ := Bool.and_eq_true_iff.1 h
    simp [OnceCall.isOf, of_decide_eq_true hel, hapart.element.symm]

theorem ListenerCall.not_isOf (hapart : r.Apart r') {c : ListenerCall} (h : c.isOf r' = true) : c.isOf r = false := by
  cases c with
  | react m slot => simp [ListenerCall.isOf, show m = r'.machine from of_decide_eq_true h, hapart.machine.symm]
  | _ => cases h

theorem FrameCall.not_isOf (hapart : r.Apart r') {c : FrameCall} (h : c.isOf r' = true) : c.isOf r = false := by
  cases c with
  | outside => cases h
  | react m slot => simp [FrameCall.isOf, show m = r'.machine from of_decide_eq_true h, hapart.machine.symm]
  | resume m slot => simp [FrameCall.isOf, show m = r'.machine from of_decide_eq_true h, hapart.machine.symm]

theorem Finish.not_isOf (hapart : r.Apart r') {f : Finish} (h : f.isOf r' = true) : f.isOf r = false := by
  cases f with
  | outside => cases h
  | reaction m slot => simp [Finish.isOf, show m = r'.machine from of_decide_eq_true h, hapart.machine.symm]
  | sequenceStep m slot k => simp [Finish.isOf, show m = r'.machine from of_decide_eq_true h, hapart.machine.symm]

theorem Task.not_isMine (hapart : r.Apart r') (h : t.isPlainFor r' = true) : t.isMine r = false := by
  have hm := hapart.machine.symm
  have hq := hapart.queue.symm
  have hel := hapart.element.symm
  cases t with
  | callOnce c => exact OnceCall.not_isOf hapart h
  | callListener c => exact ListenerCall.not_isOf hapart h
  | callFrame c => exact FrameCall.not_isOf hapart h
  | finish q f => exact Finish.not_isOf hapart h
  | release hold => cases hold <;> simp_all [Task.isMine, Task.isPlainFor]
  | _ => simp_all [Task.isMine, Task.isPlainFor]

/-- What is done for one role is not done for another. -/
theorem Task.Mirrors.mine_eq_nil (h : Task.Mirrors r' ids t t') (hapart : r.Apart r') : t.mine r = [] := by
  cases h with
  | idle h => exact Task.mine_of_isIdle h
  | plain h =>
    refine Task.mine_of_not_isMine (by simp [Task.not_isMine hapart h]) fun calls heq => ?_
    subst heq
    cases h
  | detach => simp [Task.mine, Task.isMine, hapart.element.symm]
  | bound => simp [Task.mine, Task.isMine, hapart.machine.symm]
  | @deliver once ls _ ran honce hls =>
    have hnone : once.any (·.isOf r) = false :=
      List.any_eq_false.2 fun c hc => by simp [OnceCall.not_isOf hapart (honce c hc)]
    have hours : ∀ p ∈ ls, p.2.isOf r' = true := forall_of_forall₂ hls fun _ _ hp => hp.ours
    have hnone' : ls.any (·.2.isOf r) = false :=
      List.any_eq_false.2 fun p hp => by simp [ListenerCall.not_isOf hapart (hours p hp)]
    simp [Task.mine, Task.isMine, hnone, hnone']

theorem Task.Mirrors.mine (h : Task.Mirrors r ids t t') :
    List.Forall₂ (Task.Mirrors r ids) (t.mine r) (t'.mine r) := by
  cases h with
  | idle h =>
    rw [Task.mine_of_isIdle h]
    exact .nil
  | plain h =>
    have hmine : t.isMine r = true := by
      cases t with
      | deliver | detach | bound => cases h
      | _ => exact h
    rw [Task.mine_of_isMine hmine]
    exact .cons (.plain h) .nil
  | detach hi =>
    rw [Task.mine_of_isMine (by simp [Task.isMine]), Task.mine_of_isMine (by simp [Task.isMine])]
    exact .cons (.detach hi) .nil
  | bound index hi =>
    rw [Task.mine_of_isMine (by simp [Task.isMine]), Task.mine_of_isMine (by simp [Task.isMine])]
    exact .cons (.bound index hi) .nil
  | @deliver once ls ls' ran honce hls =>
    have hany : ls'.any (·.2.isOf r) = ls.any (·.2.isOf r) := any_of_forall₂ hls fun p p' hp => by rw [hp.call]
    by_cases hmine : (once.any (·.isOf r) || ls.any (·.2.isOf r)) = true
    · simp only [Task.mine, Task.isMine, hany, hmine, if_true]
      exact .cons (.deliver ran honce hls) .nil
    · simp only [Task.mine, Task.isMine, hany, hmine]
      exact .nil

theorem shares_of_forall₂ (h : List.Forall₂ (Task.Mirrors r ids) ts ts') : Shares r ids ts ts' :=
  List.rel_flatMap h fun _ _ ht => ht.mine

theorem Shares.append (h : Shares r ids ts ts') (hrest : Shares r ids rest rest') :
    Shares r ids (ts ++ rest) (ts' ++ rest') := by
  unfold Shares
  rw [List.flatMap_append, List.flatMap_append]
  exact List.rel_append h hrest

theorem Shares.mono {ids' : List (Nat × Nat)} (hids : ids ⊆ ids') (h : Shares r ids ts ts') : Shares r ids' ts ts' :=
  h.imp fun _ _ ht => ht.mono hids

theorem Shares.of_cons (h : Shares r ids (t :: rest) (t' :: rest')) (ht : t.isMine r = true)
    (ht' : t'.isMine r = true) : Task.Mirrors r ids t t' ∧ Shares r ids rest rest' := by
  unfold Shares at h
  rw [List.flatMap_cons, List.flatMap_cons, Task.mine_of_isMine ht, Task.mine_of_isMine ht'] at h
  exact List.forall₂_cons.1 h

/-! ## Steps of two runs -/

/-- In both runs a task of the role is done. -/
theorem Alike.both (h : Alike r ids ⟨s, t :: rest⟩ ⟨s', t' :: rest'⟩) (ht : t.isMine r = true)
    (ht' : t'.isMine r = true) : ∃ new, Alike r (ids ++ new) (.after s t rest) (.after s' t' rest') := by
  obtain ⟨htt, hrest⟩ := h.agenda.of_cons ht ht'
  obtain ⟨new, hstage, htasks⟩ := mirrored_carryOut h.stage hrest htt
  exact ⟨new, hstage, (shares_of_forall₂ htasks).append (hrest.mono (List.subset_append_left _ _))⟩

theorem Alike.left (h : Alike r ids ⟨s, t :: rest⟩ c') (hspares : Spares r s t rest) :
    Alike r ids (.after s t rest) c' where
  stage := ⟨hspares.secluded h.stage.left, h.stage.right, hspares.own ▸ h.stage.own, h.stage.ids⟩
  agenda := by
    have hagenda := h.agenda
    unfold Shares at hagenda ⊢
    rw [Config.after, List.flatMap_append, hspares.mine, ← List.flatMap_cons]
    exact hagenda

theorem Alike.right (h : Alike r ids c ⟨s, t :: rest⟩) (hspares : Spares r s t rest) :
    Alike r ids c (.after s t rest) where
  stage := ⟨h.stage.left, hspares.secluded h.stage.right, hspares.own ▸ h.stage.own, h.stage.ids⟩
  agenda := by
    have hagenda := h.agenda
    unfold Shares at hagenda ⊢
    rw [Config.after, List.flatMap_append, hspares.mine, ← List.flatMap_cons]
    exact hagenda

/-! ## What does nothing to a role -/

theorem spares_of_isIdle (h : t.isIdle = true) : Spares r s t rest := by
  obtain ⟨hs, htasks⟩ := undisturbed_of_isIdle s rest h
  refine ⟨own_of_undisturbed hs r, ?_, fun hsecluded => hsecluded.undisturbed hs⟩
  rw [htasks, Task.mine_of_isIdle h]
  rfl

theorem spares_frame (call : FrameCall) (calls : List FrameCall) : Spares r s (.frame (call :: calls)) rest := by
  refine ⟨rfl, ?_, id⟩
  by_cases hcall : call.isOf r = true <;>
    simp [Task.carryOut, frame, Task.mine, Task.isMine, Task.isPlainFor, hcall]

theorem spares_of_other (hapart : r.Apart r') (h : Alike r' ids ⟨s, t :: rest⟩ ⟨s, t :: rest⟩)
    (hmine : t.isMine r' = true) : Spares r s t rest := by
  obtain ⟨ht, hrest⟩ := h.agenda.of_cons hmine hmine
  obtain ⟨new, -, htasks⟩ := mirrored_carryOut h.stage hrest ht
  refine ⟨own_elsewhere hapart hmine fun c hc => ?_, ?_,
    fun hsecluded => secluded_carryOut hsecluded (spares_of_isMine hapart hmine).1⟩
  · obtain ⟨c', bs, hc', -, -, hfits⟩ := h.stage.machines
    obtain rfl := Option.some.inj (hc.symm.trans hc')
    exact hfits.element
  · rw [ht.mine_eq_nil hapart, List.flatMap_eq_nil_iff]
    exact forall_of_forall₂ htasks fun _ _ ht => ht.mine_eq_nil hapart

/-! ## Steps of one run -/

theorem Task.isShared_of_isMine (h : t.isMine r = true) : t.isShared r r' = true := by
  cases t with
  | frame => cases h
  | _ => simp [Task.isShared, h]

theorem Task.isShared_of_isIdle (h : t.isIdle = true) : t.isShared r r' = true := by
  cases t with
  | frame calls =>
    cases calls with
    | nil => rfl
    | cons => cases h
  | _ => simp [Task.isShared, h]

theorem Task.isShared_comm (t : Task) : t.isShared r r' = t.isShared r' r := by
  cases t with
  | frame calls => simp only [Task.isShared, Bool.or_comm]
  | _ => simp only [Task.isShared, Bool.or_comm (Task.isMine r _)]

theorem Task.Mirrors.isShared (h : Task.Mirrors r ids t t') : t.isShared r r' = true := by
  cases h with
  | idle h => exact Task.isShared_of_isIdle h
  | plain h =>
    refine Task.isShared_of_isMine ?_
    cases t with
    | deliver | detach | bound => cases h
    | _ => exact h
  | detach => exact Task.isShared_of_isMine (by simp [Task.isMine])
  | bound => exact Task.isShared_of_isMine (by simp [Task.isMine])
  | @deliver once ls _ ran honce hls =>
    cases once with
    | cons c cs =>
      refine Task.isShared_of_isMine ?_
      simp [Task.isMine, honce c List.mem_cons_self]
    | nil =>
      cases hls with
      | nil => exact Task.isShared_of_isIdle rfl
      | cons hp =>
        refine Task.isShared_of_isMine ?_
        simp [Task.isMine, hp.ours]

/-- A task of a role, one of the other, one that does nothing, or one that makes the calls of a frame. -/
theorem Task.isShared_cases (h : t.isShared r r' = true) : t.isMine r = true ∨ t.isMine r' = true ∨
    t.isIdle = true ∨ ∃ call calls, t = .frame (call :: calls) ∧ (call.isOf r = true ∨ call.isOf r' = true) ∧
      (Task.frame calls).isShared r r' = true := by
  cases t with
  | frame calls =>
    cases calls with
    | nil => exact .inr (.inr (.inl rfl))
    | cons call calls =>
      obtain ⟨hcall, hcalls⟩ := Bool.and_eq_true_iff.1 h
      exact .inr (.inr (.inr ⟨call, calls, rfl, Bool.or_eq_true_iff.1 hcall, hcalls⟩))
  | _ =>
    simp only [Task.isShared, Bool.or_eq_true, or_assoc] at h
    exact h.imp_right fun h => h.imp_right .inl

theorem frames_of_isMine (hmine : t.isMine r = true) : ∀ f ∈ (t.carryOut s rest).1.frames.waiting,
    f ∈ s.frames.waiting ∨ f.isOf r = true := by
  have hadd : ∀ {call : FrameCall}, call.isOf r = true → ∀ f ∈ (s.schedule call).frames.waiting,
      f ∈ s.frames.waiting ∨ f.isOf r = true := fun {call} hcall f hf =>
    (List.mem_append.1 hf).imp_right fun hf => by
      rw [List.mem_singleton.1 hf]
      exact hcall
  by_cases ht : .frames ∈ t.touches
  · cases t with
    | cue | tick => cases hmine
    | bind m slot again =>
      simp only [Task.carryOut, Stage.bind]
      split
      · exact fun f hf => .inl hf
      · split
        · exact fun f hf => .inl hf
        · exact hadd hmine
        · split <;> exact fun f hf => .inl hf
    | stepOver m slot step =>
      simp only [Task.carryOut, stepOver]
      split
      · exact fun f hf => .inl hf
      · split
        · exact hadd hmine
        · exact fun f hf => .inl hf
    | release hold => cases hold <;> simp [Task.touches] at ht
    | _ => simp [Task.touches] at ht
  · rw [show _ = s.frames.waiting from (within_carryOut s rest t).touched.agree .frames ht]
    exact fun f hf => .inl hf

theorem Troupe.symm (h : Troupe r r' c) : Troupe r' r c where
  scriptless := h.scriptless
  frames f hf := (h.frames f hf).symm
  agenda t ht := (Task.isShared_comm t).trans (h.agenda t ht)
  first := h.second
  second := h.first

theorem Alike.self (h : ∃ ids, Alike r ids ⟨s, t :: rest⟩ ⟨s, t :: rest⟩) (hspares : Spares r s t rest) :
    ∃ ids, Alike r ids (.after s t rest) (.after s t rest) := by
  obtain ⟨ids, h⟩ := h
  exact ⟨ids, (h.left hspares).right hspares⟩

theorem Troupe.after_of_spares (h : Troupe r r' ⟨s, t :: rest⟩) (hfirst : Spares r s t rest)
    (hsecond : Spares r' s t rest) (hframes : (t.carryOut s rest).1.frames = s.frames)
    (hleft : ∀ t' ∈ (t.carryOut s rest).2, t'.isShared r r' = true) : Troupe r r' (.after s t rest) where
  scriptless := scriptless_after h.scriptless
  frames := by
    rw [Config.after, hframes]
    exact h.frames
  agenda t' ht' := (List.mem_append.1 ht').elim (hleft t') fun ht' => h.agenda t' (List.mem_cons_of_mem _ ht')
  first := Alike.self h.first hfirst
  second := Alike.self h.second hsecond

theorem Troupe.after_of_isMine (hapart : r.Apart r') (h : Troupe r r' ⟨s, t :: rest⟩) (hmine : t.isMine r = true) :
    Troupe r r' (.after s t rest) := by
  obtain ⟨ids, hfirst⟩ := h.first
  obtain ⟨ht, hrest⟩ := hfirst.agenda.of_cons hmine hmine
  obtain ⟨new, -, htasks⟩ := mirrored_carryOut hfirst.stage hrest ht
  refine ⟨scriptless_after h.scriptless, fun f hf => ?_, fun t' ht' => ?_, ?_, ?_⟩
  · rcases frames_of_isMine hmine f hf with hf | hf
    · exact h.frames f hf
    · exact .inl hf
  · rcases List.mem_append.1 ht' with ht' | ht'
    · exact forall_of_forall₂ htasks (fun _ _ ht => ht.isShared) t' ht'
    · exact h.agenda t' (List.mem_cons_of_mem _ ht')
  · obtain ⟨new, hafter⟩ := hfirst.both hmine hmine
    exact ⟨_, hafter⟩
  · exact Alike.self h.second (spares_of_other hapart.symm hfirst hmine)

/-- **Whatever is done is done for one of the two**, step after step. -/
theorem troupe_after (hapart : r.Apart r') (h : Troupe r r' ⟨s, t :: rest⟩) : Troupe r r' (.after s t rest) := by
  rcases Task.isShared_cases (h.agenda t List.mem_cons_self) with hmine | hmine | hidle | ⟨call, calls, rfl, hcall, hcalls⟩
  · exact h.after_of_isMine hapart hmine
  · exact (h.symm.after_of_isMine hapart.symm hmine).symm
  · obtain ⟨hs, htasks⟩ := undisturbed_of_isIdle s rest hidle
    refine h.after_of_spares (spares_of_isIdle hidle) (spares_of_isIdle hidle) hs.frames ?_
    rw [htasks]
    exact List.forall_mem_nil _
  · refine h.after_of_spares (spares_frame call calls) (spares_frame call calls) rfl ?_
    refine List.forall_mem_cons.2 ⟨?_, List.forall_mem_cons.2 ⟨hcalls, List.forall_mem_nil _⟩⟩
    rcases hcall with hcall | hcall
    · exact Task.isShared_of_isMine hcall
    · exact (Task.isShared_comm _).trans (Task.isShared_of_isMine hcall)

/-- Seen from one role, only its own tasks do anything. -/
theorem Troupe.spares (hapart : r.Apart r') (h : Troupe r r' ⟨s, t :: rest⟩) (hmine : t.isMine r ≠ true) :
    Spares r s t rest := by
  rcases Task.isShared_cases (h.agenda t List.mem_cons_self) with hours | hother | hidle | ⟨call, calls, rfl, -, -⟩
  · exact absurd hours hmine
  · obtain ⟨ids, hsecond⟩ := h.second
    exact spares_of_other hapart hsecond hother
  · exact spares_of_isIdle hidle
  · exact spares_frame call calls

/-! ## Two runs -/

theorem Shares.not_isMine_of_nil (h : Shares r ids [] (t :: rest)) : t.isMine r ≠ true := fun hmine => by
  unfold Shares at h
  rw [List.flatMap_cons, Task.mine_of_isMine hmine] at h
  cases h

theorem Shares.ne_nil (h : Shares r ids (t :: rest) ts) (hmine : t.isMine r = true) : ts ≠ [] := fun heq => by
  unfold Shares at h
  rw [heq, List.flatMap_cons, Task.mine_of_isMine hmine] at h
  cases h

/-- **Two runs in which a role has the same to do leave it in the same condition.**  What does nothing to the role is
done first, in one run or in the other, until both have come to a task of the role. -/
theorem alike_at_end (hapart : r.Apart r') : ∀ (n n' : Nat) {c c' : Config} {ids : List (Nat × Nat)}, Troupe r r' c →
    Troupe r r' c' → Alike r ids c c' → (Config.run n c).agenda = [] → (Config.run n' c').agenda = [] →
      ∃ ids', Alike r ids' (Config.run n c) (Config.run n' c')
  | n, n', ⟨s, []⟩, ⟨s', []⟩, ids, _, _, h, _, _ => by
    rw [Config.run_of_agenda_eq_nil rfl, Config.run_of_agenda_eq_nil rfl]
    exact ⟨ids, h⟩
  | _, 0, ⟨_, []⟩, ⟨_, _ :: _⟩, _, _, _, _, _, hn' => by cases hn'
  | n, n' + 1, ⟨s, []⟩, ⟨s', t' :: rest'⟩, ids, hc, hc', h, hn, hn' =>
    alike_at_end hapart n n' hc (troupe_after hapart hc')
      (h.right (hc'.spares hapart h.agenda.not_isMine_of_nil)) hn hn'
  | 0, _, ⟨_, _ :: _⟩, _, _, _, _, _, hn, _ => by cases hn
  | n + 1, n', ⟨s, t :: rest⟩, ⟨s', agenda'⟩, ids, hc, hc', h, hn, hn' => by
    by_cases hmine : t.isMine r = true
    · cases agenda' with
      | nil => exact absurd rfl (h.agenda.ne_nil hmine)
      | cons t' rest' =>
        cases n' with
        | zero => cases hn'
        | succ n' =>
          by_cases hmine' : t'.isMine r = true
          · obtain ⟨new, hafter⟩ := h.both hmine hmine'
            exact alike_at_end hapart n n' (troupe_after hapart hc) (troupe_after hapart hc') hafter hn hn'
          · exact alike_at_end hapart (n + 1) n' hc (troupe_after hapart hc') (h.right (hc'.spares hapart hmine')) hn hn'
    · exact alike_at_end hapart n n' (troupe_after hapart hc) hc' (h.left (hc.spares hapart hmine)) hn hn'
termination_by n n' => n + n'

end
end Stagecraft
