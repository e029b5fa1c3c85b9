import Stagecraft.Proofs.Stage.Conclusion
import Stagecraft.Proofs.Stage.Sequence
/-!
# The rounds of a sequence

A sequence sends its steps one after another and begins again with the first after the last, whatever fires it, however
its machine moves meanwhile and whenever its jobs end.  The step that the machine has noted says which one comes next,
and it is noted anew only when a step is sent and when the last one is over.
-/
namespace Stagecraft

/-- The step of the sequence whose end it is. -/
def Finish.step? (m : Nat) (slot : Slot) : Finish → Option Nat
  | .sequenceStep n other k => if n = m ∧ other = slot then some k else none
  | _ => none

/-- The step of the sequence that a job plays. -/
def Job.step? (m : Nat) (slot : Slot) (job : Job) : Option Nat := job.finish.bind (Finish.step? m slot)

/-- The step of the sequence that the next task sends to a queue. -/
def Config.sendsStep? (m : Nat) (slot : Slot) (c : Config) : Option Nat :=
  (c.agenda.head?.bind Task.sending?).bind (Finish.step? m slot)

/-- The steps of the sequence that have been sent, in this order.  The latest configuration comes first. -/
def sentSteps (m : Nat) (slot : Slot) : List Config → List Nat
  | [] => []
  | c :: past => sentSteps m slot past ++ (c.sendsStep? m slot).toList

namespace Stage

/-- A sequence in its rounds: the steps that it has sent are `0` to `n - 1` again and again, and the next one is that
after the one that the machine has noted. -/
structure Cycling (m : Nat) (slot : Slot) (n : Nat) (past : List Config) (c : Config) : Prop where
  order : sentSteps m slot (c :: past) = (List.range (sentSteps m slot (c :: past)).length).map (· % n)
  next : nextStep (c.stage.stepOf m slot) % n = (sentSteps m slot (c :: past)).length % n

section
variable {m n : Nat} {slot : Slot} {s : Stage} {t : Task} {rest : List Task} {past : List Config}

theorem isFor_of_step? {f : Finish} {k : Nat} (h : f.step? m slot = some k) : f = .sequenceStep m slot k := by
  cases f with
  | sequenceStep p other j =>
    rw [Finish.step?] at h
    split at h
    · rename_i heq
      obtain ⟨rfl, rfl⟩ := heq
      rw [Option.some.inj h]
    · cases h
  | _ => cases h

theorem step?_self (m : Nat) (slot : Slot) (k : Nat) : (Finish.sequenceStep m slot k).step? m slot = some k :=
  if_pos ⟨rfl, rfl⟩

/-- A task that owes the reaction nothing sends no step of it. -/
theorem step?_of_owes (h : t.owes m slot = false) : t.sending?.bind (Finish.step? m slot) = none := by
  cases t with
  | enqueue q job =>
    cases hf : job.finish with
    | none => simp [Task.sending?, hf]
    | some f =>
      cases hk : f.step? m slot with
      | none => simp [Task.sending?, hf, hk]
      | some k =>
        obtain rfl := isFor_of_step? hk
        simp [Task.owes, hf, Finish.isFor] at h
  | _ => rfl

/-- Only the reaction itself sends its steps. -/
theorem sending_carryOut (h : ∀ anew, t ≠ .act m slot anew) :
    ∀ t' ∈ (t.carryOut s rest).2, t'.sending?.bind (Finish.step? m slot) = none := by
  intro t' ht'
  have hkind := (within_carryOut s rest t).kinds t' ht'
  cases t' with
  | enqueue q job =>
    change Kind.enqueue ∈ t.leaves at hkind
    refine step?_of_owes ?_
    cases t with
    | cue c => exact owes_follow s c _ ht'
    | act p other anew =>
      refine owes_act (fun heq => ?_) _ ht'
      exact h anew (by rw [heq.1, heq.2])
    | release hold => cases hold <;> simp [Task.leaves] at hkind
    | _ => simp [Task.leaves] at hkind
  | _ => rfl

/-- A step is sent as soon as the reaction has acted. -/
theorem sendsStep?_after (h : ∀ anew, t ≠ .act m slot anew) (hrest : ∀ t ∈ rest, t.owes m slot = false) :
    (Config.after s t rest).sendsStep? m slot = none := by
  have hall : ∀ t' ∈ (Config.after s t rest).agenda, t'.sending?.bind (Finish.step? m slot) = none :=
    List.forall_mem_append.2 ⟨sending_carryOut h, fun t' ht' => step?_of_owes (hrest t' ht')⟩
  unfold Config.sendsStep?
  cases hagenda : (Config.after s t rest).agenda with
  | nil => rfl
  | cons t' ts =>
    rw [hagenda] at hall
    exact hall t' List.mem_cons_self

/-- Nothing is sent, and the next step is the same. -/
theorem Cycling.same {c : Config} (h : Cycling m slot n past c) {c' : Config} (hsends : c'.sendsStep? m slot = none)
    (hnext : nextStep (c'.stage.stepOf m slot) % n = nextStep (c.stage.stepOf m slot) % n) :
    Cycling m slot n (c :: past) c' := by
  have heq : sentSteps m slot (c' :: c :: past) = sentSteps m slot (c :: past) := by
    rw [sentSteps, hsends]
    exact List.append_nil _
  exact ⟨by rw [heq]; exact h.order, by rw [heq, hnext]; exact h.next⟩

/-- The next step is sent. -/
theorem Cycling.sends {c : Config} (h : Cycling m slot n past c) {c' : Config}
    (hlt : nextStep (c.stage.stepOf m slot) < n)
    (hsends : c'.sendsStep? m slot = some (nextStep (c.stage.stepOf m slot)))
    (hcell : c'.stage.stepOf m slot = some (nextStep (c.stage.stepOf m slot))) : Cycling m slot n (c :: past) c' := by
  have heq : sentSteps m slot (c' :: c :: past) =
      sentSteps m slot (c :: past) ++ [nextStep (c.stage.stepOf m slot)] := by
    rw [sentSteps, hsends]
    rfl
  have hnext := h.next
  rw [Nat.mod_eq_of_lt hlt] at hnext
  constructor
  · rw [heq, List.length_append, List.length_singleton, List.range_succ, List.map_append, ← h.order, List.map_singleton,
      ← hnext]
  · rw [heq, hcell, List.length_append, List.length_singleton, Nat.add_mod, ← hnext]
    show (nextStep (c.stage.stepOf m slot) + 1) % n = _
    rw [Nat.add_mod, Nat.mod_eq_of_lt hlt]

section
variable {r : Reaction} {kind : EffectKind} {c : Machine} {least : Nat}

theorem cycling_act {anew : Bool} (h : Cycling m slot r.steps.length past ⟨s, .act m slot anew :: rest⟩)
    (hpaced : Paced m slot least r.steps.length ⟨s, .act m slot anew :: rest⟩) (hc : s.machine? m = some c)
    (hr : c.reaction? slot = some r) (hseq : IsSequence r kind) :
    Cycling m slot r.steps.length (⟨s, .act m slot anew :: rest⟩ :: past) (.after s (.act m slot anew) rest) := by
  have hact : s.act m slot = s.runNext c m slot r kind := act_eq_runNext hc hr hseq
  have hcell : s.stepOf m slot = c.step? slot := by rw [stepOf, hc]; rfl
  by_cases hlt : nextStep (c.step? slot) < r.steps.length
  · obtain ⟨s', job, hsame, hf, heq⟩ := runNext_sends s m kind hlt
    have hmachine : s'.machine? m = some c := by rw [machine?, hsame.machines]; exact hc
    refine h.sends (by rw [show (Config.mk s _).stage.stepOf m slot = _ from hcell]; exact hlt) ?_ ?_
    · simp [Config.sendsStep?, Config.after, Task.carryOut, hact, heq, Task.sending?, hf, step?_self, hcell]
    · simp only [Config.after, Task.carryOut, hact, heq, hcell]
      exact stepOf_setStep_self hmachine _
  · have heq : s.runNext c m slot r kind = (s.notify (.sequenceOver c.element r.action), []) :=
      runNext_over (Nat.le_of_not_lt hlt)
    refine h.same ?_ ?_
    · unfold Config.sendsStep?
      simp only [Config.after, Task.carryOut, hact, heq, List.nil_append]
      cases hrest : rest with
      | nil => rfl
      | cons t ts => exact step?_of_owes (hpaced.first t (by simp [hrest]))
    · simp only [Config.after, Task.carryOut, hact, heq]
      rfl

/-- When the last step is over, the next one is the first. -/
theorem cycling_stepOver {k : Nat} (h : Cycling m slot r.steps.length past ⟨s, .stepOver m slot k :: rest⟩)
    (hpaced : Paced m slot least r.steps.length ⟨s, .stepOver m slot k :: rest⟩) (hc : s.machine? m = some c)
    (hr : c.reaction? slot = some r) :
    Cycling m slot r.steps.length (⟨s, .stepOver m slot k :: rest⟩ :: past) (.after s (.stepOver m slot k) rest) := by
  refine h.same (sendsStep?_after nofun fun t ht => hpaced.first t ht) ?_
  by_cases hk : k < r.steps.length - 1
  · simp only [Config.after, Task.carryOut, stepOver_waits hc hr hk]
    rfl
  · simp only [Config.after, Task.carryOut, stepOver_concludes hc hr (Nat.le_of_not_lt hk), stepOf_setStep_self hc]
    obtain ⟨ks, howed, -, hks⟩ := hpaced.pace.steps
    rw [owed_of_head] at howed
    cases ks with
    | nil => simp [Task.ending?, Finish.isFor] at howed
    | cons k' ks =>
      simp only [Task.ending?, Option.toList_some, Finish.isFor, decide_true, Bool.and_self, List.filter_cons_of_pos,
        List.filter_nil, List.cons_append, List.map_cons, List.cons.injEq, Finish.sequenceStep.injEq] at howed
      obtain ⟨-, j, hj, hle⟩ := hks k' List.mem_cons_self
      have hbound := hpaced.pace.bound j hj
      rw [hj, nextStep, nextStep]
      obtain ⟨⟨-, -, rfl⟩, -⟩ := howed
      have hlast : j + 1 = r.steps.length := by omega
      simp [hlast]

theorem cycling_carryOut (h : Cycling m slot r.steps.length past ⟨s, t :: rest⟩)
    (hpaced : Paced m slot least r.steps.length ⟨s, t :: rest⟩) (hheld : Held ⟨s, t :: rest⟩) (hseq : IsSequence r kind)
    (hr : Awaits s m slot r) : Cycling m slot r.steps.length (⟨s, t :: rest⟩ :: past) (.after s t rest) := by
  by_cases hact : ∃ anew, t = .act m slot anew
  · obtain ⟨anew, rfl⟩ := hact
    obtain ⟨c, hc⟩ := exists_machine?_of_isLive (isLive_of_held hheld rfl)
    exact cycling_act h hpaced hc (hr.reaction? hc) hseq
  have hact' : ∀ anew, t ≠ .act m slot anew := fun anew heq => hact ⟨anew, heq⟩
  by_cases hstep : ∃ k, t = .stepOver m slot k
  · obtain ⟨k, rfl⟩ := hstep
    obtain ⟨c, hc⟩ := exists_machine?_of_isLive (isLive_of_held hheld rfl)
    exact cycling_stepOver h hpaced hc (hr.reaction? hc)
  · refine h.same (sendsStep?_after hact' fun t ht => hpaced.first t ht) ?_
    rw [show (Config.after s t rest).stage.stepOf m slot = s.stepOf m slot from
      stepOf_carryOut t hact' fun k heq => hstep ⟨k, heq⟩]

end

end

end Stage
open Stage

section
variable {manners : Manners} {m : Nat} {slot : Slot} {r : Reaction} {kind : EffectKind}

/-- **A sequence keeps to its rounds**, at every point of every course. -/
theorem Course.cycling {cs : List Config} (h : Course manners cs) (hseq : IsSequence r kind) : ∀ {c : Config}
    {past : List Config}, cs = c :: past → Awaits c.stage m slot r → Cycling m slot r.steps.length past c := by
  induction h with
  | opened =>
    rintro c past heq -
    cases heq
    exact ⟨rfl, rfl⟩
  | cleared h ih =>
    rintro c past heq hr
    cases heq
    exact (ih rfl hr).same rfl rfl
  | called cue h ih =>
    rintro c past heq hr
    cases heq
    exact (ih rfl hr).same rfl rfl
  | @stepped b c' past' h hstep ih =>
    rintro c past heq hr
    cases heq
    obtain ⟨s, agenda⟩ := b
    cases agenda with
    | nil => cases hstep
    | cons t rest =>
      rw [Config.step?_cons, Option.some.injEq] at hstep
      rw [← hstep] at hr ⊢
      exact cycling_carryOut (ih rfl hr.before) (h.paced hseq hr.before) h.held hseq hr.before

/-- The jobs of a queue that play steps of the sequence are those that were sent, if none was sent elsewhere. -/
theorem step?_queueLog (q : Nat) : ∀ past : List Config,
    (∀ b ∈ past, ∀ p job rest k, b.agenda = .enqueue p job :: rest → job.step? m slot = some k → p = q) →
      (enqueuedJobs (queueLog q past)).filterMap (Job.step? m slot) = sentSteps m slot past
  | [], _ => rfl
  | ⟨s, []⟩ :: past, h => by
    rw [show queueLog q (⟨s, []⟩ :: past) = queueLog q past from List.append_nil _, sentSteps,
      step?_queueLog q past fun b hb => h b (List.mem_cons_of_mem _ hb)]
    exact (List.append_nil _).symm
  | ⟨s, t :: rest⟩ :: past, h => by
    rw [show queueLog q (⟨s, t :: rest⟩ :: past) = queueLog q past ++ Config.queueEvents q ⟨s, t :: rest⟩ from rfl,
      enqueuedJobs_step, List.filterMap_append, sentSteps,
      step?_queueLog q past fun b hb => h b (List.mem_cons_of_mem _ hb)]
    congr 1
    by_cases ht : ∃ p job, t = .enqueue p job
    · obtain ⟨p, job, rfl⟩ := ht
      change _ = (job.step? m slot).toList
      by_cases hp : p = q
      · simp only [queueEvent?, hp, if_true, Option.bind_some, QueueEvent.enqueued?, Option.toList_some]
        cases hk : job.step? m slot <;> simp [hk]
      · cases hk : job.step? m slot with
        | none => simp [queueEvent?, hp]
        | some k => exact absurd (h _ List.mem_cons_self p job rest k rfl hk) hp
    · have hnone : (s.queueEvent? q t).bind QueueEvent.enqueued? = none :=
        Option.eq_none_iff_forall_ne_some.2 fun job hjob => ht ⟨q, job, enqueue_of_enqueued? hjob⟩
      have hsends : Config.sendsStep? m slot ⟨s, t :: rest⟩ = none := by
        cases t with
        | enqueue p job => exact absurd ⟨p, job, rfl⟩ ht
        | _ => rfl
      rw [hnone, hsends]
      rfl

/-- Every step is sent to the queue of the machine. -/
theorem Course.queue_of_step? {c : Config} {past : List Config} (h : Course manners (c :: past)) {machine : Machine}
    (hm : c.stage.machine? m = some machine) (hr : machine.reaction? slot = some r) (hseq : IsSequence r kind) :
    ∀ b ∈ past, ∀ p job rest k, b.agenda = .enqueue p job :: rest → job.step? m slot = some k → p = machine.queue := by
  intro b hb p job rest k hagenda hk
  obtain ⟨later, earlier, rfl⟩ := List.append_of_mem hb
  have hawaits : Awaits c.stage m slot r := .inr (by rw [reactionOf, hm]; exact hr)
  have hpaced : Paced m slot 0 r.steps.length b := (Course.drop (c :: later) h).paced hseq (h.awaits_before hawaits)
  obtain ⟨f, hf, hstep⟩ := Option.bind_eq_some_iff.1 hk
  obtain rfl := isFor_of_step? hstep
  have hp : p = b.stage.home m := hpaced.sent p job rest hagenda (by simp [hf, Finish.isFor])
  -- the step that is sent is noted, so that the machine is there
  obtain ⟨machine', hm'⟩ : ∃ machine', b.stage.machine? m = some machine' := by
    obtain ⟨ks, howed, -, hks⟩ := hpaced.pace.steps
    have hmem : Finish.sequenceStep m slot k ∈ b.owed m slot := by
      rw [Config.owed, hagenda]
      refine List.mem_append_right _ ?_
      simp [Task.sending?, hf, Finish.isFor]
    rw [howed] at hmem
    obtain ⟨k', hk', -⟩ := List.mem_map.1 hmem
    obtain ⟨-, j, hj, -⟩ := hks k' hk'
    obtain ⟨machine', hm', -⟩ := Option.bind_eq_some_iff.1 hj
    exact ⟨machine', hm'⟩
  obtain ⟨machine'', hm'', hmade⟩ := h.machine?_since hm'
  obtain rfl : machine = machine'' := Option.some.inj (hm.symm.trans hm'')
  rw [hp, home, hm', Option.map_some, Option.getD_some]
  exact (congrArg Machine.queue hmade).symm

end

/-! ## The ends of steps -/

namespace Stage

section
variable {m : Nat} {slot : Slot} {s : Stage} {t : Task} {rest : List Task} {r : Reaction} {kind : EffectKind}

/-- A sequence that acts sends a step or does nothing. -/
theorem act_sequence {c : Machine} (hc : s.machine? m = some c) (hr : c.reaction? slot = some r)
    (hseq : IsSequence r kind) : (s.act m slot).2 = [] ∨ ∃ q job, (s.act m slot).2 = [.enqueue q job] := by
  rw [act_eq_runNext hc hr hseq]
  by_cases hlt : nextStep (c.step? slot) < r.steps.length
  · obtain ⟨s', job, -, -, heq⟩ := runNext_sends s m kind hlt
    exact .inr ⟨_, job, by rw [heq]⟩
  · exact .inl (by rw [runNext_over (Nat.le_of_not_lt hlt)])

/-- When the first step is sent, no other is owed. -/
theorem Paced.dues_eq_nil {n : Nat} {c : Config} (h : Paced m slot 0 n c) (hfirst : c.sendsStep? m slot = some 0) :
    c.stage.dues m slot (c.stage.home m) = [] := by
  obtain ⟨f, hf, hstep⟩ := Option.bind_eq_some_iff.1 hfirst
  obtain rfl := isFor_of_step? hstep
  obtain ⟨ks, howed, hks, -⟩ := h.pace.steps
  rw [Config.owed, hf, List.append_assoc] at howed
  obtain ⟨before, ks', rfl, -, hks'⟩ := List.map_eq_append_iff.1 howed.symm
  obtain ⟨front, last, rfl, hfront, hlast⟩ := List.map_eq_append_iff.1 hks'
  cases last with
  | nil => simp [Finish.isFor] at hlast
  | cons k last =>
    simp only [Option.toList_some, Finish.isFor, decide_true, Bool.and_self, List.filter_cons_of_pos, List.filter_nil,
      List.map_cons, List.cons.injEq, Finish.sequenceStep.injEq] at hlast
    obtain ⟨⟨-, -, rfl⟩, -⟩ := hlast
    -- a step that is still owed would come before the first one
    cases front with
    | nil => exact hfront.symm
    | cons j front =>
      have := (List.pairwise_append.1 (List.pairwise_append.1 hks).2.1).2.2 j List.mem_cons_self 0 List.mem_cons_self
      exact absurd this (Nat.not_lt_zero _)

/-- A job that is not due any more is complete. -/
theorem Serial.completed_of_dues {q i : Nat} {log : List QueueEvent} {c : Config} {job : Job} {f : Finish}
    (h : Serial q log c) (hopen : c.stage.isOpen q = true) (hdues : c.stage.dues m slot q = [])
    (hjob : (enqueuedJobs log)[i]? = some job) (hf : job.finish = some f) (hfor : f.isFor m slot = true) :
    .completed (i + 1) ∈ log := by
  have hnot : f ∉ (c.stage.queueAt q).finishes := by
    intro hmem
    have : f ∈ c.stage.dues m slot q := List.mem_filter.2 ⟨hmem, hfor⟩
    rw [hdues] at this
    cases this
  rw [← h.whole (queueAt_open hopen), List.getElem?_append] at hjob
  split at hjob
  · rcases h.completed_of_started hjob with hdone | hrunning
    · exact hdone
    · refine absurd (List.mem_append_left _ ?_) hnot
      rw [hrunning, hf]
      exact List.mem_cons_self
  · exact absurd (List.mem_append_right _ (List.mem_filterMap.2 ⟨job, List.mem_of_getElem? hjob, hf⟩)) hnot

end

end Stage

/-- A sequence of a machine with the queue `q`, at the end of a course.  The number of steps is that of the reaction. -/
structure SequenceRounds (m : Nat) (slot : Slot) (r : Reaction) (q : Nat) (past : List Config) (c : Config) : Prop where
  cell : ∀ k, c.stage.stepOf m slot = some k → k < r.steps.length
  /-- The steps are sent in their order, again and again. -/
  order : sentSteps m slot (c :: past) =
    (List.range (sentSteps m slot (c :: past)).length).map (· % r.steps.length)
  /-- They all go to the queue of the machine. -/
  sent : (enqueuedJobs (queueLog q past)).filterMap (Job.step? m slot) = sentSteps m slot past
  /-- When the first step is sent, all that were sent before are complete. -/
  anew : c.sendsStep? m slot = some 0 → ∀ i job k, (enqueuedJobs (queueLog q past))[i]? = some job →
    job.step? m slot = some k → .completed (i + 1) ∈ queueLog q past
  once : (completions (queueLog q past)).Nodup
  /-- When a step is complete the sequence concludes if it was the last step, and does not if it was not.  The machine
  is held until the last hook has been called. -/
  ends : ∀ token rest, c.agenda = .complete token :: rest → token.queue = q → c.stage.isLive m = true →
    ∃ (i : Nat) (job : Job), token.ticket = i + 1 ∧ (enqueuedJobs (queueLog q past))[i]? = some job ∧
      ∀ k, job.step? m slot = some k → ∃ s, s.stepOf m slot = (if k + 1 = r.steps.length then none
          else c.stage.stepOf m slot) ∧
        Config.run 3 c = ⟨s, (if k + 1 = r.steps.length then [Task.conclude m slot] else []) ++
          .release (.machine m) :: .jobOver q :: .pump q :: .release (.queue q) :: rest⟩
  /-- It concludes at no other time. -/
  only : ∀ rest, c.agenda = .conclude m slot :: rest → c.stage.stepOf m slot = none ∧
    ∃ s₁ s₂ s₃ rest₂ rest₃ token earlier i job k, k + 1 = r.steps.length ∧
      past = ⟨s₁, .stepOver m slot k :: rest⟩ :: ⟨s₂, .finish q (.sequenceStep m slot k) :: rest₂⟩ ::
        ⟨s₃, .complete token :: rest₃⟩ :: earlier ∧
      token.queue = q ∧ token.ticket = i + 1 ∧ (enqueuedJobs (queueLog q earlier))[i]? = some job ∧
      job.step? m slot = some k
  /-- A conclusion is a jump, which is made at once, and then the last hook, which is called when all that the jump
  leads to has been done. -/
  jumps : ∀ later s rest earlier, past = later ++ ⟨s, .conclude m slot :: rest⟩ :: earlier →
    (progress rest [.jump m slot, .hook m r.after slot.state] later).todo ≠ [] →
      ∃ us, c.agenda = us ++ (progress rest [.jump m slot, .hook m r.after slot.state] later).todo ++ rest ∧
        ((progress rest [.jump m slot, .hook m r.after slot.state] later).begun = [] → us = [])
  /-- It jumps at no other time. -/
  jumpsOnly : ∀ rest, c.agenda = .jump m slot :: rest → ∃ rest₀ earlier,
    past = ⟨c.stage, .conclude m slot :: rest₀⟩ :: earlier ∧ rest = .hook m r.after slot.state :: rest₀

section
variable {manners : Manners} {m : Nat} {slot : Slot} {r : Reaction} {kind : EffectKind} {c : Config}
  {past : List Config} {machine : Machine}

theorem Course.completed_before_first (h : Course manners (c :: past)) (hm : c.stage.machine? m = some machine)
    (hr : machine.reaction? slot = some r) (hseq : IsSequence r kind) (hfirst : c.sendsStep? m slot = some 0)
    {i k : Nat} {job : Job} (hjob : (enqueuedJobs (queueLog machine.queue past))[i]? = some job)
    (hk : job.step? m slot = some k) :
    .completed (i + 1) ∈ queueLog machine.queue past := by
  have hpaced : Paced m slot 0 r.steps.length c := h.paced hseq (.inr (by rw [reactionOf, hm]; exact hr))
  have hhome : c.stage.home m = machine.queue := by rw [home, hm]; rfl
  obtain ⟨f, hf, hstep⟩ := Option.bind_eq_some_iff.1 hk
  obtain rfl := isFor_of_step? hstep
  refine (h.serial machine.queue rfl).completed_of_dues ?_ (hhome ▸ hpaced.dues_eq_nil hfirst) hjob hf
    (by simp [Finish.isFor])
  -- the queue that the first step is sent to is in use
  obtain ⟨s, agenda⟩ := c
  cases agenda with
  | nil => cases hfirst
  | cons t rest =>
    cases t with
    | enqueue q job' =>
      obtain ⟨f', hf', hstep'⟩ := Option.bind_eq_some_iff.1 hfirst
      obtain rfl := isFor_of_step? hstep'
      have hq := hpaced.sent q job' rest rfl (by rw [show job'.finish = _ from hf']; simp [Finish.isFor])
      rw [← hhome, ← hq]
      exact isOpen_of_held h.held rfl
    | _ => cases hfirst

/-- When the token of a step is completed, the step is over two tasks later. -/
theorem Course.step_ends {s : Stage} {token : Completion} {rest : List Task}
    (h : Course manners (⟨s, .complete token :: rest⟩ :: past)) (hm : s.machine? m = some machine)
    (hr : machine.reaction? slot = some r) (hseq : IsSequence r kind) (hq : token.queue = machine.queue)
    (hlive : s.isLive m = true) : ∃ (i : Nat) (job : Job), token.ticket = i + 1 ∧
      (enqueuedJobs (queueLog machine.queue past))[i]? = some job ∧
      ∀ k, job.step? m slot = some k → ∃ s', s'.stepOf m slot = (if k + 1 = r.steps.length then none
          else s.stepOf m slot) ∧
        Config.run 3 ⟨s, .complete token :: rest⟩ =
          ⟨s', (if k + 1 = r.steps.length then [Task.conclude m slot] else []) ++ .release (.machine m) ::
            .jobOver machine.queue :: .pump machine.queue :: .release (.queue machine.queue) :: rest⟩ := by
  obtain ⟨i, job, hticket, hjob, hagenda⟩ := h.completing hq (isOpen_of_live h.held hm hlive)
  refine ⟨i, job, hticket, hjob, fun k hk => ?_⟩
  obtain ⟨f, hf, hstep⟩ := Option.bind_eq_some_iff.1 hk
  obtain rfl := isFor_of_step? hstep
  rw [hf] at hagenda
  have hlive' : (s.complete token).1.isLive m = true := by rw [isLive_complete, hlive]
  have hm' : (s.complete token).1.machine? m = some machine := by rw [machine?_complete, hm]
  have hcell : (s.complete token).1.stepOf m slot = s.stepOf m slot := by rw [Stage.stepOf, hm', Stage.stepOf, hm]
  have hafter : Config.after s (.complete token) rest = ⟨(s.complete token).1,
      .finish machine.queue (.sequenceStep m slot k) :: .jobOver machine.queue :: .pump machine.queue ::
        .release (.queue machine.queue) :: rest⟩ := by
    rw [Config.mk.injEq]
    exact ⟨rfl, hagenda⟩
  -- no step is beyond the last one
  have hbound : k < r.steps.length := by
    have hnext : Course manners (Config.after s (.complete token) rest :: ⟨s, .complete token :: rest⟩ :: past) :=
      h.next
    rw [hafter] at hnext
    have hpaced := (hnext.paced hseq (.inr (by rw [reactionOf, hm']; exact hr))).pace
    obtain ⟨ks, howed, -, hks⟩ := hpaced.steps
    have hmem : Finish.sequenceStep m slot k ∈ ks.map (Finish.sequenceStep m slot) := by
      rw [← howed, owed_of_head]
      simp [Task.ending?, Finish.isFor]
    obtain ⟨k', hk', heq⟩ := List.mem_map.1 hmem
    obtain ⟨-, j, hj, hle⟩ := hks k' hk'
    have := hpaced.bound j hj
    cases heq
    omega
  rw [run_succ, hafter, run_succ]
  have hfinish : Config.after (s.complete token).1 (.finish machine.queue (.sequenceStep m slot k))
      (.jobOver machine.queue :: .pump machine.queue :: .release (.queue machine.queue) :: rest) =
      ⟨(s.complete token).1, .stepOver m slot k :: .release (.machine m) :: .jobOver machine.queue ::
        .pump machine.queue :: .release (.queue machine.queue) :: rest⟩ := by
    simp only [Config.after, Task.carryOut, finish, hlive', if_true, List.cons_append, List.nil_append]
  rw [hfinish, run_succ, Config.run]
  by_cases hlast : k + 1 = r.steps.length
  · have hover := stepOver_concludes (k := k) hm' hr (by omega)
    refine ⟨((s.complete token).1.stepOver m slot k).1, ?_, ?_⟩
    · rw [if_pos hlast, hover, stepOf_setStep_self hm']
    · simp only [Config.after, Task.carryOut, hover, if_pos hlast]
  · have hover := stepOver_waits (k := k) hm' hr (by omega)
    refine ⟨((s.complete token).1.stepOver m slot k).1, ?_, ?_⟩
    · rw [if_neg hlast, hover]
      exact hcell
    · simp only [Config.after, Task.carryOut, hover, if_neg hlast]

/-- A sequence concludes because its last step is over, which is because the token of that step has been completed. -/
theorem Course.concludes_sequence {s : Stage} {rest : List Task}
    (h : Course manners (⟨s, .conclude m slot :: rest⟩ :: past)) (hm : s.machine? m = some machine)
    (hr : machine.reaction? slot = some r) (hseq : IsSequence r kind) : s.stepOf m slot = none ∧
      ∃ s₁ s₂ s₃ rest₂ rest₃ token earlier i job k, k + 1 = r.steps.length ∧
        past = ⟨s₁, .stepOver m slot k :: rest⟩ :: ⟨s₂, .finish machine.queue (.sequenceStep m slot k) :: rest₂⟩ ::
          ⟨s₃, .complete token :: rest₃⟩ :: earlier ∧
        token.queue = machine.queue ∧ token.ticket = i + 1 ∧
        (enqueuedJobs (queueLog machine.queue earlier))[i]? = some job ∧ job.step? m slot = some k := by
  have hawaits : Awaits s m slot r := .inr (by rw [reactionOf, hm]; exact hr)
  refine ⟨(h.paced hseq hawaits).concluded rest rfl, ?_⟩
  rcases h.before_conclude with ⟨s₀, anew, earlier, rfl, hact⟩ | ⟨q, rest₀, earlier, rfl, -⟩ |
    ⟨s₁, k, earlier, rfl, hover⟩
  · obtain ⟨machine', hm', hr'⟩ := h.tail.reaction_before (h.awaits_last hawaits) rfl
    rcases act_sequence hm' hr' hseq with heq | ⟨q, job, heq⟩ <;> rw [hact] at heq <;> cases heq
  · -- the last effect of another reaction would be owed
    obtain ⟨ks, howed, -, -⟩ := (h.tail.paced hseq hawaits).pace.steps
    rw [owed_of_head] at howed
    have hmem : Finish.reaction m slot ∈ ks.map (Finish.sequenceStep m slot) := by
      rw [← howed]
      simp [Task.ending?, Finish.isFor]
    obtain ⟨k, -, heq⟩ := List.mem_map.1 hmem
    cases heq
  · have hawaits₁ := h.awaits_last hawaits
    obtain ⟨machine', hm', hr'⟩ := h.tail.reaction_before hawaits₁ rfl
    have hlast : k + 1 = r.steps.length := by
      have hle : ¬ k < r.steps.length - 1 := by
        intro hlt
        rw [stepOver_waits hm' hr' hlt] at hover
        cases hover
      have hpaced := (h.tail.paced hseq hawaits₁).pace
      obtain ⟨ks, howed, -, hks⟩ := hpaced.steps
      have hmem : Finish.sequenceStep m slot k ∈ ks.map (Finish.sequenceStep m slot) := by
        rw [← howed, owed_of_head]
        simp [Task.ending?, Finish.isFor]
      obtain ⟨k', hk', heq⟩ := List.mem_map.1 hmem
      obtain ⟨-, j, hj, hj'⟩ := hks k' hk'
      have := hpaced.bound j hj
      cases heq
      omega
    obtain ⟨q, rest₂, earlier₂, rfl, -⟩ := h.tail.before_stepOver
    obtain ⟨s₃, token, rest₃, earlier₃, i, job, rfl, htoken, -, hticket, hjob, hf⟩ := h.tail.tail.before_finish
    have hk : job.step? m slot = some k := by rw [Job.step?, hf]; exact step?_self m slot k
    obtain rfl : q = machine.queue := by
      obtain ⟨later, s₄, rest₄, earlier₄, rfl, -⟩ := exists_enqueue hjob
      exact h.queue_of_step? hm hr hseq ⟨s₄, .enqueue q job :: rest₄⟩ (by simp) q job rest₄ k rfl hk
    exact ⟨s₁, s₁, s₃, rest₂, rest₃, token, earlier₃, i, job, k, hlast, rfl, htoken, hticket, hjob, hk⟩

/-- **A sequence runs its steps in rounds.**  Whatever the host dispatches from inside its calls, however often the
reaction is fired, wherever the machine goes and whenever frames come, the steps are sent in their order, again and
again; the first is sent anew only when the last is complete; and the reaction is concluded, by its jump and then its
last hook, exactly when a last step is complete while the machine is in use, with no step noted any more. -/
theorem sequence_runs_in_rounds (h : Course manners (c :: past)) (hm : c.stage.machine? m = some machine)
    (hr : machine.reaction? slot = some r) (hseq : IsSequence r kind) :
    SequenceRounds m slot r machine.queue past c := by
  have hawaits : Awaits c.stage m slot r := .inr (by rw [reactionOf, hm]; exact hr)
  obtain ⟨s, agenda⟩ := c
  exact {
    cell := (h.paced hseq hawaits).pace.bound
    order := (h.cycling hseq rfl hawaits).order
    sent := step?_queueLog machine.queue past (h.queue_of_step? hm hr hseq)
    anew := fun hfirst i job k hjob hk => h.completed_before_first hm hr hseq hfirst hjob hk
    once := (h.serial machine.queue rfl).nodup_completions
    ends := by
      rintro token rest rfl hq hlive
      exact h.step_ends hm hr hseq hq hlive
    only := by
      rintro rest rfl
      exact h.concludes_sequence hm hr hseq
    jumps := by
      rintro later s' rest earlier rfl htodo
      exact h.jump_and_hook hawaits htodo
    jumpsOnly := by
      rintro rest rfl
      exact h.conclusion_before_jump hawaits (Reaction.hasAction_of_steps hseq.2) }

end

/-- The duet is played once, and clicked again. -/
def duetAgain : List Config :=
  duetPlayed [.dispatch ⟨1⟩ "animationend", .tick, .dispatch ⟨1⟩ "animationend", .dispatch ⟨1⟩ "click"]

/-- The token of the second animation is about to be completed. -/
def duetEnding : List Config :=
  Course.play 7 (duetPlayed [.dispatch ⟨1⟩ "animationend", .tick]) (.dispatch ⟨1⟩ "animationend")

set_option maxRecDepth 1024 in
/-- The second round of the duet begins with its first animation, and the first round was concluded when its second
animation ended. -/
theorem sequence_runs_in_rounds_duet : (∃ c past, duetAgain = c :: past ∧
      sentSteps 0 ⟨"stage", 0⟩ (c :: past) = [0, 1, 0] ∧ SequenceRounds 0 ⟨"stage", 0⟩ duet 0 past c) ∧
    ∃ c past token rest s, duetEnding = c :: past ∧ c.agenda = .complete token :: rest ∧ token.ticket = 2 ∧
      s.stepOf 0 ⟨"stage", 0⟩ = none ∧ Config.run 3 c = ⟨s, .conclude 0 ⟨"stage", 0⟩ :: .release (.machine 0) ::
        .jobOver 0 :: .pump 0 :: .release (.queue 0) :: rest⟩ := by
  have hseq : IsSequence duet .animate := ⟨rfl, by decide⟩
  constructor
  · obtain ⟨c, past, machine, hcs, hm, hr, hqueue, hsent⟩ : ∃ c past machine, duetAgain = c :: past ∧
        c.stage.machine? 0 = some machine ∧ machine.reaction? ⟨"stage", 0⟩ = some duet ∧ machine.queue = 0 ∧
        sentSteps 0 ⟨"stage", 0⟩ (c :: past) = [0, 1, 0] := ⟨_, _, _, rfl, rfl, rfl, rfl, by decide⟩
    have hcourse : Course {} (c :: past) := hcs ▸ Course.plays {} 40 _ .opened
    have hrounds := sequence_runs_in_rounds hcourse hm hr hseq
    rw [hqueue] at hrounds
    exact ⟨c, past, hcs, hsent, hrounds⟩
  · obtain ⟨c, past, machine, token, rest, hcs, hm, hr, hqueue, hagenda, hq, hticket, hlive, hplays⟩ :
        ∃ c past machine token rest, duetEnding = c :: past ∧ c.stage.machine? 0 = some machine ∧
        machine.reaction? ⟨"stage", 0⟩ = some duet ∧ machine.queue = 0 ∧ c.agenda = .complete token :: rest ∧
        token.queue = machine.queue ∧ token.ticket = 2 ∧ c.stage.isLive 0 = true ∧
        (enqueuedJobs (queueLog machine.queue past)).map (Job.step? 0 ⟨"stage", 0⟩) = [some 0, some 1] :=
      ⟨_, _, _, _, _, rfl, rfl, rfl, rfl, rfl, rfl, rfl, rfl, by decide⟩
    have hcourse : Course {} (c :: past) := hcs ▸ Course.play_course 7 (Course.plays {} 40 _ .opened)
      (.dispatch ⟨1⟩ "animationend")
    obtain ⟨i, job, hi, hjob, hends⟩ := (sequence_runs_in_rounds hcourse hm hr hseq).ends token rest hagenda hq hlive
    obtain rfl : i = 1 := by omega
    have hk : Job.step? 0 ⟨"stage", 0⟩ job = some 1 := by
      have := congrArg (·[1]?) hplays
      rw [List.getElem?_map, hjob] at this
      exact Option.some.inj this
    obtain ⟨s, hcell, hrun⟩ := hends 1 hk
    rw [hqueue] at hrun
    exact ⟨c, past, token, rest, s, hcs, hagenda, hticket, hcell, hrun⟩

end Stagecraft
