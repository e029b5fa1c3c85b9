import Stagecraft.Proofs.Stage.Listening
import Stagecraft.Proofs.Stage.Owed
/-!
# Whose queue it is

A machine has a queue to itself: no other machine sends jobs to it, and no name leads to it.  So whatever is in it
plays an effect of the machine on the element of the machine.
-/
namespace Stagecraft

/-- The machine makes this job to play an effect, whatever is to be done at its end. -/
def Machine.Sends (c : Machine) (job : Job) : Prop :=
  ∃ e, Stage.job? c.settings c.element e = some { job with finish := none }

/-- The job plays an effect as it is planned, and is called as the effect is written. -/
theorem Machine.Sends.effect {c : Machine} {job : Job} (h : c.Sends job) :
    ∃ e p, Stage.plan? c.settings c.element e = some p ∧ job.label = e.source ∧ job.body = .effect p := by
  obtain ⟨e, he⟩ := h
  obtain ⟨p, hp, heq⟩ := Option.map_eq_some_iff.1 he
  exact ⟨e, p, hp, (congrArg Job.label heq).symm, (congrArg Job.body heq).symm⟩

theorem Machine.Sends.isEffect {c : Machine} {job : Job} (h : c.Sends job) : job.isEffect = true := by
  obtain ⟨e, p, -, -, hbody⟩ := h.effect
  rw [Job.isEffect, hbody]

namespace Stage

/-- Each machine has a queue, which no other machine and no name has. -/
structure Owned (s : Stage) : Prop where
  there : ∀ m c, s.machine? m = some c → c.queue < s.queues.length
  own : ∀ m n c d, s.machine? m = some c → s.machine? n = some d → c.queue = d.queue → m = n
  unnamed : ∀ m c, s.machine? m = some c → c.queue ∉ s.queueNames.values

section
variable {s s' : Stage} {t : Task} {rest : List Task}

theorem lt_of_isOpen {q : Nat} (h : s.isOpen q = true) : q < s.queues.length := by
  obtain ⟨c, hc, -⟩ := exists_queue?_of_isOpen h
  exact (List.getElem?_eq_some_iff.1 hc).1

/-- Machines keep their queues, and only a new queue gets a name. -/
theorem Owned.of_kept (h : Owned s) (hm : ∀ m c', s'.machine? m = some c' → ∃ c, s.machine? m = some c ∧
    c'.queue = c.queue) (hq : s.queues.length ≤ s'.queues.length)
    (hn : ∀ q ∈ s'.queueNames.values, q ∈ s.queueNames.values ∨ s.queues.length ≤ q) : Owned s' where
  there m c' hc' := by
    obtain ⟨c, hc, hqueue⟩ := hm m c' hc'
    exact hqueue ▸ Nat.lt_of_lt_of_le (h.there m c hc) hq
  own m n c' d' hc' hd' heq := by
    obtain ⟨c, hc, hcqueue⟩ := hm m c' hc'
    obtain ⟨d, hd, hdqueue⟩ := hm n d' hd'
    exact h.own m n c d hc hd (hcqueue ▸ hdqueue ▸ heq)
  unnamed m c' hc' hmem := by
    obtain ⟨c, hc, hqueue⟩ := hm m c' hc'
    rcases hn _ hmem with hmem | hle
    · exact h.unnamed m c hc (hqueue ▸ hmem)
    · exact Nat.not_lt_of_le hle (hqueue ▸ h.there m c hc)

theorem exists_machine?_of_made (h : Agree s s' .makes) {m : Nat} {c' : Machine} (hc' : s'.machine? m = some c') :
    ∃ c, s.machine? m = some c ∧ c'.made = c.made := by
  have hm := machine?_made h m
  rw [hc', Option.map_some, eq_comm, Option.map_eq_some_iff] at hm
  obtain ⟨c, hc, hmade⟩ := hm
  exact ⟨c, hc, hmade.symm⟩

theorem length_queues_of_closings (h : Agree s s' .closings) : s'.queues.length = s.queues.length := by
  have hlen := congrArg List.length (show s'.queues.map JobQueue.closed = s.queues.map JobQueue.closed from h)
  simpa only [List.length_map] using hlen

/-- A machine is built with the next queue. -/
theorem machine?_of_build {name : String} {el : ElementId} {settings : Settings} {hooked : Bool}
    {states : List Declaration} {m : Nat} {c : Machine}
    (hc : (s.build name el settings hooked states).1.machine? m = some c) :
    s.machine? m = some c ∨ (m = s.machines.length ∧ c.queue = s.queues.length ∧
      (s.build name el settings hooked states).1.queues = s.queues ++ [JobQueue.empty]) := by
  unfold build at hc ⊢
  split
  · rename_i hhosted
    rw [if_pos hhosted] at hc
    have h := undisturbed_declared el states s
    revert hc h
    generalize states.foldl (fun s d => s.notifyAll (d.notices el)) s = s'
    intro hc h
    rw [show
      ((s'.addMachine el settings hooked (states.foldl declare [])).castAs name s'.machines.length).1.machine? m =
        (s'.addMachine el settings hooked (states.foldl declare [])).machine? m from rfl, machine?_addMachine] at hc
    split at hc
    · rename_i hm
      cases hc
      refine .inr ⟨by rw [hm, h.machines], by rw [← h.queues]; rfl, ?_⟩
      rw [← h.queues]
      rfl
    · exact .inl (by rw [← h.machine? m, hc])
  · rename_i hhosted
    rw [if_neg hhosted] at hc
    exact .inl hc

/-- A machine was built as it is, or it is built now. -/
theorem machine?_before (s : Stage) (t : Task) (rest : List Task) {m : Nat} {c : Machine}
    (hc : (t.carryOut s rest).1.machine? m = some c) :
    (∃ c', s.machine? m = some c' ∧ c.made = c'.made) ∨
      (∃ name el settings hooked states, t = .cue (.build name el settings hooked states)) ∧
        c.queue = s.queues.length := by
  by_cases ht : .makes ∈ t.touches
  · cases t with
    | cue cue =>
      cases cue with
      | build name el settings hooked states =>
        rcases machine?_of_build hc with hc | ⟨-, hqueue, -⟩
        · exact .inl ⟨c, hc, rfl⟩
        · exact .inr ⟨⟨name, el, settings, hooked, states, rfl⟩, hqueue⟩
      | _ => simp [Task.touches, Cue.touches] at ht
    | release hold => cases hold <;> simp [Task.touches] at ht
    | _ => simp [Task.touches] at ht
  · exact .inl (exists_machine?_of_made ((within_carryOut s rest t).touched.agree .makes ht) hc)

theorem queues_build (s : Stage) (name : String) (el : ElementId) (settings : Settings) (hooked : Bool)
    (states : List Declaration) : ((s.build name el settings hooked states).1.queues = s.queues ∨
      (s.build name el settings hooked states).1.queues = s.queues ++ [JobQueue.empty]) ∧
      (s.build name el settings hooked states).1.queueNames = s.queueNames := by
  unfold build
  split
  · have h := undisturbed_declared el states s
    revert h
    generalize states.foldl (fun s d => s.notifyAll (d.notices el)) s = s'
    intro h
    refine ⟨.inr ?_, h.queueNames⟩
    rw [← h.queues]
    rfl
  · exact ⟨.inl rfl, rfl⟩

theorem owned_build {name : String} {el : ElementId} {settings : Settings} {hooked : Bool} {states : List Declaration}
    (h : Owned s) (hnames : ∀ q ∈ s.queueNames.values, q < s.queues.length) :
    Owned (s.build name el settings hooked states).1 := by
  obtain ⟨hqueues, hqueueNames⟩ := queues_build s name el settings hooked states
  have hlen : s.queues.length ≤ (s.build name el settings hooked states).1.queues.length := by
    rcases hqueues with hqueues | hqueues <;> simp [hqueues]
  refine ⟨fun m c hc => ?_, fun m n c d hc hd heq => ?_, fun m c hc hmem => ?_⟩
  · rcases machine?_of_build hc with hc | ⟨-, hqueue, hqueues⟩
    · exact Nat.lt_of_lt_of_le (h.there m c hc) hlen
    · rw [hqueue, hqueues, List.length_append]
      exact Nat.lt_succ_self _
  · rcases machine?_of_build hc with hc | ⟨hm, hcqueue, -⟩
    · rcases machine?_of_build hd with hd | ⟨-, hdqueue, -⟩
      · exact h.own m n c d hc hd heq
      · exact absurd (hdqueue ▸ heq ▸ h.there m c hc) (Nat.lt_irrefl _)
    · rcases machine?_of_build hd with hd | ⟨hn, -, -⟩
      · exact absurd (hcqueue ▸ heq ▸ h.there n d hd) (Nat.lt_irrefl _)
      · exact hm.trans hn.symm
  · rw [hqueueNames] at hmem
    rcases machine?_of_build hc with hc | ⟨-, hqueue, -⟩
    · exact h.unnamed m c hc hmem
    · exact Nat.lt_irrefl _ (hqueue ▸ hnames _ hmem)

theorem owned_after (h : Owned s) (hheld : Held ⟨s, t :: rest⟩) : Owned (t.carryOut s rest).1 := by
  have hother : .makes ∉ t.touches → .closings ∉ t.touches ∨ t.kind = .release → .queueNames ∉ t.touches →
      Owned (t.carryOut s rest).1 := by
    intro hm hc hn
    have hagree := (within_carryOut s rest t).touched.agree
    refine h.of_kept (fun m c' hc' => ?_) ?_ fun q hq => ?_
    · obtain ⟨c, hc, hmade⟩ := exists_machine?_of_made (hagree .makes hm) hc'
      exact ⟨c, hc, (congrArg Machine.queue hmade :)⟩
    · rcases hc with hc | hkind
      · exact Nat.le_of_eq (length_queues_of_closings (hagree .closings hc)).symm
      · cases t with
        | release hold =>
          cases hold with
          | queue q =>
            simp only [Task.carryOut, release]
            split
            · exact Nat.le_refl _
            · simp [mapQueue]
          | machine m =>
            exact Nat.le_of_eq (length_queues_of_closings (hagree .closings (by simp [Task.touches]))).symm
          | host => exact Nat.le_refl _
        | _ => cases hkind
    · rw [show _ = s.queueNames from hagree .queueNames hn] at hq
      exact .inl hq
  cases t with
  | cue c =>
    have hnames : ∀ q ∈ s.queueNames.values, q < s.queues.length := fun q hq => lt_of_isOpen (hheld.queues q (.inl hq))
    cases c with
    | build name el settings hooked states => exact owned_build h hnames
    | queue name =>
      refine h.of_kept (fun m c hc => ⟨c, hc, rfl⟩) ?_ fun q hq => ?_
      · simp [Task.carryOut, follow, nameQueue]
      · exact (Registry.mem_values_put hq).imp_right fun heq => Nat.le_of_eq heq.symm
    | queueClone name copy =>
      simp only [Task.carryOut, follow]
      split
      · rename_i q hq
        refine h.of_kept (fun m c hc => ⟨c, hc, rfl⟩) (Nat.le_refl _) fun p hp => .inl ?_
        exact (Registry.mem_values_put hp).elim id fun heq => heq ▸ Registry.mem_values_of_get? hq
      · exact h.of_kept (fun m c hc => ⟨c, hc, rfl⟩) (Nat.le_refl _) fun q hq => .inl hq
    | queueDrop name =>
      simp only [Task.carryOut, follow]
      split
      · exact h.of_kept (fun m c hc => ⟨c, hc, rfl⟩) (Nat.le_refl _) fun p hp =>
          .inl (Registry.mem_values_of_mem_erase hp)
      · exact h.of_kept (fun m c hc => ⟨c, hc, rfl⟩) (Nat.le_refl _) fun q hq => .inl hq
    | _ =>
      exact hother (by simp [Task.touches, Cue.touches]) (.inl (by simp [Task.touches, Cue.touches]))
        (by simp [Task.touches, Cue.touches])
  | release hold =>
    exact hother (by cases hold <;> simp [Task.touches]) (.inr rfl) (by cases hold <;> simp [Task.touches])
  | _ => exact hother (by simp [Task.touches]) (.inl (by simp [Task.touches])) (by simp [Task.touches])

/-! ## What is sent -/

theorem sends_of_mem_jobs (c : Machine) : ∀ (actions : List String) (s : Stage), ∀ job ∈ (s.jobs c actions).2,
    c.Sends job
  | [], _, _, hjob => by cases hjob
  | action :: actions, s, job, hjob => by
    unfold jobs at hjob
    split at hjob
    · exact sends_of_mem_jobs c actions _ job hjob
    · rename_i e _
      rcases List.mem_append.1 hjob with hjob | hjob
      · have hjob := Option.mem_toList.1 hjob
        refine ⟨e, hjob.trans (congrArg some ?_)⟩
        rw [← finish_of_job? hjob]
      · exact sends_of_mem_jobs c actions _ job hjob

theorem sends_of_mem_withFinish {c : Machine} {f : Finish} : ∀ {jobs : List Job}, (∀ job ∈ jobs, c.Sends job) →
    ∀ job ∈ withFinish f jobs, c.Sends job
  | [], _, _, hjob => by cases hjob
  | [j], h, job, hjob => by
    obtain ⟨e, he⟩ := h j List.mem_cons_self
    rw [List.mem_singleton.1 hjob]
    exact ⟨e, he⟩
  | j :: k :: jobs, h, job, hjob => by
    rcases List.mem_cons.1 hjob with rfl | hjob
    · exact h _ List.mem_cons_self
    · exact sends_of_mem_withFinish (fun j hj => h j (List.mem_cons_of_mem _ hj)) job hjob

/-- What a machine sends goes to its own queue. -/
theorem sends_act {m : Nat} {slot : Slot} {q : Nat} {job : Job} (h : .enqueue q job ∈ (s.act m slot).2) :
    ∃ c, s.machine? m = some c ∧ q = c.queue ∧ c.Sends job := by
  unfold act at h
  split at h
  · cases h
  · rename_i c hc
    refine ⟨c, hc, ?_⟩
    split at h
    · cases h
    · rename_i r _
      split at h
      · cases List.mem_singleton.1 h
      · split at h
        · have hjobs := sends_of_mem_jobs c r.actions s
          unfold runAll at h
          split at h
          · cases List.mem_singleton.1 h
          · rename_i js _ heq
            rw [heq] at hjobs
            obtain ⟨j, hj, heq⟩ := List.mem_map.1 h
            cases heq
            exact ⟨rfl, sends_of_mem_withFinish hjobs job hj⟩
        · unfold runNext at h
          simp only at h
          split at h
          · cases h
          · split at h
            · cases h
            · rename_i e _ j hj
              cases List.mem_singleton.1 h
              refine ⟨rfl, _, hj.trans (congrArg some ?_)⟩
              rw [← finish_of_job? hj]

theorem named_of_submit {queue : String} {job job' : Job} {q : Nat} (h : .enqueue q job' ∈ (s.submit queue job).2) :
    q ∈ s.queueNames.values := by
  unfold submit at h
  split at h
  · cases h
  · rename_i p hp
    simp only [List.mem_cons, Task.enqueue.injEq, List.not_mem_nil, or_false, reduceCtorEq] at h
    rw [h.1]
    exact Registry.mem_values_of_get? hp

/-- What is sent from outside goes to a queue with a name. -/
theorem named_follow {c : Cue} {q : Nat} {job : Job} (h : .enqueue q job ∈ (s.follow c).2) :
    q ∈ s.queueNames.values := by
  have hkind := (within_follow s c).kinds _ h
  cases c with
  | enqueue => exact named_of_submit h
  | effectJob queue effect el settings finish =>
    simp only [follow, submitEffect] at h
    split at h
    · split at h
      · cases h
      · rename_i e _
        have hu := undisturbed_prepare s settings e
        split at h
        · cases h
        · rw [← hu.queueNames]
          exact named_of_submit h
    · cases h
  | _ => simp [Cue.leaves, Task.kind] at hkind

/-- **Only the machine itself sends jobs to its queue.** -/
theorem sends_carryOut {m : Nat} {c : Machine} {job : Job} (h : Owned s) (hc : s.machine? m = some c)
    (hleft : .enqueue c.queue job ∈ (t.carryOut s rest).2) : c.Sends job := by
  have hkind := (within_carryOut s rest t).kinds _ hleft
  cases t with
  | cue cue => exact absurd (named_follow hleft) (h.unnamed m c hc)
  | act n slot anew =>
    obtain ⟨d, hd, hq, hsends⟩ := sends_act hleft
    obtain rfl := h.own m n c d hc hd hq
    rwa [Option.some.inj (hc.symm.trans hd)]
  | release hold => cases hold <;> simp [Task.leaves, Task.kind] at hkind
  | _ => simp [Task.leaves, Task.kind] at hkind

end

end Stage
open Stage

theorem Course.owned {manners : Manners} {c : Config} {past : List Config} (h : Course manners (c :: past)) :
    Owned c.stage := by
  refine Course.invariant (I := fun c => Owned c.stage) (P := fun _ => True) ?_ (fun s hs => ?_) (fun s cue hs => hs)
    (fun s t rest past hcourse _ hc => owned_after hc hcourse.held) h fun _ _ => trivial
  · exact ⟨fun m c hc => (by cases hc), fun m n c d hc => (by cases hc), fun m c hc => (by cases hc)⟩
  · exact ⟨hs.there, hs.own, hs.unnamed⟩

end Stagecraft
