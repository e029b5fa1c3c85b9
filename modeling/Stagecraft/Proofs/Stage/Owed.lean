import Stagecraft.Proofs.Stage.Queue
import Stagecraft.Proofs.State.Steps
/-!
# What is owed to a sequence

A step of a sequence that has been sent to the queue of its machine owes an end to the sequence.  The ends come in the
order of the steps, and none is owed for a step beyond the one that the machine has noted; so when the last step ends,
nothing more is owed.
-/
namespace Stagecraft

/-- Whether it is a job of the reaction that ends. -/
def Finish.isFor (m : Nat) (slot : Slot) : Finish → Bool
  | .reaction n other => n = m && other = slot
  | .sequenceStep n other _ => n = m && other = slot
  | .outside .. => false

/-- What is to be done at the ends of the jobs of a queue, in this order. -/
def JobQueue.finishes (c : JobQueue) : List Finish :=
  (c.running.bind Running.finish).toList ++ c.waiting.filterMap Job.finish

namespace Task

/-- The end of a job that a task deals with. -/
def ending? : Task → Option Finish
  | .finish _ f => some f
  | .stepOver m slot k => some (.sequenceStep m slot k)
  | _ => none

/-- The end of a job that a task sends to a queue. -/
def sending? : Task → Option Finish
  | .enqueue _ job => job.finish
  | _ => none

/-- Whether a task sends a job of the reaction or deals with the end of one. -/
def owes (m : Nat) (slot : Slot) : Task → Bool
  | .finish _ f => f.isFor m slot
  | .enqueue _ job => job.finish.any (Finish.isFor m slot)
  | .stepOver n other _ => n = m && other = slot
  | .conclude n other => n = m && other = slot
  | _ => false

end Task

namespace Stage

/-- The queue of a machine. -/
def home (s : Stage) (m : Nat) : Nat := ((s.machine? m).map Machine.queue).getD 0

/-- The step of a sequence that was started last. -/
def stepOf (s : Stage) (m : Nat) (slot : Slot) : Option Nat := (s.machine? m).bind fun c => c.step? slot

def reactionOf (s : Stage) (m : Nat) (slot : Slot) : Option Reaction := (s.machine? m).bind fun c => c.reaction? slot

/-- Whether a task runs the reaction, sends a job of it, or deals with the end of one. -/
def concerns (s : Stage) (m : Nat) (slot : Slot) : Task → Bool
  | .enqueue _ job => job.finish.any (Finish.isFor m slot)
  | .complete token =>
    s.isOpen token.queue &&
      ((s.queue? token.queue).bind (·.takeFinish? token.ticket)).any fun (f, _) => f.any (Finish.isFor m slot)
  | .finish _ f => s.isLive m && f.isFor m slot
  | .act n other _ => n = m && other = slot
  | .stepOver n other _ => n = m && other = slot
  | _ => false

/-- The ends of jobs of the reaction that a queue has still to deal with. -/
def dues (s : Stage) (m : Nat) (slot : Slot) (q : Nat) : List Finish :=
  (s.queueAt q).finishes.filter (Finish.isFor m slot)

end Stage

/-- The ends that are still owed to a reaction: the one being dealt with, those in the queue, and the one being sent. -/
def Config.owed (m : Nat) (slot : Slot) (c : Config) : List Finish :=
  (c.agenda.head?.bind Task.ending?).toList.filter (Finish.isFor m slot) ++ c.stage.dues m slot (c.stage.home m) ++
    (c.agenda.head?.bind Task.sending?).toList.filter (Finish.isFor m slot)

namespace Stage

/-- The number of the step that a sequence runs next. -/
def nextStep (cell : Option Nat) : Nat := (cell.map (· + 1)).getD 0

/-- The ends are those of steps, one after another, from `least` on up to the step that was started last. -/
structure Pace (m : Nat) (slot : Slot) (least n : Nat) (cell : Option Nat) (owed : List Finish) : Prop where
  steps : ∃ ks : List Nat, owed = ks.map (.sequenceStep m slot) ∧ ks.Pairwise (· < ·) ∧
    ∀ k ∈ ks, least ≤ k ∧ ∃ j, cell = some j ∧ k ≤ j
  bound : ∀ j, cell = some j → j < n

structure Paced (m : Nat) (slot : Slot) (least n : Nat) (c : Config) : Prop where
  pace : Pace m slot least n (c.stage.stepOf m slot) (c.owed m slot)
  elsewhere : ∀ q, q ≠ c.stage.home m → c.stage.dues m slot q = []
  /-- The end of a job is dealt with at once. -/
  first : ∀ t ∈ c.agenda.tail, t.owes m slot = false
  sent : ∀ q job rest, c.agenda = .enqueue q job :: rest → job.finish.any (Finish.isFor m slot) = true →
    q = c.stage.home m
  concluded : ∀ rest, c.agenda = .conclude m slot :: rest → c.stage.stepOf m slot = none

section
variable {m : Nat} {slot : Slot} {least n : Nat} {cell : Option Nat} {owed owed' : List Finish}

theorem Pace.sublist (h : Pace m slot least n cell owed) (hs : owed'.Sublist owed) :
    Pace m slot least n cell owed' := by
  obtain ⟨ks, rfl, hlt, hle⟩ := h.steps
  obtain ⟨ks', hks, rfl⟩ := List.sublist_map_iff.1 hs
  exact ⟨⟨ks', rfl, hlt.sublist hks, fun k hk => hle k (hks.subset hk)⟩, h.bound⟩

theorem Pace.mono {less : Nat} (h : Pace m slot least n cell owed) (hle : less ≤ least) :
    Pace m slot less n cell owed := by
  obtain ⟨ks, heq, hlt, hks⟩ := h.steps
  exact ⟨⟨ks, heq, hlt, fun k hk => ⟨Nat.le_trans hle (hks k hk).1, (hks k hk).2⟩⟩, h.bound⟩

theorem Pace.nil (h : ∀ j, cell = some j → j < n) : Pace m slot least n cell [] :=
  ⟨⟨[], rfl, .nil, fun _ hk => by cases hk⟩, h⟩

/-- A sequence that notes no step is owed nothing. -/
theorem Pace.eq_nil (h : Pace m slot least n none owed) : owed = [] := by
  obtain ⟨ks, rfl, -, hle⟩ := h.steps
  cases ks with
  | nil => rfl
  | cons k ks =>
    obtain ⟨-, j, hj, -⟩ := hle k List.mem_cons_self
    cases hj

/-- The next step is sent behind all that is owed. -/
theorem Pace.next (h : Pace m slot least n cell owed) (hleast : least ≤ nextStep cell) (hn : nextStep cell < n) :
    Pace m slot least n (some (nextStep cell)) (owed ++ [.sequenceStep m slot (nextStep cell)]) := by
  obtain ⟨ks, rfl, hlt, hle⟩ := h.steps
  have hbelow : ∀ k ∈ ks, k < nextStep cell := by
    intro k hk
    obtain ⟨-, j, rfl, hkj⟩ := hle k hk
    exact Nat.lt_succ_of_le hkj
  refine ⟨⟨ks ++ [nextStep cell], by rw [List.map_append]; rfl, ?_, fun k hk => ?_⟩, fun j hj => ?_⟩
  · rw [List.pairwise_append]
    exact ⟨hlt, List.pairwise_singleton _ _, fun k hk j hj => by rw [List.mem_singleton.1 hj]; exact hbelow k hk⟩
  · rcases List.mem_append.1 hk with hk | hk
    · exact ⟨(hle k hk).1, _, rfl, Nat.le_of_lt (hbelow k hk)⟩
    · rw [List.mem_singleton.1 hk]
      exact ⟨hleast, _, rfl, Nat.le_refl _⟩
  · rw [← Option.some.inj hj]
    exact hn

/-- When the last step ends nothing more is owed. -/
theorem Pace.last {k : Nat} (h : Pace m slot least n cell (.sequenceStep m slot k :: owed)) (hk : n - 1 ≤ k) :
    owed = [] := by
  obtain ⟨ks, heq, hlt, hle⟩ := h.steps
  cases ks with
  | nil => cases heq
  | cons j ks =>
    rw [List.map_cons, List.cons.injEq, Finish.sequenceStep.injEq] at heq
    obtain ⟨⟨-, -, rfl⟩, rfl⟩ := heq
    cases ks with
    | nil => rfl
    | cons i ks =>
      have hki := (List.pairwise_cons.1 hlt).1 i List.mem_cons_self
      obtain ⟨-, j, hj, hij⟩ := hle i (List.mem_cons_of_mem _ List.mem_cons_self)
      have := h.bound j hj
      omega

/-- No end is owed for a step beyond the one that was started last. -/
theorem Pace.beyond {j : Nat} (h : Pace m slot (j + 1) n (some j) owed) : owed = [] := by
  obtain ⟨ks, rfl, -, hle⟩ := h.steps
  cases ks with
  | nil => rfl
  | cons k ks =>
    obtain ⟨hjk, j', hj, hkj⟩ := hle k List.mem_cons_self
    rw [Option.some.injEq] at hj
    omega

/-- If no end from before the step that was started last is owed, none is owed but its own. -/
theorem Pace.only {j k : Nat} (h : Pace m slot j n (some j) (.sequenceStep m slot k :: owed)) : k = j ∧ owed = [] := by
  obtain ⟨ks, heq, hlt, hle⟩ := h.steps
  have hj : ∀ i ∈ ks, i = j := by
    intro i hi
    obtain ⟨hji, j', hj', hij⟩ := hle i hi
    rw [Option.some.injEq] at hj'
    omega
  cases ks with
  | nil => cases heq
  | cons i ks =>
    rw [List.map_cons, List.cons.injEq, Finish.sequenceStep.injEq] at heq
    obtain ⟨⟨-, -, rfl⟩, rfl⟩ := heq
    refine ⟨hj k List.mem_cons_self, ?_⟩
    cases ks with
    | nil => rfl
    | cons i' ks =>
      have hlt := (List.pairwise_cons.1 hlt).1 i' List.mem_cons_self
      rw [hj k List.mem_cons_self, hj i' (List.mem_cons_of_mem _ List.mem_cons_self)] at hlt
      exact absurd hlt (Nat.lt_irrefl _)

end

theorem Paced.mono {m less least n : Nat} {slot : Slot} {c : Config} (h : Paced m slot least n c) (hle : less ≤ least) :
    Paced m slot less n c := ⟨h.pace.mono hle, h.elsewhere, h.first, h.sent, h.concluded⟩

/-! ## Machines stay what they were built as -/

section
variable {s s' : Stage} {m : Nat} {slot : Slot}

theorem machine?_build (s : Stage) (name : String) (el : ElementId) (settings : Settings) (hooked : Bool)
    (states : List Declaration) (m : Nat) : (s.build name el settings hooked states).1.machine? m = s.machine? m ∨
      s.machine? m = none ∧ ∃ c, (s.build name el settings hooked states).1.machine? m = some c ∧ c.steps = {} := by
  unfold build
  split
  · have h := undisturbed_declared el states s
    revert h
    generalize states.foldl (fun s d => s.notifyAll (d.notices el)) s = s'
    intro h
    simp only [castAs, addMachine, machine?]
    rcases Nat.lt_trichotomy m s'.machines.length with hm | rfl | hm
    · exact .inl (by rw [List.getElem?_append_left hm, h.machines])
    · refine .inr ⟨?_, _, List.getElem?_concat_length, rfl⟩
      rw [h.machines]
      exact List.getElem?_eq_none (Nat.le_refl _)
    · refine .inl ?_
      rw [← h.machines, List.getElem?_eq_none (Nat.le_of_lt hm)]
      refine List.getElem?_eq_none ?_
      rw [List.length_append, List.length_singleton]
      omega
  · exact .inl rfl

theorem machine?_made (h : Agree s s' .makes) (m : Nat) :
    (s'.machine? m).map Machine.made = (s.machine? m).map Machine.made := by
  have hm := congrArg (·[m]?) h
  simp only [List.getElem?_map] at hm
  exact hm

theorem home_of_made (h : (s'.machine? m).map Machine.made = (s.machine? m).map Machine.made) :
    s'.home m = s.home m := by
  have hq := congrArg (Option.map Machine.queue) h
  simp only [Option.map_map] at hq
  exact congrArg (Option.getD · 0) hq

theorem reactionOf_of_made (h : (s'.machine? m).map Machine.made = (s.machine? m).map Machine.made) :
    s'.reactionOf m slot = s.reactionOf m slot := by
  have hr := congrArg (Option.bind · fun c => c.reaction? slot) h
  simp only [Option.bind_map] at hr
  exact hr

theorem stepOf_of_agree (h : Agree s s' .steps) : s'.stepOf m slot = s.stepOf m slot := by
  have hm := congrArg (fun l => (l[m]?).bind fun steps : Registry Slot Nat => steps.get? slot) h
  simp only [List.getElem?_map, Option.bind_map] at hm
  exact hm

theorem machine?_eq_none_of_made (h : (s'.machine? m).map Machine.made = (s.machine? m).map Machine.made) :
    s'.machine? m = none ↔ s.machine? m = none := by
  rw [← Option.map_eq_none_iff (f := Machine.made), h, Option.map_eq_none_iff]

/-- What a task does to a machine that is there, or leaves it be that there is none. -/
inductive Remade (s : Stage) (m : Nat) (s' : Stage) : Prop
  | kept (h : (s'.machine? m).map Machine.made = (s.machine? m).map Machine.made)
  | built (c : Machine) (hnone : s.machine? m = none) (hc : s'.machine? m = some c) (hsteps : c.steps = {})

theorem remade_carryOut (s : Stage) (agenda : List Task) (t : Task) (m : Nat) :
    Remade s m (t.carryOut s agenda).1 := by
  have hother : .makes ∉ t.touches → Remade s m (t.carryOut s agenda).1 := fun ht =>
    .kept (machine?_made ((within_carryOut s agenda t).touched.agree .makes ht) m)
  cases t with
  | cue c =>
    cases c with
    | build name el settings hooked states =>
      rcases machine?_build s name el settings hooked states m with h | ⟨hnone, c, hc, hsteps⟩
      · exact .kept (congrArg _ h)
      · exact .built c hnone hc hsteps
    | _ => exact hother (by simp [Task.touches, Cue.touches])
  | release hold => exact hother (by cases hold <;> simp [Task.touches])
  | _ => exact hother (by simp [Task.touches])

end

/-! ## What is owed is not lost on the way -/

theorem finishes_add (c : JobQueue) (job : Job) : (c.add job).finishes = c.finishes ++ job.finish.toList := by
  unfold JobQueue.finishes JobQueue.add
  simp only [List.filterMap_append, List.append_assoc]
  cases h : job.finish <;> simp [h]

theorem finishes_start? {c c' : JobQueue} {job : Job} (h : c.start? = some (job, c')) : c'.finishes = c.finishes := by
  obtain ⟨hrunning, waiting, hwaiting, rfl⟩ := start?_eq_some h
  unfold JobQueue.finishes
  rw [hrunning, hwaiting]
  cases hf : job.finish <;> simp [hf]

theorem finishes_takeFinish? {c c' : JobQueue} {k : Nat} {f : Option Finish} (h : c.takeFinish? k = some (f, c')) :
    c.finishes = f.toList ++ c'.finishes := by
  unfold JobQueue.takeFinish? at h
  split at h
  · rename_i r hr
    split at h
    · rw [Option.some.injEq, Prod.mk.injEq] at h
      obtain ⟨rfl, rfl⟩ := h
      unfold JobQueue.finishes
      rw [hr]
      rfl
    · cases h
  · cases h

theorem finishes_rest (c : JobQueue) : c.rest.finishes.Sublist c.finishes := List.sublist_append_right ..

theorem finishes_close (c : JobQueue) : c.close.finishes.Sublist c.finishes := by
  unfold JobQueue.finishes JobQueue.close
  rw [List.filterMap_nil, List.append_nil]
  exact List.sublist_append_left ..

theorem queueAt_mapQueue_cases (s : Stage) (q : Nat) (f : JobQueue → JobQueue) :
    (s.mapQueue q f).queueAt q = s.queueAt q ∨ (s.mapQueue q f).queueAt q = f (s.queueAt q) := by
  cases h : s.queue? q with
  | none =>
    refine .inl ?_
    rw [queueAt, queueAt, queue?_mapQueue_self, h]
    rfl
  | some c =>
    refine .inr ?_
    rw [queueAt_mapQueue_self h, queueAt_of_queue? h]

/-- Nothing becomes due but by a job that is sent. -/
theorem dues_carryOut (s : Stage) (agenda : List Task) (t : Task) (m : Nat) (slot : Slot) (q : Nat)
    (h : s.concerns m slot t = false) : ((t.carryOut s agenda).1.dues m slot q).Sublist (s.dues m slot q) := by
  by_cases hhandles : handles q t = false
  · rw [dues, queueAt_carryOut s agenda hhandles]
    exact List.Sublist.refl _
  · have hsub : ∀ {f : JobQueue → JobQueue}, (∀ c, (f c).finishes.Sublist c.finishes) →
        ((s.mapQueue q f).dues m slot q).Sublist (s.dues m slot q) := by
      intro f hf
      rcases queueAt_mapQueue_cases s q f with heq | heq
      · rw [dues, heq]
        exact List.Sublist.refl _
      · rw [dues, heq]
        exact (hf _).filter _
    cases t with
    | enqueue p job =>
      obtain rfl : p = q := by simpa [handles] using hhandles
      have hzero : job.finish.toList.filter (Finish.isFor m slot) = [] := by
        cases hf : job.finish with
        | none => rfl
        | some f =>
          rw [concerns, hf, Option.any_some] at h
          simp [h]
      rcases queueAt_mapQueue_cases (s.notify (.jobEnqueued job.label)) p (·.add job) with heq | heq
      · rw [dues, show (Task.carryOut s agenda (.enqueue p job)).1.queueAt p = s.queueAt p from heq]
        exact List.Sublist.refl _
      · rw [dues, show (Task.carryOut s agenda (.enqueue p job)).1.queueAt p = (s.queueAt p).add job from heq,
          finishes_add, List.filter_append, hzero, List.append_nil]
        exact List.Sublist.refl _
    | pump p =>
      obtain rfl : p = q := by simpa [handles] using hhandles
      simp only [Task.carryOut, pump]
      split
      · rename_i job q' hstart
        obtain ⟨c, hc, hstart⟩ := Option.bind_eq_some_iff.1 hstart
        have hqueue : ((s.mapQueue p fun _ => q').notify (.jobStarted job.label)).queueAt p = q' :=
          queueAt_mapQueue_self hc _
        have hsame : ((s.mapQueue p fun _ => q').notify (.jobStarted job.label)).dues m slot p = s.dues m slot p := by
          rw [dues, hqueue, dues, queueAt_of_queue? hc, finishes_start? hstart]
        simp only [hsame, List.Sublist.refl]
      · exact List.Sublist.refl _
    | complete token =>
      obtain rfl : token.queue = q := by simpa [handles] using hhandles
      simp only [Task.carryOut, complete]
      split
      · split
        · rename_i f q' htake
          obtain ⟨c, hc, htake⟩ := Option.bind_eq_some_iff.1 htake
          rw [dues, queueAt_mapQueue_self hc, dues, queueAt_of_queue? hc, finishes_takeFinish? htake,
            List.filter_append]
          exact List.sublist_append_right ..
        · exact List.Sublist.refl _
      · exact List.Sublist.refl _
    | jobOver p =>
      obtain rfl : p = q := by simpa [handles] using hhandles
      exact hsub finishes_rest
    | release hold =>
      cases hold with
      | queue p =>
        obtain rfl : p = q := by simpa [handles] using hhandles
        simp only [Task.carryOut, release]
        split
        · exact List.Sublist.refl _
        · exact hsub finishes_close
      | _ => exact absurd rfl hhandles
    | _ => exact absurd rfl hhandles

/-! ## Other reactions owe nothing to this one -/

theorem isFor_reaction {m n : Nat} {slot other : Slot} (h : ¬ (n = m ∧ other = slot)) :
    (Finish.reaction n other).isFor m slot = false := by simpa [Finish.isFor] using h

theorem isFor_sequenceStep {m n : Nat} {slot other : Slot} (h : ¬ (n = m ∧ other = slot)) (k : Nat) :
    (Finish.sequenceStep n other k).isFor m slot = false := by simpa [Finish.isFor] using h

theorem finish_of_job? {settings : Settings} {el : ElementId} {e : Effect} {job : Job}
    (h : job? settings el e = some job) : job.finish = none := by
  obtain ⟨p, -, rfl⟩ := Option.map_eq_some_iff.1 h
  rfl

theorem finish_of_mem_jobs (c : Machine) : ∀ (actions : List String) (s : Stage), ∀ job ∈ (s.jobs c actions).2,
    job.finish = none
  | [], _, _, hjob => by cases hjob
  | action :: rest, s, job, hjob => by
    unfold jobs at hjob
    split at hjob
    · exact finish_of_mem_jobs c rest _ job hjob
    · rcases List.mem_append.1 hjob with hjob | hjob
      · exact finish_of_job? (Option.mem_toList.1 hjob)
      · exact finish_of_mem_jobs c rest _ job hjob

theorem finish_of_mem_withFinish {f : Finish} : ∀ {jobs : List Job}, (∀ job ∈ jobs, job.finish = none) →
    ∀ job ∈ withFinish f jobs, job.finish = none ∨ job.finish = some f
  | [], _, _, hjob => by cases hjob
  | [j], _, job, hjob => by
    rw [List.mem_singleton.1 hjob]
    exact .inr rfl
  | j :: k :: jobs, h, job, hjob => by
    rcases List.mem_cons.1 hjob with rfl | hjob
    · exact .inl (h job List.mem_cons_self)
    · exact finish_of_mem_withFinish (fun j hj => h j (List.mem_cons_of_mem _ hj)) job hjob

section
variable {s : Stage} {agenda : List Task} {m n : Nat} {slot other : Slot}

theorem owes_conclude (h : ¬ (n = m ∧ other = slot)) : (Task.conclude n other).owes m slot = false := by
  simpa [Task.owes] using h

theorem owes_act (h : ¬ (n = m ∧ other = slot)) : ∀ t ∈ (s.act n other).2, t.owes m slot = false := by
  intro t ht
  unfold act at ht
  split at ht
  · cases ht
  · rename_i c _
    split at ht
    · cases ht
    · rename_i r _
      split at ht
      · rw [List.mem_singleton.1 ht]
        rfl
      · split at ht
        · have hjobs := finish_of_mem_jobs c r.actions s
          unfold runAll at ht
          split at ht
          · rw [List.mem_singleton.1 ht]
            exact owes_conclude h
          · rename_i js _ heq
            rw [heq] at hjobs
            obtain ⟨job, hjob, rfl⟩ := List.mem_map.1 ht
            rcases finish_of_mem_withFinish hjobs job hjob with hf | hf
            · rw [Task.owes, hf]
              rfl
            · rw [Task.owes, hf]
              exact isFor_reaction h
        · unfold runNext at ht
          simp only at ht
          split at ht
          · cases ht
          · split at ht
            · cases ht
            · rw [List.mem_singleton.1 ht, Task.owes, Option.any_some]
              exact isFor_sequenceStep h _

theorem owes_submit (queue : String) (job : Job) (h : job.finish.any (Finish.isFor m slot) = false) :
    ∀ t ∈ (s.submit queue job).2, t.owes m slot = false := by
  intro t ht
  unfold submit at ht
  split at ht
  · cases ht
  · simp only [List.mem_cons, List.not_mem_nil, or_false] at ht
    rcases ht with rfl | rfl | rfl
    · exact h
    · rfl
    · rfl

theorem isFor_outside (finish : Option (List Cue)) (label : String) :
    (finish.map (Finish.outside label)).any (Finish.isFor m slot) = false := by
  cases finish <;> rfl

theorem owes_follow (s : Stage) (c : Cue) : ∀ t ∈ (s.follow c).2, t.owes m slot = false := by
  have hother : (∀ kind ∈ c.leaves, kind ≠ .enqueue ∧ kind ≠ .finish ∧ kind ≠ .stepOver ∧ kind ≠ .conclude) →
      ∀ t ∈ (s.follow c).2, t.owes m slot = false := by
    intro hl t ht
    obtain ⟨he, hf, hs, hc⟩ := hl _ ((within_follow s c).kinds t ht)
    cases t with
    | enqueue => exact absurd rfl he
    | finish => exact absurd rfl hf
    | stepOver => exact absurd rfl hs
    | conclude => exact absurd rfl hc
    | _ => rfl
  cases c with
  | enqueue queue name labelled fate script finish => exact owes_submit queue _ (isFor_outside finish name)
  | effectJob queue effect el settings finish =>
    intro t ht
    unfold follow submitEffect at ht
    simp only at ht
    split at ht
    · split at ht
      · cases ht
      · rename_i e _
        split at ht
        · cases ht
        · exact owes_submit queue _ (isFor_outside finish _) t ht
    · cases ht
  | _ => exact hother (by simp [Cue.leaves])

theorem ne_act_of_concerns {t : Task} (h : s.concerns m slot t = false) (anew : Bool) : t ≠ .act m slot anew := by
  rintro rfl
  simp [concerns] at h

theorem ne_stepOver_of_concerns {t : Task} (h : s.concerns m slot t = false) (k : Nat) : t ≠ .stepOver m slot k := by
  rintro rfl
  simp [concerns] at h

/-- What a task leaves to be done owes nothing to a reaction that the task does not concern. -/
theorem owes_carryOut (t : Task) (h : s.concerns m slot t = false) :
    ∀ t' ∈ (t.carryOut s agenda).2, t'.owes m slot = false := by
  have hother : (∀ kind ∈ t.leaves, kind ≠ .enqueue ∧ kind ≠ .finish ∧ kind ≠ .stepOver ∧ kind ≠ .conclude) →
      ∀ t' ∈ (t.carryOut s agenda).2, t'.owes m slot = false := by
    intro hl t' ht'
    obtain ⟨he, hf, hs, hc⟩ := hl _ ((within_carryOut s agenda t).kinds t' ht')
    cases t' with
    | enqueue => exact absurd rfl he
    | finish => exact absurd rfl hf
    | stepOver => exact absurd rfl hs
    | conclude => exact absurd rfl hc
    | _ => rfl
  cases t with
  | cue c => exact owes_follow s c
  | complete token =>
    intro t' ht'
    simp only [Task.carryOut, complete] at ht'
    split at ht'
    · rename_i hopen
      split at ht'
      · rename_i f q' htake
        rw [concerns, hopen, htake, Bool.true_and, Option.any_some] at h
        simp only [List.mem_append, List.mem_map, List.mem_cons, List.not_mem_nil, or_false] at ht'
        rcases ht' with ⟨f', hf', rfl⟩ | rfl | rfl | rfl
        · rw [Option.mem_toList.1 hf'] at h
          exact h
        · rfl
        · rfl
        · rfl
      · cases ht'
    · cases ht'
  | finish q f =>
    intro t' ht'
    cases f with
    | reaction n other | sequenceStep n other k =>
      simp only [Task.carryOut, finish] at ht'
      split at ht'
      · rename_i hlive
        simp only [List.mem_cons, List.not_mem_nil, or_false] at ht'
        rcases ht' with rfl | rfl
        · have hne : ¬ (n = m ∧ other = slot) := by
            rintro ⟨rfl, rfl⟩
            simp [concerns, hlive, Finish.isFor] at h
          simpa [Task.owes] using hne
        · rfl
      · cases ht'
    | outside label script =>
      rw [List.mem_singleton.1 ht']
      rfl
  | act n other anew =>
    refine owes_act ?_
    rintro ⟨rfl, rfl⟩
    exact ne_act_of_concerns h anew rfl
  | stepOver n other k =>
    intro t' ht'
    simp only [Task.carryOut, stepOver] at ht'
    split at ht'
    · cases ht'
    · split at ht'
      · cases ht'
      · rw [List.mem_singleton.1 ht']
        refine owes_conclude ?_
        rintro ⟨rfl, rfl⟩
        exact ne_stepOver_of_concerns h k rfl
  | release hold => exact hother (by cases hold <;> simp [Task.leaves])
  | _ => exact hother (by simp [Task.leaves])

theorem stepOf_setStep_ne (s : Stage) (h : ¬ (n = m ∧ other = slot)) (k : Option Nat) :
    (s.mapMachine n (·.setStep other k)).stepOf m slot = s.stepOf m slot := by
  unfold stepOf
  by_cases hn : n = m
  · subst hn
    rw [machine?_mapMachine_self]
    cases s.machine? n with
    | none => rfl
    | some c => exact Machine.step?_setStep_ne c (fun heq => h ⟨rfl, heq.symm⟩) k
  · rw [machine?_mapMachine_ne s (Ne.symm hn)]

theorem stepOf_setStep_self {c : Machine} (hc : s.machine? m = some c) (k : Option Nat) :
    (s.mapMachine m (·.setStep slot k)).stepOf m slot = k := by
  unfold stepOf
  rw [machine?_mapMachine_self, hc]
  exact Machine.step?_setStep_self c slot k

theorem Undisturbed.stepOf {s' : Stage} (h : Undisturbed s s') : s'.stepOf m slot = s.stepOf m slot := by
  rw [Stage.stepOf, Stage.stepOf, h.machine?]

/-- A sequence goes on by its own reaction only. -/
theorem stepOf_carryOut (t : Task) (hact : ∀ anew, t ≠ .act m slot anew) (hstep : ∀ k, t ≠ .stepOver m slot k) :
    (t.carryOut s agenda).1.stepOf m slot = s.stepOf m slot := by
  have hother : .steps ∉ t.touches → (t.carryOut s agenda).1.stepOf m slot = s.stepOf m slot := fun ht =>
    stepOf_of_agree ((within_carryOut s agenda t).touched.agree .steps ht)
  cases t with
  | cue c =>
    cases c with
    | build name el settings hooked states =>
      rcases machine?_build s name el settings hooked states m with h | ⟨hnone, c, hc, hsteps⟩
      · exact congrArg (Option.bind · fun c : Machine => c.step? slot) h
      · show ((s.build name el settings hooked states).1.machine? m).bind _ = (s.machine? m).bind _
        rw [hc, hnone, Option.bind_some, Machine.step?, hsteps]
        rfl
    | _ => exact hother (by simp [Task.touches, Cue.touches])
  | act n other anew =>
    have hne : ¬ (n = m ∧ other = slot) := by
      rintro ⟨rfl, rfl⟩
      exact hact anew rfl
    simp only [Task.carryOut, act]
    split
    · rfl
    · rename_i c _
      split
      · rfl
      · rename_i r _
        split
        · rfl
        · split
          · have h := undisturbed_jobs c r.actions s
            unfold runAll
            split <;> rename_i heq <;> rw [heq] at h <;> exact h.stepOf
          · unfold runNext
            simp only
            split
            · rfl
            · rename_i kind _ _ step _
              have h := undisturbed_prepare s c.settings (.step kind step)
              split
              · exact (stepOf_setStep_ne _ hne _).trans h.stepOf
              · exact (stepOf_setStep_ne _ hne _).trans h.stepOf
  | stepOver n other k =>
    have hne : ¬ (n = m ∧ other = slot) := by
      rintro ⟨rfl, rfl⟩
      exact hstep k rfl
    simp only [Task.carryOut, stepOver]
    split
    · rfl
    · split
      · rfl
      · exact stepOf_setStep_ne s hne none
  | release hold => exact hother (by cases hold <;> simp [Task.touches])
  | _ => exact hother (by simp [Task.touches])

end

/-! ## Every task keeps the pace -/

section
variable {s : Stage} {m least n : Nat} {slot : Slot} {t : Task} {rest : List Task}

theorem owed_of_head (s : Stage) (t : Task) (rest : List Task) :
    Config.owed m slot ⟨s, t :: rest⟩ = t.ending?.toList.filter (Finish.isFor m slot) ++ s.dues m slot (s.home m) ++
      t.sending?.toList.filter (Finish.isFor m slot) := rfl

/-- Tasks that owe nothing add nothing to what is owed. -/
theorem owed_of_owes {agenda : List Task} (h : ∀ t ∈ agenda, t.owes m slot = false) :
    Config.owed m slot ⟨s, agenda⟩ = s.dues m slot (s.home m) := by
  cases agenda with
  | nil => simp [Config.owed]
  | cons t rest =>
    have ht := h t List.mem_cons_self
    rw [owed_of_head]
    cases t with
    | finish q f =>
      have hf : [f].filter (Finish.isFor m slot) = [] := List.filter_eq_nil_iff.2 fun g hg => by
        rw [List.mem_singleton.1 hg]
        exact Bool.eq_false_iff.1 ht
      simp only [Task.ending?, Task.sending?, Option.toList_some, hf, Option.toList_none, List.filter_nil,
        List.nil_append, List.append_nil]
    | stepOver n other k =>
      have hf : [Finish.sequenceStep n other k].filter (Finish.isFor m slot) = [] :=
        List.filter_eq_nil_iff.2 fun g hg => by
          rw [List.mem_singleton.1 hg]
          exact Bool.eq_false_iff.1 ht
      simp only [Task.ending?, Task.sending?, Option.toList_some, hf, Option.toList_none, List.filter_nil,
        List.nil_append, List.append_nil]
    | enqueue q job =>
      have hf : job.finish.toList.filter (Finish.isFor m slot) = [] := List.filter_eq_nil_iff.2 fun g hg => by
        rw [Task.owes, Option.mem_toList.1 hg] at ht
        exact Bool.eq_false_iff.1 ht
      simp only [Task.ending?, Task.sending?, hf, Option.toList_none, List.filter_nil, List.nil_append, List.append_nil]
    | _ => simp [Task.ending?, Task.sending?]

theorem dues_sublist_owed (m : Nat) (slot : Slot) (c : Config) :
    (c.stage.dues m slot (c.stage.home m)).Sublist (c.owed m slot) :=
  (List.sublist_append_right _ _).trans (List.sublist_append_left _ _)

theorem Pace.dues {agenda : List Task} (h : Pace m slot least n (s.stepOf m slot) (Config.owed m slot ⟨s, agenda⟩)) :
    Pace m slot least n (s.stepOf m slot) (s.dues m slot (s.home m)) := h.sublist (dues_sublist_owed m slot ⟨s, agenda⟩)

theorem paced_of_owes {agenda : List Task} (hpace : Pace m slot least n (s.stepOf m slot) (s.dues m slot (s.home m)))
    (helsewhere : ∀ q, q ≠ s.home m → s.dues m slot q = []) (h : ∀ t ∈ agenda, t.owes m slot = false) :
    Paced m slot least n ⟨s, agenda⟩ := by
  refine ⟨?_, helsewhere, fun t ht => h t (List.mem_of_mem_tail ht), fun q job rest hq hjob => ?_, fun rest hc => ?_⟩
  · rw [owed_of_owes h]
    exact hpace
  · replace hq : agenda = .enqueue q job :: rest := hq
    have hno := h (.enqueue q job) (by rw [hq]; exact List.mem_cons_self)
    rw [Task.owes, hjob] at hno
    cases hno
  · replace hc : agenda = .conclude m slot :: rest := hc
    have hno := h (.conclude m slot) (by rw [hc]; exact List.mem_cons_self)
    simp [Task.owes] at hno

/-- A task that neither sends a step nor takes one. -/
theorem paced_bystander (h : Paced m slot least n ⟨s, t :: rest⟩)
    (hmade : ((t.carryOut s rest).1.machine? m).map Machine.made = (s.machine? m).map Machine.made)
    (hcell : (t.carryOut s rest).1.stepOf m slot = s.stepOf m slot)
    (hdues : ∀ q, ((t.carryOut s rest).1.dues m slot q).Sublist (s.dues m slot q))
    (hleft : ∀ t' ∈ (t.carryOut s rest).2, t'.owes m slot = false) : Paced m slot least n (.after s t rest) := by
  have hhome := home_of_made hmade
  refine paced_of_owes ?_ (fun q hq => ?_) fun t' ht' => (List.mem_append.1 ht').elim (hleft t') (h.first t')
  · rw [hcell, hhome]
    exact h.pace.sublist ((hdues _).trans (dues_sublist_owed m slot ⟨s, t :: rest⟩))
  · rw [hhome] at hq
    exact List.eq_nil_of_sublist_nil ((h.elsewhere q hq) ▸ hdues q)

/-- A step that is sent is in the queue of its machine from then on. -/
theorem paced_enqueue {q : Nat} {job : Job} {f : Finish} (h : Paced m slot least n ⟨s, .enqueue q job :: rest⟩)
    (hopen : s.isOpen q = true) (hf : job.finish = some f) (hfor : f.isFor m slot = true) :
    Paced m slot least n (.after s (.enqueue q job) rest) := by
  obtain ⟨c, hc, -⟩ := exists_queue?_of_isOpen hopen
  have hq : q = s.home m := h.sent q job rest rfl (by rw [hf]; exact hfor)
  subst hq
  have hqueue : (Task.carryOut s rest (.enqueue (s.home m) job)).1.queueAt (s.home m) = c.add job :=
    queueAt_mapQueue_self (s := s.notify _) hc _
  have hdues : (Task.carryOut s rest (.enqueue (s.home m) job)).1.dues m slot (s.home m) =
      s.dues m slot (s.home m) ++ [f] := by
    rw [dues, hqueue, finishes_add, List.filter_append, dues, queueAt_of_queue? hc, hf]
    simp [hfor]
  have howed : Config.owed m slot ⟨s, .enqueue (s.home m) job :: rest⟩ = s.dues m slot (s.home m) ++ [f] := by
    simp [owed_of_head, Task.ending?, Task.sending?, hf, hfor]
  refine paced_of_owes ?_ (fun q hq => ?_) fun t ht => ?_
  · show Pace m slot least n (s.stepOf m slot)
      ((Task.carryOut s rest (.enqueue (s.home m) job)).1.dues m slot (s.home m))
    rw [hdues, ← howed]
    exact h.pace
  · replace hq : q ≠ s.home m := hq
    have hhandles : handles q (.enqueue (s.home m) job) = false := decide_eq_false (Ne.symm hq)
    rw [dues, queueAt_carryOut s rest hhandles]
    exact h.elsewhere q hq
  · rcases List.mem_append.1 ht with ht | ht
    · rw [List.mem_singleton.1 ht]
      rfl
    · exact h.first t ht

/-- The end of a step is taken out of the queue to be dealt with at once. -/
theorem paced_complete {token : Completion} {f : Finish} {q' : JobQueue}
    (h : Paced m slot least n ⟨s, .complete token :: rest⟩)
    (hopen : s.isOpen token.queue = true)
    (htake : (s.queue? token.queue).bind (·.takeFinish? token.ticket) = some (some f, q'))
    (hfor : f.isFor m slot = true) : Paced m slot least n (.after s (.complete token) rest) := by
  obtain ⟨c, hc, htake'⟩ := Option.bind_eq_some_iff.1 htake
  have hafter : Config.after s (.complete token) rest = ⟨s.mapQueue token.queue fun _ => q',
      .finish token.queue f :: .jobOver token.queue :: .pump token.queue :: .release (.queue token.queue) :: rest⟩ := by
    simp only [Config.after, Task.carryOut, complete, hopen, if_true, htake]
    rfl
  have hdues : s.dues m slot token.queue = f :: (q'.finishes.filter (Finish.isFor m slot)) := by
    rw [dues, queueAt_of_queue? hc, finishes_takeFinish? htake']
    simp [hfor]
  have hhome : token.queue = s.home m := by
    by_cases hq : token.queue = s.home m
    · exact hq
    · have := h.elsewhere _ hq
      rw [hdues] at this
      cases this
  have hqueue : (s.mapQueue token.queue fun _ => q').queueAt token.queue = q' := queueAt_mapQueue_self hc _
  have hdues' : (s.mapQueue token.queue fun _ => q').dues m slot (s.home m) =
      q'.finishes.filter (Finish.isFor m slot) := by rw [dues, ← hhome, hqueue]
  rw [hafter]
  refine ⟨?_, fun q hq => ?_, fun t ht => ?_, fun q job rest' heq => (by cases heq), fun rest' heq => by cases heq⟩
  · have hpace := h.pace
    rw [owed_of_head, ← hhome, hdues] at hpace
    rw [owed_of_head]
    show Pace m slot least n (s.stepOf m slot) (_ ++ (s.mapQueue token.queue fun _ => q').dues m slot (s.home m) ++ _)
    rw [hdues']
    simpa [Task.ending?, Task.sending?, hfor] using hpace
  · have hne : q ≠ token.queue := by
      rw [hhome]
      exact hq
    rw [dues, queueAt_mapQueue_ne s hne]
    exact h.elsewhere q hq
  · simp only [List.tail_cons, List.mem_cons] at ht
    rcases ht with rfl | rfl | rfl | ht
    · rfl
    · rfl
    · rfl
    · exact h.first t ht

/-- The end of a step is that of the first step that is owed. -/
theorem paced_finish {q : Nat} {f : Finish} (h : Paced m slot least n ⟨s, .finish q f :: rest⟩)
    (hfor : f.isFor m slot = true) (hlive : s.isLive m = true) :
    Paced m slot least n (.after s (.finish q f) rest) := by
  have howed : Config.owed m slot ⟨s, .finish q f :: rest⟩ = f :: s.dues m slot (s.home m) := by
    simp [owed_of_head, Task.ending?, Task.sending?, hfor]
  have hpace := h.pace
  rw [howed] at hpace
  obtain ⟨ks, heq, -⟩ := hpace.steps
  cases ks with
  | nil => cases heq
  | cons k ks =>
    obtain rfl := (List.cons.inj heq).1
    have hafter : Config.after s (.finish q (.sequenceStep m slot k)) rest =
        ⟨s, .stepOver m slot k :: .release (.machine m) :: rest⟩ := by
      simp only [Config.after, Task.carryOut, finish, hlive, if_true]
      rfl
    rw [hafter]
    refine ⟨?_, h.elsewhere, fun t ht => ?_, fun _ _ _ heq => (by cases heq), fun _ heq => by cases heq⟩
    · rw [owed_of_head]
      simpa [Task.ending?, Task.sending?, hfor] using hpace
    · rcases List.mem_cons.1 ht with rfl | ht
      · rfl
      · exact h.first t ht

/-- When the last step is over, nothing more is owed and no step is noted. -/
theorem paced_last {k : Nat} {c : Machine} (h : Paced m slot least n ⟨s, .stepOver m slot k :: rest⟩) (hk : n - 1 ≤ k)
    (hc : s.machine? m = some c) :
    Paced m slot least n ⟨s.mapMachine m (·.setStep slot none), .conclude m slot :: rest⟩ := by
  have hhome : (s.mapMachine m (·.setStep slot none)).home m = s.home m := by
    rw [home, home, machine?_mapMachine_self, hc]
    rfl
  have hcell : (s.mapMachine m (·.setStep slot none)).stepOf m slot = none := stepOf_setStep_self hc none
  have hpace := h.pace
  have hstep : (Finish.sequenceStep m slot k).isFor m slot = true := by simp [Finish.isFor]
  have howed : Config.owed m slot ⟨s, .stepOver m slot k :: rest⟩ =
      .sequenceStep m slot k :: s.dues m slot (s.home m) := by
    simp [owed_of_head, Task.ending?, Task.sending?, hstep]
  rw [howed] at hpace
  have hnothing := hpace.last hk
  refine ⟨?_, fun q hq => ?_, h.first, fun _ _ _ heq => (by cases heq), fun _ _ => hcell⟩
  · have hrest : (s.mapMachine m (·.setStep slot none)).dues m slot ((s.mapMachine m (·.setStep slot none)).home m) =
        [] := by
      rw [hhome]
      exact hnothing
    rw [owed_of_head, hrest]
    simp only [Task.ending?, Task.sending?, Option.toList_none, List.filter_nil, List.append_nil]
    refine .nil fun j hj => ?_
    simp only [hcell] at hj
    cases hj
  · simp only [hhome] at hq
    exact h.elsewhere q hq

end

/-! ## Steps -/

/-- A reaction that is a sequence with at least one step. -/
def IsSequence (r : Reaction) (kind : EffectKind) : Prop := r.encoding = .sequence kind ∧ r.steps ≠ []

section
variable {s : Stage} {c : Machine} {m least : Nat} {slot : Slot} {r : Reaction} {kind : EffectKind}

theorem act_eq_runNext (hc : s.machine? m = some c) (hr : c.reaction? slot = some r) (hseq : IsSequence r kind) :
    s.act m slot = s.runNext c m slot r kind := by
  simp only [act, hc, hr, Reaction.hasAction_of_steps hseq.2, Bool.not_true, Bool.false_eq_true, if_false, hseq.1]

/-- Every step has a job. -/
theorem exists_job?_step (settings : Settings) (el : ElementId) (kind : EffectKind) {r : Reaction} {step : String}
    (h : step ∈ r.steps) : ∃ job, job? settings el (.step kind step) = some job := by
  have hplan : ∃ p, plan? settings el (.step kind step) = some p := by
    have hkeyframe := Reaction.keyframe?_step kind h
    cases kind with
    | enter => exact ⟨_, rfl⟩
    | transform => exact ⟨_, rfl⟩
    | animate =>
      obtain ⟨name, hname⟩ := Option.isSome_iff_exists.1 hkeyframe
      exact ⟨animatePlan settings el name, by simp only [plan?, Effect.step] at hname ⊢; rw [hname]; rfl⟩
  obtain ⟨p, hp⟩ := hplan
  exact ⟨_, by rw [job?, hp]; rfl⟩

/-- A sequence that has started its last step does nothing until that is over. -/
theorem runNext_over (h : r.steps.length ≤ nextStep (c.step? slot)) :
    s.runNext c m slot r kind = (s.notify (.sequenceOver c.element r.action), []) := by
  have hnone : r.steps[((c.step? slot).map (· + 1)).getD 0]? = none := List.getElem?_eq_none h
  simp only [runNext, hnone]

/-- A sequence that has not started its last step notes the next one and sends it. -/
theorem runNext_sends (s : Stage) (m : Nat) (kind : EffectKind) (h : nextStep (c.step? slot) < r.steps.length) :
    ∃ s' job, Undisturbed s s' ∧ job.finish = some (.sequenceStep m slot (nextStep (c.step? slot))) ∧
      s.runNext c m slot r kind =
        (s'.mapMachine m (·.setStep slot (some (nextStep (c.step? slot)))), [.enqueue c.queue job]) := by
  have hsome : r.steps[((c.step? slot).map (· + 1)).getD 0]? = some (r.steps[nextStep (c.step? slot)]) :=
    List.getElem?_eq_getElem h
  obtain ⟨job, hjob⟩ := exists_job?_step c.settings c.element kind (List.getElem_mem h)
  refine ⟨s.prepare c.settings (.step kind r.steps[nextStep (c.step? slot)]),
    { job with finish := some (.sequenceStep m slot (nextStep (c.step? slot))) }, undisturbed_prepare .., rfl, ?_⟩
  simp only [runNext, hsome, hjob]
  rfl

/-- A step that is not the last waits for the next frame when it is over. -/
theorem stepOver_waits {k : Nat} (hc : s.machine? m = some c) (hr : c.reaction? slot = some r)
    (hk : k < r.steps.length - 1) : s.stepOver m slot k = (s.schedule (.resume m slot), []) := by
  simp only [stepOver, hc, Option.bind_some, hr, hk, if_true]

/-- The last step concludes the sequence when it is over. -/
theorem stepOver_concludes {k : Nat} (hc : s.machine? m = some c) (hr : c.reaction? slot = some r)
    (hk : r.steps.length - 1 ≤ k) :
    s.stepOver m slot k = (s.mapMachine m (·.setStep slot none), [.conclude m slot]) := by
  simp only [stepOver, hc, Option.bind_some, hr, Nat.not_lt.2 hk, if_false]

/-- A sequence that acts notes its next step, unless it has started its last one. -/
theorem stepOf_act (hc : s.machine? m = some c) (hr : c.reaction? slot = some r) (hseq : IsSequence r kind) :
    (s.act m slot).1.stepOf m slot =
      if nextStep (s.stepOf m slot) < r.steps.length then some (nextStep (s.stepOf m slot)) else s.stepOf m slot := by
  have hcell : s.stepOf m slot = c.step? slot := by rw [stepOf, hc]; rfl
  rw [act_eq_runNext hc hr hseq, hcell]
  by_cases hlt : nextStep (c.step? slot) < r.steps.length
  · obtain ⟨s', job, hs', -, hrun⟩ := runNext_sends s m kind hlt
    have hc' : s'.machine? m = some c := by rw [hs'.machine?, hc]
    rw [hrun, if_pos hlt]
    exact stepOf_setStep_self hc' _
  · rw [runNext_over (Nat.le_of_not_lt hlt), if_neg hlt]
    exact hcell

/-- The next step is sent behind all others. -/
theorem paced_act {anew : Bool} {rest : List Task} (h : Paced m slot least r.steps.length ⟨s, .act m slot anew :: rest⟩)
    (hleast : least ≤ nextStep (s.stepOf m slot)) (hc : s.machine? m = some c) (hr : c.reaction? slot = some r)
    (hseq : IsSequence r kind) : Paced m slot least r.steps.length (.after s (.act m slot anew) rest) := by
  have hcell : s.stepOf m slot = c.step? slot := by rw [stepOf, hc]; rfl
  have howed : Config.owed m slot ⟨s, .act m slot anew :: rest⟩ = s.dues m slot (s.home m) := by
    simp [owed_of_head, Task.ending?, Task.sending?]
  have hpace := h.pace
  rw [howed, show (Config.mk s (.act m slot anew :: rest)).stage.stepOf m slot = c.step? slot from hcell] at hpace
  rw [hcell] at hleast
  rcases Nat.lt_or_ge (nextStep (c.step? slot)) r.steps.length with hlt | hge
  · obtain ⟨s', job, hs', hjob, hrun⟩ := runNext_sends s m kind hlt
    have hafter : Config.after s (.act m slot anew) rest =
        ⟨s'.mapMachine m (·.setStep slot (some (nextStep (c.step? slot)))), .enqueue c.queue job :: rest⟩ := by
      simp only [Config.after, Task.carryOut, act_eq_runNext hc hr hseq, hrun]
      rfl
    have hc' : s'.machine? m = some c := by rw [hs'.machine?, hc]
    have hhome : (s'.mapMachine m (·.setStep slot (some (nextStep (c.step? slot))))).home m = s.home m := by
      rw [home, home, machine?_mapMachine_self, hc', hc]
      rfl
    have hdues : ∀ q, (s'.mapMachine m (·.setStep slot (some (nextStep (c.step? slot))))).dues m slot q =
        s.dues m slot q := fun q => congrArg (fun jq : JobQueue => jq.finishes.filter _) (queueAt_congr hs'.queues q)
    have hstep : (Finish.sequenceStep m slot (nextStep (c.step? slot))).isFor m slot = true := by simp [Finish.isFor]
    rw [hafter]
    refine ⟨?_, fun q hq => ?_, h.first, fun q job' rest' heq _ => ?_, fun _ heq => by cases heq⟩
    · rw [owed_of_head, hhome, hdues]
      simp only [stepOf_setStep_self hc', Task.ending?, Task.sending?, hjob, Option.toList_some, Option.toList_none,
        List.filter_nil, List.nil_append, List.filter_cons, hstep, if_true]
      exact hpace.next hleast hlt
    · rw [hdues]
      simp only [hhome] at hq
      exact h.elsewhere q hq
    · cases heq
      simp only [hhome]
      rw [home, hc]
      rfl
  · have hafter : Config.after s (.act m slot anew) rest = ⟨s.notify (.sequenceOver c.element r.action), rest⟩ := by
      simp only [Config.after, Task.carryOut, act_eq_runNext hc hr hseq, runNext_over hge]
      rfl
    rw [hafter]
    refine paced_of_owes ?_ h.elsewhere h.first
    rw [← hcell] at hpace
    exact hpace

end

/-! ## Every course keeps the pace -/

/-- The machine has the reaction in this place, or is yet to be built. -/
def Awaits (s : Stage) (m : Nat) (slot : Slot) (r : Reaction) : Prop :=
  s.machine? m = none ∨ s.reactionOf m slot = some r

section
variable {s : Stage} {m least : Nat} {slot : Slot} {r : Reaction} {kind : EffectKind} {t : Task} {rest : List Task}

theorem Awaits.before (h : Awaits (t.carryOut s rest).1 m slot r) : Awaits s m slot r := by
  cases remade_carryOut s rest t m with
  | kept hmade => exact h.imp (machine?_eq_none_of_made hmade).1 fun hr => (reactionOf_of_made hmade).symm.trans hr
  | built _ hnone => exact .inl hnone

theorem Awaits.reaction? {c : Machine} (h : Awaits s m slot r) (hc : s.machine? m = some c) :
    c.reaction? slot = some r := by
  rcases h with h | h
  · rw [hc] at h
    cases h
  · rw [reactionOf, hc] at h
    exact h

/-- A machine that has just been built is owed nothing. -/
theorem paced_built {c : Machine} {n : Nat} (h : Paced m slot least n ⟨s, t :: rest⟩) (hnone : s.machine? m = none)
    (hc : (t.carryOut s rest).1.machine? m = some c) (hsteps : c.steps = {})
    (hdues : ∀ q, ((t.carryOut s rest).1.dues m slot q).Sublist (s.dues m slot q))
    (hleft : ∀ t' ∈ (t.carryOut s rest).2, t'.owes m slot = false) : Paced m slot least n (.after s t rest) := by
  have hcell : s.stepOf m slot = none := by rw [stepOf, hnone]; rfl
  have hpace := h.pace
  rw [show (Config.mk s (t :: rest)).stage.stepOf m slot = none from hcell] at hpace
  have hhome : s.dues m slot (s.home m) = [] := by
    have := dues_sublist_owed m slot ⟨s, t :: rest⟩
    rw [hpace.eq_nil] at this
    exact List.eq_nil_of_sublist_nil this
  have hnothing : ∀ q, (t.carryOut s rest).1.dues m slot q = [] := by
    intro q
    refine List.eq_nil_of_sublist_nil ?_
    by_cases hq : q = s.home m
    · subst hq
      rw [← hhome]
      exact hdues _
    · rw [← h.elsewhere q hq]
      exact hdues _
  refine paced_of_owes ?_ (fun q _ => hnothing q) fun t' ht' => (List.mem_append.1 ht').elim (hleft t') (h.first t')
  rw [hnothing]
  refine .nil fun j hj => ?_
  rw [stepOf, hc, Option.bind_some, Machine.step?, hsteps] at hj
  cases hj

theorem paced_stepOver {c : Machine} {k : Nat} (h : Paced m slot least r.steps.length ⟨s, .stepOver m slot k :: rest⟩)
    (hc : s.machine? m = some c) (hr : c.reaction? slot = some r) :
    Paced m slot least r.steps.length (.after s (.stepOver m slot k) rest) := by
  rcases Nat.lt_or_ge k (r.steps.length - 1) with hk | hk
  · have hcarry : Task.carryOut s rest (.stepOver m slot k) = (s.schedule (.resume m slot), []) :=
      stepOver_waits hc hr hk
    refine paced_bystander h (by rw [hcarry]; rfl) (by rw [hcarry]; rfl) (fun q => ?_) fun t' ht' => ?_
    · rw [hcarry]
      exact List.Sublist.refl _
    · rw [hcarry] at ht'
      cases ht'
  · rw [show Config.after s (.stepOver m slot k) rest = _ from congrArg (fun o => Config.mk o.1 (o.2 ++ rest))
      (stepOver_concludes hc hr hk)]
    exact paced_last h hk hc

theorem paced_carryOut (h : Paced m slot least r.steps.length ⟨s, t :: rest⟩) (hheld : Held ⟨s, t :: rest⟩)
    (hseq : IsSequence r kind) (hr : Awaits (t.carryOut s rest).1 m slot r)
    (hleast : ∀ anew, t = .act m slot anew → least ≤ nextStep (s.stepOf m slot)) :
    Paced m slot least r.steps.length (.after s t rest) := by
  cases hown : s.concerns m slot t with
  | false =>
    have hdues := fun q => dues_carryOut s rest t m slot q hown
    cases remade_carryOut s rest t m with
    | kept hmade =>
      have hcell : (t.carryOut s rest).1.stepOf m slot = s.stepOf m slot :=
        stepOf_carryOut t (ne_act_of_concerns hown) (ne_stepOver_of_concerns hown)
      exact paced_bystander h hmade hcell hdues (owes_carryOut t hown)
    | built c hnone hc hsteps => exact paced_built h hnone hc hsteps hdues (owes_carryOut t hown)
  | true =>
    cases t with
    | enqueue q job =>
      cases hf : job.finish with
      | none =>
        rw [concerns, hf] at hown
        cases hown
      | some f =>
        rw [concerns, hf] at hown
        exact paced_enqueue h (isOpen_of_held hheld rfl) hf hown
    | complete token =>
      obtain ⟨hopen, hown⟩ := Bool.and_eq_true_iff.1 hown
      cases htake : (s.queue? token.queue).bind (·.takeFinish? token.ticket) with
      | none =>
        rw [htake] at hown
        cases hown
      | some taken =>
        obtain ⟨f, q'⟩ := taken
        rw [htake, Option.any_some] at hown
        cases f with
        | none => cases hown
        | some f => exact paced_complete h hopen htake hown
    | finish q f =>
      obtain ⟨hlive, hfor⟩ := Bool.and_eq_true_iff.1 hown
      exact paced_finish h hfor hlive
    | act n other anew =>
      obtain ⟨rfl, rfl⟩ : n = m ∧ other = slot := by simpa [concerns] using hown
      obtain ⟨c, hc⟩ := exists_machine?_of_isLive (isLive_of_held hheld rfl)
      exact paced_act h (hleast anew rfl) hc (hr.before.reaction? hc) hseq
    | stepOver n other k =>
      obtain ⟨rfl, rfl⟩ : n = m ∧ other = slot := by simpa [concerns] using hown
      obtain ⟨c, hc⟩ := exists_machine?_of_isLive (isLive_of_held hheld rfl)
      exact paced_stepOver h hc (hr.before.reaction? hc)
    | _ => cases hown

end

end Stage

open Stage

/-- **The ends of the steps of a sequence come in order**, and none is owed that the machine has not noted. -/
theorem Course.paced {manners : Manners} {c : Config} {past : List Config} (h : Course manners (c :: past)) {m : Nat}
    {slot : Slot} {r : Reaction} {kind : EffectKind} (hseq : IsSequence r kind) (hr : Awaits c.stage m slot r) :
    Paced m slot 0 r.steps.length c := by
  revert hr
  refine Course.invariant (I := fun c => Awaits c.stage m slot r → Paced m slot 0 r.steps.length c) (P := fun _ => True)
    (fun _ => ?_) (fun s hs hr => ?_) (fun s cue hs hr => ?_) (fun s t rest _ hcourse _ ih hr => ?_) h
    fun _ _ => trivial
  · exact paced_of_owes (.nil fun j hj => by cases hj) (fun _ _ => rfl) fun _ ht => by cases ht
  · have := hs hr
    exact ⟨this.pace, this.elsewhere, this.first, this.sent, this.concluded⟩
  · refine paced_of_owes (hs hr).pace.dues (hs hr).elsewhere fun t ht => ?_
    rw [List.mem_singleton.1 ht]
    rfl
  · exact paced_carryOut (ih hr.before) hcourse.held hseq hr fun _ _ => Nat.zero_le _

end Stagecraft
