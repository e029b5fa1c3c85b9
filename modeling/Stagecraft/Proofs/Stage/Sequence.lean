import Stagecraft.Proofs.Stage.Owed
/-!
# When a sequence is over

When its last step has ended, a sequence notes no step, and none waits in its queue.  From then on it rests until its
reaction is fired anew, unless something was left behind that goes on with it: a call for the next frame that was
scheduled by an earlier step and has been overtaken.  Such a call begins the sequence again.
-/
namespace Stagecraft

/-- Whether a call of a frame goes on with the sequence. -/
def FrameCall.resumes (m : Nat) (slot : Slot) : FrameCall → Bool
  | .resume n other => n = m && other = slot
  | _ => false

/-- The kinds of task that may go on with a sequence. -/
def Kind.mayResume : Kind → Bool
  | .fire | .act | .callFrame | .frame => true
  | _ => false

/-- How many times a task is to go on with the sequence. -/
def Task.resumptions (m : Nat) (slot : Slot) : Task → Nat
  | .fire n other anew => if n = m ∧ other = slot ∧ anew = false then 1 else 0
  | .act n other anew => if n = m ∧ other = slot ∧ anew = false then 1 else 0
  | .callFrame c => [c].countP (FrameCall.resumes m slot)
  | .frame calls => calls.countP (FrameCall.resumes m slot)
  | _ => 0

def Task.resumptionsOf (m : Nat) (slot : Slot) : List Task → Nat
  | [] => 0
  | t :: rest => t.resumptions m slot + resumptionsOf m slot rest

/-- How many times something is left to go on with the sequence. -/
def Config.resumptions (m : Nat) (slot : Slot) (c : Config) : Nat :=
  Task.resumptionsOf m slot c.agenda + c.stage.frames.waiting.countP (FrameCall.resumes m slot)

/-- Whether the first task runs the reaction. -/
def Config.acts (m : Nat) (slot : Slot) (c : Config) : Bool :=
  match c.agenda.head? with
  | some (.act n other _) => n = m && other = slot
  | _ => false

/-- Whether the first task runs the reaction, and not to go on with its sequence. -/
def Config.firesAnew (m : Nat) (slot : Slot) (c : Config) : Bool :=
  match c.agenda.head? with
  | some (.act n other anew) => n = m && other = slot && anew
  | _ => false

/-- Nothing of a sequence is under way: none of its steps is sent, waits, runs or ends, it is not concluded, and nothing
is left to go on with it. -/
structure AtRest (m : Nat) (slot : Slot) (c : Config) : Prop where
  tasks : ∀ t ∈ c.agenda, t.owes m slot = false
  queues : ∀ q, c.stage.dues m slot q = []
  left : c.resumptions m slot = 0

namespace Stage

section
variable {s s' : Stage} {m : Nat} {slot : Slot} {t : Task} {rest : List Task}

theorem resumptions_cons (m : Nat) (slot : Slot) (s : Stage) (t : Task) (rest : List Task) :
    Config.resumptions m slot ⟨s, t :: rest⟩ = t.resumptions m slot + Config.resumptions m slot ⟨s, rest⟩ :=
  Nat.add_assoc ..

theorem resumptions_append (m : Nat) (slot : Slot) (s : Stage) (ts rest : List Task) :
    Config.resumptions m slot ⟨s, ts ++ rest⟩ = Config.resumptions m slot ⟨s, ts⟩ + Task.resumptionsOf m slot rest := by
  induction ts with
  | nil =>
    simp only [Config.resumptions, List.nil_append, Task.resumptionsOf, Nat.zero_add]
    exact Nat.add_comm _ _
  | cons t ts ih => rw [List.cons_append, resumptions_cons, resumptions_cons, ih, Nat.add_assoc]

/-- Tasks that do not go on with the sequence leave that to the calls for the next frame. -/
theorem resumptions_of_forall {ts : List Task} (h : ∀ t ∈ ts, t.resumptions m slot = 0) :
    Config.resumptions m slot ⟨s, ts⟩ = s.frames.waiting.countP (FrameCall.resumes m slot) := by
  induction ts with
  | nil => exact Nat.zero_add _
  | cons t ts ih =>
    rw [resumptions_cons, h t List.mem_cons_self, Nat.zero_add]
    exact ih fun t' ht' => h t' (List.mem_cons_of_mem _ ht')

theorem resumptions_of_mayResume (m : Nat) (slot : Slot) (s : Stage) (agenda : List Task) (t : Task)
    (h : ∀ kind ∈ t.leaves, kind.mayResume = false) :
    ∀ t' ∈ (t.carryOut s agenda).2, t'.resumptions m slot = 0 := by
  intro t' ht'
  have hk := h _ ((within_carryOut s agenda t).kinds t' ht')
  cases t' with
  | fire | act | callFrame | frame => cases hk
  | _ => rfl

theorem resumptions_onMachine {t' : Task} (s : Stage) (n : Nat) (h : t'.resumptions m slot ≤ t.resumptions m slot) :
    Config.resumptions m slot ⟨(s.onMachine n [t']).1, (s.onMachine n [t']).2⟩ ≤
      Config.resumptions m slot ⟨s, [t]⟩ := by
  unfold onMachine
  split
  · rw [resumptions_append, resumptions_cons, resumptions_cons]
    exact Nat.add_le_add_right h _
  · rw [resumptions_cons]
    exact Nat.le_add_left _ _

theorem resumptions_schedule (s : Stage) (c : FrameCall) (ts : List Task) :
    Config.resumptions m slot ⟨s.schedule c, ts⟩ =
      (Task.callFrame c).resumptions m slot + Config.resumptions m slot ⟨s, ts⟩ := by
  simp only [Config.resumptions, schedule, Frames.schedule, List.countP_append, Task.resumptions]
  omega

/-- Only the end of a step of the sequence brings more to go on with it. -/
theorem resumptions_carryOut (s : Stage) (agenda : List Task) (t : Task) (hstep : ∀ k, t ≠ .stepOver m slot k) :
    Config.resumptions m slot ⟨(t.carryOut s agenda).1, (t.carryOut s agenda).2⟩ ≤
      Config.resumptions m slot ⟨s, [t]⟩ := by
  have hwaiting : Config.resumptions m slot ⟨s, []⟩ ≤ Config.resumptions m slot ⟨s, [t]⟩ := by
    rw [resumptions_cons]
    exact Nat.le_add_left _ _
  have hother : .frames ∉ t.touches → (∀ kind ∈ t.leaves, kind.mayResume = false) →
      Config.resumptions m slot ⟨(t.carryOut s agenda).1, (t.carryOut s agenda).2⟩ ≤
        Config.resumptions m slot ⟨s, [t]⟩ := by
    intro ht hl
    have hsame : (t.carryOut s agenda).1.frames.waiting = s.frames.waiting :=
      (within_carryOut s agenda t).touched.agree .frames ht
    rw [resumptions_of_forall (resumptions_of_mayResume m slot s agenda t hl), hsame]
    exact Nat.le_trans (Nat.le_add_left _ _) hwaiting
  have hschedule : ∀ c : FrameCall, c.resumes m slot = false →
      Config.resumptions m slot ⟨s.schedule c, []⟩ ≤ Config.resumptions m slot ⟨s, [t]⟩ := by
    intro c hc
    have hzero : (Task.callFrame c).resumptions m slot = 0 := List.countP_eq_zero.2 fun c' hc' => by
      rw [List.mem_singleton.1 hc', hc]
      exact Bool.false_ne_true
    rw [resumptions_schedule, hzero, Nat.zero_add]
    exact hwaiting
  cases t with
  | cue c =>
    cases c with
    | nextFrame label script => exact hschedule _ rfl
    | _ => exact hother (by simp [Task.touches, Cue.touches]) (by simp [Task.leaves, Cue.leaves, Kind.mayResume])
  | callListener c =>
    cases c with
    | react n other => exact resumptions_onMachine s n (by simp [Task.resumptions])
    | enter n state => exact resumptions_onMachine s n (Nat.zero_le _)
    | outside label script => exact hwaiting
  | callFrame c =>
    cases c with
    | react n other => exact resumptions_onMachine s n (by simp [Task.resumptions])
    | resume n other =>
      exact resumptions_onMachine s n (by simp [Task.resumptions, FrameCall.resumes, List.countP_singleton])
    | outside label script => exact hwaiting
  | fire n other anew =>
    simp only [Task.carryOut, fire]
    split
    · exact hwaiting
    · split
      · exact hwaiting
      · simp only [resumptions_cons, Task.resumptions, Nat.zero_add]
        exact Nat.le_refl _
  | tick =>
    simp only [Task.carryOut, tick, Config.resumptions, Task.resumptionsOf, Task.resumptions, Frames.begin,
      List.countP_nil]
    omega
  | frame calls =>
    cases calls with
    | nil => exact hwaiting
    | cons c cs =>
      simp only [Task.carryOut, frame, resumptions_cons, Task.resumptions, List.countP_cons, List.countP_nil]
      omega
  | bind n other again =>
    simp only [Task.carryOut, bind]
    split
    · exact hwaiting
    · split
      · exact hwaiting
      · exact hschedule _ rfl
      · split
        · exact hwaiting
        · refine Nat.le_trans (Nat.le_of_eq (resumptions_of_forall fun t' ht' => ?_))
            (Nat.le_trans (Nat.le_add_left _ _) hwaiting)
          rcases List.mem_append.1 ht' with ht' | ht'
          · obtain ⟨r, -, rfl⟩ := List.mem_map.1 ht'
            rfl
          · rw [List.mem_singleton.1 ht']
            rfl
  | stepOver n other k =>
    simp only [Task.carryOut, stepOver]
    split
    · exact hwaiting
    · split
      · refine hschedule _ ?_
        have hne : ¬ (n = m ∧ other = slot) := by
          rintro ⟨rfl, rfl⟩
          exact hstep k rfl
        simpa [FrameCall.resumes] using hne
      · exact hwaiting
  | release hold =>
    exact hother (by cases hold <;> simp [Task.touches]) (by cases hold <;> simp [Task.leaves, Kind.mayResume])
  | _ => exact hother (by simp [Task.touches]) (by simp [Task.leaves, Kind.mayResume])

theorem resumptions_after (hstep : ∀ k, t ≠ .stepOver m slot k) :
    (Config.after s t rest).resumptions m slot ≤ Config.resumptions m slot ⟨s, t :: rest⟩ := by
  have hle := resumptions_carryOut s rest t hstep
  rw [Config.after, resumptions_append, show t :: rest = [t] ++ rest from rfl, resumptions_append]
  exact Nat.add_le_add_right hle _

/-- A reaction that runs has been gone on with. -/
theorem resumptions_act (m : Nat) (slot : Slot) (s : Stage) (anew : Bool) (rest : List Task) :
    (Config.after s (.act m slot anew) rest).resumptions m slot = Config.resumptions m slot ⟨s, rest⟩ := by
  have hzero := resumptions_of_mayResume m slot s rest (.act m slot anew)
    (by simp [Task.leaves, Kind.mayResume])
  have hsame : (Task.carryOut s rest (.act m slot anew)).1.frames.waiting = s.frames.waiting :=
    (within_carryOut s rest (.act m slot anew)).touched.agree .frames (by simp [Task.touches])
  rw [Config.after, resumptions_append, resumptions_of_forall hzero, hsame, Config.resumptions, Nat.add_comm]

/-- Once nothing of a sequence is under way, a task that is not of the sequence brings nothing of it back. -/
theorem atRest_after (htasks : ∀ t' ∈ rest, t'.owes m slot = false) (hqueues : ∀ q, s.dues m slot q = [])
    (hleft : Config.resumptions m slot ⟨s, t :: rest⟩ = 0) (hown : s.concerns m slot t = false) :
    AtRest m slot (.after s t rest) := by
  refine ⟨fun t' ht' => ?_, fun q => ?_, ?_⟩
  · rcases List.mem_append.1 ht' with ht' | ht'
    · exact owes_carryOut t hown t' ht'
    · exact htasks t' ht'
  · have hsub := dues_carryOut s rest t m slot q hown
    rw [hqueues q] at hsub
    exact List.eq_nil_of_sublist_nil hsub
  · exact Nat.le_zero.1 (hleft ▸ resumptions_after (ne_stepOver_of_concerns hown))

/-- While a sequence rests, only what fires it anew concerns it. -/
theorem concerns_of_atRest (h : AtRest m slot ⟨s, t :: rest⟩) (hanew : t ≠ .act m slot true) :
    s.concerns m slot t = false := by
  have howes := h.tasks t List.mem_cons_self
  cases t with
  | enqueue q job => exact howes
  | complete token =>
    rw [concerns, Bool.and_eq_false_iff]
    refine .inr ?_
    cases htake : (s.queue? token.queue).bind (·.takeFinish? token.ticket) with
    | none => rfl
    | some taken =>
      obtain ⟨f, q'⟩ := taken
      obtain ⟨c, hc, htake⟩ := Option.bind_eq_some_iff.1 htake
      have hnone := h.queues token.queue
      rw [dues, queueAt_of_queue? hc, finishes_takeFinish? htake, List.filter_append, List.append_eq_nil_iff] at hnone
      cases f with
      | none => rfl
      | some f => exact Bool.eq_false_iff.2 (List.filter_eq_nil_iff.1 hnone.1 f (by simp))
  | finish q f =>
    rw [concerns, Bool.and_eq_false_iff]
    exact .inr howes
  | act n other anew =>
    have hleft := h.left
    rw [resumptions_cons] at hleft
    refine Bool.eq_false_iff.2 fun hown => ?_
    obtain ⟨rfl, rfl⟩ : n = m ∧ other = slot := by simpa [concerns] using hown
    cases anew with
    | true => exact hanew rfl
    | false => simp [Task.resumptions] at hleft
  | stepOver n other k => exact howes
  | _ => rfl

end

/-- A sequence that is over notes no step, and nothing is owed to it. -/
theorem over_of_paced {s : Stage} {m least n : Nat} {slot : Slot} {rest : List Task}
    (h : Paced m slot least n ⟨s, .conclude m slot :: rest⟩) : s.stepOf m slot = none ∧ (∀ q, s.dues m slot q = []) ∧
      ∀ t ∈ rest, t.owes m slot = false := by
  have hcell : s.stepOf m slot = none := h.concluded rest rfl
  have hpace := h.pace.dues
  rw [hcell] at hpace
  refine ⟨hcell, fun q => ?_, h.first⟩
  by_cases hq : q = s.home m
  · rw [hq]
    exact hpace.eq_nil
  · exact h.elsewhere q hq

/-- A sequence that notes no step begins with its first. -/
theorem act_begins {s : Stage} {m : Nat} {slot : Slot} {r : Reaction} {kind : EffectKind} (anew : Bool)
    (rest : List Task) (hr : s.reactionOf m slot = some r) (hseq : IsSequence r kind) (hcell : s.stepOf m slot = none) :
    ∃ job, (Config.after s (.act m slot anew) rest).agenda = .enqueue (s.home m) job :: rest ∧
      job.finish = some (.sequenceStep m slot 0) := by
  obtain ⟨c, hc, hreaction⟩ := Option.bind_eq_some_iff.1 hr
  have hstep : c.step? slot = none := by
    rw [stepOf, hc] at hcell
    exact hcell
  have hfirst : nextStep (c.step? slot) < r.steps.length := by
    rw [hstep]
    exact List.length_pos_iff.2 hseq.2
  obtain ⟨s', job, -, hjob, hrun⟩ := runNext_sends s m kind hfirst
  refine ⟨job, ?_, by rw [hjob, hstep]; rfl⟩
  have hhome : s.home m = c.queue := by rw [home, hc]; rfl
  simp only [Config.after, Task.carryOut, act_eq_runNext hc hreaction hseq, hrun, hhome]
  rfl

/-! ## A sequence that is not fired while it is under way -/

/-- A sequence goes on in one place only: either the end of the step that was started last is owed, or that end has
come and something is left to go on. -/
inductive Single (m : Nat) (slot : Slot) (n : Nat) (c : Config) : Prop
  | playing (h : Paced m slot ((c.stage.stepOf m slot).getD 0) n c) (hleft : c.resumptions m slot = 0)
  | pausing (k : Nat) (hcell : c.stage.stepOf m slot = some k) (h : Paced m slot (k + 1) n c)
      (hleft : c.resumptions m slot = 1)

section
variable {s : Stage} {m : Nat} {slot : Slot} {r : Reaction} {kind : EffectKind} {t : Task} {rest : List Task}

theorem single_bystander (h : Single m slot r.steps.length ⟨s, t :: rest⟩) (hheld : Held ⟨s, t :: rest⟩)
    (hseq : IsSequence r kind) (hr : Awaits (t.carryOut s rest).1 m slot r) (hact : ∀ anew, t ≠ .act m slot anew)
    (hstep : ∀ k, t ≠ .stepOver m slot k) : Single m slot r.steps.length (.after s t rest) := by
  have hcell : (Config.after s t rest).stage.stepOf m slot = s.stepOf m slot := stepOf_carryOut t hact hstep
  have hle : (Config.after s t rest).resumptions m slot ≤ _ := resumptions_after hstep
  cases h with
  | playing h hleft =>
    refine .playing ?_ (Nat.le_zero.1 (hleft ▸ hle))
    rw [hcell]
    exact paced_carryOut h hheld hseq hr fun anew heq => absurd heq (hact anew)
  | pausing k hk h hleft =>
    have hpaced := paced_carryOut h hheld hseq hr fun anew heq => absurd heq (hact anew)
    rw [hleft] at hle
    rcases Nat.le_one_iff_eq_zero_or_eq_one.1 hle with hle | hle
    · refine .playing (hpaced.mono ?_) hle
      rw [hcell, show s.stepOf m slot = some k from hk]
      exact Nat.le_succ k
    · exact .pausing k (hcell.trans hk) hpaced hle

theorem single_act {anew : Bool} {c : Machine} (h : Single m slot r.steps.length ⟨s, .act m slot anew :: rest⟩)
    (hc : s.machine? m = some c) (hr : c.reaction? slot = some r) (hseq : IsSequence r kind)
    (hanew : anew = true → s.stepOf m slot = none) :
    Single m slot r.steps.length (.after s (.act m slot anew) rest) := by
  have hafter := stepOf_act hc hr hseq
  replace hafter : (Config.after s (.act m slot anew) rest).stage.stepOf m slot = _ := hafter
  have hleft' := resumptions_act m slot s anew rest
  cases h with
  | playing h hleft =>
    rw [resumptions_cons] at hleft
    cases anew with
    | false => simp [Task.resumptions] at hleft
    | true =>
      have hcell := hanew rfl
      have hpaced := paced_act h (by rw [hcell]; exact Nat.zero_le _) hc hr hseq
      refine .playing (hpaced.mono ?_) (hleft'.trans (Nat.add_eq_zero_iff.1 hleft).2)
      rw [hafter, hcell]
      split
      · exact Nat.le_refl _
      · exact Nat.le_refl _
  | pausing k hk h hleft =>
    cases anew with
    | true =>
      rw [show s.stepOf m slot = some k from hk] at hanew
      cases hanew rfl
    | false =>
      have hcell : s.stepOf m slot = some k := hk
      have hpaced := paced_act h (by rw [hcell]; exact Nat.le_refl _) hc hr hseq
      have hzero : Config.resumptions m slot ⟨s, rest⟩ = 0 := by
        rw [resumptions_cons] at hleft
        simp [Task.resumptions] at hleft
        omega
      refine .playing (hpaced.mono ?_) (hleft'.trans hzero)
      rw [hafter, hcell]
      split
      · exact Nat.le_refl _
      · exact Nat.le_succ k

theorem single_stepOver {k : Nat} {c : Machine} (h : Single m slot r.steps.length ⟨s, .stepOver m slot k :: rest⟩)
    (hc : s.machine? m = some c) (hr : c.reaction? slot = some r) :
    Single m slot r.steps.length (.after s (.stepOver m slot k) rest) := by
  have howed : Config.owed m slot ⟨s, .stepOver m slot k :: rest⟩ =
      .sequenceStep m slot k :: s.dues m slot (s.home m) := by
    simp [owed_of_head, Task.ending?, Task.sending?, Finish.isFor]
  cases h with
  | pausing j hj h hleft =>
    -- the end of the step that was started last has come before
    have hpace := h.pace
    rw [howed, hj] at hpace
    cases hpace.beyond
  | playing h hleft =>
    rw [resumptions_cons] at hleft
    have hrest : Config.resumptions m slot ⟨s, rest⟩ = 0 := (Nat.add_eq_zero_iff.1 hleft).2
    rcases Nat.lt_or_ge k (r.steps.length - 1) with hk | hk
    · have hafter : Config.after s (.stepOver m slot k) rest = ⟨s.schedule (.resume m slot), rest⟩ :=
        congrArg (fun o => Config.mk o.1 (o.2 ++ rest)) (stepOver_waits hc hr hk)
      have hpace := h.pace
      rw [howed] at hpace
      cases hcell : s.stepOf m slot with
      | none =>
        rw [show (Config.mk s (.stepOver m slot k :: rest)).stage.stepOf m slot = none from hcell] at hpace
        cases hpace.eq_nil
      | some j =>
        rw [show (Config.mk s (.stepOver m slot k :: rest)).stage.stepOf m slot = some j from hcell] at hpace
        obtain ⟨rfl, hnothing⟩ := Pace.only hpace
        rw [hafter]
        refine .pausing k hcell (paced_of_owes ?_ h.elsewhere h.first) ?_
        · have hdues : (s.schedule (.resume m slot)).dues m slot ((s.schedule (.resume m slot)).home m) = [] := hnothing
          rw [hdues]
          exact .nil fun j hj => hpace.bound j (hcell.symm.trans hj)
        · rw [resumptions_schedule, hrest]
          simp [Task.resumptions, FrameCall.resumes]
    · have hafter : Config.after s (.stepOver m slot k) rest =
          ⟨s.mapMachine m (·.setStep slot none), .conclude m slot :: rest⟩ :=
        congrArg (fun o => Config.mk o.1 (o.2 ++ rest)) (stepOver_concludes hc hr hk)
      rw [hafter]
      refine .playing ((paced_last h hk hc).mono ?_) ?_
      · simp only [stepOf_setStep_self hc]
        exact Nat.zero_le _
      · rw [resumptions_cons]
        exact (Nat.zero_add _).trans hrest

theorem single_carryOut (h : Single m slot r.steps.length ⟨s, t :: rest⟩) (hheld : Held ⟨s, t :: rest⟩)
    (hseq : IsSequence r kind) (hr : Awaits (t.carryOut s rest).1 m slot r)
    (hanew : t = .act m slot true → s.stepOf m slot = none) : Single m slot r.steps.length (.after s t rest) := by
  by_cases hact : ∃ anew, t = .act m slot anew
  · obtain ⟨anew, rfl⟩ := hact
    obtain ⟨c, hc⟩ := exists_machine?_of_isLive (isLive_of_held hheld rfl)
    refine single_act h hc (hr.before.reaction? hc) hseq fun heq => hanew ?_
    rw [heq]
  · by_cases hstep : ∃ k, t = .stepOver m slot k
    · obtain ⟨k, rfl⟩ := hstep
      obtain ⟨c, hc⟩ := exists_machine?_of_isLive (isLive_of_held hheld rfl)
      exact single_stepOver h hc (hr.before.reaction? hc)
    · exact single_bystander h hheld hseq hr (fun anew heq => hact ⟨anew, heq⟩) fun k heq => hstep ⟨k, heq⟩

end

end Stage

open Stage

section
variable {manners : Manners} {m : Nat} {slot : Slot}

theorem Course.single {r : Reaction} {kind : EffectKind} {c : Config} {past : List Config}
    (h : Course manners (c :: past)) (hseq : IsSequence r kind) (hr : Awaits c.stage m slot r)
    (hanew : ∀ b ∈ past, b.firesAnew m slot = true → b.stage.stepOf m slot = none) :
    Single m slot r.steps.length c := by
  revert hr
  refine Course.invariant (I := fun c => Awaits c.stage m slot r → Single m slot r.steps.length c)
    (P := fun b => b.firesAnew m slot = true → b.stage.stepOf m slot = none) (fun _ => ?_) (fun s hs hr => ?_)
    (fun s cue hs hr => ?_) (fun s t rest _ hcourse hfires ih hr => ?_) h hanew
  · exact .playing (paced_of_owes (.nil fun j hj => by cases hj) (fun _ _ => rfl) fun _ ht => by cases ht) rfl
  · cases hs hr with
    | playing h hleft => exact .playing ⟨h.pace, h.elsewhere, h.first, h.sent, h.concluded⟩ hleft
    | pausing k hk h hleft => exact .pausing k hk ⟨h.pace, h.elsewhere, h.first, h.sent, h.concluded⟩ hleft
  · have hcue : ∀ t ∈ [Task.cue cue], t.owes m slot = false := fun t ht => by
      rw [List.mem_singleton.1 ht]
      rfl
    have hleft' : Config.resumptions m slot ⟨s, [.cue cue]⟩ = Config.resumptions m slot ⟨s, []⟩ := rfl
    cases hs hr with
    | playing h hleft => exact .playing (paced_of_owes h.pace.dues h.elsewhere hcue) (hleft'.trans hleft)
    | pausing k hk h hleft => exact .pausing k hk (paced_of_owes h.pace.dues h.elsewhere hcue) (hleft'.trans hleft)
  · exact single_carryOut (ih hr.before) hcourse.held hseq hr fun heq => hfires (by simp [Config.firesAnew, heq])

theorem Course.atRest {b c : Config} {past : List Config} (h : Course manners (c :: b :: past)) (hb : AtRest m slot b)
    (hanew : b.firesAnew m slot = false) : AtRest m slot c := by
  cases h with
  | cleared _ => exact ⟨hb.tasks, hb.queues, hb.left⟩
  | called cue _ =>
    refine ⟨fun t ht => ?_, hb.queues, hb.left⟩
    rw [List.mem_singleton.1 ht]
    rfl
  | stepped _ hstep =>
    obtain ⟨s, agenda⟩ := b
    cases agenda with
    | nil => cases hstep
    | cons t rest =>
      rw [Config.step?_cons, Option.some.injEq] at hstep
      rw [← hstep]
      have hown : s.concerns m slot t = false := concerns_of_atRest hb (by rintro rfl; simp [Config.firesAnew] at hanew)
      exact atRest_after (fun t' ht' => hb.tasks t' (List.mem_cons_of_mem _ ht')) hb.queues hb.left hown

/-- No step of a sequence that is over is noted until its reaction acts. -/
theorem Course.stepOf {r : Reaction} {kind : EffectKind} {b c : Config} {past : List Config}
    (h : Course manners (c :: b :: past)) (hseq : IsSequence r kind) (hr : b.stage.reactionOf m slot = some r)
    (hcell : b.stage.stepOf m slot = none) (hact : b.acts m slot = false) :
    c.stage.reactionOf m slot = some r ∧ c.stage.stepOf m slot = none := by
  have hpaced := h.tail.paced hseq (.inr hr)
  cases h with
  | cleared _ => exact ⟨hr, hcell⟩
  | called cue _ => exact ⟨hr, hcell⟩
  | stepped _ hstep =>
    obtain ⟨s, agenda⟩ := b
    cases agenda with
    | nil => cases hstep
    | cons t rest =>
      rw [Config.step?_cons, Option.some.injEq] at hstep
      rw [← hstep]
      constructor
      · cases remade_carryOut s rest t m with
        | kept hmade => exact (reactionOf_of_made hmade).trans hr
        | built _ hnone =>
          rw [reactionOf, show Stage.machine? s m = none from hnone] at hr
          cases hr
      · refine (stepOf_carryOut t (fun anew heq => ?_) fun k heq => ?_).trans hcell
        · rw [heq] at hact
          simp [Config.acts] at hact
        · -- the end of a step would still be owed
          subst heq
          have hpace := hpaced.pace
          rw [show (Config.mk s (.stepOver m slot k :: rest)).stage.stepOf m slot = none from hcell] at hpace
          have hnothing := hpace.eq_nil
          rw [owed_of_head, List.append_eq_nil_iff, List.append_eq_nil_iff] at hnothing
          simp [Task.ending?, Finish.isFor] at hnothing

/-- **A sequence that is over rests until it is fired anew, unless something was left that goes on with it**, and
nothing is left if it was fired only while it was not under way.  Whatever runs the reaction next, be it a firing or
what was left, begins the sequence with its first step. -/
theorem sequence_rests_unless_continued {r : Reaction} {kind : EffectKind} {c c' : Config} {past : List Config}
    {rest : List Task} (later : List Config) (h : Course manners (c' :: (later ++ c :: past)))
    (hr : c.stage.reactionOf m slot = some r) (hseq : IsSequence r kind) (hover : c.agenda = .conclude m slot :: rest) :
    (c.resumptions m slot = 0 → (∀ b ∈ later, b.firesAnew m slot = false) → AtRest m slot c') ∧
      ((∀ b ∈ past, b.firesAnew m slot = true → b.stage.stepOf m slot = none) → c.resumptions m slot = 0) ∧
      ((∀ b ∈ later, b.acts m slot = false) →
        ∀ anew rest', c'.agenda = .act m slot anew :: rest' → c'.stage.stepOf m slot = none ∧
          ∃ job, (Config.after c'.stage (.act m slot anew) rest').agenda = .enqueue (c'.stage.home m) job :: rest' ∧
            job.finish = some (.sequenceStep m slot 0)) := by
  obtain ⟨s, agenda⟩ := c
  obtain rfl : agenda = .conclude m slot :: rest := hover
  have hcourse : Course manners (⟨s, .conclude m slot :: rest⟩ :: past) := Course.drop (c' :: later) h
  obtain ⟨hcell, hqueues, htasks⟩ := over_of_paced (hcourse.paced hseq (.inr hr))
  refine ⟨fun hleft hanew => ?_, fun hanew => ?_, fun hact anew rest' hc' => ?_⟩
  · induction later generalizing c' with
    | nil =>
      cases h with
      | stepped _ hstep =>
        rw [Config.step?_cons, Option.some.injEq] at hstep
        rw [← hstep]
        exact atRest_after htasks hqueues hleft rfl
    | cons b later ih =>
      exact h.atRest (ih h.tail fun b hb => hanew b (List.mem_cons_of_mem _ hb)) (hanew b List.mem_cons_self)
  · cases hcourse.single hseq (.inr hr) hanew with
    | playing _ hleft => exact hleft
    | pausing k hk _ _ =>
      rw [show (Config.mk s (.conclude m slot :: rest)).stage.stepOf m slot = none from hcell] at hk
      cases hk
  · have hkept : c'.stage.reactionOf m slot = some r ∧ c'.stage.stepOf m slot = none := by
      clear hc'
      induction later generalizing c' with
      | nil => exact h.stepOf hseq hr hcell rfl
      | cons b later ih =>
        obtain ⟨hr', hcell'⟩ := ih h.tail (fun b hb => hact b (List.mem_cons_of_mem _ hb))
        exact h.stepOf hseq hr' hcell' (hact b List.mem_cons_self)
    exact ⟨hkept.2, act_begins anew rest' hkept.1 hseq hkept.2⟩

end


/-- Two animations, one after the other, on a click. -/
def duet : Reaction := { on := .event "click", action := some "one two", encoding := .sequence .animate }

/-- A machine plays the duet, and is clicked before anything else. -/
def duetPlayed (cues : List Cue) : List Config :=
  List.foldl (Course.play 40) [⟨.opened {}, []⟩]
    (.build "m" ⟨1⟩ {} false [.ready ⟨"stage", [duet], none⟩] :: .transition "m" "stage" ::
      .dispatch ⟨1⟩ "click" :: cues)

/-- Each animation ends before the next frame, and that is all. -/
def duetOnce : List Config := duetPlayed [.dispatch ⟨1⟩ "animationend", .tick, .dispatch ⟨1⟩ "animationend", .tick]

/-- There is a second click during the first animation, and both animations end before the next frame, which comes as
far as to run the reaction again. -/
def duetTwice : List Config :=
  Course.play 6 (duetPlayed [.dispatch ⟨1⟩ "click", .dispatch ⟨1⟩ "animationend", .dispatch ⟨1⟩ "animationend"]) .tick

/-- The duet rests after one click, but after the second one it begins again when nobody has clicked. -/
theorem sequence_rests_unless_continued_duet : (∃ c past, duetOnce = c :: past ∧ AtRest 0 ⟨"stage", 0⟩ c) ∧
    ∃ c past rest job, duetTwice = c :: past ∧ c.agenda = .act 0 ⟨"stage", 0⟩ false :: rest ∧
      (Config.after c.stage (.act 0 ⟨"stage", 0⟩ false) rest).agenda = .enqueue (c.stage.home 0) job :: rest ∧
      job.finish = some (.sequenceStep 0 ⟨"stage", 0⟩ 0) := by
  have hseq : IsSequence duet .animate := ⟨rfl, by decide⟩
  constructor
  · obtain ⟨c', c, later, past, rest, hcs, hover, hr, hbefore, hlater⟩ : ∃ c' c later past rest,
        duetOnce = c' :: (later ++ c :: past) ∧ c.agenda = .conclude 0 ⟨"stage", 0⟩ :: rest ∧
        c.stage.reactionOf 0 ⟨"stage", 0⟩ = some duet ∧
        (past.all fun b => !b.firesAnew 0 ⟨"stage", 0⟩ || (b.stage.stepOf 0 ⟨"stage", 0⟩).isNone) = true ∧
        (later.all fun b => !b.firesAnew 0 ⟨"stage", 0⟩) = true :=
      ⟨_, _, duetOnce.tail.take 12, _, _, rfl, rfl, rfl, by decide, by decide⟩
    have hcourse : Course {} (c' :: (later ++ c :: past)) := hcs ▸ Course.plays {} 40 _ .opened
    obtain ⟨hrests, hleft, -⟩ := sequence_rests_unless_continued later hcourse hr hseq hover
    refine ⟨c', _, hcs, hrests (hleft fun b hb hfires => ?_) fun b hb => ?_⟩
    · simpa [hfires] using List.all_eq_true.1 hbefore b hb
    · simpa using List.all_eq_true.1 hlater b hb
  · obtain ⟨c', c, later, past, rest, rest', hcs, hover, hr, hlater, hact⟩ : ∃ c' c later past rest rest',
        duetTwice = c' :: (later ++ c :: past) ∧ c.agenda = .conclude 0 ⟨"stage", 0⟩ :: rest ∧
        c.stage.reactionOf 0 ⟨"stage", 0⟩ = some duet ∧ (later.all fun b => !b.acts 0 ⟨"stage", 0⟩) = true ∧
        c'.agenda = .act 0 ⟨"stage", 0⟩ false :: rest' :=
      ⟨_, _, duetTwice.tail.take 14, _, _, _, rfl, rfl, rfl, by decide, rfl⟩
    have hcourse : Course {} (c' :: (later ++ c :: past)) :=
      hcs ▸ Course.play_course 6 (Course.plays {} 40 _ .opened) .tick
    obtain ⟨-, -, hbegins⟩ := sequence_rests_unless_continued later hcourse hr hseq hover
    obtain ⟨-, job, hjob⟩ := hbegins (fun b hb => by simpa using List.all_eq_true.1 hlater b hb) false rest' hact
    exact ⟨c', _, rest', job, hcs, hact, hjob⟩

end Stagecraft
