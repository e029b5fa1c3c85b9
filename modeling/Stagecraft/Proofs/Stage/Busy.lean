import Stagecraft.Proofs.Stage.Pending
/-!
# A machine that plays an effect

When nothing is being done on a stage, a machine in use is busy exactly if one call waits on the page for the end of
the effect that it plays.
-/
namespace Stagecraft

/-- The event with which the page reports the end of an effect. -/
def Settings.endOf (settings : Settings) : EffectKind → String
  | .animate => settings.animationEnd
  | _ => settings.transitionEnd

/-- The calls that wait for the end of a job of the queue. -/
def Stage.awaited (s : Stage) (q : Nat) : List (Waiting OnceCall) :=
  s.page.waiting.filter fun w => w.call.tokens.any fun token => token.queue = q

/-- The job with this number in the queue of the machine plays an effect on the element of the machine, and the call
waits there for the event that ends such an effect. -/
def Machine.Plays (c : Machine) (job : Job) (number : Nat) (w : Waiting OnceCall) : Prop :=
  ∃ e p token, Stage.plan? c.settings c.element e = some p ∧ job.label = e.source ∧ job.body = .effect p ∧
    token.queue = c.queue ∧ token.ticket = number ∧
    w = ⟨c.element, c.settings.endOf e.kind, .effectEnd c.element p.temporary token⟩

/-- A machine with the history of its queue, while nothing is being done. -/
structure Engaged (machine : Machine) (log : List QueueEvent) (s : Stage) : Prop where
  one : (s.awaited machine.queue).length ≤ 1
  busy : (s.queueAt machine.queue).isRunning = true ↔ (s.awaited machine.queue).length = 1
  /-- What is awaited is the end of the job that was started last, and that job runs. -/
  own : ∀ w ∈ s.awaited machine.queue, ∃ jobs job, startedJobs log = jobs ++ [job] ∧
    (s.queueAt machine.queue).running = some ⟨jobs.length + 1, job.finish⟩ ∧ machine.Plays job (jobs.length + 1) w
  /-- The end of each job that has started has come or is awaited. -/
  kept : log.countP QueueEvent.isStarted = log.countP QueueEvent.isCompleted + (s.awaited machine.queue).length

namespace Stage

theorem endOf_plan? {settings : Settings} {el : ElementId} {e : Effect} {p : EffectPlan}
    (h : plan? settings el e = some p) : p.element = el ∧ p.endEvent = settings.endOf e.kind := by
  unfold plan? at h
  split at h
  · rename_i hkind
    cases h
    exact ⟨rfl, by rw [hkind]; rfl⟩
  · rename_i hkind
    cases h
    exact ⟨rfl, by rw [hkind]; rfl⟩
  · rename_i hkind
    obtain ⟨name, -, rfl⟩ := Option.map_eq_some_iff.1 h
    exact ⟨rfl, by rw [hkind]; rfl⟩

theorem length_awaited (s : Stage) (q : Nat) :
    (s.awaited q).length = (s.page.waiting.flatMap fun w => w.call.tokens).countP (·.queue = q) := by
  unfold awaited
  induction s.page.waiting with
  | nil => rfl
  | cons w ws ih =>
    obtain ⟨el, event, call⟩ := w
    cases call with
    | outside label script => simpa [OnceCall.tokens] using ih
    | effectEnd el' classes token =>
      by_cases hq : token.queue = q <;> simpa [OnceCall.tokens, hq] using ih

/-- All that is awaited of the queue of a machine is awaited for a job of the machine. -/
theorem Reserved.plays {owner : Machine} {log : List QueueEvent} {c : Config} (h : Reserved owner log c)
    (hserial : Serial owner.queue log c) {w : Waiting OnceCall} (hw : w ∈ c.stage.awaited owner.queue) :
    ∃ jobs job, startedJobs log = jobs ++ [job] ∧
      (c.stage.queueAt owner.queue).running = some ⟨jobs.length + 1, job.finish⟩ ∧
      owner.Plays job (jobs.length + 1) w := by
  obtain ⟨hw, htoken⟩ := List.mem_filter.1 hw
  obtain ⟨token, htoken, hq⟩ := List.any_eq_true.1 htoken
  have hq : token.queue = owner.queue := of_decide_eq_true hq
  have hmem : token ∈ c.tokens :=
    List.mem_append_right _ (List.mem_append_left _ (List.mem_flatMap.2 ⟨w, hw, htoken⟩))
  obtain ⟨jobs, job, heq, hticket, hrunning, -⟩ := hserial.turn.exists_busy hmem hq
  refine ⟨jobs, job, heq, hrunning, ?_⟩
  have hend := h.waiting jobs job heq w hw token htoken hq
  have hjob : job ∈ enqueuedJobs log := by
    refine ((List.prefix_append _ _).trans hserial.order).subset ?_
    rw [heq]
    exact List.mem_append_right _ List.mem_cons_self
  obtain ⟨e, p, hp, hlabel, hbody⟩ := (h.sent job hjob).effect
  obtain ⟨helement, hevent⟩ := endOf_plan? hp
  simp only [Job.endCall?, hbody, helement, hevent] at hend
  exact ⟨e, p, token, hp, hlabel, hbody, hq, hticket, (Option.some.inj hend).symm⟩

theorem queueAt_open {s : Stage} {q : Nat} (h : s.isOpen q = true) : (s.queueAt q).closed = false := by
  obtain ⟨c, hc, hclosed⟩ := exists_queue?_of_isOpen h
  rw [queueAt_of_queue? hc]
  exact hclosed

theorem isOpen_of_live {c : Config} (h : Held c) {m : Nat} {machine : Machine} (hm : c.stage.machine? m = some machine)
    (hlive : c.stage.isLive m = true) : c.stage.isOpen machine.queue = true := by
  rw [isLive_of_machine? hm] at hlive
  refine h.queues machine.queue (.inr (.inr ⟨m, machine, hm, rfl, fun hclosed => ?_⟩))
  rw [of_decide_eq_true hlive] at hclosed
  cases hclosed

end Stage
open Stage

/-- While nothing is being done, the tokens of a machine are with the calls that wait, and there is no more than one. -/
theorem Course.awaited_le_one {manners : Manners} {s : Stage} {past : List Config}
    (h : Course manners (⟨s, []⟩ :: past)) {m : Nat} {machine : Machine} (hm : s.machine? m = some machine) :
    (Config.mk s []).tokens.countP (·.queue = machine.queue) = (s.awaited machine.queue).length ∧
      (s.awaited machine.queue).length ≤ 1 := by
  have hunkept : s.tokens.values.countP (·.queue = machine.queue) = 0 :=
    List.countP_eq_zero.2 fun token htoken hq => (h.reserved rfl hm).kept token htoken (of_decide_eq_true hq)
  have htokens : (Config.mk s []).tokens.countP (·.queue = machine.queue) = (s.awaited machine.queue).length := by
    rw [length_awaited, Config.tokens, keptTokens, List.flatMap_nil, List.nil_append, List.countP_append, hunkept,
      Nat.add_zero]
  refine ⟨htokens, htokens ▸ ?_⟩
  cases (h.serial machine.queue rfl).turn with
  | idle _ hno => exact Nat.le_trans (Nat.le_of_eq hno) (Nat.zero_le 1)
  | busy _ _ _ _ hone => exact hone
  | finishing _ _ _ _ _ _ _ hagenda => cases hagenda
  | ending _ _ before _ _ _ _ hagenda => cases before <;> cases hagenda

/-- **A machine in use is busy exactly if it waits for the end of one effect**, and it never waits for more. -/
theorem Course.engaged {manners : Manners} {s : Stage} {past : List Config} (h : Course manners (⟨s, []⟩ :: past))
    {m : Nat} {machine : Machine} (hm : s.machine? m = some machine) (hlive : s.isLive m = true) :
    Engaged machine (queueLog machine.queue past) s := by
  have hreserved := h.reserved rfl hm
  have hserial := h.serial machine.queue rfl
  obtain ⟨htokens, hone⟩ := h.awaited_le_one hm
  have hcounted := hreserved.counted (queueAt_open (isOpen_of_live h.held hm hlive))
  rw [htokens] at hcounted
  refine ⟨hone, ?_, fun w hw => hreserved.plays hserial hw, by omega⟩
  rw [JobQueue.isRunning]
  cases hserial.turn with
  | idle hidle hno =>
    have hzero : (s.awaited machine.queue).length = 0 := htokens.symm.trans hno
    simp [show (s.queueAt machine.queue).running = none from hidle, hzero]
  | busy jobs job _ hbusy _ _ _ hturns =>
    rw [← countP_turns QueueEvent.isStarted (fun _ => rfl), ← countP_turns QueueEvent.isCompleted (fun _ => rfl),
      hturns] at hcounted
    obtain ⟨hstarted, hcompleted⟩ := countP_rounds 1 jobs
    have hlength : (s.awaited machine.queue).length = 1 := by
      simp only [List.countP_append, hstarted, hcompleted, List.countP_singleton, QueueEvent.isStarted,
        QueueEvent.isCompleted, if_true, Bool.false_eq_true, if_false] at hcounted
      omega
    simp [show (s.queueAt machine.queue).running = some _ from hbusy, hlength]
  | finishing _ _ _ _ _ _ _ hagenda => cases hagenda
  | ending _ _ before _ _ _ _ hagenda => cases before <;> cases hagenda

end Stagecraft
