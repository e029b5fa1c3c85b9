import Stagecraft.Proofs.Stage.Held
import Stagecraft.Proofs.Stage.Tokens
/-!
# One job after another

The history of a queue is a list of what has happened to it.  It is a sequence of rounds, one for each job in the order
in which the jobs were sent, whatever jobs do while they start and while they end.
-/
namespace Stagecraft

inductive QueueEvent
  | enqueued (job : Job)
  /-- The job starts, and its token has this ticket. -/
  | started (ticket : Nat) (job : Job)
  /-- The token is completed. -/
  | completed (ticket : Nat)
  /-- What is to be done at the end of the job begins. -/
  | finishing (f : Finish)
  /-- The job is over, and all that was to be done at its end has been done. -/
  | over (ticket : Nat)

namespace QueueEvent

def enqueued? : QueueEvent → Option Job
  | enqueued job => some job
  | _ => none

def started? : QueueEvent → Option Job
  | started _ job => some job
  | _ => none

def isTurn : QueueEvent → Bool
  | enqueued _ => false
  | _ => true

def isStarted : QueueEvent → Bool
  | started .. => true
  | _ => false

def isCompleted : QueueEvent → Bool
  | completed _ => true
  | _ => false

end QueueEvent

/-- The jobs sent to a queue, in this order. -/
def enqueuedJobs (log : List QueueEvent) : List Job := log.filterMap QueueEvent.enqueued?

/-- The jobs that a queue has started, in this order. -/
def startedJobs (log : List QueueEvent) : List Job := log.filterMap QueueEvent.started?

/-- What a queue has done, but for taking jobs. -/
def turns (log : List QueueEvent) : List QueueEvent := log.filter QueueEvent.isTurn

/-- All that happens to the job with a ticket once its token is completed. -/
def ending (k : Nat) (job : Job) : List QueueEvent := job.finish.toList.map .finishing ++ [.over k]

def round (k : Nat) (job : Job) : List QueueEvent := .started k job :: .completed k :: ending k job

/-- The rounds of jobs with tickets from `k` on. -/
def rounds : Nat → List Job → List QueueEvent
  | _, [] => []
  | k, job :: jobs => round k job ++ rounds (k + 1) jobs

namespace Stage

/-- The queue in this place; one that is not there yet is empty. -/
def queueAt (s : Stage) (q : Nat) : JobQueue := (s.queue? q).getD .empty

/-- What a task does to a queue. -/
def queueEvent? (s : Stage) (q : Nat) : Task → Option QueueEvent
  | .enqueue p job => if p = q then some (.enqueued job) else none
  | .pump p => if p = q then (s.queueAt q).start?.map fun (job, q') => .started q'.started job else none
  | .complete token => if token.queue = q ∧ s.isOpen q = true then some (.completed token.ticket) else none
  | .finish p f => if p = q then some (.finishing f) else none
  | .jobOver p => if p = q then (s.queueAt q).running.map fun r => .over r.ticket else none
  | _ => none

end Stage

/-- What the next task of a configuration does to a queue. -/
def Config.queueEvents (q : Nat) (c : Config) : List QueueEvent :=
  (c.agenda.head?.bind (c.stage.queueEvent? q)).toList

/-- The history of a queue, in the order in which it happened. -/
def queueLog (q : Nat) : List Config → List QueueEvent
  | [] => []
  | c :: past => queueLog q past ++ c.queueEvents q

/-! ## Histories -/

theorem turns_append (log log' : List QueueEvent) : turns (log ++ log') = turns log ++ turns log' :=
  List.filter_append ..

theorem rounds_append : ∀ (k : Nat) (jobs : List Job) (job : Job),
    rounds k (jobs ++ [job]) = rounds k jobs ++ round (k + jobs.length) job
  | k, [], job => by simp [rounds]
  | k, j :: jobs, job => by
    rw [List.cons_append, rounds, rounds, rounds_append (k + 1) jobs job, List.append_assoc, List.length_cons,
      Nat.add_assoc, Nat.add_comm 1]

section
variable (p : QueueEvent → Bool)

theorem countP_finishing (hf : ∀ f, p (.finishing f) = false) (fs : List Finish) :
    (fs.map QueueEvent.finishing).countP p = 0 := by
  refine List.countP_eq_zero.2 fun e he hp => ?_
  obtain ⟨f, -, rfl⟩ := List.mem_map.1 he
  rw [hf] at hp
  cases hp

/-- What happens once in each round happens as often as there are rounds. -/
theorem countP_rounds_of_round (h : ∀ k job, (round k job).countP p = 1) : ∀ (k : Nat) (jobs : List Job),
    (rounds k jobs).countP p = jobs.length
  | _, [] => rfl
  | k, job :: jobs => by
    rw [rounds, List.countP_append, h, countP_rounds_of_round h (k + 1) jobs, List.length_cons, Nat.add_comm]

end

/-- In each round one job starts and one token is completed. -/
theorem countP_rounds (k : Nat) (jobs : List Job) : (rounds k jobs).countP QueueEvent.isStarted = jobs.length ∧
    (rounds k jobs).countP QueueEvent.isCompleted = jobs.length := by
  constructor
  · refine countP_rounds_of_round _ (fun k job => ?_) k jobs
    simp [round, ending, List.countP_cons, QueueEvent.isStarted]
  · refine countP_rounds_of_round _ (fun k job => ?_) k jobs
    simp [round, ending, List.countP_cons, QueueEvent.isCompleted]

theorem countP_turns (p : QueueEvent → Bool) (h : ∀ job, p (.enqueued job) = false) (log : List QueueEvent) :
    (turns log).countP p = log.countP p := by
  rw [turns, List.countP_filter]
  refine List.countP_congr fun e _ => ?_
  cases e with
  | enqueued job => simp [h, QueueEvent.isTurn]
  | _ => simp [QueueEvent.isTurn]

/-! ## Turns -/

/-- Whether a task belongs to the end of a job of the queue. -/
def Task.ends (q : Nat) : Task → Bool
  | .finish p _ => p = q
  | .jobOver p => p = q
  | _ => false

namespace Stage

/-- No task belongs to the end of a job of the queue. -/
def Unending (q : Nat) (ts : List Task) : Prop := ∀ t ∈ ts, t.ends q = false

/-- There is no token of the queue. -/
def Tokenless (q : Nat) (c : Config) : Prop := c.tokens.countP (·.queue = q) = 0

/-- Where a queue is in its rounds. -/
inductive Turn (q : Nat) (log : List QueueEvent) (c : Config) : Prop
  | idle (hrunning : (c.stage.queueAt q).running = none) (htokens : Tokenless q c) (hends : Unending q c.agenda)
    (hturns : turns log = rounds 1 (startedJobs log))
  /-- A job runs: there is no token of the queue but its own. -/
  | busy (jobs : List Job) (job : Job) (hjobs : startedJobs log = jobs ++ [job])
    (hrunning : (c.stage.queueAt q).running = some ⟨jobs.length + 1, job.finish⟩)
    (hone : c.tokens.countP (·.queue = q) ≤ 1)
    (hown : c.tokens.countP (fun token => token.queue = q ∧ token.ticket ≠ jobs.length + 1) = 0)
    (hends : Unending q c.agenda) (hturns : turns log = rounds 1 jobs ++ [.started (jobs.length + 1) job])
  /-- The token is completed, and what is to be done at the end comes next. -/
  | finishing (jobs : List Job) (job : Job) (f : Finish) (rest : List Task) (hjobs : startedJobs log = jobs ++ [job])
    (hrunning : (c.stage.queueAt q).running = some ⟨jobs.length + 1, none⟩) (htokens : Tokenless q c)
    (hagenda : c.agenda = .finish q f :: .jobOver q :: rest) (hends : Unending q rest) (hf : job.finish = some f)
    (hturns : turns log = rounds 1 jobs ++ [.started (jobs.length + 1) job, .completed (jobs.length + 1)])
  /-- What is to be done at the end is being done. -/
  | ending (jobs : List Job) (job : Job) (before rest : List Task) (hjobs : startedJobs log = jobs ++ [job])
    (hrunning : (c.stage.queueAt q).running = some ⟨jobs.length + 1, none⟩) (htokens : Tokenless q c)
    (hagenda : c.agenda = before ++ .jobOver q :: rest) (hends : Unending q (before ++ rest))
    (hturns : turns log = rounds 1 jobs ++ [.started (jobs.length + 1) job, .completed (jobs.length + 1)] ++
      job.finish.toList.map .finishing)

/-- A queue and its history. -/
structure Serial (q : Nat) (log : List QueueEvent) (c : Config) : Prop where
  order : startedJobs log ++ (c.stage.queueAt q).waiting <+: enqueuedJobs log
  whole : (c.stage.queueAt q).closed = false → startedJobs log ++ (c.stage.queueAt q).waiting = enqueuedJobs log
  count : (c.stage.queueAt q).started = (startedJobs log).length
  turn : Turn q log c

/-- Jobs that start or are sent are all that the books of a queue take note of. -/
theorem Serial.of_same {q : Nat} {log log' : List QueueEvent} {c c' : Config} (h : Serial q log c)
    (hjobs : startedJobs log' = startedJobs log) (henqueued : enqueuedJobs log' = enqueuedJobs log)
    (hwaiting : (c'.stage.queueAt q).waiting = (c.stage.queueAt q).waiting)
    (hclosed : (c'.stage.queueAt q).closed = (c.stage.queueAt q).closed)
    (hstarted : (c'.stage.queueAt q).started = (c.stage.queueAt q).started) (hturn : Turn q log' c') :
    Serial q log' c' := by
  refine ⟨?_, fun hopen => ?_, ?_, hturn⟩
  · rw [hjobs, henqueued, hwaiting]
    exact h.order
  · rw [hjobs, henqueued, hwaiting]
    exact h.whole (hclosed ▸ hopen)
  · rw [hstarted, hjobs]
    exact h.count

/-! ## What leaves a queue alone -/

theorem queueAt_of_queue? {s : Stage} {q : Nat} {c : JobQueue} (h : s.queue? q = some c) : s.queueAt q = c := by
  rw [queueAt, h]
  rfl

theorem queueAt_mapQueue_ne (s : Stage) {p q : Nat} (h : q ≠ p) (f : JobQueue → JobQueue) :
    (s.mapQueue p f).queueAt q = s.queueAt q := by
  rw [queueAt, queueAt, queue?_mapQueue_ne s h]

theorem queueAt_mapQueue_self {s : Stage} {q : Nat} {c : JobQueue} (h : s.queue? q = some c) (f : JobQueue → JobQueue) :
    (s.mapQueue q f).queueAt q = f c := by
  rw [queueAt, queue?_mapQueue_self, h]
  rfl

theorem exists_queue?_of_isOpen {s : Stage} {q : Nat} (h : s.isOpen q = true) :
    ∃ c, s.queue? q = some c ∧ c.closed = false := by
  unfold isOpen at h
  cases hc : s.queue? q with
  | none => rw [hc] at h; cases h
  | some c =>
    rw [hc] at h
    exact ⟨c, rfl, by simpa using h⟩

/-- A new queue is empty, as it was before it was there. -/
theorem queueAt_append (s : Stage) (q : Nat) :
    (s.queues ++ [JobQueue.empty])[q]?.getD .empty = s.queueAt q := by
  unfold queueAt queue?
  rcases Nat.lt_trichotomy q s.queues.length with h | rfl | h
  · rw [List.getElem?_append_left h]
  · simp
  · rw [List.getElem?_eq_none (by simp; omega), List.getElem?_eq_none (by omega)]

theorem queueAt_congr {s s' : Stage} (h : s'.queues = s.queues) (q : Nat) : s'.queueAt q = s.queueAt q := by
  rw [queueAt, queueAt, queue?, queue?, h]

theorem queueAt_follow (s : Stage) (c : Cue) (q : Nat) : (s.follow c).1.queueAt q = s.queueAt q := by
  cases c with
  | build name el settings hooked states =>
    unfold follow build
    simp only
    split
    · have h := undisturbed_declared el states s
      simp only [castAs, addMachine]
      exact (queueAt_append _ q).trans (queueAt_congr h.queues q)
    · rfl
  | queue name => exact queueAt_append s q
  | _ => exact queueAt_congr ((within_follow s _).touched.agree .queues (by simp [Cue.touches])) q

/-- The tasks that do something to a queue. -/
def handles (q : Nat) : Task → Bool
  | .enqueue p _ => p = q
  | .pump p => p = q
  | .complete token => token.queue = q
  | .jobOver p => p = q
  | .release (.queue p) => p = q
  | _ => false

theorem queueAt_carryOut (s : Stage) (agenda : List Task) {t : Task} {q : Nat} (h : handles q t = false) :
    (t.carryOut s agenda).1.queueAt q = s.queueAt q := by
  have hother : .queues ∉ t.touches → (t.carryOut s agenda).1.queueAt q = s.queueAt q := fun ht =>
    queueAt_congr ((within_carryOut s agenda t).touched.agree .queues ht) q
  cases t with
  | cue c => exact queueAt_follow s c q
  | enqueue p job => exact queueAt_mapQueue_ne _ (Ne.symm (of_decide_eq_false h)) _
  | pump p =>
    simp only [Task.carryOut, pump]
    split
    · exact queueAt_mapQueue_ne _ (Ne.symm (of_decide_eq_false h)) _
    · rfl
  | complete token =>
    simp only [Task.carryOut, complete]
    split
    · split
      · exact queueAt_mapQueue_ne _ (Ne.symm (of_decide_eq_false h)) _
      · rfl
    · rfl
  | jobOver p => exact queueAt_mapQueue_ne _ (Ne.symm (of_decide_eq_false h)) _
  | release hold =>
    cases hold with
    | machine m => exact hother (by simp [Task.touches])
    | queue p =>
      simp only [Task.carryOut, release]
      split
      · rfl
      · exact queueAt_mapQueue_ne _ (Ne.symm (of_decide_eq_false h)) _
    | host => rfl
  | _ => exact hother (by simp [Task.touches])

/-- Only the completion of a token leaves the end of a job to be done. -/
theorem unending_carryOut (s : Stage) (agenda : List Task) {t : Task} {q : Nat}
    (h : ∀ token, t = .complete token → token.queue ≠ q) : Unending q (t.carryOut s agenda).2 := by
  have hkind : .finish ∉ t.leaves → .jobOver ∉ t.leaves → Unending q (t.carryOut s agenda).2 := by
    intro hf hj t' ht'
    have hk := (within_carryOut s agenda t).kinds t' ht'
    cases t' with
    | finish => exact absurd hk hf
    | jobOver => exact absurd hk hj
    | _ => rfl
  cases t with
  | complete token =>
    have hne := h token rfl
    simp only [Task.carryOut, complete]
    split
    · split
      · intro t' ht'
        simp only [List.mem_append, List.mem_map, List.mem_cons, List.not_mem_nil, or_false] at ht'
        rcases ht' with ⟨_, -, rfl⟩ | rfl | rfl | rfl <;> simp [Task.ends, hne]
      · exact fun _ ht' => by cases ht'
    · exact fun _ ht' => by cases ht'
  | cue c => exact hkind (by cases c <;> simp [Task.leaves, Cue.leaves]) (by cases c <;> simp [Task.leaves, Cue.leaves])
  | release hold => exact hkind (by cases hold <;> simp [Task.leaves]) (by cases hold <;> simp [Task.leaves])
  | _ => exact hkind (by simp [Task.leaves]) (by simp [Task.leaves])

theorem Unending.append {q : Nat} {ts ts' : List Task} (h : Unending q ts) (h' : Unending q ts') :
    Unending q (ts ++ ts') := fun t ht => (List.mem_append.1 ht).elim (h t) (h' t)

theorem Unending.tail {q : Nat} {t : Task} {ts : List Task} (h : Unending q (t :: ts)) : Unending q ts :=
  fun t' ht' => h t' (List.mem_cons_of_mem _ ht')

section
variable {q : Nat} {log : List QueueEvent} {s : Stage} {t : Task} {rest : List Task}

/-- The tokens of a queue become no more, unless it starts a job. -/
theorem countP_tokens_le (hmints : ∀ token ∈ s.mints t, token.queue ≠ q) {f : Completion → Bool}
    (hf : ∀ token, f token = true → token.queue = q) :
    (Config.after s t rest).tokens.countP f ≤ (Config.mk s (t :: rest)).tokens.countP f := by
  have h := countP_tokens_after s t rest f
  have hzero : (s.mints t).countP f = 0 :=
    List.countP_eq_zero.2 fun token htoken hft => hmints token htoken (hf token hft)
  omega

theorem Tokenless.after (h : Tokenless q ⟨s, t :: rest⟩) (hmints : ∀ token ∈ s.mints t, token.queue ≠ q) :
    Tokenless q (.after s t rest) :=
  Nat.le_zero.1 (Nat.le_trans (countP_tokens_le hmints fun _ hf => of_decide_eq_true hf) (Nat.le_of_eq h))

/-- A queue stays where it is in its rounds while something else is done. -/
theorem Turn.bystander {log' : List QueueEvent} (h : Turn q log ⟨s, t :: rest⟩)
    (hrunning : ((t.carryOut s rest).1.queueAt q).running = (s.queueAt q).running)
    (hmints : ∀ token ∈ s.mints t, token.queue ≠ q) (hends : t.ends q = false)
    (hleft : Unending q (t.carryOut s rest).2) (hturns : turns log' = turns log)
    (hjobs : startedJobs log' = startedJobs log) : Turn q log' (.after s t rest) := by
  cases h with
  | idle hidle htokens hun hrounds =>
    exact .idle (hrunning.trans hidle) (htokens.after hmints) (hleft.append hun.tail) (by rw [hturns, hjobs, hrounds])
  | busy jobs job heq hbusy hone hown hun hrounds =>
    refine .busy jobs job (hjobs.trans heq) (hrunning.trans hbusy) ?_ ?_ (hleft.append hun.tail) (hturns.trans hrounds)
    · exact Nat.le_trans (countP_tokens_le hmints fun _ hf => of_decide_eq_true hf) hone
    · exact Nat.le_zero.1 (Nat.le_trans (countP_tokens_le hmints fun _ hf => (of_decide_eq_true hf).1)
        (Nat.le_of_eq hown))
  | finishing jobs job f rest' heq hrun htokens hagenda hun hf hrounds =>
    cases hagenda
    simp [Task.ends] at hends
  | ending jobs job before rest' heq hrun htokens hagenda hun hrounds =>
    cases before with
    | nil =>
      cases hagenda
      simp [Task.ends] at hends
    | cons t' before =>
      simp only [List.cons_append, List.cons.injEq] at hagenda
      obtain ⟨rfl, rfl⟩ := hagenda
      refine .ending jobs job ((t.carryOut s _).2 ++ before) rest' (hjobs.trans heq) (hrunning.trans hrun)
        (htokens.after hmints) (List.append_assoc ..).symm ?_ (hturns.trans hrounds)
      rw [List.append_assoc]
      exact hleft.append hun.tail

/-- While a token of the queue is there, its job runs. -/
theorem Turn.exists_busy {c : Config} (h : Turn q log c) {token : Completion} (ht : token ∈ c.tokens)
    (hq : token.queue = q) : ∃ (jobs : List Job) (job : Job), startedJobs log = jobs ++ [job] ∧
      token.ticket = jobs.length + 1 ∧ (c.stage.queueAt q).running = some ⟨jobs.length + 1, job.finish⟩ ∧
      c.tokens.countP (·.queue = q) ≤ 1 ∧ Unending q c.agenda ∧
      turns log = rounds 1 jobs ++ [QueueEvent.started (jobs.length + 1) job] := by
  have hsome : ¬ Tokenless q c := fun hno => List.countP_eq_zero.1 hno token ht (decide_eq_true hq)
  cases h with
  | busy jobs job heq hbusy hone hown hun hrounds =>
    refine ⟨jobs, job, heq, ?_, hbusy, hone, hun, hrounds⟩
    have := List.countP_eq_zero.1 hown token ht
    simpa [hq] using this
  | idle _ htokens => exact absurd htokens hsome
  | finishing _ _ _ _ _ _ htokens => exact absurd htokens hsome
  | ending _ _ _ _ _ _ htokens => exact absurd htokens hsome

/-! ## Every task keeps a queue in its rounds -/

theorem start?_eq_some {c c' : JobQueue} {job : Job} (h : c.start? = some (job, c')) : c.running = none ∧
    ∃ waiting, c.waiting = job :: waiting ∧ c' = { c with
      waiting := waiting, running := some ⟨c.started + 1, job.finish⟩, started := c.started + 1 } := by
  unfold JobQueue.start? at h
  split at h
  · rename_i waiting hr hw
    rw [Option.some.injEq, Prod.mk.injEq] at h
    obtain ⟨rfl, rfl⟩ := h
    exact ⟨hr, waiting, hw, rfl⟩
  · cases h

theorem queueEvents_cons (q : Nat) (s : Stage) (t : Task) (rest : List Task) :
    Config.queueEvents q ⟨s, t :: rest⟩ = (s.queueEvent? q t).toList := rfl

/-- A task that does nothing to the queue. -/
theorem serial_bystander (h : Serial q log ⟨s, t :: rest⟩) (hqueue : (t.carryOut s rest).1.queueAt q = s.queueAt q)
    (hmints : ∀ token ∈ s.mints t, token.queue ≠ q) (hends : t.ends q = false)
    (hleft : Unending q (t.carryOut s rest).2) (hevent : s.queueEvent? q t = none) :
    Serial q (log ++ Config.queueEvents q ⟨s, t :: rest⟩) (.after s t rest) := by
  have hafter : (Config.after s t rest).stage.queueAt q = s.queueAt q := hqueue
  rw [queueEvents_cons, hevent, Option.toList_none, List.append_nil]
  exact h.of_same rfl rfl (by rw [hafter]) (by rw [hafter]) (by rw [hafter])
    (h.turn.bystander (by rw [hqueue]) hmints hends hleft rfl rfl)

theorem serial_enqueue {job : Job} (h : Serial q log ⟨s, .enqueue q job :: rest⟩) (hopen : s.isOpen q = true) :
    Serial q (log ++ Config.queueEvents q ⟨s, .enqueue q job :: rest⟩) (.after s (.enqueue q job) rest) := by
  obtain ⟨c, hc, hclosed⟩ := exists_queue?_of_isOpen hopen
  have hbefore := queueAt_of_queue? hc
  have hafter : ((s.enqueue q job).1).queueAt q = c.add job := queueAt_mapQueue_self (s := s.notify _) hc _
  have hevents : Config.queueEvents q ⟨s, .enqueue q job :: rest⟩ = [.enqueued job] := by
    simp [queueEvents_cons, queueEvent?]
  have hwhole := h.whole (by rw [hbefore]; exact hclosed)
  have hjobs : startedJobs (log ++ [QueueEvent.enqueued job]) = startedJobs log := by
    simp [startedJobs, QueueEvent.started?]
  have henqueued : enqueuedJobs (log ++ [QueueEvent.enqueued job]) = enqueuedJobs log ++ [job] := by
    simp [enqueuedJobs, QueueEvent.enqueued?]
  have hwhole' : startedJobs (log ++ [QueueEvent.enqueued job]) ++ (c.add job).waiting =
      enqueuedJobs (log ++ [QueueEvent.enqueued job]) := by
    simp only [hbefore] at hwhole
    rw [hjobs, henqueued, ← hwhole, List.append_assoc, JobQueue.add]
  rw [hevents]
  refine ⟨?_, fun _ => ?_, ?_, h.turn.bystander ?_ (fun _ ht => by cases ht) rfl
    (unending_carryOut s rest fun _ ht => by cases ht) ?_ hjobs⟩
  · simp only [Config.after, Task.carryOut, hafter, hwhole']
    exact List.prefix_refl _
  · simp only [Config.after, Task.carryOut, hafter, hwhole']
  · simp only [Config.after, Task.carryOut, hafter]
    rw [hjobs, ← h.count, hbefore, JobQueue.add]
  · simp only [Task.carryOut, hafter, hbefore]
    rfl
  · simp [turns, QueueEvent.isTurn]

/-- An idle queue starts its next job. -/
theorem serial_start {c c' : JobQueue} {job : Job} (h : Serial q log ⟨s, .pump q :: rest⟩) (hc : s.queue? q = some c)
    (hstart : c.start? = some (job, c')) :
    Serial q (log ++ Config.queueEvents q ⟨s, .pump q :: rest⟩) (.after s (.pump q) rest) := by
  have hbefore := queueAt_of_queue? hc
  have hbind : (s.queue? q).bind JobQueue.start? = some (job, c') := by rw [hc]; exact hstart
  obtain ⟨hrunning, waiting, hwaiting, rfl⟩ := start?_eq_some hstart
  have hcount := h.count
  have horder := h.order
  have hwhole := h.whole
  simp only [hbefore] at hcount horder hwhole
  have hevents : Config.queueEvents q ⟨s, .pump q :: rest⟩ = [.started ((startedJobs log).length + 1) job] := by
    simp only [queueEvents_cons, queueEvent?, hbefore, hstart, if_true, Option.map_some, Option.toList_some, hcount]
  have hcarry : Task.carryOut s rest (.pump q) = ((s.mapQueue q fun _ => { c with
      waiting := waiting, running := some ⟨c.started + 1, job.finish⟩, started := c.started + 1 }).notify
        (.jobStarted job.label), [.run job.body ⟨q, c.started + 1, job.label⟩]) := by
    simp only [Task.carryOut, pump, hbind]
  have hafter : (Task.carryOut s rest (.pump q)).1.queueAt q = { c with
      waiting := waiting, running := some ⟨c.started + 1, job.finish⟩, started := c.started + 1 } := by
    rw [hcarry]
    exact queueAt_mapQueue_self hc _
  have hmints : s.mints (.pump q) = [⟨q, c.started + 1, job.label⟩] := by
    simp only [mints, hbind, Option.toList_some, List.map_cons, List.map_nil]
  have hjobs : startedJobs (log ++ [QueueEvent.started ((startedJobs log).length + 1) job]) =
      startedJobs log ++ [job] := by
    simp [startedJobs, QueueEvent.started?]
  have henqueued : enqueuedJobs (log ++ [QueueEvent.started ((startedJobs log).length + 1) job]) =
      enqueuedJobs log := by
    simp [enqueuedJobs, QueueEvent.enqueued?]
  rw [hevents]
  refine ⟨?_, ?_, ?_, ?_⟩
  · simp only [Config.after, hafter, hjobs, henqueued, List.append_assoc, List.cons_append, List.nil_append]
    rwa [hwaiting] at horder
  · simp only [Config.after, hafter, hjobs, henqueued, List.append_assoc, List.cons_append, List.nil_append]
    rwa [hwaiting] at hwhole
  · simp only [Config.after, hafter, hjobs, List.length_append, List.length_cons, List.length_nil, hcount]
  · cases h.turn with
    | idle _ htokens hun hrounds =>
      have htoken := fun p => countP_tokens_after s (.pump q) rest p
      refine .busy (startedJobs log) job hjobs ?_ ?_ ?_
        ((unending_carryOut s rest fun _ ht => by cases ht).append hun.tail) ?_
      · simp only [Config.after, hafter, hcount]
      · have hle := htoken fun token => token.queue = q
        simp only [hmints, Task.spends, List.countP_nil, List.countP_cons] at hle
        have hzero : (Config.mk s (.pump q :: rest)).tokens.countP (fun token => token.queue = q) = 0 := htokens
        simp only [decide_true, if_true] at hle
        omega
      · have hle := htoken fun token => token.queue = q ∧ token.ticket ≠ (startedJobs log).length + 1
        have hzero : (Config.mk s (.pump q :: rest)).tokens.countP
            (fun token => token.queue = q ∧ token.ticket ≠ (startedJobs log).length + 1) = 0 := by
          refine List.countP_eq_zero.2 fun token ht hown => ?_
          exact List.countP_eq_zero.1 htokens token ht (decide_eq_true (of_decide_eq_true hown).1)
        simp only [hmints, Task.spends, List.countP_nil, List.countP_cons, hcount, ne_eq, not_true_eq_false, and_false,
          decide_false, Bool.false_eq_true, if_false] at hle hzero ⊢
        omega
      · rw [turns_append, hrounds]
        simp [turns, QueueEvent.isTurn]
    | busy _ _ _ hbusy =>
      simp only [hbefore, hrunning] at hbusy
      cases hbusy
    | finishing _ _ _ _ _ hbusy =>
      simp only [hbefore, hrunning] at hbusy
      cases hbusy
    | ending _ _ _ _ _ hbusy =>
      simp only [hbefore, hrunning] at hbusy
      cases hbusy

/-- What a completion on an open queue does. -/
theorem complete_eq {token : Completion} {c : JobQueue} {f : Option Finish} (hopen : s.isOpen q = true)
    (hc : s.queue? q = some c) (hq : token.queue = q) (hr : c.running = some ⟨token.ticket, f⟩) :
    s.complete token = (s.mapQueue q fun _ => { c with running := some ⟨token.ticket, none⟩ },
      f.toList.map (.finish q) ++ [Task.jobOver q, .pump q, .release (.queue q)]) := by
  have htake : (s.queue? q).bind (·.takeFinish? token.ticket) =
      some (f, { c with running := some ⟨token.ticket, none⟩ }) := by
    rw [hc, Option.bind_some, JobQueue.takeFinish?, hr]
    exact if_pos rfl
  subst hq
  simp only [complete, hopen, if_true, htake]

/-- **Completing a token ends the job that runs**: the token is its own, and what is to be done at its end is done at
once, before the queue looks for the next job. -/
theorem serial_complete {token : Completion} (h : Serial q log ⟨s, .complete token :: rest⟩) (hq : token.queue = q)
    (hopen : s.isOpen q = true) : ∃ (jobs : List Job) (job : Job), startedJobs log = jobs ++ [job] ∧
      token.ticket = jobs.length + 1 ∧ (Config.after s (.complete token) rest).agenda =
        job.finish.toList.map (.finish q) ++ .jobOver q :: .pump q :: .release (.queue q) :: rest ∧
      Serial q (log ++ Config.queueEvents q ⟨s, .complete token :: rest⟩) (.after s (.complete token) rest) := by
  obtain ⟨c, hc, hclosed⟩ := exists_queue?_of_isOpen hopen
  have hbefore := queueAt_of_queue? hc
  have htoken : token ∈ (Config.mk s (.complete token :: rest)).tokens := by simp [Config.tokens, Task.tokens]
  obtain ⟨jobs, job, heq, hticket, hrunning, hone, hun, hrounds⟩ := h.turn.exists_busy htoken hq
  simp only [hbefore] at hrunning
  have hcarry : Task.carryOut s rest (.complete token) = _ := complete_eq hopen hc hq (by rw [hrunning, hticket])
  have hafter : (Task.carryOut s rest (.complete token)).1.queueAt q =
      { c with running := some ⟨token.ticket, none⟩ } := by
    rw [hcarry]
    exact queueAt_mapQueue_self hc _
  have hevents : Config.queueEvents q ⟨s, .complete token :: rest⟩ = [.completed (jobs.length + 1)] := by
    simp [queueEvents_cons, queueEvent?, hq, hopen, hticket]
  have hjobs : startedJobs (log ++ [QueueEvent.completed (jobs.length + 1)]) = startedJobs log := by
    simp [startedJobs, QueueEvent.started?]
  have henqueued : enqueuedJobs (log ++ [QueueEvent.completed (jobs.length + 1)]) = enqueuedJobs log := by
    simp [enqueuedJobs, QueueEvent.enqueued?]
  have hturns : turns (log ++ [QueueEvent.completed (jobs.length + 1)]) =
      rounds 1 jobs ++ [.started (jobs.length + 1) job, .completed (jobs.length + 1)] := by
    rw [turns_append, hrounds]
    simp [turns, QueueEvent.isTurn]
  have htokens : Tokenless q (.after s (.complete token) rest) := by
    have hle := countP_tokens_after s (.complete token) rest fun token => token.queue = q
    simp only [mints, Task.spends, List.countP_nil, List.countP_cons, hq, decide_true, if_true] at hle
    exact Nat.le_zero.1 (by omega)
  have hrunning' : ((Config.after s (.complete token) rest).stage.queueAt q).running =
      some ⟨jobs.length + 1, none⟩ := by
    simp only [Config.after, hafter, hticket]
  have hagenda : (Config.after s (.complete token) rest).agenda =
      job.finish.toList.map (.finish q) ++ .jobOver q :: .pump q :: .release (.queue q) :: rest := by
    simp only [Config.after, hcarry, List.append_assoc, List.cons_append, List.nil_append]
  have hquiet : Unending q (.pump q :: .release (.queue q) :: rest) := by
    intro t ht
    rcases List.mem_cons.1 ht with rfl | ht
    · rfl
    · rcases List.mem_cons.1 ht with rfl | ht
      · rfl
      · exact hun.tail t ht
  have hqueue : (Config.after s (.complete token) rest).stage.queueAt q =
      { c with running := some ⟨token.ticket, none⟩ } :=
    hafter
  refine ⟨jobs, job, heq, hticket, hagenda, ?_⟩
  rw [hevents]
  refine h.of_same hjobs henqueued (by rw [hqueue, hbefore]) (by rw [hqueue, hbefore]) (by rw [hqueue, hbefore]) ?_
  cases hf : job.finish with
  | none =>
    refine .ending jobs job [] _ (hjobs.trans heq) hrunning' htokens ?_ hquiet ?_
    · rw [hagenda, hf]
      rfl
    · rw [hturns, hf, Option.toList_none, List.map_nil, List.append_nil]
  | some f =>
    refine .finishing jobs job f _ (hjobs.trans heq) hrunning' htokens ?_ hquiet hf hturns
    rw [hagenda, hf]
    rfl

theorem not_unending {t : Task} (h : t.ends q = true) (ts : List Task) : ¬ Unending q (t :: ts) := fun hun => by
  rw [hun t List.mem_cons_self] at h
  cases h

theorem serial_finish {f : Finish} (h : Serial q log ⟨s, .finish q f :: rest⟩) :
    Serial q (log ++ Config.queueEvents q ⟨s, .finish q f :: rest⟩) (.after s (.finish q f) rest) := by
  have hqueue : (Config.after s (.finish q f) rest).stage.queueAt q = s.queueAt q := queueAt_carryOut s rest rfl
  have hevents : Config.queueEvents q ⟨s, .finish q f :: rest⟩ = [.finishing f] := by
    simp [queueEvents_cons, queueEvent?]
  have hjobs : startedJobs (log ++ [QueueEvent.finishing f]) = startedJobs log := by
    simp [startedJobs, QueueEvent.started?]
  have henqueued : enqueuedJobs (log ++ [QueueEvent.finishing f]) = enqueuedJobs log := by
    simp [enqueuedJobs, QueueEvent.enqueued?]
  have hends : (Task.finish q f).ends q = true := by simp [Task.ends]
  rw [hevents]
  refine h.of_same hjobs henqueued (by rw [hqueue]) (by rw [hqueue]) (by rw [hqueue]) ?_
  cases h.turn with
  | idle _ _ hun => exact absurd hun (not_unending hends rest)
  | busy _ _ _ _ _ _ hun => exact absurd hun (not_unending hends rest)
  | finishing jobs job f' rest' heq hrun htokens hagenda hun hf hrounds =>
    cases hagenda
    refine .ending jobs job (Task.carryOut s _ (.finish q f)).2 rest' (hjobs.trans heq) ?_
      (htokens.after fun _ ht => by cases ht) rfl ((unending_carryOut s _ fun _ ht => by cases ht).append hun) ?_
    · rw [hqueue]
      exact hrun
    · rw [turns_append, hrounds, hf]
      simp [turns, QueueEvent.isTurn]
  | ending jobs job before rest' _ _ _ hagenda hun =>
    cases before with
    | nil => cases hagenda
    | cons t before =>
      simp only [List.cons_append, List.cons.injEq] at hagenda
      obtain ⟨rfl, -⟩ := hagenda
      exact absurd hun (not_unending hends _)

theorem serial_jobOver (h : Serial q log ⟨s, .jobOver q :: rest⟩) (hopen : s.isOpen q = true) :
    Serial q (log ++ Config.queueEvents q ⟨s, .jobOver q :: rest⟩) (.after s (.jobOver q) rest) := by
  obtain ⟨c, hc, -⟩ := exists_queue?_of_isOpen hopen
  have hbefore := queueAt_of_queue? hc
  have hafter : (Task.carryOut s rest (.jobOver q)).1.queueAt q = c.rest := queueAt_mapQueue_self hc _
  have hends : (Task.jobOver q).ends q = true := by simp [Task.ends]
  cases h.turn with
  | idle _ _ hun => exact absurd hun (not_unending hends rest)
  | busy _ _ _ _ _ _ hun => exact absurd hun (not_unending hends rest)
  | finishing _ _ _ _ _ _ _ hagenda => cases hagenda
  | ending jobs job before rest' heq hrun htokens hagenda hun hrounds =>
    have hevents : Config.queueEvents q ⟨s, .jobOver q :: rest⟩ = [.over (jobs.length + 1)] := by
      simp [queueEvents_cons, queueEvent?, hrun]
    have hjobs : startedJobs (log ++ [QueueEvent.over (jobs.length + 1)]) = startedJobs log := by
      simp [startedJobs, QueueEvent.started?]
    have henqueued : enqueuedJobs (log ++ [QueueEvent.over (jobs.length + 1)]) = enqueuedJobs log := by
      simp [enqueuedJobs, QueueEvent.enqueued?]
    have hfirst : before = [] := by
      cases before with
      | nil => rfl
      | cons t before =>
        simp only [List.cons_append, List.cons.injEq] at hagenda
        obtain ⟨rfl, -⟩ := hagenda
        exact absurd hun (not_unending hends _)
    subst hfirst
    cases hagenda
    have hqueue : (Config.after s (.jobOver q) rest).stage.queueAt q = c.rest := hafter
    rw [hevents]
    refine h.of_same hjobs henqueued (by rw [hqueue, hbefore]; rfl) (by rw [hqueue, hbefore]; rfl)
      (by rw [hqueue, hbefore]; rfl) (.idle ?_ (htokens.after fun _ ht => by cases ht)
        ((unending_carryOut s _ fun _ ht => by cases ht).append hun) ?_)
    · rw [hqueue]
      rfl
    · rw [hjobs, heq, rounds_append, turns_append, hrounds, Nat.add_comm 1, round, Stagecraft.ending]
      simp [turns, QueueEvent.isTurn]

/-- A queue that is let go loses the jobs that wait. -/
theorem serial_release (h : Serial q log ⟨s, .release (.queue q) :: rest⟩) :
    Serial q (log ++ Config.queueEvents q ⟨s, .release (.queue q) :: rest⟩) (.after s (.release (.queue q)) rest) := by
  have hleft : Unending q (Task.carryOut s rest (.release (.queue q))).2 :=
    unending_carryOut s rest fun _ ht => by cases ht
  by_cases hheld : s.holdsQueue rest q = true
  · refine serial_bystander h ?_ (fun _ ht => by cases ht) rfl hleft rfl
    simp only [Task.carryOut, release, hheld, if_true]
  · have hevents : Config.queueEvents q ⟨s, .release (.queue q) :: rest⟩ = [] := rfl
    cases hc : s.queue? q with
    | none =>
      have hqueue : (Task.carryOut s rest (.release (.queue q))).1.queueAt q = s.queueAt q := by
        simp only [Task.carryOut, release, hheld, if_false, Bool.false_eq_true]
        rw [queueAt, queueAt, queue?_mapQueue_self, hc, Option.map_none]
      exact serial_bystander h hqueue (fun _ ht => by cases ht) rfl hleft rfl
    | some c =>
      have hbefore := queueAt_of_queue? hc
      have hafter : (Task.carryOut s rest (.release (.queue q))).1.queueAt q = c.close := by
        simp only [Task.carryOut, release, hheld, if_false, Bool.false_eq_true]
        exact queueAt_mapQueue_self hc _
      have horder := h.order
      have hcount := h.count
      simp only [hbefore] at horder hcount
      rw [hevents, List.append_nil]
      refine ⟨?_, fun hclosed => ?_, ?_, ?_⟩
      · simp only [Config.after, hafter, JobQueue.close, List.append_nil]
        exact (List.prefix_append _ _).trans horder
      · simp only [Config.after, hafter, JobQueue.close] at hclosed
        cases hclosed
      · simp only [Config.after, hafter]
        exact hcount
      · refine h.turn.bystander ?_ (fun _ ht => by cases ht) rfl hleft rfl rfl
        rw [hafter, hbefore]
        rfl

/-- **Every task keeps a queue in its rounds.** -/
theorem serial_carryOut (h : Serial q log ⟨s, t :: rest⟩) (hheld : Held ⟨s, t :: rest⟩) :
    Serial q (log ++ Config.queueEvents q ⟨s, t :: rest⟩) (.after s t rest) := by
  have hother : handles q t = false → (∀ token ∈ s.mints t, token.queue ≠ q) → t.ends q = false →
      s.queueEvent? q t = none → Serial q (log ++ Config.queueEvents q ⟨s, t :: rest⟩) (.after s t rest) := by
    intro hhandles hmints hends hevent
    refine serial_bystander h (queueAt_carryOut s rest hhandles) hmints hends (unending_carryOut s rest ?_) hevent
    rintro token rfl
    exact of_decide_eq_false hhandles
  cases t with
  | enqueue p job =>
    by_cases hp : p = q
    · subst hp
      exact serial_enqueue h (isOpen_of_held hheld rfl)
    · exact hother (by simp [handles, hp]) (fun _ ht => by cases ht) rfl (by simp [queueEvent?, hp])
  | pump p =>
    by_cases hp : p = q
    · subst hp
      cases hstart : (s.queue? p).bind JobQueue.start? with
      | some r =>
        obtain ⟨c, hc, hstart⟩ := Option.bind_eq_some_iff.1 hstart
        exact serial_start h hc hstart
      | none =>
        have hcarry : Task.carryOut s rest (.pump p) = (s, []) := by simp only [Task.carryOut, pump, hstart]
        refine serial_bystander h (by rw [hcarry]) (fun _ ht => ?_) rfl
          (unending_carryOut s rest fun _ ht => by cases ht) ?_
        · rw [mints, hstart] at ht
          cases ht
        · obtain ⟨c, hc, -⟩ := exists_queue?_of_isOpen (isOpen_of_held hheld rfl)
          rw [hc, Option.bind_some] at hstart
          simp only [queueEvent?, if_true, queueAt_of_queue? hc, hstart, Option.map_none]
    · refine hother (by simp [handles, hp]) (fun token ht => ?_) rfl (by simp [queueEvent?, hp])
      obtain ⟨⟨job, q'⟩, -, rfl⟩ := List.mem_map.1 ht
      exact hp
  | complete token =>
    by_cases hq : token.queue = q
    · by_cases hopen : s.isOpen q = true
      · obtain ⟨_, _, -, -, -, hserial⟩ := serial_complete h hq hopen
        exact hserial
      · have hcarry : Task.carryOut s rest (.complete token) = (s, []) := by
          simp only [Task.carryOut, complete, hq, hopen, if_false, Bool.false_eq_true]
        refine serial_bystander h (by rw [hcarry]) (fun _ ht => by cases ht) rfl ?_ (by simp [queueEvent?, hopen])
        rw [hcarry]
        exact fun _ ht => by cases ht
    · exact hother (by simp [handles, hq]) (fun _ ht => by cases ht) rfl (by simp [queueEvent?, hq])
  | finish p f =>
    by_cases hp : p = q
    · subst hp
      exact serial_finish h
    · exact hother rfl (fun _ ht => by cases ht) (by simp [Task.ends, hp]) (by simp [queueEvent?, hp])
  | jobOver p =>
    by_cases hp : p = q
    · subst hp
      exact serial_jobOver h (isOpen_of_held hheld rfl)
    · exact hother (by simp [handles, hp]) (fun _ ht => by cases ht) (by simp [Task.ends, hp])
        (by simp [queueEvent?, hp])
  | release hold =>
    cases hold with
    | queue p =>
      by_cases hp : p = q
      · subst hp
        exact serial_release h
      · exact hother (by simp [handles, hp]) (fun _ ht => by cases ht) rfl rfl
    | _ => exact hother rfl (fun _ ht => by cases ht) rfl rfl
  | _ => exact hother rfl (fun _ ht => by cases ht) rfl rfl

/-- Between two runs a queue stays where it is. -/
theorem Turn.between {s' : Stage} {agenda : List Task} (h : Turn q log ⟨s, []⟩) (hqueue : s'.queueAt q = s.queueAt q)
    (hkept : s'.keptTokens = s.keptTokens) (htokens : agenda.flatMap Task.tokens = []) (hends : Unending q agenda) :
    Turn q log ⟨s', agenda⟩ := by
  have hall : (Config.mk s' agenda).tokens = (Config.mk s []).tokens := by
    simp only [Config.tokens, htokens, hkept, List.flatMap_nil]
  cases h with
  | idle hidle hno hun hrounds =>
    exact .idle (by simp only [hqueue, hidle]) (by rw [Tokenless, hall]; exact hno) hends hrounds
  | busy jobs job heq hbusy hone hown hun hrounds =>
    exact .busy jobs job heq (by simp only [hqueue, hbusy]) (by rw [hall]; exact hone) (by rw [hall]; exact hown) hends
      hrounds
  | finishing _ _ _ _ _ _ _ hagenda => cases hagenda
  | ending _ _ before _ _ _ _ hagenda => cases before <;> cases hagenda

theorem serial_between {s' : Stage} {agenda : List Task} (h : Serial q log ⟨s, []⟩)
    (hqueue : s'.queueAt q = s.queueAt q) (hkept : s'.keptTokens = s.keptTokens)
    (htokens : agenda.flatMap Task.tokens = []) (hends : Unending q agenda) :
    Serial q (log ++ Config.queueEvents q ⟨s, []⟩) ⟨s', agenda⟩ := by
  rw [show Config.queueEvents q ⟨s, []⟩ = [] from rfl, List.append_nil]
  exact h.of_same rfl rfl (congrArg JobQueue.waiting hqueue) (congrArg JobQueue.closed hqueue)
    (congrArg JobQueue.started hqueue) (h.turn.between hqueue hkept htokens hends)

end

end Stage
open Stage

theorem Course.serial {manners : Manners} (q : Nat) {cs : List Config} (h : Course manners cs) :
    ∀ {c : Config} {past : List Config}, cs = c :: past → Serial q (queueLog q past) c := by
  induction h with
  | opened =>
    rintro c past ⟨⟩
    exact ⟨List.prefix_refl _, fun _ => rfl, rfl, .idle rfl rfl (fun _ ht => by cases ht) rfl⟩
  | cleared h ih =>
    rintro c past ⟨⟩
    exact serial_between (ih rfl) rfl rfl rfl fun _ ht => by cases ht
  | called cue h ih =>
    rintro c past ⟨⟩
    refine serial_between (ih rfl) rfl rfl rfl fun t ht => ?_
    rw [List.mem_singleton.1 ht]
    rfl
  | @stepped b b' before h hstep ih =>
    rintro c past ⟨⟩
    obtain ⟨s, agenda⟩ := b
    cases agenda with
    | nil => cases hstep
    | cons t rest =>
      rw [Config.step?_cons, Option.some.injEq] at hstep
      rw [← hstep]
      exact serial_carryOut (ih rfl) h.held

/-- What can be relied on of a queue with this history. -/
structure Orderly (q : Nat) (log : List QueueEvent) (c : Config) : Prop where
  /-- Jobs start in the order in which they were sent, and each at most once. -/
  order : startedJobs log <+: enqueuedJobs log
  /-- While the queue is in use no job is lost: those that have not started wait, in the order in which they were
  sent. -/
  waiting : c.stage.isOpen q = true → startedJobs log ++ (c.stage.queueAt q).waiting = enqueuedJobs log
  /-- At most one job has been started and not yet been completed. -/
  alone : log.countP QueueEvent.isStarted ≤ log.countP QueueEvent.isCompleted + 1
  /-- Round after round, a job starts, its token is completed, what is to be done at its end is done, and it is over. -/
  rounds : turns log <+: Stagecraft.rounds 1 (startedJobs log)
  /-- A token that is completed while the queue is in use is that of the job that runs, and what is to be done at the
  end of the job is done before anything else. -/
  prompt : ∀ token rest, c.agenda = .complete token :: rest → token.queue = q → c.stage.isOpen q = true →
    ∃ jobs job, startedJobs log = jobs ++ [job] ∧ token.ticket = jobs.length + 1 ∧
      (Config.after c.stage (.complete token) rest).agenda =
        job.finish.toList.map (.finish q) ++ .jobOver q :: .pump q :: .release (.queue q) :: rest

namespace Stage

theorem Turn.rounds {q : Nat} {log : List QueueEvent} {c : Config} (h : Turn q log c) :
    turns log <+: Stagecraft.rounds 1 (startedJobs log) := by
  cases h with
  | idle _ _ _ hrounds => exact hrounds ▸ List.prefix_refl _
  | busy jobs job heq _ _ _ _ hrounds =>
    rw [hrounds, heq, rounds_append, Nat.add_comm 1]
    exact (List.prefix_append_right_inj _).2 (List.prefix_append [_] _)
  | finishing jobs job f _ heq _ _ _ _ _ hrounds =>
    rw [hrounds, heq, rounds_append, Nat.add_comm 1]
    exact (List.prefix_append_right_inj _).2 (List.prefix_append [_, _] _)
  | ending jobs job _ _ heq _ _ _ _ hrounds =>
    rw [hrounds, heq, rounds_append, Nat.add_comm 1, List.append_assoc]
    refine (List.prefix_append_right_inj _).2 ?_
    exact ⟨[.over (jobs.length + 1)], by simp [round, Stagecraft.ending]⟩

theorem Turn.alone {q : Nat} {log : List QueueEvent} {c : Config} (h : Turn q log c) :
    log.countP QueueEvent.isStarted ≤ log.countP QueueEvent.isCompleted + 1 := by
  rw [← countP_turns QueueEvent.isStarted (fun _ => rfl) log, ← countP_turns QueueEvent.isCompleted (fun _ => rfl) log]
  cases h with
  | idle _ _ _ hrounds =>
    obtain ⟨hs, hc⟩ := countP_rounds 1 (startedJobs log)
    rw [hrounds, hs, hc]
    exact Nat.le_succ _
  | busy jobs job _ _ _ _ _ hrounds =>
    obtain ⟨hs, hc⟩ := countP_rounds 1 jobs
    rw [hrounds, List.countP_append, List.countP_append, hs, hc]
    exact Nat.le_refl _
  | finishing jobs job f _ _ _ _ _ _ _ hrounds =>
    obtain ⟨hs, hc⟩ := countP_rounds 1 jobs
    rw [hrounds, List.countP_append, List.countP_append, hs, hc]
    exact Nat.le_succ _
  | ending jobs job _ _ _ _ _ _ _ hrounds =>
    obtain ⟨hs, hc⟩ := countP_rounds 1 jobs
    rw [hrounds, List.countP_append, List.countP_append, List.countP_append, List.countP_append, hs, hc,
      countP_finishing _ (fun _ => rfl), countP_finishing _ (fun _ => rfl)]
    exact Nat.le_succ _

end Stage

/-- **A queue runs its jobs one after another, in the order in which they were sent**, whatever the scripts from
outside, the jobs as they start and what is done at their ends send, complete, keep or lose. -/
theorem jobs_run_one_after_another {manners : Manners} {c : Config} {past : List Config}
    (h : Course manners (c :: past)) (q : Nat) : Orderly q (queueLog q past) c := by
  have hserial := h.serial q rfl
  refine ⟨(List.prefix_append _ _).trans hserial.order, fun hopen => ?_, hserial.turn.alone, hserial.turn.rounds, ?_⟩
  · obtain ⟨jq, hq, hclosed⟩ := exists_queue?_of_isOpen hopen
    exact hserial.whole (by rw [queueAt_of_queue? hq]; exact hclosed)
  · obtain ⟨s, agenda⟩ := c
    rintro token rest rfl hq hopen
    obtain ⟨jobs, job, heq, hticket, hagenda, -⟩ := serial_complete hserial hq hopen
    exact ⟨jobs, job, heq, hticket, hagenda⟩

/-- A job that sends another one, completes its own token and sends a third, and at whose end a fourth is sent. -/
def relay : List Cue :=
  [.queue "q", .enqueue "q" "a" true .lend
    [.enqueue "q" "b" true .complete [] none, .complete "a", .enqueue "q" "c" true .park [] none]
    (some [.enqueue "q" "d" true .drop [] none])]

/-- The jobs of the relay have started in the order in which they were sent, but for the last, which still waits. -/
theorem jobs_run_one_after_another_relay : ∃ c past, relay.foldl (Course.play 60) [⟨.opened {}, []⟩] = c :: past ∧
    Orderly 0 (queueLog 0 past) c ∧ (enqueuedJobs (queueLog 0 past)).map Job.label = ["a", "b", "d", "c"] ∧
    (startedJobs (queueLog 0 past)).map Job.label = ["a", "b", "d"] :=
  ⟨_, _, rfl, jobs_run_one_after_another (Course.plays {} 60 relay .opened) 0, by decide, by decide⟩

end Stagecraft
