import Stagecraft.Proofs.Stage.Busy
import Stagecraft.Proofs.Stage.Halting
/-!
# What a dispatch does to the effect that a machine plays

A dispatch takes the calls that wait for its event off the page when it begins.  If no event comes in between, the
tokens that it takes with them are all that it hands on to be completed; so it completes the job that was waiting for
the event, if there was one, and what the queue starts after that waits for another dispatch.
-/
namespace Stagecraft

def QueueEvent.completed? : QueueEvent → Option Nat
  | .completed k => some k
  | _ => none

/-- The jobs whose tokens were completed, by their numbers. -/
def completions (log : List QueueEvent) : List Nat := log.filterMap QueueEvent.completed?

/-- No script that a dispatch can come upon makes an event or runs a frame. -/
structure Stage.Still (s : Stage) : Prop where
  hooks : ∀ script ∈ s.hooks.values, isStillScript script = true
  queues : ∀ jq ∈ s.queues, jq.isStill = true
  listeners : ∀ l ∈ s.page.listeners, l.call.isStill = true
  waiting : ∀ w ∈ s.page.waiting, w.call.isStill = true

/-- The tokens on their way to be completed. -/
def Task.armed : Task → List Completion
  | .deliver once _ _ => once.flatMap OnceCall.tokens
  | .callOnce c => c.tokens
  | .complete token => [token]
  | _ => []

/-- The token that a task completes. -/
def Task.completing : Task → List Completion
  | .complete token => [token]
  | _ => []

/-- The tokens of a queue on their way to be completed, in the order in which they will be. -/
def Config.armed (q : Nat) (c : Config) : List Completion :=
  (c.agenda.flatMap Task.armed).filter fun token => token.queue = q

/-- The tokens of a queue that the next task completes, with the configuration in which it is next. -/
def Config.completing (q : Nat) (c : Config) : List (Config × Completion) :=
  ((c.agenda.head?.elim [] Task.completing).filter fun token => token.queue = q).map (Prod.mk c)

/-- Of the tokens of a queue, a task completes or hands on just those that it has. -/
def Task.HandsOn (q : Nat) (t : Task) (left : List Task) : Prop :=
  t.armed.filter (fun token => token.queue = q) =
    t.completing.filter (fun token => token.queue = q) ++
      (left.flatMap Task.armed).filter fun token => token.queue = q

/-- The kinds of task that have tokens on their way to be completed. -/
def Kind.arms : Kind → Bool
  | .deliver | .callOnce | .complete => true
  | _ => false

theorem Task.armed_of_kind {t : Task} (h : t.kind.arms = false) : t.armed = [] := by
  cases t with
  | deliver | callOnce | complete => cases h
  | _ => rfl

namespace Stage

section
variable {s : Stage} {t : Task} {rest : List Task} {log : List QueueEvent} {owner : Machine}

theorem flatMap_armed_of_leaves (h : ∀ kind ∈ t.leaves, kind.arms = false) :
    (t.carryOut s rest).2.flatMap Task.armed = [] :=
  List.flatMap_eq_nil_iff.2 fun t' ht' => Task.armed_of_kind (h _ ((within_carryOut s rest t).kinds t' ht'))

theorem armed_deliver (s : Stage) : ∀ once listeners ran,
    (s.deliver once listeners ran).2.flatMap Task.armed = (Task.deliver once listeners ran).armed
  | c :: cs, ls, ran => by
    simp only [deliver, List.flatMap_cons, List.flatMap_nil, List.append_nil, Task.armed]
  | [], (id, c) :: ls, ran => by
    simp only [deliver]
    split <;> rfl
  | [], [], ran => rfl

theorem armed_callOnce (s : Stage) (agenda : List Task) (c : OnceCall) :
    (s.callOnce agenda c).2.flatMap Task.armed = c.tokens := by
  cases c with
  | outside label script => rfl
  | effectEnd el classes token =>
    have hperform : (classes.map fun c => Task.perform (.removeClass el c)).flatMap Task.armed = [] := by
      refine List.flatMap_eq_nil_iff.2 fun t ht => ?_
      obtain ⟨_, -, rfl⟩ := List.mem_map.1 ht
      rfl
    simp only [callOnce]
    split
    · rw [List.flatMap_append, hperform]
      rfl
    · rfl

/-- **The tokens of a machine that are on their way stay on it until they are completed, and no token joins them**,
unless an event is dispatched. -/
theorem handsOn_carryOut (h : Reserved owner log ⟨s, t :: rest⟩) (hserial : Serial owner.queue log ⟨s, t :: rest⟩)
    (hstill : t.isStill = true) : t.HandsOn owner.queue (t.carryOut s rest).2 := by
  have hother : t.armed = [] → t.completing = [] → (∀ kind ∈ t.leaves, kind.arms = false) →
      t.HandsOn owner.queue (t.carryOut s rest).2 := by
    intro ha hc hl
    rw [Task.HandsOn, ha, hc, flatMap_armed_of_leaves hl]
    rfl
  cases t with
  | dispatch => cases hstill
  | deliver once listeners ran =>
    simp only [Task.HandsOn, Task.carryOut, armed_deliver]
    rfl
  | callOnce c =>
    simp only [Task.HandsOn, Task.carryOut, armed_callOnce]
    rfl
  | complete token =>
    rw [Task.HandsOn, flatMap_armed_of_leaves (by simp [Task.leaves, Kind.arms]), List.filter_nil, List.append_nil]
    rfl
  | settle name fate token =>
    have hnot : token.queue ≠ owner.queue := fun hq => by
      obtain ⟨_, _, -, hbears⟩ := h.head hserial (List.mem_singleton.2 rfl) hq
      exact hbears
    cases fate with
    | complete => simp [Task.HandsOn, Task.armed, Task.completing, Task.carryOut, settle, hnot]
    | drop => rfl
    | park | lend =>
      have hnil : (((s.tokens.get? name).toList.map Task.lose).flatMap Task.armed) = [] := by
        refine List.flatMap_eq_nil_iff.2 fun t ht => ?_
        obtain ⟨_, -, rfl⟩ := List.mem_map.1 ht
        rfl
      simp only [Task.HandsOn, Task.carryOut, settle, hnil]
      rfl
  | cue c =>
    cases c with
    | complete name =>
      simp only [Task.carryOut, follow, withToken]
      cases hget : s.tokens.get? name with
      | none => rfl
      | some token =>
        have hnot := h.kept token (Registry.mem_values_of_get? hget)
        simp [Task.HandsOn, Task.armed, Task.completing, hnot]
    | _ => exact hother rfl rfl (by simp [Task.leaves, Cue.leaves, Kind.arms])
  | release hold => exact hother rfl rfl (by cases hold <;> simp [Task.leaves, Kind.arms])
  | _ => exact hother rfl rfl (by simp [Task.leaves, Kind.arms])

theorem mem_completing {q : Nat} {c : Config} {d : Config × Completion} (h : d ∈ c.completing q) :
    d.1 = c ∧ ∃ rest, c.agenda = .complete d.2 :: rest := by
  obtain ⟨token, htoken, rfl⟩ := List.mem_map.1 h
  refine ⟨rfl, ?_⟩
  have htoken := (List.mem_filter.1 htoken).1
  obtain ⟨s, agenda⟩ := c
  cases agenda with
  | nil => cases htoken
  | cons t rest =>
    cases t with
    | complete token' => exact ⟨rest, by rw [List.mem_singleton.1 htoken]⟩
    | _ => cases htoken

/-- A task completes a token of a queue if the queue is in use. -/
theorem completions_queueEvents (q : Nat) (c : Config) : completions (c.queueEvents q) =
    ((c.completing q).filter fun d => d.1.stage.isOpen q).map fun d => d.2.ticket := by
  obtain ⟨s, agenda⟩ := c
  cases agenda with
  | nil => rfl
  | cons t rest =>
    rw [queueEvents_cons]
    simp only [Config.completing, List.head?_cons, Option.elim_some]
    cases t with
    | complete token =>
      by_cases hq : token.queue = q <;> by_cases hopen : s.isOpen q = true <;>
        simp [completions, queueEvent?, Task.completing, QueueEvent.completed?, hq, hopen]
    | enqueue p job =>
      by_cases hp : p = q <;> simp [completions, queueEvent?, Task.completing, QueueEvent.completed?, hp]
    | pump p =>
      cases hstart : (s.queueAt q).start? <;> by_cases hp : p = q <;>
        simp [completions, queueEvent?, Task.completing, QueueEvent.completed?, hp, hstart]
    | finish p f =>
      by_cases hp : p = q <;> simp [completions, queueEvent?, Task.completing, QueueEvent.completed?, hp]
    | jobOver p =>
      cases hrunning : (s.queueAt q).running <;> by_cases hp : p = q <;>
        simp [completions, queueEvent?, Task.completing, QueueEvent.completed?, hp, hrunning]
    | _ => simp [completions, queueEvent?, Task.completing]

/-- A still task completes the tokens of a machine that come first, and leaves those that come after them. -/
theorem armed_step (h : Reserved owner log ⟨s, t :: rest⟩) (hserial : Serial owner.queue log ⟨s, t :: rest⟩)
    (hstill : t.isStill = true) : (Config.mk s (t :: rest)).armed owner.queue =
      ((Config.mk s (t :: rest)).completing owner.queue).map Prod.snd ++
        (Config.after s t rest).armed owner.queue := by
  have hstep : t.armed.filter _ = _ := handsOn_carryOut h hserial hstill
  have hcompleting : ((Config.mk s (t :: rest)).completing owner.queue).map Prod.snd =
      t.completing.filter fun token => token.queue = owner.queue := by
    rw [Config.completing, List.map_map]
    exact List.map_id _
  rw [hcompleting, Config.armed, Config.armed, Config.after, List.flatMap_cons, List.filter_append, hstep,
    List.flatMap_append, List.filter_append, List.append_assoc]

theorem length_startedJobs (log : List QueueEvent) : (startedJobs log).length = log.countP QueueEvent.isStarted := by
  rw [startedJobs, List.length_filterMap_eq_countP]
  exact List.countP_congr fun e _ => by cases e <;> simp [QueueEvent.started?, QueueEvent.isStarted]

/-- The tokens of a machine change by those that are completed and by that of a job that starts. -/
theorem countP_tokens_step (h : Reserved owner log ⟨s, t :: rest⟩) (hserial : Serial owner.queue log ⟨s, t :: rest⟩) :
    (Config.after s t rest).tokens.countP (·.queue = owner.queue) +
        ((Config.mk s (t :: rest)).completing owner.queue).length =
      (Config.mk s (t :: rest)).tokens.countP (·.queue = owner.queue) +
        (startedJobs (Config.queueEvents owner.queue ⟨s, t :: rest⟩)).length := by
  have hunkept : s.tokens.values.countP (·.queue = owner.queue) = 0 :=
    List.countP_eq_zero.2 fun token htoken hq => h.kept token htoken (of_decide_eq_true hq)
  have hspends : t.spends.countP (·.queue = owner.queue) =
      ((Config.mk s (t :: rest)).completing owner.queue).length := by
    rw [Config.completing, List.length_map, ← List.countP_eq_length_filter]
    cases t with
    | lose token => simp [Task.spends, Task.completing, h.queue_ne_of_lose hserial token rfl]
    | _ => rfl
  have hbalance := countP_tokens_of_balances (balances_of_unkept s rest t hunkept)
  rwa [countP_mints, hspends, ← length_startedJobs, ← queueEvents_cons] at hbalance

theorem machine?_after (t : Task) (rest : List Task) {m : Nat} (hm : s.machine? m = some owner) :
    ∃ owner', (Config.after s t rest).stage.machine? m = some owner' ∧ owner'.made = owner.made := by
  cases remade_carryOut s rest t m with
  | kept hmade =>
    rw [hm, Option.map_some, Option.map_eq_some_iff] at hmade
    exact hmade
  | built _ hnone => rw [hm] at hnone; cases hnone

end

/-! ## Runs -/

theorem queueLog_append (q : Nat) : ∀ later earlier : List Config,
    queueLog q (later ++ earlier) = queueLog q earlier ++ queueLog q later
  | [], earlier => (List.append_nil _).symm
  | c :: later, earlier => by
    rw [List.cons_append, queueLog, queueLog, queueLog_append q later earlier, List.append_assoc]

theorem passed_succ (n : Nat) (s : Stage) (t : Task) (rest : List Task) :
    Course.passed (n + 1) ⟨s, t :: rest⟩ = Course.passed n (.after s t rest) ++ [Config.after s t rest] := rfl

theorem run_succ (n : Nat) (s : Stage) (t : Task) (rest : List Task) :
    Config.run (n + 1) ⟨s, t :: rest⟩ = Config.run n (.after s t rest) := rfl

/-- The last configuration that a run passes through is the one where it ends. -/
theorem exists_passed (past : List Config) : ∀ (n : Nat) (c : Config),
    ∃ l, Course.passed n c ++ c :: past = Config.run n c :: l
  | 0, c => ⟨past, rfl⟩
  | n + 1, ⟨s, []⟩ => ⟨past, rfl⟩
  | n + 1, ⟨s, t :: rest⟩ => by
    obtain ⟨l, hl⟩ := exists_passed (⟨s, t :: rest⟩ :: past) n (.after s t rest)
    exact ⟨l, by rw [passed_succ, run_succ, ← hl, List.append_assoc]; rfl⟩

/-- The tokens that are handed on by a run through some configurations, each with the one in which it is completed.
There are `before` tokens of the queue when the run begins, and `after` when it is over. -/
structure Handed (m q : Nat) (armed : List Completion) (before after : Nat) (passed : List Config)
    (done : List (Config × Completion)) : Prop where
  mem : ∀ d ∈ done, d.1 ∈ passed ∧ (∃ rest, d.1.agenda = .complete d.2 :: rest) ∧
    (d.1.stage.isLive m = true → d.1.stage.isOpen q = true)
  all : armed = done.map Prod.snd
  completed : completions (queueLog q passed) = (done.filter fun d => d.1.stage.isOpen q).map fun d => d.2.ticket
  left : after + done.length = before + (startedJobs (queueLog q passed)).length

/-- One configuration more, in front of the run. -/
theorem Handed.before {m q before before' after : Nat} {armed : List Completion} {passed : List Config}
    {done : List (Config × Completion)} (h : Handed m q armed before after passed done) {c : Config}
    (hopen : c.stage.isLive m = true → c.stage.isOpen q = true)
    (hstep : before + (c.completing q).length = before' + (startedJobs (c.queueEvents q)).length) :
    Handed m q ((c.completing q).map Prod.snd ++ armed) before' after (passed ++ [c]) (c.completing q ++ done) where
  mem d hd := by
    rcases List.mem_append.1 hd with hd | hd
    · obtain ⟨hc, hagenda⟩ := mem_completing hd
      rw [hc]
      exact ⟨List.mem_append_right _ List.mem_cons_self, hagenda, hopen⟩
    · obtain ⟨hmem, hagenda⟩ := h.mem d hd
      exact ⟨List.mem_append_left _ hmem, hagenda⟩
  all := by rw [h.all, List.map_append]
  completed := by
    rw [queueLog_append, List.filter_append, List.map_append, ← h.completed, ← completions_queueEvents]
    exact List.filterMap_append
  left := by
    have hleft := h.left
    have hstarted : startedJobs (queueLog q (passed ++ [c])) =
        startedJobs (c.queueEvents q) ++ startedJobs (queueLog q passed) := by
      rw [queueLog_append]
      exact List.filterMap_append
    rw [hstarted, List.length_append, List.length_append]
    omega

/-- **A still run hands on the tokens that are on their way, and completes those whose queue is in use then.** -/
theorem handed_of_halts {manners : Manners} {m q : Nat} : ∀ (n : Nat) {c : Config} {past : List Config},
    Course manners (c :: past) → Hushed c → (∃ owner, c.stage.machine? m = some owner ∧ owner.queue = q) →
    (Config.run n c).agenda = [] → ∃ done, Handed m q (c.armed q) (c.tokens.countP (·.queue = q))
      ((Config.run n c).tokens.countP (·.queue = q)) (Course.passed n c ++ [c]) done := by
  have hover : ∀ s, Handed m q ((Config.mk s []).armed q) ((Config.mk s []).tokens.countP (·.queue = q))
      ((Config.mk s []).tokens.countP (·.queue = q)) [⟨s, []⟩] [] := fun s => ⟨by simp, rfl, rfl, rfl⟩
  intro n
  induction n with
  | zero =>
    rintro ⟨s, agenda⟩ past - - - hend
    obtain rfl : agenda = [] := hend
    exact ⟨[], hover s⟩
  | succ n ih =>
    rintro ⟨s, agenda⟩ past h hhushed ⟨owner, hm, rfl⟩ hend
    cases agenda with
    | nil => exact ⟨[], hover s⟩
    | cons t rest =>
      obtain ⟨owner', hm', hmade⟩ := machine?_after t rest hm
      have hqueue : owner'.queue = owner.queue := (congrArg Machine.queue hmade :)
      obtain ⟨done, hdone⟩ :=
        ih (.stepped h (Config.step?_cons ..)) (hushed_after hhushed) ⟨owner', hm', hqueue⟩ hend
      have hreserved := h.reserved rfl hm
      have hserial := h.serial owner.queue rfl
      rw [armed_step hreserved hserial (hhushed.agenda t List.mem_cons_self), passed_succ]
      exact ⟨_, hdone.before (isOpen_of_live h.held hm) (countP_tokens_step hreserved hserial)⟩

theorem machine?_run {m : Nat} : ∀ (n : Nat) {c : Config} {owner : Machine}, c.stage.machine? m = some owner →
    ∃ owner', (Config.run n c).stage.machine? m = some owner' ∧ owner'.made = owner.made
  | 0, _, owner, hm => ⟨owner, hm, rfl⟩
  | n + 1, ⟨s, []⟩, owner, hm => ⟨owner, hm, rfl⟩
  | n + 1, ⟨s, t :: rest⟩, owner, hm => by
    obtain ⟨owner', hm', hmade'⟩ := machine?_after t rest hm
    obtain ⟨owner'', hm'', hmade''⟩ := machine?_run n hm'
    exact ⟨owner'', hm'', hmade''.trans hmade'⟩

theorem length_completions (log : List QueueEvent) :
    (completions log).length = log.countP QueueEvent.isCompleted := by
  rw [completions, List.length_filterMap_eq_countP]
  exact List.countP_congr fun e _ => by cases e <;> simp [QueueEvent.completed?, QueueEvent.isCompleted]

/-! ## One dispatch -/

section
variable {s : Stage} {el : ElementId} {event : String}

/-- The stage once a dispatch has taken what waits for its event. -/
def taken (s : Stage) (el : ElementId) (event : String) : Config :=
  .after s (.dispatch el event) []

theorem hushed_taken (el : ElementId) (event : String) (hr : s.manners.reflexes = []) (hs : s.Still) :
    Hushed (s.taken el event) where
  manners := hr
  hooks := hs.hooks
  queues := hs.queues
  agenda t ht := by
    rw [List.mem_singleton.1 ht, Task.isStill, Bool.and_eq_true, List.all_eq_true, List.all_eq_true]
    refine ⟨fun c hc => ?_, fun l hl => ?_⟩
    · obtain ⟨w, hw, rfl⟩ := List.mem_map.1 hc
      exact hs.waiting w (List.mem_filter.1 hw).1
    · obtain ⟨l', hl', rfl⟩ := List.mem_map.1 hl
      exact hs.listeners l' (List.mem_filter.1 hl').1

theorem armed_taken (s : Stage) (el : ElementId) (event : String) (q : Nat) : (s.taken el event).armed q =
    ((s.page.awaiting el event).flatMap fun w => w.call.tokens).filter fun token => token.queue = q := by
  simp only [taken, Config.armed, Config.after, Task.carryOut, dispatch, List.append_nil, List.flatMap_cons,
    List.flatMap_nil, Task.armed, List.flatMap_map]

theorem mem_armed_taken {q : Nat} {token : Completion} : token ∈ (s.taken el event).armed q ↔
    ∃ w ∈ s.awaited q, w.hears el event = true ∧ token ∈ w.call.tokens ∧ token.queue = q := by
  rw [armed_taken, List.mem_filter, List.mem_flatMap, decide_eq_true_eq]
  constructor
  · rintro ⟨⟨w, hw, htoken⟩, hq⟩
    obtain ⟨hw, hhears⟩ := List.mem_filter.1 hw
    exact ⟨w, List.mem_filter.2 ⟨hw, List.any_eq_true.2 ⟨token, htoken, decide_eq_true hq⟩⟩, hhears, htoken, hq⟩
  · rintro ⟨w, hw, hhears, htoken, hq⟩
    exact ⟨⟨w, List.mem_filter.2 ⟨(List.mem_filter.1 hw).1, hhears⟩, htoken⟩, hq⟩

theorem length_armed_taken (s : Stage) (el : ElementId) (event : String) (q : Nat) :
    ((s.taken el event).armed q).length ≤ (s.awaited q).length := by
  have h := countP_flatMap_filter (fun token : Completion => token.queue = q)
    (fun w : Waiting OnceCall => w.hears el event) (fun w => w.call.tokens) s.page.waiting
  rw [armed_taken, length_awaited, ← List.countP_eq_length_filter, Page.awaiting]
  omega

end

end Stage
open Stage

/-- What an event does to the effect that a machine plays.  `passed` are the configurations until nothing is left to do,
and `s'` is the stage then. -/
structure Dispatched (m : Nat) (machine : Machine) (s : Stage) (el : ElementId) (event : String)
    (passed : List Config) (s' : Stage) : Prop where
  /-- An event that the machine does not wait for completes no job of it. -/
  other : (∀ w ∈ s.awaited machine.queue, w.hears el event = false) →
    completions (queueLog machine.queue passed) = []
  /-- The event that it waits for completes no job but the one that runs.  The token of that job is completed, which
  ends the job if the machine is still in use by then. -/
  own : ∀ w ∈ s.awaited machine.queue, w.hears el event = true → ∀ r, (s.queueAt machine.queue).running = some r →
    (completions (queueLog machine.queue passed)).Sublist [r.ticket] ∧
    ∃ b ∈ passed, (∃ token rest, b.agenda = .complete token :: rest ∧ token.queue = machine.queue ∧
      token.ticket = r.ticket) ∧
      (b.stage.isLive m = true → completions (queueLog machine.queue passed) = [r.ticket])
  /-- At most one job starts, and it is the next in line. -/
  next : (startedJobs (queueLog machine.queue passed)).length ≤ 1 ∧
    startedJobs (queueLog machine.queue passed) <+:
      (s.queueAt machine.queue).waiting ++ enqueuedJobs (queueLog machine.queue passed)
  /-- The end of a job that has started is still awaited. -/
  pending : ∀ job ∈ startedJobs (queueLog machine.queue passed),
    ∃ w, s'.awaited machine.queue = [w] ∧ machine.Plays job ((s.queueAt machine.queue).started + 1) w

section
variable {manners : Manners} {s : Stage} {past : List Config} {m : Nat} {machine : Machine} {el : ElementId}
  {event : String}

/-- **A dispatch on a still stage comes to its end**, and the course goes on from there. -/
theorem Course.exists_dispatch (h : Course manners (⟨s, []⟩ :: past)) (hm : s.machine? m = some machine)
    (hr : s.manners.reflexes = []) (hs : s.Still) (el : ElementId) (event : String) : ∃ n s' past' done,
      Config.run n ⟨s, [.cue (.dispatch el event)]⟩ = ⟨s', []⟩ ∧ Course manners (⟨s', []⟩ :: past') ∧
      queueLog machine.queue past' =
        queueLog machine.queue past ++ queueLog machine.queue (passed n ⟨s, [.cue (.dispatch el event)]⟩) ∧
      (∃ machine', s'.machine? m = some machine' ∧ machine'.made = machine.made) ∧
      Handed m machine.queue ((s.taken el event).armed machine.queue) (s.awaited machine.queue).length
        (s'.awaited machine.queue).length (passed n ⟨s, [.cue (.dispatch el event)]⟩) done := by
  have hhushed := hushed_taken el event hr hs
  obtain ⟨n, hend⟩ := hhushed.halts
  have hcued := Course.called (.dispatch el event) h
  have htaken : Course manners (s.taken el event :: _) := .stepped (.stepped hcued rfl) rfl
  obtain ⟨done, hhanded⟩ := handed_of_halts n htaken hhushed ⟨machine, hm, rfl⟩ hend
  have hrun : Config.run (n + 2) ⟨s, [.cue (.dispatch el event)]⟩ = ⟨(Config.run n (s.taken el event)).stage, []⟩ :=
    (show _ = Config.run n (s.taken el event) from rfl).trans (by rw [← hend])
  obtain ⟨past', hpast⟩ := exists_passed (⟨s, []⟩ :: past) (n + 2) ⟨s, [.cue (.dispatch el event)]⟩
  have hcourse : Course manners (⟨(Config.run n (s.taken el event)).stage, []⟩ :: past') := by
    rw [← hrun, ← hpast]
    exact hcued.run (n + 2)
  obtain ⟨machine', hm', hmade⟩ := machine?_run n (c := s.taken el event) hm
  have hqueue : machine'.queue = machine.queue := (congrArg Machine.queue hmade :)
  refine ⟨n + 2, _, past', done, hrun, hcourse, ?_, ⟨machine', hm', hmade⟩, ?_⟩
  · have hall := congrArg (queueLog machine.queue) hpast
    rw [queueLog_append, hrun, queueLog, queueLog, queueLog] at hall
    simpa [Config.queueEvents, queueEvent?] using hall.symm
  · have hafter := (hcourse.awaited_le_one hm').1
    rw [hqueue, ← hend] at hafter
    rw [← (h.awaited_le_one hm).1, ← hafter]
    -- until the calls have been taken, no token is completed
    exact hhanded.before (c := ⟨s, [.dispatch el event]⟩) (isOpen_of_live h.held hm)
      (countP_tokens_of_balances (balances_dispatch _ s el event))

variable {s' : Stage} {past' passed : List Config} {done : List (Config × Completion)} {before after : Nat}

theorem Stage.Handed.length_le
    (h : Handed m machine.queue ((s.taken el event).armed machine.queue) before after passed done) :
    (completions (queueLog machine.queue passed)).length ≤ done.length ∧
      done.length ≤ (s.awaited machine.queue).length := by
  have harmed := length_armed_taken s el event machine.queue
  rw [h.all, List.length_map] at harmed
  refine ⟨?_, harmed⟩
  rw [h.completed, List.length_map]
  exact List.length_filter_le _ _

theorem Stage.Handed.eq_nil
    (h : Handed m machine.queue ((s.taken el event).armed machine.queue) before after passed done)
    (hno : ∀ w ∈ s.awaited machine.queue, w.hears el event = false) :
    completions (queueLog machine.queue passed) = [] := by
  have harmed : (s.taken el event).armed machine.queue = [] := by
    refine List.eq_nil_iff_forall_not_mem.2 fun token htoken => ?_
    obtain ⟨w, hw, hhears, -⟩ := mem_armed_taken.1 htoken
    rw [hno w hw] at hhears
    cases hhears
  have hdone : done = [] := List.map_eq_nil_iff.1 (h.all.symm.trans harmed)
  rw [h.completed, hdone]
  rfl

/-- The token of the job that runs is handed on alone. -/
theorem Stage.Handed.single
    (h : Handed m machine.queue ((s.taken el event).armed machine.queue) before after passed done)
    {log : List QueueEvent} (hengaged : Engaged machine log s) {w : Waiting OnceCall}
    (hw : w ∈ s.awaited machine.queue) (hhears : w.hears el event = true) {r : Running}
    (hr : (s.queueAt machine.queue).running = some r) :
    ∃ b token, done = [(b, token)] ∧ token.queue = machine.queue ∧ token.ticket = r.ticket := by
  obtain ⟨jobs, job, -, hrunning, e, p, token, -, -, -, hq, hticket, hcall⟩ := hengaged.own w hw
  have htoken : token ∈ (s.taken el event).armed machine.queue :=
    mem_armed_taken.2 ⟨w, hw, hhears, by rw [hcall]; exact List.mem_singleton.2 rfl, hq⟩
  have hlength := Nat.le_trans (length_armed_taken s el event machine.queue) hengaged.one
  rw [h.all] at htoken hlength
  rw [hr, Option.some.injEq] at hrunning
  cases done with
  | nil => cases htoken
  | cons d done =>
    obtain ⟨b, token'⟩ := d
    rw [List.map_cons, List.length_cons, List.length_map] at hlength
    obtain rfl : done = [] := List.length_eq_zero_iff.1 (by omega)
    obtain rfl := List.mem_singleton.1 htoken
    exact ⟨b, token, rfl, hq, by rw [hticket, hrunning]⟩

/-- A job that has started of late is awaited, if anything is. -/
theorem Course.awaits_started (h : Course manners (⟨s', []⟩ :: past')) {machine' : Machine}
    (hm : s'.machine? m = some machine') (hmade : machine'.made = machine.made) {log log' : List QueueEvent}
    (hlog : queueLog machine.queue past' = log ++ log') (hone : (startedJobs log').length ≤ 1)
    (hawaited : (startedJobs log').length ≤ (s'.awaited machine.queue).length) : ∀ job ∈ startedJobs log',
      ∃ w, s'.awaited machine.queue = [w] ∧ machine.Plays job ((startedJobs log).length + 1) w := by
  intro job hjob
  have hqueue : machine'.queue = machine.queue := (congrArg Machine.queue hmade :)
  have hstarted : startedJobs log' = [job] := by
    obtain ⟨j, hj⟩ := List.length_eq_one_iff.1 (Nat.le_antisymm hone (List.length_pos_of_mem hjob))
    rw [hj, List.mem_singleton] at hjob
    rw [hj, hjob]
  have hleone := (h.awaited_le_one hm).2
  rw [hqueue] at hleone
  rw [hstarted] at hawaited
  obtain ⟨w, hw⟩ := List.length_eq_one_iff.1 (Nat.le_antisymm hleone hawaited)
  have hreserved := (h.reserved rfl hm).of_made hmade.symm
  rw [hqueue, hlog] at hreserved
  obtain ⟨jobs, job', heq, -, hplays⟩ := hreserved.plays (hlog ▸ h.serial machine.queue rfl) (hw ▸ List.mem_cons_self)
  -- the job that was started last is the one that started now
  have hall : startedJobs log ++ [job] = jobs ++ [job'] := by
    rw [← heq, ← hstarted, startedJobs, startedJobs, startedJobs, List.filterMap_append]
  obtain ⟨rfl, hjobs⟩ := List.append_inj' hall rfl
  obtain rfl := List.singleton_inj.1 hjobs
  exact ⟨w, hw, hplays⟩

/-- The queue takes its jobs in the order in which they were sent, and starts no more than one. -/
theorem Course.starts_next (h : Course manners (⟨s, []⟩ :: past)) (h' : Course manners (⟨s', []⟩ :: past'))
    (hengaged : Engaged machine (queueLog machine.queue past) s) (hclosed : (s.queueAt machine.queue).closed = false)
    (hlog : queueLog machine.queue past' = queueLog machine.queue past ++ queueLog machine.queue passed)
    (hlength : (completions (queueLog machine.queue passed)).length ≤ (s.awaited machine.queue).length) :
    (startedJobs (queueLog machine.queue passed)).length ≤ 1 ∧ startedJobs (queueLog machine.queue passed) <+:
      (s.queueAt machine.queue).waiting ++ enqueuedJobs (queueLog machine.queue passed) := by
  have hserial := h'.serial machine.queue rfl
  rw [hlog] at hserial
  constructor
  · have halone := hserial.turn.alone
    have hkept := hengaged.kept
    rw [List.countP_append, List.countP_append] at halone
    rw [length_startedJobs]
    rw [length_completions] at hlength
    omega
  · have horder := (List.prefix_append _ _).trans hserial.order
    rw [startedJobs, enqueuedJobs, List.filterMap_append, List.filterMap_append] at horder
    have hwhole := (h.serial machine.queue rfl).whole hclosed
    rw [enqueuedJobs] at hwhole
    rw [← hwhole, List.append_assoc] at horder
    exact (List.prefix_append_right_inj _).1 horder

/-- **A dispatch completes the job whose end it is, and no other**, and what starts then is not completed by it. -/
theorem Course.dispatched (h : Course manners (⟨s, []⟩ :: past)) (hm : s.machine? m = some machine)
    (hlive : s.isLive m = true) (hr : s.manners.reflexes = []) (hs : s.Still) (el : ElementId) (event : String) :
    ∃ n s', Config.run n ⟨s, [.cue (.dispatch el event)]⟩ = ⟨s', []⟩ ∧
      Dispatched m machine s el event (Course.passed n ⟨s, [.cue (.dispatch el event)]⟩) s' := by
  obtain ⟨n, s', past', done, hrun, h', hlog, ⟨machine', hm', hmade⟩, hhanded⟩ := h.exists_dispatch hm hr hs el event
  have hengaged := h.engaged hm hlive
  have hclosed := queueAt_open (isOpen_of_live h.held hm hlive)
  obtain ⟨hcompleted, hdone⟩ := hhanded.length_le
  have hnext := h.starts_next h' hengaged hclosed hlog (Nat.le_trans hcompleted hdone)
  refine ⟨n, s', hrun, hhanded.eq_nil, fun w hw hhears r hrunning => ?_, hnext, ?_⟩
  · obtain ⟨b, token, rfl, hq, hticket⟩ := hhanded.single hengaged hw hhears hrunning
    obtain ⟨hmem, ⟨rest, hagenda⟩, hopen⟩ := hhanded.mem _ List.mem_cons_self
    have hcompleted := hhanded.completed
    rw [← hticket]
    refine ⟨?_, b, hmem, ⟨token, rest, hagenda, hq, rfl⟩, fun hlive => ?_⟩
    · rw [hcompleted]
      exact (List.filter_sublist (l := [(b, token)])).map _
    · rw [hcompleted, List.filter_cons_of_pos (by exact hopen hlive)]
      rfl
  · rw [(h.serial machine.queue rfl).count]
    have hleft := hhanded.left
    exact h'.awaits_started hm' hmade hlog hnext.1 (by omega)

theorem Course.manners_eq {c : Config} (h : Course manners (c :: past)) : c.stage.manners = manners := by
  refine Course.invariant (I := fun c => c.stage.manners = manners) (P := fun _ => True) rfl (fun _ h => h)
    (fun _ _ h => h) ?_ h fun _ _ => trivial
  exact fun s t rest _ _ _ hs => (within_carryOut s rest t).touched.manners.trans hs

/-- **A machine plays one effect at a time.**  Whatever is done to a stage and in whatever order, a token of a machine
stays until it is completed.  While nothing is being done, a machine in use is busy exactly if one call waits on the
page for the end of the effect that it plays, and never more than one waits.  If then an event comes, on a host that
never dispatches from inside its own calls and with scripts that make no event and run no frame, it completes the job
whose end it is and no other, and starts no job but the next in line, whose end is awaited afterwards. -/
theorem effects_played_one_at_a_time {c : Config} (h : Course manners (c :: past))
    (hm : c.stage.machine? m = some machine) :
    (∀ t rest, c.agenda = t :: rest → ∀ token ∈ c.tokens, token.queue = machine.queue →
      t = .complete token ∨ token ∈ (Config.after c.stage t rest).tokens) ∧
    (c.agenda = [] → c.stage.isLive m = true →
      Engaged machine (queueLog machine.queue past) c.stage ∧
      (manners.reflexes = [] → c.stage.Still → ∀ el event, ∃ n s',
        Config.run n ⟨c.stage, [.cue (.dispatch el event)]⟩ = ⟨s', []⟩ ∧
        Dispatched m machine c.stage el event (Course.passed n ⟨c.stage, [.cue (.dispatch el event)]⟩) s')) := by
  obtain ⟨s, agenda⟩ := c
  refine ⟨fun t rest hagenda token htoken hq => ?_, fun hagenda hlive => ⟨?_, fun hr hs el event => ?_⟩⟩
  · obtain rfl : agenda = t :: rest := hagenda
    exact (h.reserved rfl hm).stays (h.serial machine.queue rfl) htoken hq
  · obtain rfl : agenda = [] := hagenda
    exact h.engaged hm hlive
  · obtain rfl : agenda = [] := hagenda
    exact h.dispatched hm hlive (h.manners_eq.symm ▸ hr) hs el event

end

/-- Two animations on a click, each of them a job. -/
def pair : Reaction := { on := .event "click", action := some ":animate one:animate two" }

/-- A machine plays the pair, and nothing has happened since the click. -/
def pairPlayed : List Config :=
  [.build "m" ⟨1⟩ {} false [.ready ⟨"stage", [pair], none⟩], .transition "m" "stage", .dispatch ⟨1⟩ "click"].foldl
    (Course.play 40) [⟨.opened {}, []⟩]

/-- The first animation of the pair ends, and the call that has waited for that is about to be made. -/
def pairEnding : List Config := Course.play 3 pairPlayed (.dispatch ⟨1⟩ "animationend")

/-- The end of the first animation is awaited.  A click does not complete it, but its end does, and its token is there
until then. -/
theorem effects_played_one_at_a_time_pair : (∃ s past, pairPlayed = ⟨s, []⟩ :: past ∧ (s.awaited 0).length = 1 ∧
      (∃ n s', Config.run n ⟨s, [.cue (.dispatch ⟨1⟩ "click")]⟩ = ⟨s', []⟩ ∧
        completions (queueLog 0 (Course.passed n ⟨s, [.cue (.dispatch ⟨1⟩ "click")]⟩)) = []) ∧
      ∃ n s', Config.run n ⟨s, [.cue (.dispatch ⟨1⟩ "animationend")]⟩ = ⟨s', []⟩ ∧
        ∃ b ∈ Course.passed n ⟨s, [.cue (.dispatch ⟨1⟩ "animationend")]⟩, ∃ token rest,
          b.agenda = .complete token :: rest ∧ token.queue = 0 ∧ token.ticket = 1) ∧
    ∃ c past t rest token, pairEnding = c :: past ∧ c.agenda = t :: rest ∧ token ∈ c.tokens ∧
      token ∈ (Config.after c.stage t rest).tokens := by
  constructor
  · obtain ⟨s, past, machine, w, r, heq, hm, hqueue, hlive, hawaited, hw, hr, hticket, hstill⟩ :
        ∃ s past machine w r, pairPlayed = ⟨s, []⟩ :: past ∧ s.machine? 0 = some machine ∧ machine.queue = 0 ∧
        s.isLive 0 = true ∧ s.awaited 0 = [w] ∧ (w.element = ⟨1⟩ ∧ w.event = "animationend") ∧
        (s.queueAt 0).running = some r ∧ r.ticket = 1 ∧ s.Still :=
      ⟨_, _, _, _, _, rfl, rfl, rfl, rfl, rfl, ⟨rfl, rfl⟩, rfl, rfl, by decide, by decide, by decide, by decide⟩
    have hcourse : Course {} (⟨s, []⟩ :: past) := heq ▸ Course.plays {} 40 _ .opened
    obtain ⟨-, hidle⟩ := effects_played_one_at_a_time hcourse hm
    obtain ⟨hengaged, hdispatched⟩ := hidle rfl hlive
    have hbusy := hengaged.busy
    rw [hqueue, JobQueue.isRunning, hr] at hbusy
    refine ⟨s, past, heq, hbusy.1 rfl, ?_, ?_⟩
    · obtain ⟨n, s', hrun, hd⟩ := hdispatched rfl hstill ⟨1⟩ "click"
      have hother := hd.other
      rw [hqueue, hawaited] at hother
      exact ⟨n, s', hrun, hother fun w' hw' => by
        rw [List.mem_singleton.1 hw', Waiting.hears, hw.1, hw.2]; decide⟩
    · obtain ⟨n, s', hrun, hd⟩ := hdispatched rfl hstill ⟨1⟩ "animationend"
      have hown := hd.own
      rw [hqueue, hawaited] at hown
      obtain ⟨-, b, hb, ⟨token, rest, hagenda, htoken, hnumber⟩, -⟩ :=
        hown w List.mem_cons_self (by rw [Waiting.hears, hw.1, hw.2]; decide) r hr
      exact ⟨n, s', hrun, b, hb, token, rest, hagenda, htoken, hnumber.trans hticket⟩
  · obtain ⟨c, past, t, rest, token, machine, heq, hagenda, htoken, hne, hm, hqueue⟩ : ∃ c past t rest token machine,
        pairEnding = c :: past ∧ c.agenda = t :: rest ∧ token ∈ c.tokens ∧ t ≠ .complete token ∧
        c.stage.machine? 0 = some machine ∧ token.queue = machine.queue :=
      ⟨_, _, _, _, ⟨0, 1, "animate one"⟩, _, rfl, rfl, by decide, by simp, rfl, rfl⟩
    have hcourse : Course {} (c :: past) :=
      heq ▸ Course.play_course 3 (Course.plays {} 40 _ .opened) (.dispatch ⟨1⟩ "animationend")
    obtain ⟨hstays, -⟩ := effects_played_one_at_a_time hcourse hm
    exact ⟨c, past, t, rest, token, heq, hagenda, htoken,
      (hstays t rest hagenda token htoken hqueue).resolve_left hne⟩

end Stagecraft
