import Stagecraft.Proofs.Stage.Owner
/-!
# What waits for the end of an effect

A job of a machine plays an effect, and its token goes straight to the page: it is handed on with the call that waits
for the end of the effect until that call is made and the token is completed.  It is never kept from outside, and never
lost.  So while the machine is in use, the tokens that are left are those of the jobs that have started and are not
complete.
-/
namespace Stagecraft

/-- The call that is left waiting for the end of an effect.  A job from outside leaves none. -/
def Job.endCall? (job : Job) (token : Completion) : Option (Waiting OnceCall) :=
  match job.body with
  | .effect p => some ⟨p.element, p.endEvent, .effectEnd p.element p.temporary token⟩
  | .outside .. => none

/-- The task does with the token what is done with the token of this job, and does not let it go. -/
def Task.Bears (job : Job) (token : Completion) : Task → Prop
  | .run body _ => body = job.body
  | .await el event call => job.endCall? token = some ⟨el, event, call⟩
  | .settle .. | .lose .. => False
  | _ => True

/-- The kinds of task that say what becomes of a token. -/
def Kind.decides : Kind → Bool
  | .run | .await | .settle | .lose => true
  | _ => false

theorem Task.bears_of_kind {t : Task} (h : t.kind.decides = false) (job : Job) (token : Completion) :
    t.Bears job token := by
  cases t with
  | run | await | settle | lose => cases h
  | _ => trivial

namespace Stage

/-- What is known of the queue of a machine from its history. -/
structure Reserved (owner : Machine) (log : List QueueEvent) (c : Config) : Prop where
  sending : ∀ job, Task.enqueue owner.queue job ∈ c.agenda → owner.Sends job
  sent : ∀ job ∈ enqueuedJobs log, owner.Sends job
  /-- All tokens are those of the job that was started last. -/
  borne : ∀ jobs job, startedJobs log = jobs ++ [job] →
    ∀ t ∈ c.agenda, ∀ token ∈ t.tokens, token.queue = owner.queue → t.Bears job token
  waiting : ∀ jobs job, startedJobs log = jobs ++ [job] →
    ∀ w ∈ c.stage.page.waiting, ∀ token ∈ w.call.tokens, token.queue = owner.queue → job.endCall? token = some w
  kept : ∀ token ∈ c.stage.tokens.values, token.queue ≠ owner.queue
  counted : (c.stage.queueAt owner.queue).closed = false →
    c.tokens.countP (·.queue = owner.queue) + log.countP QueueEvent.isCompleted = log.countP QueueEvent.isStarted

section
variable {q : Nat} {log : List QueueEvent} {s s' : Stage} {t : Task} {rest : List Task}

/-! ## What a task does to a queue, and to its tokens -/

theorem startedJobs_step (log : List QueueEvent) : startedJobs (log ++ Config.queueEvents q ⟨s, t :: rest⟩) =
    startedJobs log ++ ((s.queueEvent? q t).bind QueueEvent.started?).toList := by
  rw [queueEvents_cons, startedJobs, List.filterMap_append]
  congr 1
  cases s.queueEvent? q t with
  | none => rfl
  | some e => cases h : e.started? <;> simp [h]

theorem enqueuedJobs_step (log : List QueueEvent) : enqueuedJobs (log ++ Config.queueEvents q ⟨s, t :: rest⟩) =
    enqueuedJobs log ++ ((s.queueEvent? q t).bind QueueEvent.enqueued?).toList := by
  rw [queueEvents_cons, enqueuedJobs, List.filterMap_append]
  congr 1
  cases s.queueEvent? q t with
  | none => rfl
  | some e => cases h : e.enqueued? <;> simp [h]

/-- What a task has done to a queue, by what happened to the queue. -/
inductive Did (s : Stage) (q : Nat) : Task → QueueEvent → Prop
  | enqueued (job : Job) : Did s q (.enqueue q job) (.enqueued job)
  | started (job : Job) (c : JobQueue) (h : (s.queueAt q).start? = some (job, c)) :
      Did s q (.pump q) (.started c.started job)
  | completed (token : Completion) (h : token.queue = q) (hopen : s.isOpen q = true) :
      Did s q (.complete token) (.completed token.ticket)
  | finishing (f : Finish) : Did s q (.finish q f) (.finishing f)
  | over (r : Running) (h : (s.queueAt q).running = some r) : Did s q (.jobOver q) (.over r.ticket)

theorem did_of_queueEvent? {e : QueueEvent} (h : s.queueEvent? q t = some e) : Did s q t e := by
  cases t with
  | enqueue p job =>
    obtain ⟨rfl, he⟩ := Option.ite_none_right_eq_some.1 h
    cases he
    exact .enqueued job
  | pump p =>
    obtain ⟨rfl, he⟩ := Option.ite_none_right_eq_some.1 h
    obtain ⟨⟨job, c⟩, hstart, rfl⟩ := Option.map_eq_some_iff.1 he
    exact .started job c hstart
  | complete token =>
    obtain ⟨⟨hq, hopen⟩, he⟩ := Option.ite_none_right_eq_some.1 h
    cases he
    exact .completed token hq hopen
  | finish p f =>
    obtain ⟨rfl, he⟩ := Option.ite_none_right_eq_some.1 h
    cases he
    exact .finishing f
  | jobOver p =>
    obtain ⟨rfl, he⟩ := Option.ite_none_right_eq_some.1 h
    obtain ⟨r, hr, rfl⟩ := Option.map_eq_some_iff.1 he
    exact .over r hr
  | _ => cases h

theorem enqueue_of_enqueued? {job : Job} (h : (s.queueEvent? q t).bind QueueEvent.enqueued? = some job) :
    t = .enqueue q job := by
  obtain ⟨e, he, hjob⟩ := Option.bind_eq_some_iff.1 h
  cases did_of_queueEvent? he with
  | enqueued => cases hjob; rfl
  | _ => cases hjob

/-- A queue starts a job when it is looked after while it is idle. -/
theorem pump_of_started? {job : Job} (h : (s.queueEvent? q t).bind QueueEvent.started? = some job) :
    t = .pump q ∧ ∃ c, (s.queueAt q).start? = some (job, c) := by
  obtain ⟨e, he, hjob⟩ := Option.bind_eq_some_iff.1 h
  cases did_of_queueEvent? he with
  | started job c hstart => cases hjob; exact ⟨rfl, c, hstart⟩
  | _ => cases hjob

theorem start?_queueAt (s : Stage) (q : Nat) : (s.queueAt q).start? = (s.queue? q).bind JobQueue.start? := by
  unfold queueAt
  cases s.queue? q <;> rfl

/-- A token of the queue is made exactly when a job starts. -/
theorem countP_mints (s : Stage) (t : Task) (q : Nat) :
    (s.mints t).countP (fun token => token.queue = q) = (s.queueEvent? q t).toList.countP QueueEvent.isStarted := by
  cases t with
  | pump p =>
    simp only [mints, queueEvent?, start?_queueAt]
    by_cases hp : p = q
    · subst hp
      cases (s.queue? p).bind JobQueue.start? <;> simp [QueueEvent.isStarted]
    · simp only [hp, if_false, Option.toList_none, List.countP_nil]
      cases (s.queue? p).bind JobQueue.start? <;> simp [hp]
  | enqueue p job =>
    simp only [mints, queueEvent?]
    split <;> simp [QueueEvent.isStarted]
  | complete token =>
    simp only [mints, queueEvent?]
    split <;> simp [QueueEvent.isStarted]
  | finish p f =>
    simp only [mints, queueEvent?]
    split <;> simp [QueueEvent.isStarted]
  | jobOver p =>
    simp only [mints, queueEvent?]
    split
    · cases (s.queueAt q).running <;> simp [QueueEvent.isStarted]
    · simp
  | _ => rfl

/-- A token of an open queue is used up exactly when it is completed, unless it is lost. -/
theorem countP_spends (hopen : s.isOpen q = true) (hlose : ∀ token, t = .lose token → token.queue ≠ q) :
    t.spends.countP (fun token => token.queue = q) = (s.queueEvent? q t).toList.countP QueueEvent.isCompleted := by
  cases t with
  | complete token =>
    by_cases hq : token.queue = q <;> simp [Task.spends, queueEvent?, hq, hopen, QueueEvent.isCompleted]
  | lose token => simp [Task.spends, queueEvent?, hlose token rfl]
  | enqueue p job =>
    simp only [Task.spends, queueEvent?]
    split <;> simp [QueueEvent.isCompleted]
  | pump p =>
    simp only [Task.spends, queueEvent?]
    split
    · cases (s.queueAt q).start? <;> simp [QueueEvent.isCompleted]
    · simp
  | finish p f =>
    simp only [Task.spends, queueEvent?]
    split <;> simp [QueueEvent.isCompleted]
  | jobOver p =>
    simp only [Task.spends, queueEvent?]
    split
    · cases (s.queueAt q).running <;> simp [QueueEvent.isCompleted]
    · simp
  | _ => rfl

/-! ## Where tokens go -/

theorem waiting_carryOut {w : Waiting OnceCall} (h : w ∈ (t.carryOut s rest).1.page.waiting) :
    w ∈ s.page.waiting ∨ t = .await w.element w.event w.call ∨ w.call.tokens = [] := by
  by_cases ht : .waiting ∈ t.touches
  · cases t with
    | dispatch el event => exact .inl (List.mem_filter.1 h).1
    | await el event call =>
      rcases List.mem_append.1 h with h | h
      · exact .inl h
      · rw [List.mem_singleton.1 h]
        exact .inr (.inl rfl)
    | cue c =>
      cases c with
      | listenOnce el event label script =>
        rcases List.mem_append.1 h with h | h
        · exact .inl h
        · rw [List.mem_singleton.1 h]
          exact .inr (.inr rfl)
      | _ => simp [Task.touches, Cue.touches] at ht
    | release hold => cases hold <;> simp [Task.touches] at ht
    | _ => simp [Task.touches] at ht
  · rw [show _ = s.page.waiting from (within_carryOut s rest t).touched.agree .waiting ht] at h
    exact .inl h

theorem kept_withToken {name : String} {f : Completion → Task} {token : Completion}
    (h : token ∈ (s.withToken name f).1.tokens.values) : token ∈ s.tokens.values := by
  unfold withToken at h
  split at h
  · exact Registry.mem_values_of_mem_erase h
  · exact h

theorem kept_carryOut {token : Completion} (h : token ∈ (t.carryOut s rest).1.tokens.values) :
    token ∈ s.tokens.values ∨ ∃ name fate, t = .settle name fate token := by
  by_cases ht : .tokens ∈ t.touches
  · cases t with
    | settle name fate token' =>
      cases fate with
      | complete | drop => exact .inl h
      | park | lend => exact (Registry.mem_values_put h).imp_right fun heq => ⟨name, _, by rw [heq]⟩
    | cue c =>
      cases c with
      | complete => exact .inl (kept_withToken h)
      | dropToken => exact .inl (kept_withToken h)
      | _ => simp [Task.touches, Cue.touches] at ht
    | release hold => cases hold <;> simp [Task.touches] at ht
    | _ => simp [Task.touches] at ht
  · rw [show _ = s.tokens from (within_carryOut s rest t).touched.agree .tokens ht] at h
    exact .inl h

theorem tokens_run (s : Stage) (body : JobBody) (token : Completion) :
    ∀ t' ∈ (s.run body token).2, ∀ token' ∈ t'.tokens, token' = token := by
  intro t' ht' token' htoken
  cases body with
  | effect p =>
    simp only [run, List.mem_append, List.mem_map, List.mem_singleton] at ht'
    rcases ht' with ((⟨_, -, rfl⟩ | rfl) | ⟨_, -, rfl⟩) | rfl
    · cases htoken
    · exact List.mem_singleton.1 htoken
    · cases htoken
    · cases htoken
  | outside name script fate =>
    have ht' : t' = .settle name fate token ∨ t' = .script script := by
      simp only [run] at ht'
      split at ht'
      · simpa using ht'
      · simpa [or_comm] using ht'
    rcases ht' with rfl | rfl
    · exact List.mem_singleton.1 htoken
    · cases htoken

/-- What a job from outside does with its token is done by no job that plays an effect. -/
theorem bears_run {job : Job} {body : JobBody} {token : Completion} (heffect : job.isEffect = true)
    (hbody : body = job.body) : ∀ t' ∈ (s.run body token).2, ∀ token' ∈ t'.tokens, t'.Bears job token' := by
  intro t' ht' token' htoken
  subst hbody
  unfold Job.isEffect at heffect
  cases hj : job.body with
  | outside name script fate =>
    rw [hj] at heffect
    cases heffect
  | effect p =>
    rw [hj] at ht'
    simp only [run, List.mem_append, List.mem_map, List.mem_singleton] at ht'
    rcases ht' with ((⟨_, -, rfl⟩ | rfl) | ⟨_, -, rfl⟩) | rfl
    · trivial
    · rw [List.mem_singleton.1 (show token' ∈ [token] from htoken), Task.Bears, Job.endCall?, hj]
    · trivial
    · trivial

/-- **A token is handed on in the way of its job**, unless another job of the queue starts. -/
theorem bears_carryOut {job : Job} (hkept : ∀ token ∈ s.tokens.values, token.queue ≠ q)
    (heffect : job.isEffect = true) (hbears : ∀ token ∈ t.tokens, token.queue = q → t.Bears job token)
    (hstart : (s.queueEvent? q t).bind QueueEvent.started? = none) :
    ∀ t' ∈ (t.carryOut s rest).2, ∀ token ∈ t'.tokens, token.queue = q → t'.Bears job token := by
  intro t' ht' token htoken hq
  have hother : (∀ kind ∈ t.leaves, kind.decides = false) → t'.Bears job token := fun h =>
    Task.bears_of_kind (h _ ((within_carryOut s rest t).kinds t' ht')) job token
  cases t with
  | pump p =>
    simp only [Task.carryOut, pump] at ht'
    split at ht'
    · rename_i j c hj
      rw [List.mem_singleton.1 ht'] at htoken
      rw [List.mem_singleton.1 (show token ∈ [_] from htoken)] at hq
      obtain rfl : p = q := hq
      simp [queueEvent?, start?_queueAt, hj, QueueEvent.started?] at hstart
    · cases ht'
  | run body token' =>
    by_cases hq' : token'.queue = q
    · exact bears_run heffect (hbears token' (List.mem_singleton.2 rfl) hq') t' ht' token htoken
    · exact absurd (tokens_run s body token' t' ht' token htoken ▸ hq) hq'
  | settle name fate token' =>
    have hnot : token'.queue ≠ q := fun hq' => hbears token' (List.mem_singleton.2 rfl) hq'
    cases fate with
    | complete =>
      rw [List.mem_singleton.1 ht']
      trivial
    | drop =>
      rw [List.mem_singleton.1 ht'] at htoken
      exact absurd ((List.mem_singleton.1 (show token ∈ [token'] from htoken)) ▸ hq) hnot
    | park | lend =>
      obtain ⟨old, hold, rfl⟩ := List.mem_map.1 ht'
      rw [List.mem_singleton.1 (show token ∈ [old] from htoken)] at hq
      exact absurd hq (hkept old (Registry.mem_values_of_get? (Option.mem_toList.1 hold)))
  | cue c =>
    cases c with
    | dropToken name =>
      simp only [Task.carryOut, follow, withToken] at ht'
      split at ht'
      · rename_i old hold
        simp only [List.mem_cons, List.not_mem_nil, or_false] at ht'
        rcases ht' with rfl | rfl
        · rw [List.mem_singleton.1 (show token ∈ [old] from htoken)] at hq
          exact absurd hq (hkept old (Registry.mem_values_of_get? hold))
        · trivial
      · cases ht'
    | _ => exact hother (by simp [Task.leaves, Cue.leaves, Kind.decides])
  | release hold => exact hother (by cases hold <;> simp [Task.leaves, Kind.decides])
  | _ => exact hother (by simp [Task.leaves, Kind.decides])

/-! ## What a machine has sent -/

/-- A queue that is not there yet has no history. -/
theorem Serial.fresh {c : Config} (h : Serial q log c) (hq : c.stage.queue? q = none) :
    enqueuedJobs log = [] ∧ startedJobs log = [] ∧ turns log = [] ∧ Tokenless q c := by
  have hempty : c.stage.queueAt q = .empty := by rw [queueAt, hq]; rfl
  have hstarted : startedJobs log = [] := List.length_eq_zero_iff.1 (by rw [← h.count, hempty]; rfl)
  refine ⟨?_, hstarted, ?_⟩
  · rw [← h.whole (by rw [hempty]; rfl), hstarted, hempty]
    rfl
  · cases h.turn with
    | idle _ htokens _ hturns => exact ⟨by rw [hturns, hstarted]; rfl, htokens⟩
    | busy _ _ _ hrunning => rw [hempty] at hrunning; cases hrunning
    | finishing _ _ _ _ _ hrunning => rw [hempty] at hrunning; cases hrunning
    | ending _ _ _ _ _ hrunning => rw [hempty] at hrunning; cases hrunning

theorem Serial.tokenless_of_start? {c : Config} {job : Job} {c' : JobQueue} (h : Serial q log c)
    (hstart : (c.stage.queueAt q).start? = some (job, c')) : Tokenless q c := by
  have hidle := (start?_eq_some hstart).1
  cases h.turn with
  | idle _ htokens => exact htokens
  | busy _ _ _ hrunning => rw [hidle] at hrunning; cases hrunning
  | finishing _ _ _ _ _ hrunning => rw [hidle] at hrunning; cases hrunning
  | ending _ _ _ _ _ hrunning => rw [hidle] at hrunning; cases hrunning

/-- A queue that has been let go is never used again. -/
theorem closed_carryOut (h : ((t.carryOut s rest).1.queueAt q).closed = false) : (s.queueAt q).closed = false := by
  have hother : .closings ∉ t.touches → (s.queueAt q).closed = false := by
    intro ht
    have hmap := congrArg (fun l => (l[q]?).getD false) ((within_carryOut s rest t).touched.agree .closings ht)
    have hclosed : ∀ s : Stage, ((s.queues.map JobQueue.closed)[q]?).getD false = (s.queueAt q).closed := by
      intro s
      rw [queueAt, queue?, List.getElem?_map]
      cases s.queues[q]? <;> rfl
    exact (hclosed s).symm.trans (hmap.symm.trans ((hclosed _).trans h))
  cases t with
  | cue c => exact queueAt_follow s c q ▸ h
  | release hold =>
    cases hold with
    | queue p =>
      by_cases hp : p = q
      · subst hp
        simp only [Task.carryOut, release] at h
        split at h
        · exact h
        · rcases queueAt_mapQueue_cases s p (·.close) with heq | heq
          · rw [heq] at h
            exact h
          · rw [heq] at h
            cases h
      · rwa [queueAt_carryOut s rest (by simp [handles, hp])] at h
    | _ => exact hother (by simp [Task.touches])
  | _ => exact hother (by simp [Task.touches])

/-! ## Every task -/

section
variable {m : Nat} {owner : Machine}

/-- The token that a task has is that of the job that was started last. -/
theorem Reserved.head (h : Reserved owner log ⟨s, t :: rest⟩) (hserial : Serial owner.queue log ⟨s, t :: rest⟩)
    {token : Completion} (htoken : token ∈ t.tokens) (hq : token.queue = owner.queue) :
    ∃ jobs job, startedJobs log = jobs ++ [job] ∧ t.Bears job token := by
  have hmem : token ∈ (Config.mk s (t :: rest)).tokens := by
    rw [Config.tokens, List.flatMap_cons, List.append_assoc]
    exact List.mem_append_left _ htoken
  obtain ⟨jobs, job, heq, -⟩ := hserial.turn.exists_busy hmem hq
  exact ⟨jobs, job, heq, h.borne jobs job heq t List.mem_cons_self token htoken hq⟩

/-- A token of the queue is never lost. -/
theorem Reserved.queue_ne_of_lose (h : Reserved owner log ⟨s, t :: rest⟩)
    (hserial : Serial owner.queue log ⟨s, t :: rest⟩) : ∀ token, t = .lose token → token.queue ≠ owner.queue := by
  rintro token rfl hq
  obtain ⟨_, _, -, hbears⟩ := h.head hserial (List.mem_singleton.2 rfl) hq
  exact hbears

/-- **A token of a machine stays until it is completed.** -/
theorem Reserved.stays (h : Reserved owner log ⟨s, t :: rest⟩) (hserial : Serial owner.queue log ⟨s, t :: rest⟩)
    {token : Completion} (hmem : token ∈ (Config.mk s (t :: rest)).tokens) (hq : token.queue = owner.queue) :
    t = .complete token ∨ token ∈ (Config.after s t rest).tokens := by
  by_cases hcomplete : t = .complete token
  · exact .inl hcomplete
  have hunkept : s.tokens.values.countP (fun token' => decide (token' = token)) = 0 :=
    List.countP_eq_zero.2 fun token' hkept heq => h.kept token' hkept (of_decide_eq_true heq ▸ hq)
  have hspends : t.spends.countP (fun token' => decide (token' = token)) = 0 := by
    refine List.countP_eq_zero.2 fun token' hspent heq => ?_
    obtain rfl := of_decide_eq_true heq
    cases t with
    | complete token'' => exact hcomplete (by rw [List.mem_singleton.1 hspent])
    | lose token'' => exact h.queue_ne_of_lose hserial _ rfl (List.mem_singleton.1 hspent ▸ hq)
    | _ => cases hspent
  have hbalance := countP_tokens_of_balances (balances_of_unkept s rest t hunkept)
  have hthere : 0 < (Config.mk s (t :: rest)).tokens.countP fun token' => decide (token' = token) :=
    List.countP_pos_iff.2 ⟨token, hmem, decide_eq_true rfl⟩
  obtain ⟨token', hmem', heq⟩ : ∃ token' ∈ (Config.after s t rest).tokens, decide (token' = token) = true :=
    List.countP_pos_iff.1 (by omega)
  exact .inr (of_decide_eq_true heq ▸ hmem')

theorem Reserved.isEffect {c : Config} (h : Reserved owner log c) (hserial : Serial owner.queue log c)
    {job : Job} (hjob : job ∈ startedJobs log) : job.isEffect = true :=
  (h.sent job (((List.prefix_append _ _).trans hserial.order).subset hjob)).isEffect

/-- When a job starts there is no other token. -/
theorem Serial.queue_ne_of_start? {c : Config} {job : Job} {c' : JobQueue} (h : Serial q log c)
    (hstart : (c.stage.queueAt q).start? = some (job, c')) : ∀ token ∈ c.tokens, token.queue ≠ q :=
  fun token htoken hq => List.countP_eq_zero.1 (h.tokenless_of_start? hstart) token htoken (decide_eq_true hq)

theorem borne_after (h : Reserved owner log ⟨s, t :: rest⟩) (hserial : Serial owner.queue log ⟨s, t :: rest⟩)
    {jobs : List Job} {job : Job}
    (heq : startedJobs (log ++ Config.queueEvents owner.queue ⟨s, t :: rest⟩) = jobs ++ [job]) :
    ∀ t' ∈ (Config.after s t rest).agenda, ∀ token ∈ t'.tokens, token.queue = owner.queue → t'.Bears job token := by
  rw [startedJobs_step] at heq
  intro t' ht' token htoken hq
  cases hstart : (s.queueEvent? owner.queue t).bind QueueEvent.started? with
  | none =>
    rw [hstart, Option.toList_none, List.append_nil] at heq
    rcases List.mem_append.1 ht' with ht' | ht'
    · exact bears_carryOut h.kept (h.isEffect hserial (heq ▸ List.mem_append_right _ List.mem_cons_self))
        (h.borne jobs job heq t List.mem_cons_self) hstart t' ht' token htoken hq
    · exact h.borne jobs job heq t' (List.mem_cons_of_mem _ ht') token htoken hq
  | some job' =>
    rw [hstart, Option.toList_some] at heq
    obtain ⟨-, hjob⟩ := List.append_inj' heq rfl
    obtain rfl := List.singleton_inj.1 hjob
    obtain ⟨rfl, c, hstart⟩ := pump_of_started? hstart
    rcases List.mem_append.1 ht' with ht' | ht'
    · simp only [Task.carryOut, pump, ← start?_queueAt, hstart] at ht'
      rw [List.mem_singleton.1 ht']
      exact rfl
    · refine absurd hq (hserial.queue_ne_of_start? hstart token (List.mem_append_left _ ?_))
      exact List.mem_flatMap.2 ⟨t', List.mem_cons_of_mem _ ht', htoken⟩

theorem waiting_after (h : Reserved owner log ⟨s, t :: rest⟩) (hserial : Serial owner.queue log ⟨s, t :: rest⟩)
    {jobs : List Job} {job : Job}
    (heq : startedJobs (log ++ Config.queueEvents owner.queue ⟨s, t :: rest⟩) = jobs ++ [job]) :
    ∀ w ∈ (Config.after s t rest).stage.page.waiting, ∀ token ∈ w.call.tokens, token.queue = owner.queue →
      job.endCall? token = some w := by
  rw [startedJobs_step] at heq
  intro w hw token htoken hq
  cases hstart : (s.queueEvent? owner.queue t).bind QueueEvent.started? with
  | none =>
    rw [hstart, Option.toList_none, List.append_nil] at heq
    rcases waiting_carryOut hw with hw | rfl | hnil
    · exact h.waiting jobs job heq w hw token htoken hq
    · exact h.borne jobs job heq _ List.mem_cons_self token htoken hq
    · rw [hnil] at htoken
      cases htoken
  | some job' =>
    obtain ⟨rfl, c, hstart⟩ := pump_of_started? hstart
    rcases waiting_carryOut hw with hw | hawait | hnil
    · refine absurd hq (hserial.queue_ne_of_start? hstart token ?_)
      exact List.mem_append_right _ (List.mem_append_left _ (List.mem_flatMap.2 ⟨w, hw, htoken⟩))
    · cases hawait
    · rw [hnil] at htoken
      cases htoken

theorem counted_after (h : Reserved owner log ⟨s, t :: rest⟩) (hserial : Serial owner.queue log ⟨s, t :: rest⟩)
    (hthere : owner.queue < s.queues.length)
    (hclosed : ((Config.after s t rest).stage.queueAt owner.queue).closed = false) :
    (Config.after s t rest).tokens.countP (·.queue = owner.queue) +
        (log ++ Config.queueEvents owner.queue ⟨s, t :: rest⟩).countP QueueEvent.isCompleted =
      (log ++ Config.queueEvents owner.queue ⟨s, t :: rest⟩).countP QueueEvent.isStarted := by
  have hclosed := closed_carryOut hclosed
  have hopen : s.isOpen owner.queue = true := by
    have hc : s.queue? owner.queue = some _ := List.getElem?_eq_getElem hthere
    rw [queueAt_of_queue? hc] at hclosed
    rw [isOpen, hc]
    simp [hclosed]
  have hbefore := h.counted hclosed
  have hunkept : s.tokens.values.countP (·.queue = owner.queue) = 0 :=
    List.countP_eq_zero.2 fun token htoken hq => h.kept token htoken (of_decide_eq_true hq)
  have hbalance := countP_tokens_of_balances (balances_of_unkept s rest t hunkept)
  rw [countP_mints, countP_spends hopen (h.queue_ne_of_lose hserial)] at hbalance
  rw [queueEvents_cons, List.countP_append, List.countP_append]
  omega

/-- **Every task leaves the queue of a machine to the machine**, and its tokens in the way of their jobs. -/
theorem reserved_after (h : Reserved owner log ⟨s, t :: rest⟩) (hserial : Serial owner.queue log ⟨s, t :: rest⟩)
    (howned : Owned s) (hm : s.machine? m = some owner) :
    Reserved owner (log ++ Config.queueEvents owner.queue ⟨s, t :: rest⟩) (.after s t rest) where
  sending job hjob := by
    rcases List.mem_append.1 hjob with hjob | hjob
    · exact sends_carryOut howned hm hjob
    · exact h.sending job (List.mem_cons_of_mem _ hjob)
  sent job hjob := by
    rw [enqueuedJobs_step, List.mem_append, Option.mem_toList] at hjob
    rcases hjob with hjob | hjob
    · exact h.sent job hjob
    · exact h.sending job (enqueue_of_enqueued? hjob ▸ List.mem_cons_self)
  borne _ _ heq := borne_after h hserial heq
  waiting _ _ heq := waiting_after h hserial heq
  kept token htoken hq := by
    rcases kept_carryOut htoken with htoken | ⟨name, fate, rfl⟩
    · exact h.kept token htoken hq
    · obtain ⟨_, _, -, hbears⟩ := h.head hserial (List.mem_singleton.2 rfl) hq
      exact hbears
  counted := counted_after h hserial (howned.there m owner hm)

/-- A new machine has a queue that nothing has happened to. -/
theorem reserved_fresh {name : String} {el : ElementId} {settings : Settings} {hooked : Bool}
    {states : List Declaration}
    (hserial : Serial owner.queue log ⟨s, .cue (.build name el settings hooked states) :: rest⟩)
    (hheld : Held ⟨s, .cue (.build name el settings hooked states) :: rest⟩) (hqueue : owner.queue = s.queues.length) :
    Reserved owner (log ++ Config.queueEvents owner.queue ⟨s, .cue (.build name el settings hooked states) :: rest⟩)
      (.after s (.cue (.build name el settings hooked states)) rest) := by
  have hnone : s.queue? owner.queue = none := List.getElem?_eq_none (Nat.le_of_eq hqueue.symm)
  obtain ⟨henqueued, hstarted, hturns, htokens⟩ := hserial.fresh hnone
  have hevents : Config.queueEvents owner.queue ⟨s, .cue (.build name el settings hooked states) :: rest⟩ = [] := rfl
  have htokens' : Tokenless owner.queue (.after s (.cue (.build name el settings hooked states)) rest) :=
    htokens.after fun _ ht => by cases ht
  have hno : ∀ jobs job, startedJobs log ≠ jobs ++ [job] := fun jobs job heq => by
    rw [hstarted] at heq
    exact absurd heq.symm (List.append_ne_nil_of_right_ne_nil _ (List.cons_ne_nil _ _))
  rw [hevents, List.append_nil]
  refine ⟨fun job hjob => ?_, fun job hjob => ?_, fun jobs job heq => absurd heq (hno jobs job),
    fun jobs job heq => absurd heq (hno jobs job), fun token htoken hq => ?_, fun _ => ?_⟩
  · rcases List.mem_append.1 hjob with hjob | hjob
    · have hkind := (within_carryOut s rest (.cue (.build name el settings hooked states))).kinds _ hjob
      simp [Task.leaves, Cue.leaves, Task.kind] at hkind
    · have hlt := lt_of_isOpen (isOpen_of_mem rfl hheld (List.mem_cons_of_mem _ hjob))
      exact absurd hqueue (Nat.ne_of_lt hlt)
  · rw [henqueued] at hjob
    cases hjob
  · exact List.countP_eq_zero.1 htokens' token (List.mem_append_right _ (List.mem_append_right _ htoken))
      (decide_eq_true hq)
  · rw [show _ = 0 from htokens', ← countP_turns QueueEvent.isCompleted (fun _ => rfl),
      ← countP_turns QueueEvent.isStarted (fun _ => rfl), hturns]
    rfl

end

end

/-- What is known of the queue depends on what the machine was built with. -/
theorem Reserved.of_made {owner owner' : Machine} {log : List QueueEvent} {c : Config} (h : Reserved owner log c)
    (hmade : owner'.made = owner.made) : Reserved owner' log c := by
  have hqueue : owner'.queue = owner.queue := (congrArg Machine.queue hmade :)
  have hsends : ∀ job, owner.Sends job → owner'.Sends job := by
    rintro job ⟨e, he⟩
    have hsettings : owner'.settings = owner.settings := (congrArg Machine.settings hmade :)
    have helement : owner'.element = owner.element := (congrArg Machine.element hmade :)
    exact ⟨e, by rw [hsettings, helement, he]⟩
  refine ⟨fun job hjob => hsends job (h.sending job (hqueue ▸ hjob)), fun job hjob => hsends job (h.sent job hjob),
    ?_, ?_, ?_, ?_⟩
  · rw [hqueue]
    exact h.borne
  · rw [hqueue]
    exact h.waiting
  · rw [hqueue]
    exact h.kept
  · rw [hqueue]
    exact h.counted

end Stage
open Stage

/-- **The queue of a machine is its own**, at every point of every course. -/
theorem Course.reserved {manners : Manners} {cs : List Config} (h : Course manners cs) : ∀ {c : Config}
    {past : List Config}, cs = c :: past → ∀ {m : Nat} {owner : Machine}, c.stage.machine? m = some owner →
      Reserved owner (queueLog owner.queue past) c := by
  induction h with
  | opened =>
    rintro c past ⟨⟩ m owner hm
    cases hm
  | cleared h ih =>
    rintro c past ⟨⟩ m owner hm
    have hr := ih rfl hm
    rw [queueLog, show Config.queueEvents owner.queue ⟨_, []⟩ = [] from rfl, List.append_nil]
    exact ⟨hr.sending, hr.sent, hr.borne, hr.waiting, hr.kept, hr.counted⟩
  | called cue h ih =>
    rintro c past ⟨⟩ m owner hm
    have hr := ih rfl hm
    rw [queueLog, show Config.queueEvents owner.queue ⟨_, []⟩ = [] from rfl, List.append_nil]
    refine ⟨fun job hjob => (by cases List.mem_singleton.1 hjob), hr.sent, fun jobs job heq t ht => ?_, hr.waiting,
      hr.kept, hr.counted⟩
    rw [List.mem_singleton.1 ht]
    exact fun _ _ _ => trivial
  | @stepped b b' before h hstep ih =>
    rintro c past ⟨⟩ m owner hm
    obtain ⟨s, agenda⟩ := b
    cases agenda with
    | nil => cases hstep
    | cons t rest =>
      rw [Config.step?_cons, Option.some.injEq] at hstep
      subst hstep
      rcases machine?_before s t rest hm with ⟨owner', hm', hmade⟩ | ⟨hbuild, hqueue⟩
      · have hqueue : owner.queue = owner'.queue := (congrArg Machine.queue hmade :)
        rw [hqueue]
        exact (reserved_after (ih rfl hm') (h.serial _ rfl) h.owned hm').of_made hmade
      · obtain ⟨name, el, settings, hooked, states, rfl⟩ := hbuild
        exact reserved_fresh (h.serial _ rfl) h.held hqueue

end Stagecraft
