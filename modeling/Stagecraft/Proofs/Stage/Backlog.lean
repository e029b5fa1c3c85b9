import Stagecraft.Proofs.Stage.Dispatched
/-!
# The backlog of a queue

A queue is never seen idle while jobs wait: it looks for its next job as soon as a job has been sent and as soon as one
is over, before anything else is done.  Only the loss of the token of the job that runs keeps it from going on, and that
for good.
-/
namespace Stagecraft

def QueueEvent.isOver : QueueEvent → Bool
  | .over _ => true
  | _ => false

/-- The next task loses this token. -/
def Config.Loses (c : Config) (token : Completion) : Prop := ∃ rest, c.agenda = .lose token :: rest

/-- In each round one job is over. -/
theorem countP_over_rounds (k : Nat) (jobs : List Job) : (rounds k jobs).countP QueueEvent.isOver = jobs.length := by
  refine countP_rounds_of_round _ (fun k job => ?_) k jobs
  simp [round, ending, List.countP_cons, QueueEvent.isOver]

namespace Stage

variable {q : Nat} {log : List QueueEvent} {s : Stage} {t : Task} {rest : List Task} {c : Config}

/-- The jobs that have started are over, but for the one that runs. -/
theorem Serial.length_started (h : Serial q log c) : (startedJobs log).length =
    log.countP QueueEvent.isOver + if (c.stage.queueAt q).isRunning = true then 1 else 0 := by
  rw [← countP_turns QueueEvent.isOver (fun _ => rfl), JobQueue.isRunning]
  cases h.turn with
  | idle hidle _ _ hturns => rw [hturns, countP_over_rounds, hidle]; rfl
  | busy jobs job hjobs hrunning _ _ _ hturns =>
    rw [hturns, hjobs, hrunning, List.countP_append, countP_over_rounds, List.length_append]
    rfl
  | finishing jobs job _ _ hjobs hrunning _ _ _ _ hturns =>
    rw [hturns, hjobs, hrunning, List.countP_append, countP_over_rounds, List.length_append]
    rfl
  | ending jobs job _ _ hjobs hrunning _ _ _ hturns =>
    rw [hturns, hjobs, hrunning, List.countP_append, List.countP_append, countP_over_rounds,
      countP_finishing _ (fun _ => rfl), List.length_append]
    rfl

/-! ## An idle queue looks for work at once -/

/-- If jobs wait at an idle queue, the queue looks for the next job before anything else is done. -/
structure Poised (q : Nat) (c : Config) : Prop where
  idle : (c.stage.queueAt q).running = none → (c.stage.queueAt q).waiting = [] ∨ ∃ rest, c.agenda = .pump q :: rest
  next : ∀ us post, c.agenda = us ++ .jobOver q :: post → ∃ post', post = .pump q :: post'

theorem Poised.waiting_eq_nil (h : Poised q c) (hlooks : ∀ rest, c.agenda ≠ .pump q :: rest)
    (hidle : (c.stage.queueAt q).running = none) : (c.stage.queueAt q).waiting = [] := by
  rcases h.idle hidle with hnil | ⟨rest, hpump⟩
  · exact hnil
  · exact absurd hpump (hlooks rest)

theorem Poised.of_unending (hidle : (c.stage.queueAt q).running = none → (c.stage.queueAt q).waiting = [])
    (hends : Unending q c.agenda) : Poised q c := by
  refine ⟨fun h => .inl (hidle h), fun us post hagenda => ?_⟩
  have := hends (.jobOver q) (by simp [hagenda])
  simp [Task.ends] at this

/-- What comes after a job that is over stays where it is, if a task leaves nothing that belongs to an end. -/
theorem Poised.next_after (h : Poised q ⟨s, t :: rest⟩) (hleft : Unending q (t.carryOut s rest).2)
    (us post : List Task) (hagenda : (Config.after s t rest).agenda = us ++ .jobOver q :: post) :
    ∃ post', post = .pump q :: post' := by
  rcases List.append_eq_append_iff.1 (show (t.carryOut s rest).2 ++ rest = us ++ .jobOver q :: post from hagenda) with
    ⟨us', hus, hrest⟩ | ⟨us', hleft', hrest⟩
  · exact h.next (t :: us') post (congrArg (t :: ·) hrest)
  · cases us' with
    | nil => exact h.next [t] post (congrArg (t :: ·) hrest.symm)
    | cons u us' =>
      obtain ⟨rfl, -⟩ := List.cons.inj hrest
      have := hleft (.jobOver q) (by simp [hleft'])
      simp [Task.ends] at this

/-- What is left by the completion of a token: the queue looks for its next job as soon as the job is over. -/
theorem poised_complete {token : Completion} (hserial : Serial q log ⟨s, .complete token :: rest⟩)
    (hq : token.queue = q) :
    Poised q (.after s (.complete token) rest) := by
  have htoken : token ∈ (Config.mk s (.complete token :: rest)).tokens := by simp [Config.tokens, Task.tokens]
  obtain ⟨jobs, job, -, hticket, hrunning, -, hends, -⟩ := hserial.turn.exists_busy htoken hq
  by_cases hopen : s.isOpen q = true
  · obtain ⟨jq, hjq, -⟩ := exists_queue?_of_isOpen hopen
    have hbusy : jq.running = some ⟨token.ticket, job.finish⟩ := by
      rw [← queueAt_of_queue? hjq, hticket]
      exact hrunning
    have hcarry : Task.carryOut s rest (.complete token) = _ := complete_eq hopen hjq hq hbusy
    have hqueue : (Config.after s (.complete token) rest).stage.queueAt q =
        { jq with running := some ⟨token.ticket, none⟩ } := by
      rw [Config.after, hcarry]
      exact queueAt_mapQueue_self hjq _
    have hagenda : (Config.after s (.complete token) rest).agenda =
        job.finish.toList.map (.finish q) ++ .jobOver q :: .pump q :: .release (.queue q) :: rest := by
      simp only [Config.after, hcarry, List.append_assoc, List.cons_append, List.nil_append]
    refine ⟨fun hidle => ?_, fun us post hpost => ?_⟩
    · rw [hqueue] at hidle
      cases hidle
    · rw [hagenda] at hpost
      -- no other end of a job is on the agenda
      have hbefore : Task.jobOver q ∉ job.finish.toList.map (Task.finish q) := by simp
      have hafter : Task.jobOver q ∉ Task.pump q :: .release (.queue q) :: rest := by
        intro hmem
        have hrest : Task.jobOver q ∈ rest := by simpa using hmem
        have := hends.tail _ hrest
        simp [Task.ends] at this
      obtain ⟨-, -, rfl⟩ := (List.append_cons_inj_of_notMem hbefore hafter).1 hpost
      exact ⟨_, rfl⟩
  · have hcarry : Task.carryOut s rest (.complete token) = (s, []) := by
      simp only [Task.carryOut, complete, hq, hopen, if_false, Bool.false_eq_true]
    have hafter : Config.after s (.complete token) rest = ⟨s, rest⟩ := by rw [Config.after, hcarry]; rfl
    rw [hafter]
    refine .of_unending (fun hidle => ?_) hends.tail
    rw [hrunning] at hidle
    cases hidle

/-- **No task leaves a queue idle while jobs wait**, unless the queue looks for the next of them at once. -/
theorem poised_carryOut (h : Poised q ⟨s, t :: rest⟩) (hserial : Serial q log ⟨s, t :: rest⟩)
    (hheld : Held ⟨s, t :: rest⟩) : Poised q (.after s t rest) := by
  by_cases hcomplete : ∃ token, t = .complete token ∧ token.queue = q
  · obtain ⟨token, rfl, hq⟩ := hcomplete
    exact poised_complete hserial hq
  have hleft : Unending q (t.carryOut s rest).2 :=
    unending_carryOut s rest fun token ht hq => hcomplete ⟨token, ht, hq⟩
  refine ⟨fun hidle => ?_, h.next_after hleft⟩
  by_cases hhandles : handles q t = true
  · cases t with
    | enqueue p job =>
      obtain rfl : p = q := of_decide_eq_true hhandles
      exact .inr ⟨rest, rfl⟩
    | pump p =>
      obtain rfl : p = q := of_decide_eq_true hhandles
      obtain ⟨jq, hjq, -⟩ := exists_queue?_of_isOpen (isOpen_of_held hheld rfl)
      cases hstart : jq.start? with
      | some r =>
        obtain ⟨job, jq'⟩ := r
        have hqueue : (Config.after s (.pump p) rest).stage.queueAt p = jq' := by
          simp only [Config.after, Task.carryOut, pump, hjq, Option.bind_some, hstart]
          exact queueAt_mapQueue_self hjq _
        obtain ⟨-, waiting, -, rfl⟩ := start?_eq_some hstart
        rw [hqueue] at hidle
        cases hidle
      | none =>
        have hcarry : (Task.carryOut s rest (.pump p)).1 = s := by
          simp only [Task.carryOut, pump, hjq, Option.bind_some, hstart]
        simp only [Config.after, hcarry, queueAt_of_queue? hjq] at hidle ⊢
        refine .inl ?_
        unfold JobQueue.start? at hstart
        split at hstart
        · cases hstart
        · rename_i hnone
          cases hwaiting : jq.waiting with
          | nil => rfl
          | cons job jobs => exact absurd hwaiting (hnone job jobs hidle)
    | complete token => exact absurd ⟨token, rfl, of_decide_eq_true hhandles⟩ hcomplete
    | jobOver p =>
      obtain rfl : p = q := of_decide_eq_true hhandles
      obtain ⟨post, rfl⟩ := h.next [] rest rfl
      exact .inr ⟨post, rfl⟩
    | release hold =>
      cases hold with
      | queue p =>
        obtain rfl : p = q := of_decide_eq_true hhandles
        refine .inl ?_
        by_cases hholds : s.holdsQueue rest p = true
        · have hcarry : (Task.carryOut s rest (.release (.queue p))).1 = s := by
            simp only [Task.carryOut, release, hholds, if_true]
          simp only [Config.after, hcarry] at hidle ⊢
          exact h.waiting_eq_nil (by simp) hidle
        · have hcarry : (Task.carryOut s rest (.release (.queue p))).1 = s.mapQueue p (·.close) := by
            simp only [Task.carryOut, release, hholds, if_false, Bool.false_eq_true]
          simp only [Config.after, hcarry] at hidle ⊢
          rcases queueAt_mapQueue_cases s p (·.close) with heq | heq
          · rw [heq] at hidle ⊢
            exact h.waiting_eq_nil (by simp) hidle
          · rw [heq]
            rfl
      | _ => cases hhandles
    | _ => cases hhandles
  · have hqueue : (Config.after s t rest).stage.queueAt q = s.queueAt q :=
      queueAt_carryOut s rest (Bool.not_eq_true _ ▸ hhandles)
    rw [hqueue] at hidle ⊢
    refine .inl (h.waiting_eq_nil (fun rest' hpump => hhandles ?_) hidle)
    obtain ⟨rfl, -⟩ := List.cons.inj hpump
    exact decide_eq_true rfl

end Stage
open Stage

theorem Course.poised {manners : Manners} {c : Config} {past : List Config} (h : Course manners (c :: past)) (q : Nat) :
    Poised q c := by
  refine Course.invariant (I := Poised q) (P := fun _ => True) ?_ (fun s hs => ?_) (fun s cue hs => ?_)
    (fun s t rest past h _ hc => poised_carryOut hc (h.serial q rfl) h.held) h fun _ _ => trivial
  · exact .of_unending (fun _ => rfl) (List.forall_mem_nil _)
  · exact ⟨fun hidle => hs.idle hidle, fun us post hagenda => by cases us <;> cases hagenda⟩
  · refine .of_unending (hs.waiting_eq_nil (by simp)) fun t ht => ?_
    rw [List.mem_singleton.1 ht]
    rfl

/-! ## A lost token -/

namespace Stage

/-- A job runs, and there is no token by which it could be completed. -/
structure Stalled (q : Nat) (r : Running) (c : Config) : Prop where
  running : (c.stage.queueAt q).running = some r
  tokenless : Tokenless q c
  unending : Unending q c.agenda

section
variable {q : Nat} {r : Running} {log : List QueueEvent} {s : Stage} {t : Task} {rest : List Task}

/-- The token that is lost was the only one. -/
theorem stalled_lose {token : Completion} (hserial : Serial q log ⟨s, .lose token :: rest⟩) (hq : token.queue = q) :
    ∃ r, (s.queueAt q).running = some r ∧ Stalled q r (.after s (.lose token) rest) := by
  have htoken : token ∈ (Config.mk s (.lose token :: rest)).tokens := by simp [Config.tokens, Task.tokens]
  obtain ⟨jobs, job, -, -, hrunning, hone, hends, -⟩ := hserial.turn.exists_busy htoken hq
  refine ⟨_, hrunning, ?_, ?_, (unending_carryOut s rest fun _ ht => by cases ht).append hends.tail⟩
  · have hqueue : (Config.after s (.lose token) rest).stage.queueAt q = s.queueAt q := queueAt_carryOut s rest rfl
    rw [hqueue]
    exact hrunning
  · have hle := countP_tokens_after s (.lose token) rest fun token => token.queue = q
    simp only [mints, Task.spends, List.countP_nil, List.countP_cons, hq, decide_true, if_true] at hle
    exact Nat.le_zero.1 (by omega)

/-- A queue that is stalled may be sent jobs, and nothing else happens to it. -/
theorem Stalled.enqueues (h : Stalled q r ⟨s, t :: rest⟩) {e : QueueEvent} (he : s.queueEvent? q t = some e) :
    ∃ job, t = .enqueue q job ∧ e = .enqueued job := by
  have hends := h.unending t List.mem_cons_self
  have hrunning : (s.queueAt q).running = some r := h.running
  cases did_of_queueEvent? he with
  | enqueued job => exact ⟨job, rfl, rfl⟩
  | started job c hstart => rw [(start?_eq_some hstart).1] at hrunning; cases hrunning
  | completed token hq =>
    have := List.countP_eq_zero.1 h.tokenless token (by simp [Config.tokens, Task.tokens])
    simp [hq] at this
  | _ => simp [Task.ends] at hends

theorem Stalled.turns_eq_nil (h : Stalled q r ⟨s, t :: rest⟩) : turns (Config.queueEvents q ⟨s, t :: rest⟩) = [] := by
  rw [queueEvents_cons]
  cases he : s.queueEvent? q t with
  | none => rfl
  | some e =>
    obtain ⟨job, -, rfl⟩ := h.enqueues he
    rfl

theorem Stalled.running_after (h : Stalled q r ⟨s, t :: rest⟩) :
    ((t.carryOut s rest).1.queueAt q).running = some r := by
  have hrunning : (s.queueAt q).running = some r := h.running
  have hmap : ∀ f : JobQueue → JobQueue, (∀ jq, (f jq).running = jq.running) →
      ((s.mapQueue q f).queueAt q).running = some r := by
    intro f hf
    rcases queueAt_mapQueue_cases s q f with heq | heq
    · rw [heq, hrunning]
    · rw [heq, hf, hrunning]
  by_cases hhandles : handles q t = true
  · cases t with
    | enqueue p job =>
      obtain rfl : p = q := of_decide_eq_true hhandles
      exact hmap (·.add job) fun _ => rfl
    | pump p =>
      obtain rfl : p = q := of_decide_eq_true hhandles
      have hstart : (s.queue? p).bind JobQueue.start? = none := by
        rw [← start?_queueAt]
        simp [JobQueue.start?, hrunning]
      simpa only [Task.carryOut, pump, hstart] using hrunning
    | complete token =>
      have := List.countP_eq_zero.1 h.tokenless token (by simp [Config.tokens, Task.tokens])
      exact absurd hhandles this
    | jobOver p => exact absurd (h.unending _ List.mem_cons_self) (by simp [Task.ends, of_decide_eq_true hhandles])
    | release hold =>
      cases hold with
      | queue p =>
        obtain rfl : p = q := of_decide_eq_true hhandles
        simp only [Task.carryOut, release]
        split
        · exact hrunning
        · exact hmap JobQueue.close fun _ => rfl
      | _ => cases hhandles
    | _ => cases hhandles
  · rw [queueAt_carryOut s rest (Bool.not_eq_true _ ▸ hhandles), hrunning]

/-- **A queue that is stalled stays stalled.** -/
theorem stalled_carryOut (h : Stalled q r ⟨s, t :: rest⟩) : Stalled q r (.after s t rest) := by
  have hmints : ∀ token ∈ s.mints t, token.queue ≠ q := by
    intro token htoken hq
    have hcount := countP_mints s t q
    have hpos : 0 < (s.mints t).countP (fun token => token.queue = q) :=
      List.countP_pos_iff.2 ⟨token, htoken, decide_eq_true hq⟩
    cases he : s.queueEvent? q t with
    | none =>
      rw [hcount, he] at hpos
      cases hpos
    | some e =>
      obtain ⟨job, -, rfl⟩ := h.enqueues he
      rw [hcount, he] at hpos
      cases hpos
  have hcomplete : ∀ token, t = .complete token → token.queue ≠ q := by
    rintro token rfl hq
    have := List.countP_eq_zero.1 h.tokenless token (by simp [Config.tokens, Task.tokens])
    simp [hq] at this
  exact ⟨h.running_after, h.tokenless.after hmints, (unending_carryOut s rest hcomplete).append h.unending.tail⟩

end

end Stage

/-- **From the loss of its token on, a queue starts no job and ends none.** -/
theorem Course.stalled {manners : Manners} {s : Stage} {rest : List Task} {token : Completion} {q : Nat}
    {earlier : List Config} (hq : token.queue = q) : ∀ {later : List Config} {c : Config},
    Course manners (c :: (later ++ ⟨s, .lose token :: rest⟩ :: earlier)) →
      ∃ r, (s.queueAt q).running = some r ∧ Stalled q r c ∧ turns (queueLog q later) = []
  | [], c, h => by
    cases h with
    | stepped h hstep =>
      rw [Config.step?_cons, Option.some.injEq] at hstep
      obtain ⟨r, hr, hstalled⟩ := stalled_lose (h.serial q rfl) hq
      exact ⟨r, hr, hstep ▸ hstalled, rfl⟩
  | b :: later, c, h => by
    obtain ⟨r, hr, hstalled, hturns⟩ := stalled hq h.tail
    refine ⟨r, hr, ?_⟩
    have hbetween : ∀ {s' s'' : Stage} {agenda : List Task}, Stalled q r ⟨s', []⟩ → s''.queueAt q = s'.queueAt q →
        s''.keptTokens = s'.keptTokens → agenda.flatMap Task.tokens = [] → Unending q agenda →
        Stalled q r ⟨s'', agenda⟩ := by
      intro s' s'' agenda hs hqueue hkept htokens hends
      refine ⟨by simpa only [hqueue] using hs.running, ?_, hends⟩
      rw [Tokenless, Config.tokens, htokens, hkept]
      exact hs.tokenless
    cases h with
    | cleared h =>
      exact ⟨hbetween hstalled rfl rfl rfl (List.forall_mem_nil _), by rw [queueLog, turns_append, hturns]; rfl⟩
    | called cue h =>
      refine ⟨hbetween hstalled rfl rfl rfl fun t ht => ?_, by rw [queueLog, turns_append, hturns]; rfl⟩
      rw [List.mem_singleton.1 ht]
      rfl
    | stepped h hstep =>
      obtain ⟨s', agenda⟩ := b
      cases agenda with
      | nil => cases hstep
      | cons t rest' =>
        rw [Config.step?_cons, Option.some.injEq] at hstep
        rw [queueLog, turns_append, hturns, hstalled.turns_eq_nil]
        exact ⟨hstep ▸ stalled_carryOut hstalled, rfl⟩

/-! ## Where the token of the running job is -/

namespace Stage

section
variable {q : Nat} {s : Stage} {t : Task} {rest : List Task} {token : Completion}

theorem mem_tokens {c : Config} : token ∈ c.tokens ↔
    (∃ t ∈ c.agenda, token ∈ t.tokens) ∨ token ∈ c.stage.page.waiting.flatMap (fun w => w.call.tokens) ∨
      token ∈ c.stage.tokens.values := by
  rw [Config.tokens, keptTokens, List.mem_append, List.mem_append, List.mem_flatMap]

/-- A token that is kept from outside is kept still when a name is taken, or it was kept under that name. -/
theorem mem_tokens_withToken {name : String} {f : Completion → Task} (hf : ∀ token, (f token).tokens = [token])
    (hkeys : s.tokens.keys.Nodup) (h : token ∈ (Config.mk s rest).tokens) :
    token ∈ (Config.mk (s.withToken name f).1 ((s.withToken name f).2 ++ rest)).tokens := by
  rw [mem_tokens] at h ⊢
  unfold withToken
  cases hget : s.tokens.get? name with
  | none => exact h
  | some token' =>
    rcases h with ⟨t, ht, htoken⟩ | h | h
    · exact .inl ⟨t, List.mem_append_right _ ht, htoken⟩
    · exact .inr (.inl h)
    · rcases Registry.mem_values_erase hkeys h name with hkept | htaken
      · exact .inr (.inr hkept)
      · obtain rfl := Option.some.inj (hget.symm.trans htaken)
        exact .inl ⟨f token', List.mem_cons_self, by rw [hf]; exact List.mem_cons_self⟩

theorem mem_tokens_settle {name : String} {fate : Fate} {token' : Completion} (hkeys : s.tokens.keys.Nodup)
    (h : token ∈ (Config.mk s (.settle name fate token' :: rest)).tokens) :
    token ∈ (Config.after s (.settle name fate token') rest).tokens := by
  rw [mem_tokens] at h ⊢
  have hput : token = token' ∨ token ∈ s.tokens.values →
      (∃ t ∈ (s.tokens.get? name).toList.map Task.lose ++ rest, token ∈ t.tokens) ∨
        token ∈ (s.tokens.put name token').values := by
    intro h
    rw [Registry.values_put]
    rcases h with rfl | h
    · exact .inr (List.mem_append_right _ List.mem_cons_self)
    · rcases Registry.mem_values_erase hkeys h name with hkept | htaken
      · exact .inr (List.mem_append_left _ hkept)
      · exact .inl ⟨.lose token, by simp [htaken], List.mem_cons_self⟩
  have hafter : token = token' ∨ token ∈ s.tokens.values ∨ (∃ t ∈ rest, token ∈ t.tokens) ∨
      token ∈ s.page.waiting.flatMap (fun w => w.call.tokens) := by
    rcases h with ⟨t, ht, htoken⟩ | h | h
    · rcases List.mem_cons.1 ht with rfl | ht
      · exact .inl (List.mem_singleton.1 htoken)
      · exact .inr (.inr (.inl ⟨t, ht, htoken⟩))
    · exact .inr (.inr (.inr h))
    · exact .inr (.inl h)
  cases fate with
  | complete | drop =>
    rcases hafter with rfl | hafter | ⟨t, ht, htoken⟩ | hafter
    · exact .inl ⟨_, List.mem_cons_self, List.mem_cons_self⟩
    · exact .inr (.inr hafter)
    · exact .inl ⟨t, List.mem_cons_of_mem _ ht, htoken⟩
    · exact .inr (.inl hafter)
  | park | lend =>
    rcases hafter with rfl | hafter | ⟨t, ht, htoken⟩ | hafter
    · exact (hput (.inl rfl)).imp_right .inr
    · exact (hput (.inr hafter)).imp_right .inr
    · exact .inl ⟨t, List.mem_append_right _ ht, htoken⟩
    · exact .inr (.inl hafter)

/-- **A token is there until it is used up.** -/
theorem mem_tokens_after (hkeys : s.tokens.keys.Nodup) (h : token ∈ (Config.mk s (t :: rest)).tokens)
    (hspends : token ∉ t.spends) : token ∈ (Config.after s t rest).tokens := by
  by_cases htouches : .tokens ∈ t.touches
  · cases t with
    | settle name fate token' => exact mem_tokens_settle hkeys h
    | cue c =>
      cases c with
      | complete name => exact mem_tokens_withToken (fun _ => rfl) hkeys h
      | dropToken name => exact mem_tokens_withToken (fun _ => rfl) hkeys h
      | _ => simp [Task.touches, Cue.touches] at htouches
    | release hold => cases hold <;> simp [Task.touches] at htouches
    | _ => simp [Task.touches] at htouches
  · have hbalance :=
      countP_tokens_of_balances (balances_carryOut (fun token' => decide (token' = token)) s rest htouches)
    have hthere : 0 < (Config.mk s (t :: rest)).tokens.countP fun token' => decide (token' = token) :=
      List.countP_pos_iff.2 ⟨token, h, decide_eq_true rfl⟩
    have hspent : t.spends.countP (fun token' => decide (token' = token)) = 0 :=
      List.countP_eq_zero.2 fun token' htoken' heq => hspends (of_decide_eq_true heq ▸ htoken')
    obtain ⟨token', hmem, heq⟩ : ∃ token' ∈ (Config.after s t rest).tokens, decide (token' = token) = true :=
      List.countP_pos_iff.1 (by omega)
    exact of_decide_eq_true heq ▸ hmem

theorem nodup_tokens_carryOut (h : s.tokens.keys.Nodup) : (t.carryOut s rest).1.tokens.keys.Nodup := by
  have hwith : ∀ (name : String) (f : Completion → Task), (s.withToken name f).1.tokens.keys.Nodup := by
    intro name f
    unfold withToken
    split
    · exact Registry.nodup_keys_erase h name
    · exact h
  by_cases htouches : .tokens ∈ t.touches
  · cases t with
    | settle name fate token =>
      cases fate with
      | park | lend => exact Registry.nodup_keys_put h name token
      | _ => exact h
    | cue c =>
      cases c with
      | complete name => exact hwith name _
      | dropToken name => exact hwith name _
      | _ => simp [Task.touches, Cue.touches] at htouches
    | release hold => cases hold <;> simp [Task.touches] at htouches
    | _ => simp [Task.touches] at htouches
  · rw [show _ = s.tokens from (within_carryOut s rest t).touched.agree .tokens htouches]
    exact h

end

end Stage

theorem Course.nodup_tokens {manners : Manners} {c : Config} {past : List Config} (h : Course manners (c :: past)) :
    c.stage.tokens.keys.Nodup :=
  Course.invariant (I := fun c => c.stage.tokens.keys.Nodup) (P := fun _ => True) List.nodup_nil (fun _ h => h)
    (fun _ _ h => h) (fun _ _ _ _ _ _ h => nodup_tokens_carryOut h) h fun _ _ => trivial

namespace Stage

section
variable {q : Nat} {r : Running} {log : List QueueEvent} {s : Stage} {t : Task} {rest : List Task}

theorem isOpen_of_running (hrunning : (s.queueAt q).running = some r) (hclosed : (s.queueAt q).closed = false) :
    s.isOpen q = true := by
  unfold isOpen
  cases hq : s.queue? q with
  | none =>
    rw [queueAt, hq] at hrunning
    cases hrunning
  | some jq =>
    rw [queueAt_of_queue? hq] at hclosed
    simp [hclosed]

/-- Why a job runs after a task: it has been started, its end is to be done, or it ran before. -/
inductive Runs (q : Nat) (r : Running) (s : Stage) (t : Task) (c : Config) : Prop
  | started (token : Completion) (hmem : token ∈ c.tokens) (hq : token.queue = q) (hticket : token.ticket = r.ticket)
  | ending (hmem : Task.jobOver q ∈ c.agenda)
  | before (hrunning : (s.queueAt q).running = some r) (hover : t ≠ .jobOver q)
      (hcomplete : ∀ token, t = .complete token → token.queue ≠ q)

theorem runs_pump (hrunning : ((Config.after s (.pump q) rest).stage.queueAt q).running = some r)
    (hopen : s.isOpen q = true) : Runs q r s (.pump q) (.after s (.pump q) rest) := by
  obtain ⟨jq, hjq, -⟩ := exists_queue?_of_isOpen hopen
  cases hstart : jq.start? with
  | none =>
    simp only [Config.after, Task.carryOut, pump, hjq, Option.bind_some, hstart] at hrunning
    exact .before hrunning (by simp) (fun _ ht => by cases ht)
  | some r' =>
    obtain ⟨job, jq'⟩ := r'
    have hcarry : Task.carryOut s rest (.pump q) =
        ((s.mapQueue q fun _ => jq').notify (.jobStarted job.label), [.run job.body ⟨q, jq'.started, job.label⟩]) := by
      simp only [Task.carryOut, pump, hjq, Option.bind_some, hstart]
    obtain ⟨-, waiting, -, rfl⟩ := start?_eq_some hstart
    rw [Config.after, hcarry] at hrunning ⊢
    have hqueue := queueAt_mapQueue_self (s := s) hjq fun _ => { jq with
      waiting := waiting, running := some ⟨jq.started + 1, job.finish⟩, started := jq.started + 1 }
    obtain rfl := Option.some.inj ((congrArg JobQueue.running hqueue).symm.trans hrunning)
    refine .started ⟨q, jq.started + 1, job.label⟩ (mem_tokens.2 (.inl ⟨_, List.mem_cons_self, ?_⟩)) rfl rfl
    exact List.mem_cons_self

theorem runs_carryOut (hserial : Serial q log ⟨s, t :: rest⟩) (hheld : Held ⟨s, t :: rest⟩)
    (hrunning : ((Config.after s t rest).stage.queueAt q).running = some r)
    (hclosed : (s.queueAt q).closed = false) : Runs q r s t (.after s t rest) := by
  by_cases hhandles : handles q t = true
  · cases t with
    | enqueue p job =>
      obtain rfl : p = q := of_decide_eq_true hhandles
      refine .before ?_ (by simp) fun _ ht => by cases ht
      rcases queueAt_mapQueue_cases (s.notify (.jobEnqueued job.label)) p (·.add job) with heq | heq
      · exact (congrArg JobQueue.running heq).symm.trans hrunning
      · exact (congrArg JobQueue.running heq).symm.trans hrunning
    | pump p =>
      obtain rfl : p = q := of_decide_eq_true hhandles
      exact runs_pump hrunning (isOpen_of_held hheld rfl)
    | complete token =>
      have hq : token.queue = q := of_decide_eq_true hhandles
      have htoken : token ∈ (Config.mk s (.complete token :: rest)).tokens := by simp [Config.tokens, Task.tokens]
      obtain ⟨_, _, -, -, hbusy, -⟩ := hserial.turn.exists_busy htoken hq
      obtain ⟨_, _, -, -, hagenda, -⟩ := serial_complete hserial hq (isOpen_of_running hbusy hclosed)
      exact .ending (by simp [hagenda])
    | jobOver p =>
      obtain rfl : p = q := of_decide_eq_true hhandles
      obtain ⟨jq, hjq, -⟩ := exists_queue?_of_isOpen (isOpen_of_held hheld rfl)
      have hqueue : (Config.after s (.jobOver p) rest).stage.queueAt p = jq.rest := queueAt_mapQueue_self hjq _
      rw [hqueue] at hrunning
      cases hrunning
    | release hold =>
      refine .before ?_ (by simp) fun _ ht => by cases ht
      cases hold with
      | queue p =>
        obtain rfl : p = q := of_decide_eq_true hhandles
        simp only [Config.after, Task.carryOut, release] at hrunning
        split at hrunning
        · exact hrunning
        · rcases queueAt_mapQueue_cases s p (·.close) with heq | heq
          · exact (congrArg JobQueue.running heq).symm.trans hrunning
          · exact (congrArg JobQueue.running heq).symm.trans hrunning
      | _ => cases hhandles
    | _ => cases hhandles
  · refine .before ?_ ?_ ?_
    · rw [← queueAt_carryOut s rest (Bool.not_eq_true _ ▸ hhandles)]
      exact hrunning
    · rintro rfl
      exact hhandles (decide_eq_true rfl)
    · rintro token rfl hq
      exact hhandles (decide_eq_true hq)

/-- What the end of the running job depends on: its token, unless the end has begun already or the token is lost. -/
inductive Depends (q : Nat) (r : Running) (past : List Config) (c : Config) : Prop
  | token (token : Completion) (hmem : token ∈ c.tokens) (hq : token.queue = q) (hticket : token.ticket = r.ticket)
  | ending (hmem : Task.jobOver q ∈ c.agenda)
  | lost (b : Config) (hb : b ∈ past) (token : Completion) (hloses : b.Loses token) (hq : token.queue = q)
      (hticket : token.ticket = r.ticket)

theorem depends_carryOut {past : List Config} (hserial : Serial q log ⟨s, t :: rest⟩) (hheld : Held ⟨s, t :: rest⟩)
    (hkeys : s.tokens.keys.Nodup)
    (hbefore : (s.queueAt q).running = some r → Depends q r past ⟨s, t :: rest⟩)
    (hrunning : ((Config.after s t rest).stage.queueAt q).running = some r)
    (hclosed : (s.queueAt q).closed = false) : Depends q r (⟨s, t :: rest⟩ :: past) (.after s t rest) := by
  cases runs_carryOut hserial hheld hrunning hclosed with
  | started token hmem hq hticket => exact .token token hmem hq hticket
  | ending hmem => exact .ending hmem
  | before hsame hover hcomplete =>
    cases hbefore hsame with
    | token token hmem hq hticket =>
      by_cases hspends : token ∈ t.spends
      · cases t with
        | lose token' =>
          obtain rfl := List.mem_singleton.1 hspends
          exact .lost _ List.mem_cons_self token ⟨rest, rfl⟩ hq hticket
        | complete token' =>
          obtain rfl := List.mem_singleton.1 hspends
          exact absurd hq (hcomplete token rfl)
        | _ => cases hspends
      · exact .token token (mem_tokens_after hkeys hmem hspends) hq hticket
    | ending hmem =>
      rcases List.mem_cons.1 hmem with rfl | hmem
      · exact absurd rfl hover
      · exact .ending (List.mem_append_right _ hmem)
    | lost b hb token hloses hq hticket => exact .lost b (List.mem_cons_of_mem _ hb) token hloses hq hticket

end

end Stage

/-- **The running job of a queue in use can be completed**, unless its end has begun already or its token is lost. -/
theorem Course.depends {manners : Manners} {q : Nat} {r : Running} : ∀ {past : List Config} {c : Config},
    Course manners (c :: past) → (c.stage.queueAt q).running = some r → (c.stage.queueAt q).closed = false →
      Depends q r past c
  | [], c, h, hrunning, _ => by
    cases h
    cases hrunning
  | b :: past, c, h, hrunning, hclosed => by
    have hbetween : ∀ {s' s'' : Stage} {agenda : List Task}, Depends q r past ⟨s', []⟩ →
        s''.keptTokens = s'.keptTokens → Depends q r (⟨s', []⟩ :: past) ⟨s'', agenda⟩ := by
      intro s' s'' agenda hdepends hkept
      cases hdepends with
      | token token hmem hq hticket =>
        refine .token token ?_ hq hticket
        rw [Config.tokens, hkept]
        exact List.mem_append_right _ hmem
      | ending hmem => cases hmem
      | lost b hb token hloses hq hticket => exact .lost b (List.mem_cons_of_mem _ hb) token hloses hq hticket
    cases h with
    | cleared h => exact hbetween (depends h hrunning hclosed) rfl
    | called cue h => exact hbetween (depends h hrunning hclosed) rfl
    | stepped h hstep =>
      obtain ⟨s, agenda⟩ := b
      cases agenda with
      | nil => cases hstep
      | cons t rest =>
        rw [Config.step?_cons, Option.some.injEq] at hstep
        subst hstep
        have hopen := closed_carryOut hclosed
        exact depends_carryOut (h.serial q rfl) h.held h.nodup_tokens (fun hsame => depends h hsame hopen) hrunning
          hopen

/-- What can be relied on of the backlog of a queue. -/
structure WorkConserving (q : Nat) (past : List Config) (c : Config) : Prop where
  /-- A queue on which no job runs has none that waits, except at the moment when it looks for the next one itself. -/
  idle : (c.stage.queueAt q).isRunning = false → (∀ rest, c.agenda ≠ .pump q :: rest) →
    (c.stage.queueAt q).waiting = []
  /-- While the queue is in use, each job that was sent is over, waits or runs. -/
  balance : c.stage.isOpen q = true → (enqueuedJobs (queueLog q past)).length =
    (queueLog q past).countP QueueEvent.isOver + (c.stage.queueAt q).waiting.length +
      if (c.stage.queueAt q).isRunning = true then 1 else 0
  /-- Nothing but a lost token keeps the running job from coming to its end. -/
  depends : c.stage.isOpen q = true → ∀ r, (c.stage.queueAt q).running = some r → Depends q r past c
  /-- Once the token of the running job is lost, that job runs for ever, no other job starts, and whatever is sent to
  the queue waits behind what waits already. -/
  stalled : ∀ later b earlier token, past = later ++ b :: earlier → b.Loses token → token.queue = q →
    (c.stage.queueAt q).isRunning = true ∧ (c.stage.queueAt q).running = (b.stage.queueAt q).running ∧
      turns (queueLog q later) = [] ∧ (c.stage.isOpen q = true →
        (c.stage.queueAt q).waiting = (b.stage.queueAt q).waiting ++ enqueuedJobs (queueLog q later))

/-- What waits at a queue that starts nothing grows by what is sent to it. -/
theorem Course.waiting_since {manners : Manners} {q : Nat} {c b : Config} {later earlier : List Config}
    (h : Course manners (c :: (later ++ b :: earlier))) (hevents : b.queueEvents q = [])
    (hturns : turns (queueLog q later) = []) (hopen : (c.stage.queueAt q).closed = false)
    (hbefore : (b.stage.queueAt q).closed = false) :
    (c.stage.queueAt q).waiting = (b.stage.queueAt q).waiting ++ enqueuedJobs (queueLog q later) := by
  have hlog : queueLog q (later ++ b :: earlier) = queueLog q earlier ++ queueLog q later := by
    rw [queueLog_append, queueLog, hevents, List.append_nil]
  have hstarted : startedJobs (queueLog q later) = [] := by
    have hturn : ∀ e : QueueEvent, e ∈ queueLog q later → e.isTurn = false := fun e he => by
      simpa using List.filter_eq_nil_iff.1 hturns e he
    refine List.filterMap_eq_nil_iff.2 fun e he => ?_
    cases e with
    | started => exact absurd (hturn _ he) (by simp [QueueEvent.isTurn])
    | _ => rfl
  have hnow := (h.serial q rfl).whole hopen
  rw [hlog, startedJobs, enqueuedJobs, List.filterMap_append, List.filterMap_append] at hnow
  have hthen := ((Course.drop (c :: later) h).serial q rfl).whole hbefore
  rw [startedJobs, enqueuedJobs] at hthen
  rw [show List.filterMap _ (queueLog q later) = [] from hstarted, List.append_nil, ← hthen, List.append_assoc] at hnow
  exact List.append_cancel_left hnow

theorem Course.open_prev {manners : Manners} {q : Nat} {c b : Config} {past : List Config}
    (h : Course manners (c :: b :: past)) (hclosed : (c.stage.queueAt q).closed = false) :
    (b.stage.queueAt q).closed = false := by
  cases h with
  | cleared => exact hclosed
  | called => exact hclosed
  | stepped h hstep =>
    obtain ⟨s, agenda⟩ := b
    cases agenda with
    | nil => cases hstep
    | cons t rest =>
      rw [Config.step?_cons, Option.some.injEq] at hstep
      subst hstep
      exact closed_carryOut hclosed

/-- A queue that is in use has been in use since it was made. -/
theorem Course.open_before {manners : Manners} {q : Nat} {b : Config} {earlier : List Config} :
    ∀ {later : List Config} {c : Config}, Course manners (c :: (later ++ b :: earlier)) →
      (c.stage.queueAt q).closed = false → (b.stage.queueAt q).closed = false
  | [], _, h, hclosed => h.open_prev hclosed
  | _ :: _, _, h, hclosed => open_before h.tail (h.open_prev hclosed)

/-- **A queue is work-conserving, and only a lost token stalls it**, whatever the scripts from outside, the jobs as they
start and what is done at their ends send, complete, keep or lose. -/
theorem queues_are_work_conserving {manners : Manners} {c : Config} {past : List Config}
    (h : Course manners (c :: past)) (q : Nat) : WorkConserving q past c := by
  have hserial := h.serial q rfl
  refine ⟨fun hidle hlooks => ?_, fun hopen => ?_, fun hopen r hr => h.depends hr (queueAt_open hopen), ?_⟩
  · have hrunning : (c.stage.queueAt q).running = none := by simpa [JobQueue.isRunning] using hidle
    exact (h.poised q).waiting_eq_nil hlooks hrunning
  · have hwhole := congrArg List.length (hserial.whole (queueAt_open hopen))
    rw [List.length_append, hserial.length_started] at hwhole
    omega
  · rintro later b earlier token rfl ⟨rest, hagenda⟩ hq
    obtain ⟨s, agenda⟩ := b
    obtain rfl : agenda = .lose token :: rest := hagenda
    obtain ⟨r, hr, hstalled, hturns⟩ := h.stalled hq
    refine ⟨by rw [JobQueue.isRunning, hstalled.running]; rfl, hstalled.running.trans hr.symm, hturns, fun hopen => ?_⟩
    exact h.waiting_since rfl hturns (queueAt_open hopen) (h.open_before (queueAt_open hopen))

/-- A job that drops its token, and two that are sent after it. -/
def dropping : List Cue :=
  [.queue "q", .enqueue "q" "a" true .drop [.enqueue "q" "b" true .complete [] none] none,
    .enqueue "q" "c" true .complete [] none]

/-- The job that drops its token runs for ever, and the other two wait for it. -/
theorem queues_are_work_conserving_dropping : ∃ c later b earlier,
    dropping.foldl (Course.play 40) [⟨.opened {}, []⟩] = c :: (later ++ b :: earlier) ∧ b.Loses ⟨0, 1, "a"⟩ ∧
      c.stage.isOpen 0 = true ∧ WorkConserving 0 (later ++ b :: earlier) c ∧ (c.stage.queueAt 0).isRunning = true ∧
      turns (queueLog 0 later) = [] ∧ (c.stage.queueAt 0).waiting.map Job.label = ["b", "c"] := by
  obtain ⟨c, later, b, earlier, hplay, hloses, hopen, hsent⟩ : ∃ c later b earlier,
      dropping.foldl (Course.play 40) [⟨.opened {}, []⟩] = c :: (later ++ b :: earlier) ∧ b.Loses ⟨0, 1, "a"⟩ ∧
        c.stage.isOpen 0 = true ∧
        ((b.stage.queueAt 0).waiting ++ enqueuedJobs (queueLog 0 later)).map Job.label = ["b", "c"] :=
    ⟨_, (dropping.foldl (Course.play 40) [⟨.opened {}, []⟩]).tail.take 8, _, _, rfl, ⟨_, rfl⟩, rfl, rfl⟩
  have hconserves := queues_are_work_conserving (hplay ▸ Course.plays {} 40 dropping .opened) 0
  obtain ⟨hrunning, -, hturns, hwaiting⟩ := hconserves.stalled later b earlier _ rfl hloses rfl
  exact ⟨c, later, b, earlier, hplay, hloses, hopen, hconserves, hrunning, hturns, hwaiting hopen ▸ hsent⟩

end Stagecraft
