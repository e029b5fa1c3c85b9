import Stagecraft.Proofs.Stage.Dispatched
/-!
# The numbers of jobs

A queue numbers its jobs in the order in which they are sent, which is the order in which they start.  The token of a
job carries its number, so it says which of the jobs that were sent is complete, and no number is completed twice.
-/
namespace Stagecraft
open Stage

/-! ## Rounds -/

theorem mem_rounds {e : QueueEvent} {job : Job} : ∀ {jobs : List Job} {k i : Nat}, jobs[i]? = some job →
    e ∈ round (k + i) job → e ∈ rounds k jobs
  | [], _, _, h, _ => by cases h
  | j :: jobs, k, 0, h, he => by
    obtain rfl := Option.some.inj h
    exact List.mem_append_left _ he
  | j :: jobs, k, i + 1, h, he => by
    refine List.mem_append_right _ (mem_rounds (k := k + 1) h ?_)
    rwa [Nat.add_right_comm]

theorem completions_rounds : ∀ (k : Nat) (jobs : List Job),
    completions (rounds k jobs) = List.range' k jobs.length
  | _, [] => rfl
  | k, job :: jobs => by
    have hround : completions (round k job) = [k] := by
      cases h : job.finish <;> simp only [completions, round, ending, h] <;> rfl
    rw [rounds, List.length_cons, List.range'_succ, ← completions_rounds (k + 1) jobs, completions,
      List.filterMap_append]
    exact congrArg (· ++ _) hround

theorem completions_turns (log : List QueueEvent) : completions (turns log) = completions log := by
  rw [completions, turns, List.filterMap_filter]
  refine List.filterMap_congr fun e _ => ?_
  cases e <;> rfl

section
variable {q : Nat} {log : List QueueEvent} {c : Config}

/-- **No number is completed twice.** -/
theorem Stage.Serial.nodup_completions (h : Serial q log c) : (completions log).Nodup := by
  obtain ⟨more, hmore⟩ := h.turn.rounds
  have hsub : (completions log).Sublist (completions (rounds 1 (startedJobs log))) := by
    rw [← completions_turns, ← hmore, completions, completions, List.filterMap_append]
    exact List.sublist_append_left ..
  rw [completions_rounds] at hsub
  exact hsub.nodup List.nodup_range'

/-- A job that has started is complete, or it runs. -/
theorem Stage.Serial.completed_of_started (h : Serial q log c) {i : Nat} {job : Job}
    (hjob : (startedJobs log)[i]? = some job) : .completed (i + 1) ∈ log ∨
      (c.stage.queueAt q).running = some ⟨i + 1, job.finish⟩ := by
  have hround : ∀ {jobs : List Job}, jobs[i]? = some job → .completed (i + 1) ∈ rounds 1 jobs := by
    intro jobs hi
    refine mem_rounds hi ?_
    rw [Nat.add_comm]
    exact List.mem_cons_of_mem _ List.mem_cons_self
  have hturns : ∀ {e : QueueEvent}, e ∈ turns log → e ∈ log := fun he => List.mem_of_mem_filter he
  -- the last job is the one that the queue is busy with
  have hlast : ∀ {jobs : List Job} {last : Job}, startedJobs log = jobs ++ [last] →
      jobs[i]? = some job ∨ (i = jobs.length ∧ job = last) := by
    intro jobs last hjobs
    rw [hjobs, List.getElem?_append] at hjob
    split at hjob
    · exact .inl hjob
    · rw [List.getElem?_singleton] at hjob
      split at hjob
      · exact .inr ⟨by omega, (Option.some.inj hjob).symm⟩
      · cases hjob
  cases h.turn with
  | idle hrunning htokens hends hlog => exact .inl (hturns (hlog ▸ hround hjob))
  | busy jobs last hjobs hrunning hone hown hends hlog =>
    rcases hlast hjobs with hi | ⟨rfl, rfl⟩
    · exact .inl (hturns (hlog ▸ List.mem_append_left _ (hround hi)))
    · exact .inr hrunning
  | finishing jobs last f rest hjobs hrunning htokens hagenda hends hf hlog =>
    refine .inl (hturns (hlog ▸ ?_))
    rcases hlast hjobs with hi | ⟨rfl, rfl⟩
    · exact List.mem_append_left _ (hround hi)
    · simp
  | ending jobs last before rest hjobs hrunning htokens hagenda hends hlog =>
    refine .inl (hturns (hlog ▸ ?_))
    rcases hlast hjobs with hi | ⟨rfl, rfl⟩
    · exact List.mem_append_left _ (List.mem_append_left _ (hround hi))
    · simp

end

/-- The number that the next job gets that is sent to a queue. -/
def Stage.nextNumber (s : Stage) (q : Nat) : Nat := (s.queueAt q).started + (s.queueAt q).waiting.length + 1

/-- Whether the next task sends a job to the queue. -/
def Config.sendsTo (q : Nat) (c : Config) : Bool :=
  match c.agenda with
  | .enqueue p _ :: _ => p = q
  | _ => false

theorem Config.exists_enqueue_of_sendsTo {q : Nat} {c : Config} (h : c.sendsTo q = true) :
    ∃ job rest, c.agenda = .enqueue q job :: rest := by
  unfold sendsTo at h
  split at h
  · rename_i p job rest heq
    obtain rfl : p = q := by simpa using h
    exact ⟨job, rest, heq⟩
  · cases h

theorem enqueuedJobs_queueEvents (q : Nat) (c : Config) :
    (enqueuedJobs (c.queueEvents q)).length = if c.sendsTo q then 1 else 0 := by
  obtain ⟨s, agenda⟩ := c
  cases agenda with
  | nil => rfl
  | cons t rest =>
    by_cases ht : ∃ p job, t = .enqueue p job
    · obtain ⟨p, job, rfl⟩ := ht
      by_cases hp : p = q <;>
        simp [queueEvents_cons, queueEvent?, hp, enqueuedJobs, QueueEvent.enqueued?, Config.sendsTo]
    · have hnone : (s.queueEvent? q t).bind QueueEvent.enqueued? = none :=
        Option.eq_none_iff_forall_ne_some.2 fun job hjob => ht ⟨q, job, enqueue_of_enqueued? hjob⟩
      have hjobs : enqueuedJobs (Config.queueEvents q ⟨s, t :: rest⟩) =
          ((s.queueEvent? q t).bind QueueEvent.enqueued?).toList := enqueuedJobs_step []
      have hsends : Config.sendsTo q ⟨s, t :: rest⟩ = false := by
        cases t with
        | enqueue p job => exact absurd ⟨p, job, rfl⟩ ht
        | _ => rfl
      rw [hjobs, hnone, hsends]
      rfl

/-! ## In a course -/

section
variable {manners : Manners} {s : Stage} {past : List Config} {rest : List Task} {q : Nat}

/-- **A token that is completed ends the job with its number**, if the queue is in use. -/
theorem Course.completing {token : Completion} (h : Course manners (⟨s, .complete token :: rest⟩ :: past))
    (hq : token.queue = q) (hopen : s.isOpen q = true) : ∃ i job, token.ticket = i + 1 ∧
      (enqueuedJobs (queueLog q past))[i]? = some job ∧ (Config.after s (.complete token) rest).agenda =
        job.finish.toList.map (.finish q) ++ .jobOver q :: .pump q :: .release (.queue q) :: rest := by
  have hserial := h.serial q rfl
  obtain ⟨jobs, job, hjobs, hticket, hagenda, -⟩ := serial_complete hserial hq hopen
  refine ⟨jobs.length, job, hticket, ?_, hagenda⟩
  obtain ⟨more, hmore⟩ := hserial.order
  rw [← hmore, hjobs]
  simp

/-- Each job that was sent to a queue was sent by a task, after those with smaller numbers. -/
theorem exists_enqueue : ∀ {past : List Config} {i : Nat} {job : Job},
    (enqueuedJobs (queueLog q past))[i]? = some job →
      ∃ later s rest earlier, past = later ++ ⟨s, .enqueue q job :: rest⟩ :: earlier ∧
        (enqueuedJobs (queueLog q earlier)).length = i
  | [], i, job, h => by cases h
  | ⟨s, agenda⟩ :: past, i, job, h => by
    cases agenda with
    | nil =>
      rw [show queueLog q (⟨s, []⟩ :: past) = queueLog q past from List.append_nil _] at h
      obtain ⟨later, s', rest, earlier, rfl, hlength⟩ := exists_enqueue h
      exact ⟨⟨s, []⟩ :: later, s', rest, earlier, rfl, hlength⟩
    | cons t rest =>
      rw [show queueLog q (⟨s, t :: rest⟩ :: past) = queueLog q past ++ Config.queueEvents q ⟨s, t :: rest⟩ from rfl,
        enqueuedJobs_step, List.getElem?_append] at h
      split at h
      · obtain ⟨later, s', rest', earlier, rfl, hlength⟩ := exists_enqueue h
        exact ⟨⟨s, t :: rest⟩ :: later, s', rest', earlier, rfl, hlength⟩
      · cases hjob : (s.queueEvent? q t).bind QueueEvent.enqueued? with
        | none =>
          rw [hjob] at h
          cases h
        | some job' =>
          rw [hjob, Option.toList_some, List.getElem?_singleton] at h
          split at h
          · obtain rfl := Option.some.inj h
            obtain rfl := enqueue_of_enqueued? hjob
            exact ⟨[], s, rest, past, rfl, by omega⟩
          · cases h

theorem Course.nextNumber_eq {c : Config} (h : Course manners (c :: past)) (hopen : c.stage.isOpen q = true) :
    c.stage.nextNumber q = (enqueuedJobs (queueLog q past)).length + 1 := by
  have hserial := h.serial q rfl
  rw [Stage.nextNumber, hserial.count, ← hserial.whole (queueAt_open hopen), List.length_append]

theorem Course.nextNumber_of_sendsTo {c : Config} (h : Course manners (c :: past)) (hc : c.sendsTo q = true) :
    c.stage.nextNumber q = (enqueuedJobs (queueLog q past)).length + 1 := by
  obtain ⟨job, rest, hagenda⟩ := Config.exists_enqueue_of_sendsTo hc
  obtain ⟨s, agenda⟩ := c
  obtain rfl : agenda = .enqueue q job :: rest := hagenda
  exact h.nextNumber_eq (isOpen_of_held h.held rfl)

/-- **The jobs that are sent to a queue get the numbers from 1 on**, in the order in which they are sent. -/
theorem Course.numbers_eq : ∀ {past : List Config} {c : Config}, Course manners (c :: past) →
    (past.reverse.filter (Config.sendsTo q)).map (fun b => b.stage.nextNumber q) =
      List.range' 1 (enqueuedJobs (queueLog q past)).length
  | [], _, _ => rfl
  | b :: past, _, h => by
    have hlog : enqueuedJobs (queueLog q (b :: past)) =
        enqueuedJobs (queueLog q past) ++ enqueuedJobs (b.queueEvents q) := List.filterMap_append
    rw [List.reverse_cons, List.filter_append, List.map_append, numbers_eq h.tail, hlog, List.length_append,
      enqueuedJobs_queueEvents]
    by_cases hb : b.sendsTo q = true
    · rw [if_pos hb, List.filter_cons_of_pos hb, List.range'_concat]
      simp [h.tail.nextNumber_of_sendsTo hb, Nat.add_comm]
    · rw [if_neg hb, List.filter_cons_of_neg hb, Nat.add_zero]
      exact List.append_nil _

theorem Course.job_of_number {c b : Config} (h : Course manners (c :: past)) (hb : b ∈ past) {job : Job}
    (hagenda : b.agenda = .enqueue q job :: rest) :
    ∃ i, b.stage.nextNumber q = i + 1 ∧ (enqueuedJobs (queueLog q past))[i]? = some job := by
  obtain ⟨later, earlier, rfl⟩ := List.append_of_mem hb
  have hbefore : Course manners (b :: earlier) := Course.drop (c :: later) h
  refine ⟨_, hbefore.nextNumber_of_sendsTo (by simp [Config.sendsTo, hagenda]), ?_⟩
  have hevents : enqueuedJobs (b.queueEvents q) = [job] := by
    simp [Config.queueEvents, hagenda, queueEvent?, enqueuedJobs, QueueEvent.enqueued?]
  rw [queueLog_append, queueLog, enqueuedJobs, enqueuedJobs, List.filterMap_append, List.filterMap_append]
  rw [enqueuedJobs] at hevents
  rw [hevents]
  simp

theorem Course.machine?_next {m : Nat} {c d : Config} {machine : Machine} (h : Course manners (c :: d :: past))
    (hd : d.stage.machine? m = some machine) :
    ∃ machine', c.stage.machine? m = some machine' ∧ machine'.made = machine.made := by
  cases h with
  | cleared => exact ⟨machine, hd, rfl⟩
  | called => exact ⟨machine, hd, rfl⟩
  | stepped h hstep =>
    obtain ⟨s, agenda⟩ := d
    cases agenda with
    | nil => cases hstep
    | cons t rest =>
      rw [Config.step?_cons, Option.some.injEq] at hstep
      rw [← hstep]
      exact machine?_after t rest hd

/-- A machine stays as it was built. -/
theorem Course.machine?_since {m : Nat} {b : Config} {machine : Machine} (hb : b.stage.machine? m = some machine) :
    ∀ {c : Config} {later : List Config}, Course manners (c :: (later ++ b :: past)) →
      ∃ machine', c.stage.machine? m = some machine' ∧ machine'.made = machine.made
  | c, [], h => h.machine?_next hb
  | c, d :: later, h => by
    obtain ⟨machine', hd, hmade⟩ := machine?_since hb h.tail
    obtain ⟨machine'', hc, hmade'⟩ := h.machine?_next hd
    exact ⟨machine'', hc, hmade'.trans hmade⟩

end

end Stagecraft
