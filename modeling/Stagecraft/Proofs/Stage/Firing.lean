import Stagecraft.Proofs.Stage.Conclusion
/-!
# The jobs of a firing

A reaction with several effects sends a job for each of them when it acts, and the end of the reaction hangs on the last
of these jobs.  Whatever else is sent to the queue in between, the numbers of the jobs say which of them belong
together; and a conclusion is that of the firing whose last job is complete.
-/
namespace Stagecraft

/-- The jobs that the actions of a reaction make, in their order.  An action that is no effect, or one that cannot be
played, makes none. -/
def Machine.playable (c : Machine) (r : Reaction) : List Job :=
  r.actions.filterMap fun action => (Effect.parse? action).bind (Stage.job? c.settings c.element)

/-- The tasks with which a reaction sends its jobs. -/
def Machine.sending (c : Machine) (m : Nat) (slot : Slot) (r : Reaction) : List Task :=
  (Stage.withFinish (.reaction m slot) (c.playable r)).map (.enqueue c.queue)

/-- The numbers of the jobs that have been sent. -/
def Progress.numbers (q : Nat) (p : Progress) : List Nat := p.begun.map fun b => b.stage.nextNumber q

/-- The tasks with which an effect is set going, if the host dispatches nothing from inside its calls. -/
def Task.plays : Task → Bool
  | .run (.effect _) _ | .perform _ | .await .. | .release .host => true
  | _ => false

/-- The tasks with which a queue starts a job that plays an effect. -/
def Task.isOpening (q : Nat) (t : Task) : Bool :=
  t.plays || match t with
    | .pump p => p = q
    | _ => false

namespace Stage

section
variable {s : Stage} {c : Machine} {m n q : Nat} {slot other : Slot} {r : Reaction} {f : Finish}

/-! ## The jobs -/

theorem jobs_eq (c : Machine) : ∀ (actions : List String) (s : Stage), (s.jobs c actions).2 =
    actions.filterMap fun action => (Effect.parse? action).bind (job? c.settings c.element)
  | [], _ => rfl
  | action :: actions, s => by
    rw [jobs]
    cases ha : Effect.parse? action with
    | none => simp [ha, jobs_eq c actions]
    | some e =>
      dsimp only
      rw [jobs_eq c actions]
      cases hj : job? c.settings c.element e <;> simp [ha, hj]

theorem length_withFinish (f : Finish) : ∀ jobs : List Job, (withFinish f jobs).length = jobs.length
  | [] => rfl
  | [_] => rfl
  | _ :: j :: jobs => congrArg (· + 1) (length_withFinish f (j :: jobs))

/-- Of the jobs of a firing only the last one has an end to it. -/
theorem eq_nil_of_finish : ∀ {jobs : List Job}, (∀ job ∈ jobs, job.finish = none) → ∀ {pre post : List Job}
    {job : Job}, withFinish f jobs = pre ++ job :: post → job.finish = some f → post = []
  | [], _, pre, _, _, h, _ => by simp [withFinish] at h
  | [j], _, pre, post, job, h, _ => by
    have := congrArg List.length h
    simp only [withFinish, List.length_cons, List.length_append, List.length_nil] at this
    exact List.eq_nil_of_length_eq_zero (by omega)
  | j :: j' :: jobs, hnone, pre, post, job, h, hf => by
    cases pre with
    | nil =>
      obtain ⟨rfl, -⟩ := List.cons.inj h
      rw [hnone j List.mem_cons_self] at hf
      cases hf
    | cons i pre =>
      exact eq_nil_of_finish (fun job hjob => hnone job (List.mem_cons_of_mem _ hjob)) (List.cons.inj h).2 hf

theorem finish_of_mem_playable : ∀ job ∈ c.playable r, job.finish = none := by
  intro job hjob
  rw [Machine.playable, ← jobs_eq c r.actions {}] at hjob
  exact finish_of_mem_jobs c r.actions {} job hjob

theorem playable_of_made {c' : Machine} (h : c'.made = c.made) : c'.playable r = c.playable r := by
  have hsettings : c'.settings = c.settings := (congrArg Machine.settings h :)
  have helement : c'.element = c.element := (congrArg Machine.element h :)
  rw [Machine.playable, Machine.playable, hsettings, helement]

theorem sending_of_made {c' : Machine} (h : c'.made = c.made) : c'.sending m slot r = c.sending m slot r := by
  rw [Machine.sending, Machine.sending, playable_of_made h, show c'.queue = c.queue from (congrArg Machine.queue h :)]

/-- **A reaction that acts sends all its jobs**, and concludes at once if it has none. -/
theorem act_several (hc : s.machine? m = some c) (hr : c.reaction? slot = some r) (hsev : r.encoding = .several)
    (hact : r.hasAction = true) :
    (s.act m slot).2 = if c.playable r = [] then [.conclude m slot] else c.sending m slot r := by
  have hjobs : (s.jobs c r.actions).2 = c.playable r := jobs_eq c r.actions s
  simp only [act, hc, hr, hact, hsev, Bool.not_true, Bool.false_eq_true, if_false, runAll]
  split
  · rename_i s' heq
    rw [heq] at hjobs
    rw [if_pos hjobs.symm]
  · rename_i s' js hne heq
    rw [heq] at hjobs
    obtain rfl : js = c.playable r := hjobs
    rw [if_neg hne, Machine.sending]

/-- If the host dispatches nothing from inside its calls, nothing else is done while an effect is set going. -/
theorem plays_carryOut {t : Task} {rest : List Task} (hr : s.manners.reflexes = []) (h : t.plays = true) :
    ∀ t' ∈ (t.carryOut s rest).2, t'.plays = true := by
  cases t with
  | run body token =>
    cases body with
    | effect p => simp [Task.carryOut, run, Task.plays, or_imp, forall_and]
    | outside name script fate => cases h
  | perform op =>
    cases op with
    | flush el =>
      simp only [Task.carryOut, perform, reflexes_eq_nil hr]
      split <;> exact List.forall_mem_nil _
    | _ =>
      simp only [Task.carryOut, perform, reflexes_eq_nil hr]
      exact List.forall_mem_nil _
  | await el event call =>
    simp only [Task.carryOut, await, reflexes_eq_nil hr]
    exact List.forall_mem_nil _
  | release hold =>
    cases hold with
    | host => exact List.forall_mem_nil _
    | _ => cases h
  | _ => cases h

/-- The queue of a machine starts effects. -/
theorem plays_pump {rest : List Task}
    (heffect : ∀ job jq, (s.queueAt q).start? = some (job, jq) → job.isEffect = true) :
    ∀ t' ∈ (Task.carryOut s rest (.pump q)).2, t'.plays = true := by
  simp only [Task.carryOut, pump, ← start?_queueAt]
  cases hstart : (s.queueAt q).start? with
  | none => exact List.forall_mem_nil _
  | some o =>
    obtain ⟨job, jq⟩ := o
    have hjob := heffect job jq hstart
    refine List.forall_mem_singleton.2 ?_
    unfold Job.isEffect at hjob
    split at hjob
    · rename_i heq
      rw [heq]
      rfl
    · cases hjob

theorem isOpening_of_plays {t : Task} (h : t.plays = true) : t.isOpening q = true := Bool.or_eq_true_iff.2 (.inl h)

theorem isOpening_carryOut {t : Task} {rest : List Task} (hr : s.manners.reflexes = [])
    (heffect : ∀ job jq, (s.queueAt q).start? = some (job, jq) → job.isEffect = true)
    (h : (∃ job, t = .enqueue q job) ∨ (∃ p, t = .release (.queue p)) ∨ t.isOpening q = true) :
    ∀ t' ∈ (t.carryOut s rest).2, t'.isOpening q = true := by
  rcases h with ⟨job, rfl⟩ | ⟨p, rfl⟩ | h
  · exact List.forall_mem_singleton.2 (decide_eq_true rfl)
  · exact List.forall_mem_nil _
  rcases Bool.or_eq_true_iff.1 h with hplays | hpump
  · exact fun t' ht' => isOpening_of_plays (plays_carryOut hr hplays t' ht')
  cases t with
  | pump p =>
    obtain rfl : p = q := of_decide_eq_true hpump
    exact fun t' ht' => isOpening_of_plays (plays_pump heffect t' ht')
  | _ => cases hpump

/-- Only the reaction itself sends jobs with its end. -/
theorem act_of_isFor {t : Task} {rest : List Task} {job : Job} (h : .enqueue q job ∈ (t.carryOut s rest).2)
    (hfor : job.finish.any (Finish.isFor m slot) = true) : ∃ anew, t = .act m slot anew := by
  have hkind := (within_carryOut s rest t).kinds _ h
  change Kind.enqueue ∈ t.leaves at hkind
  cases t with
  | cue cue =>
    have hnone : Task.owes m slot (.enqueue q job) = false := owes_follow s cue _ h
    rw [Task.owes, hfor] at hnone
    cases hnone
  | act n other anew =>
    by_cases heq : n = m ∧ other = slot
    · exact ⟨anew, by rw [heq.1, heq.2]⟩
    · have hnone : Task.owes m slot (.enqueue q job) = false := owes_act heq _ h
      rw [Task.owes, hfor] at hnone
      cases hnone
  | release hold => cases hold <;> simp [Task.leaves] at hkind
  | _ => simp [Task.leaves] at hkind

end

end Stage
open Stage

section
variable {manners : Manners} {m q : Nat} {slot : Slot} {r : Reaction} {c a : Config} {past later earlier : List Config}
  {machine : Machine} {s : Stage} {anew : Bool} {rest : List Task}

/-- What a reaction leaves when it acts. -/
theorem Course.sending_eq (h : Course manners (⟨s, .act m slot anew :: rest⟩ :: past)) (hr : Awaits s m slot r)
    (hsev : r.encoding = .several) (hact : r.hasAction = true) : ∃ machine, s.machine? m = some machine ∧
      ((Task.act m slot anew).carryOut s rest).2 =
        if machine.playable r = [] then [.conclude m slot] else machine.sending m slot r := by
  obtain ⟨machine, hm, hr'⟩ := h.reaction_before hr rfl
  exact ⟨machine, hm, act_several hm hr' hsev hact⟩

/-! ## The numbers -/

section
variable {t₀ : Task} {rest₀ : List Task} {jobs : List Job}

/-- A job is being sent when its task begins. -/
theorem Course.sends_of_begun (ha : a.agenda = t₀ :: rest₀)
    (hleft : (t₀.carryOut a.stage rest₀).2 ++ rest₀ = jobs.map (.enqueue q) ++ rest)
    (h : Course manners (c :: (later ++ a :: earlier))) {i : Nat} {b : Config}
    (hb : (progress rest (jobs.map (.enqueue q)) later).begun[i]? = some b) :
    ∃ job rest', jobs[i]? = some job ∧ b.agenda = .enqueue q job :: rest' := by
  have hagenda := h.agenda_of_begun ha hleft i b hb
  have hi : i < jobs.length := by
    have hlt := (List.getElem?_eq_some_iff.1 hb).1
    have hle := (todo_eq_drop rest (jobs.map (.enqueue q)) later).2
    rw [List.length_map] at hle
    exact Nat.lt_of_lt_of_le hlt hle
  refine ⟨jobs[i], (jobs.map (.enqueue q)).drop (i + 1) ++ rest, List.getElem?_eq_getElem hi, ?_⟩
  rw [hagenda, ← List.map_drop, List.drop_eq_getElem_cons hi, List.map_cons, List.map_drop, List.cons_append]

theorem Course.sublist_numbers (ha : a.agenda = t₀ :: rest₀)
    (hleft : (t₀.carryOut a.stage rest₀).2 ++ rest₀ = jobs.map (.enqueue q) ++ rest)
    (h : Course manners (c :: (later ++ a :: earlier))) :
    ((progress rest (jobs.map (.enqueue q)) later).numbers q).Sublist
      (((later.reverse).filter (Config.sendsTo q)).map fun b => b.stage.nextNumber q) := by
  obtain ⟨more, heq, hsub, -⟩ := begun_append rest (jobs.map (.enqueue q)) [] later
  rw [List.append_nil, show (progress rest (jobs.map (.enqueue q)) []).begun = [] from rfl, List.nil_append] at heq
  rw [Progress.numbers]
  refine List.Sublist.map _ ?_
  rw [← heq] at hsub
  have hall : ∀ b ∈ (progress rest (jobs.map (.enqueue q)) later).begun, b.sendsTo q = true := by
    intro b hb
    obtain ⟨i, hi⟩ := List.getElem?_of_mem hb
    obtain ⟨job, rest', -, hagenda⟩ := h.sends_of_begun ha hleft hi
    simp [Config.sendsTo, hagenda]
  rw [← List.filter_eq_self.2 hall]
  exact hsub.filter _

/-- The jobs are numbered in their order. -/
theorem Course.pairwise_numbers (ha : a.agenda = t₀ :: rest₀)
    (hleft : (t₀.carryOut a.stage rest₀).2 ++ rest₀ = jobs.map (.enqueue q) ++ rest)
    (h : Course manners (c :: (later ++ a :: earlier))) :
    ((progress rest (jobs.map (.enqueue q)) later).numbers q).Pairwise (· < ·) := by
  refine List.Pairwise.sublist (h.sublist_numbers ha hleft) ?_
  have hnumbers := h.numbers_eq (q := q)
  rw [List.reverse_append, List.filter_append, List.map_append] at hnumbers
  exact List.Pairwise.sublist (List.sublist_append_right _ _) (hnumbers ▸ List.pairwise_lt_range' 1)

/-- The numbers are those of the jobs. -/
theorem Course.jobs_of_numbers (ha : a.agenda = t₀ :: rest₀)
    (hleft : (t₀.carryOut a.stage rest₀).2 ++ rest₀ = jobs.map (.enqueue q) ++ rest)
    (h : Course manners (c :: (later ++ a :: earlier))) {i k : Nat}
    (hk : ((progress rest (jobs.map (.enqueue q)) later).numbers q)[i]? = some k) : ∃ j job, k = j + 1 ∧
      jobs[i]? = some job ∧ (enqueuedJobs (queueLog q (later ++ a :: earlier)))[j]? = some job := by
  rw [Progress.numbers, List.getElem?_map, Option.map_eq_some_iff] at hk
  obtain ⟨b, hb, rfl⟩ := hk
  obtain ⟨job, rest', hjob, hagenda⟩ := h.sends_of_begun ha hleft hb
  have hmem : b ∈ later ++ a :: earlier := List.mem_append_left _ (begun_subset b (List.mem_of_getElem? hb))
  obtain ⟨j, hj, hnumber⟩ := h.job_of_number hmem hagenda
  exact ⟨j, job, hj, hjob, hnumber⟩

/-- The queue of a machine starts nothing but effects. -/
theorem Course.isEffect_of_start? (h : Course manners (c :: past)) (hm : c.stage.machine? m = some machine) {job : Job}
    {jq : JobQueue} (hstart : (c.stage.queueAt machine.queue).start? = some (job, jq)) : job.isEffect = true := by
  obtain ⟨-, waiting, hwaiting, -⟩ := start?_eq_some hstart
  refine ((h.reserved rfl hm).sent job ?_).isEffect
  refine (h.serial machine.queue rfl).order.subset (List.mem_append_right _ ?_)
  rw [hwaiting]
  exact List.mem_cons_self

/-- If the host dispatches nothing from inside its calls, then of tasks that send or start jobs of a machine nothing is
left but what belongs to the start of a job. -/
theorem Course.opening_between {ts : List Task} (hr : manners.reflexes = []) (ha : a.agenda = t₀ :: rest₀)
    (hleft : (t₀.carryOut a.stage rest₀).2 ++ rest₀ = ts ++ rest) (hm : a.stage.machine? m = some machine)
    (hts : ∀ t ∈ ts, (∃ job, t = .enqueue machine.queue job) ∨ (∃ p, t = .release (.queue p)) ∨
      t.isOpening machine.queue = true) (h : Course manners (c :: (later ++ a :: earlier)))
    (htodo : (progress rest ts later).todo ≠ []) :
    ∃ us, c.agenda = us ++ (progress rest ts later).todo ++ rest ∧ ∀ u ∈ us, u.isOpening machine.queue = true := by
  obtain ⟨us, hc, hus, -⟩ := h.progress_between (P := fun t => t.isOpening machine.queue = true) ha hleft
    (fun s t rest' later' hcourse ht => by
      obtain ⟨machine', hm', hmade⟩ := hcourse.machine?_since hm
      have hqueue : machine'.queue = machine.queue := (congrArg Machine.queue hmade :)
      refine isOpening_carryOut (hcourse.manners_eq.symm ▸ hr) (fun job jq hstart => ?_) ?_
      · exact hcourse.isEffect_of_start? hm' (hqueue ▸ hstart)
      · exact ht.elim (hts t) fun hopening => .inr (.inr hopening)) htodo
  exact ⟨us, hc, hus⟩

/-- **If the host dispatches nothing from inside its calls, the jobs of a firing stand side by side in the queue.** -/
theorem Course.adjacent_numbers (hr : manners.reflexes = []) (ha : a.agenda = t₀ :: rest₀)
    (hleft : (t₀.carryOut a.stage rest₀).2 ++ rest₀ = jobs.map (.enqueue machine.queue) ++ rest)
    (hm : a.stage.machine? m = some machine) {n : Nat}
    (hn : n = (enqueuedJobs (queueLog machine.queue (a :: earlier))).length) : ∀ {c : Config} {later : List Config},
      Course manners (c :: (later ++ a :: earlier)) →
      (progress rest (jobs.map (.enqueue machine.queue)) later).numbers machine.queue =
          List.range' (n + 1) (progress rest (jobs.map (.enqueue machine.queue)) later).begun.length ∧
        ((progress rest (jobs.map (.enqueue machine.queue)) later).todo ≠ [] →
          (enqueuedJobs (queueLog machine.queue (later ++ a :: earlier))).length =
            n + (progress rest (jobs.map (.enqueue machine.queue)) later).begun.length)
  | c, [], _ => ⟨rfl, fun _ => hn.symm⟩
  | c, b :: later, h => by
    have hb : Course manners (b :: (later ++ a :: earlier)) := h.tail
    obtain ⟨hnumbers, hlength⟩ := adjacent_numbers hr ha hleft hm hn hb
    by_cases hbefore : (progress rest (jobs.map (.enqueue machine.queue)) later).todo = []
    · rw [progress_over hbefore]
      exact ⟨hnumbers, fun htodo => absurd hbefore htodo⟩
    have hsending : ∀ t ∈ jobs.map (Task.enqueue machine.queue), ∃ job, t = .enqueue machine.queue job := by
      intro t ht
      obtain ⟨job, -, rfl⟩ := List.mem_map.1 ht
      exact ⟨job, rfl⟩
    obtain ⟨us, hagenda, hus⟩ := hb.opening_between hr ha hleft hm (fun t ht => .inl (hsending t ht)) hbefore
    have hlog : (enqueuedJobs (queueLog machine.queue (b :: (later ++ a :: earlier)))).length =
        (enqueuedJobs (queueLog machine.queue (later ++ a :: earlier))).length +
          (enqueuedJobs (b.queueEvents machine.queue)).length := by
      rw [queueLog, enqueuedJobs, List.filterMap_append, List.length_append]
      rfl
    rw [List.cons_append, hlog, enqueuedJobs_queueEvents, hlength hbefore]
    rcases progress_of_agenda hagenda hbefore with ⟨t, todo, -, heq, hfirst, hsince⟩ | ⟨u, us', rfl, hfirst, hsince⟩
    · -- the next job is sent
      have hmem : t ∈ (progress rest (jobs.map (.enqueue machine.queue)) later).todo := heq ▸ List.mem_cons_self
      rw [(todo_eq_drop rest _ later).1] at hmem
      obtain ⟨job, rfl⟩ := hsending t (List.mem_of_mem_drop hmem)
      have hsends : b.sendsTo machine.queue = true := by simp [Config.sendsTo, hfirst]
      have hnumber := hb.nextNumber_of_sendsTo hsends
      rw [hlength hbefore] at hnumber
      rw [Progress.numbers] at hnumbers
      refine ⟨?_, fun _ => by rw [hsince, if_pos hsends, List.length_append, List.length_singleton, Nat.add_assoc]⟩
      rw [hsince, Progress.numbers, List.map_append, hnumbers, List.map_singleton, hnumber, List.length_append,
        List.length_singleton, List.range'_concat, Nat.one_mul, Nat.add_right_comm]
    · have hsends : b.sendsTo machine.queue = false := by
        have hu := hus u List.mem_cons_self
        unfold Config.sendsTo
        rw [hfirst]
        cases u with
        | enqueue => cases hu
        | _ => rfl
      rw [hsince, hsends]
      exact ⟨hnumbers, fun _ => rfl⟩

/-- The jobs of a firing have other numbers than those of a later one, also if it is not over when the later one
begins. -/
theorem Course.numbers_apart {a' : Config} {mid since : List Config} {jobs' : List Job} {t' : Task}
    {rest' : List Task} (ha : a.agenda = t₀ :: rest₀)
    (hleft : (t₀.carryOut a.stage rest₀).2 ++ rest₀ = jobs.map (.enqueue q) ++ rest) (ha' : a'.agenda = t' :: rest')
    (hleft' : (t'.carryOut a'.stage rest').2 ++ rest' = jobs'.map (.enqueue q) ++ rest')
    (ht' : ∀ p job, t' ≠ .enqueue p job) (h : Course manners (c :: (since ++ a' :: (mid ++ a :: earlier)))) {k : Nat}
    (hk : k ∈ (progress rest (jobs.map (.enqueue q)) (since ++ a' :: mid)).numbers q)
    (hk' : k ∈ (progress rest' (jobs'.map (.enqueue q)) since).numbers q) : False := by
  obtain ⟨b, hb, rfl⟩ := List.mem_map.1 hk
  obtain ⟨b', hb', hsame⟩ := List.mem_map.1 hk'
  have hpast : since ++ a' :: (mid ++ a :: earlier) = (since ++ a' :: mid) ++ a :: earlier := by simp
  -- both tasks send jobs to the queue, so their numbers tell which of them came first
  have hsends : b.sendsTo q = true := by
    obtain ⟨i, hi⟩ := List.getElem?_of_mem hb
    obtain ⟨job, rest'', -, hagenda⟩ := (hpast ▸ h).sends_of_begun ha hleft hi
    simp [Config.sendsTo, hagenda]
  have hsends' : b'.sendsTo q = true := by
    obtain ⟨i, hi⟩ := List.getElem?_of_mem hb'
    obtain ⟨job, rest'', -, hagenda⟩ := h.sends_of_begun ha' hleft' hi
    simp [Config.sendsTo, hagenda]
  have hnumbers := h.numbers_eq (q := q)
  have hlt : (((since ++ a' :: (mid ++ a :: earlier)).reverse.filter (Config.sendsTo q)).map fun b =>
      b.stage.nextNumber q).Pairwise (· < ·) := hnumbers ▸ List.pairwise_lt_range' 1
  obtain ⟨more, heq, hsub, hlength⟩ := begun_append rest (jobs.map (.enqueue q)) (a' :: mid) since
  rcases List.mem_append.1 (heq ▸ hb) with hbefore | hafter
  · -- it was sent before the later firing
    rw [List.reverse_append, List.filter_append, List.map_append, List.pairwise_append] at hlt
    refine absurd hsame (Nat.ne_of_gt (hlt.2.2 _ (List.mem_map_of_mem ?_) _ (List.mem_map_of_mem ?_)))
    · refine List.mem_filter.2 ⟨List.mem_reverse.2 ?_, hsends⟩
      exact List.mem_append_left (a :: earlier) (begun_subset b hbefore)
    · exact List.mem_filter.2 ⟨List.mem_reverse.2 (begun_subset b' hb'), hsends'⟩
  · -- it was sent when the later firing was over
    have hmem : b ∈ since := List.mem_reverse.1 (hsub.subset hafter)
    obtain rfl : b' = b := by
      refine List.inj_on_of_nodup_map (hlt.imp Nat.ne_of_lt) (List.mem_filter.2 ⟨?_, hsends'⟩)
        (List.mem_filter.2 ⟨?_, hsends⟩) hsame
      · exact List.mem_reverse.2 (List.mem_append_left _ (begun_subset b' hb'))
      · exact List.mem_reverse.2 (List.mem_append_left _ hmem)
    have htodo : (progress rest (jobs.map (.enqueue q)) (a' :: mid)).todo ≠ [] := by
      intro hover
      rw [progress_append_over hover] at heq
      rw [List.self_eq_append_right.1 heq] at hafter
      cases hafter
    have hmid : (progress rest (jobs.map (.enqueue q)) mid).todo ≠ [] :=
      fun hover => htodo (by rwa [progress_over hover])
    have hat : Course manners (a' :: (mid ++ a :: earlier)) := Course.drop (c :: since) h
    obtain ⟨us, hagenda, -⟩ := hat.progress_agenda ha hleft hmid
    rcases progress_of_agenda hagenda hmid with ⟨t, todo, -, hcons, hfirst, -⟩ | ⟨u, us', -, hfirst, hwaits⟩
    · have hmem' : t ∈ (progress rest (jobs.map (.enqueue q)) mid).todo := hcons ▸ List.mem_cons_self
      rw [(todo_eq_drop rest _ mid).1] at hmem'
      obtain ⟨job, -, rfl⟩ := List.mem_map.1 (List.mem_of_mem_drop hmem')
      exact ht' q job (List.cons.inj (ha'.symm.trans hfirst)).1
    · have hinner := lt_length_of_mem_begun b' hb'
      have houter := hlength b' hafter
      rw [(List.cons.inj (ha'.symm.trans hfirst)).2, List.length_append, List.length_append] at hinner
      rw [hwaits] at houter
      omega

end

/-! ## Conclusions -/

/-- A job with the end of the reaction is the last one of a firing, all of whose jobs have been sent. -/
theorem Course.firing_of_job (h : Course manners (c :: past)) (hr : Awaits c.stage m slot r)
    (hsev : r.encoding = .several) (hact : r.hasAction = true) {i : Nat} {job : Job} {f : Finish}
    (hjob : (enqueuedJobs (queueLog q past))[i]? = some job) (hf : job.finish = some f) (hfor : f.isFor m slot = true) :
    f = .reaction m slot ∧ ∃ (later : List Config) (s : Stage) (anew : Bool) (rest : List Task)
      (earlier : List Config) (machine : Machine), past = later ++ ⟨s, .act m slot anew :: rest⟩ :: earlier ∧
      s.machine? m = some machine ∧ q = machine.queue ∧
      (progress rest (machine.sending m slot r) later).todo = [] ∧
      ((progress rest (machine.sending m slot r) later).numbers q).getLast? = some (i + 1) := by
  obtain ⟨since, s₁, rest₁, earlier₁, rfl, hlength⟩ := exists_enqueue hjob
  have hsent : Course manners (⟨s₁, .enqueue q job :: rest₁⟩ :: earlier₁) := Course.drop (c :: since) h
  rcases hsent.left_next with ⟨cue, hcue, -⟩ | ⟨later, s, t₀, rest, earlier, pre, post, rfl, hleft, rfl, htodo, -⟩
  · cases hcue
  have hmem : .enqueue q job ∈ (t₀.carryOut s rest).2 := by rw [hleft]; simp
  obtain ⟨anew, rfl⟩ := act_of_isFor hmem (show job.finish.any _ = true by rw [hf]; exact hfor)
  have hbefore : Course manners (⟨s, .act m slot anew :: rest⟩ :: earlier) :=
    Course.drop (⟨s₁, .enqueue q job :: (post ++ rest)⟩ :: later) hsent
  have hr' : Awaits s m slot r := hsent.awaits_before (h.awaits_before hr)
  obtain ⟨machine, hm, hsending⟩ := hbefore.sending_eq hr' hsev hact
  rw [hleft] at hsending
  split at hsending
  · simp [List.append_eq_cons_iff] at hsending
  -- the job is the last one, since it has an end
  obtain ⟨pre', jobs', hjobs, -, hpost⟩ := List.map_eq_append_iff.1 hsending.symm
  obtain ⟨job', post', rfl, heq, rfl⟩ := List.map_eq_cons_iff.1 hpost
  obtain ⟨rfl, rfl⟩ : machine.queue = q ∧ job' = job := by simpa using heq
  have hlast : f = .reaction m slot := by
    rcases finish_of_mem_withFinish finish_of_mem_playable job' (by rw [hjobs]; simp) with hnone | hsome
    · rw [hf] at hnone
      cases hnone
    · exact Option.some.inj (hf.symm.trans hsome)
  obtain rfl : post' = [] := eq_nil_of_finish finish_of_mem_playable hjobs (hlast ▸ hf)
  refine ⟨hlast, since ++ ⟨s₁, .enqueue machine.queue job' :: ([] ++ rest)⟩ :: later, s, anew, rest, earlier, machine,
    by simp, hm, rfl, ?_⟩
  rw [hsending] at htodo
  have hbegins := progress_begins (c := ⟨s₁, .enqueue machine.queue job' :: ([] ++ rest)⟩) htodo rfl
  rw [progress_append_over (by rw [hbegins]; rfl), hbegins]
  refine ⟨rfl, ?_⟩
  rw [Progress.numbers, List.map_append, List.map_singleton, List.getLast?_concat,
    hsent.nextNumber_of_sendsTo (by simp [Config.sendsTo]), hlength]

/-- A reaction with several effects concludes when the last job of a firing is complete, or at once if it has none. -/
theorem Course.concludes_firing (h : Course manners (⟨s, .conclude m slot :: rest⟩ :: past))
    (hm : s.machine? m = some machine) (hr : machine.reaction? slot = some r) (hsev : r.encoding = .several)
    (hact : r.hasAction = true) :
    (∃ s₀ anew earlier, past = ⟨s₀, .act m slot anew :: rest⟩ :: earlier ∧ machine.playable r = []) ∨
      ∃ s₁ s₂ rest₁ rest₂ token earlier, past = ⟨s₁, .finish machine.queue (.reaction m slot) :: rest₁⟩ ::
          ⟨s₂, .complete token :: rest₂⟩ :: earlier ∧ token.queue = machine.queue ∧
        ∃ later s₀ anew rest₀ before, earlier = later ++ ⟨s₀, .act m slot anew :: rest₀⟩ :: before ∧
          (progress rest₀ (machine.sending m slot r) later).todo = [] ∧
          ((progress rest₀ (machine.sending m slot r) later).numbers machine.queue).getLast? = some token.ticket := by
  have hawaits : Awaits s m slot r := .inr (by rw [reactionOf, hm]; exact hr)
  rcases h.before_conclude with ⟨s₀, anew, earlier, rfl, heq⟩ | ⟨q, rest₀, earlier, rfl, -⟩ |
    ⟨s₁, k, earlier, rfl, -⟩
  · obtain ⟨machine', hm', hsending⟩ := h.tail.sending_eq (h.awaits_last hawaits) hsev hact
    obtain ⟨machine'', hm'', hmade⟩ := h.machine?_next hm'
    obtain rfl : machine = machine'' := Option.some.inj (hm.symm.trans hm'')
    refine .inl ⟨s₀, anew, earlier, rfl, ?_⟩
    rw [show ((Task.act m slot anew).carryOut s₀ rest).2 = [.conclude m slot] from congrArg Prod.snd heq] at hsending
    rw [playable_of_made hmade]
    by_contra hne
    rw [if_neg hne, Machine.sending] at hsending
    have := List.mem_map.1 (hsending ▸ List.mem_singleton_self (Task.conclude m slot))
    obtain ⟨job, -, heq⟩ := this
    cases heq
  · obtain ⟨s₂, token, rest₂, earlier₂, i, job, rfl, hq, -, hticket, hjob, hf⟩ := h.tail.before_finish
    have hawaits₂ : Awaits s₂ m slot r := h.tail.awaits_last (h.awaits_last hawaits)
    obtain ⟨-, later, s₀, anew, rest₁, before, machine', rfl, hm', rfl, htodo, hlast⟩ :=
      h.tail.tail.firing_of_job hawaits₂ hsev hact hjob hf (by simp [Finish.isFor])
    obtain ⟨machine'', hm'', hmade⟩ :=
      Course.machine?_since hm' (show Course manners (_ :: ((_ :: _ :: later) ++ _ :: before)) from h)
    obtain rfl : machine = machine'' := Option.some.inj (hm.symm.trans hm'')
    have hqueue : machine.queue = machine'.queue := (congrArg Machine.queue hmade :)
    rw [sending_of_made hmade, hqueue]
    exact .inr ⟨s, s₂, rest₀, rest₂, token, _, rfl, hq, later, s₀, anew, rest₁, before, rfl, htodo, hticket ▸ hlast⟩
  · -- the jobs of the reaction are no steps
    obtain ⟨q, rest₂, earlier₂, rfl, -⟩ := h.tail.before_stepOver
    obtain ⟨s₃, token, rest₃, earlier₃, i, job, rfl, -, -, -, hjob, hf⟩ := h.tail.tail.before_finish
    have hawaits₃ : Awaits s₃ m slot r := h.tail.tail.awaits_last (h.tail.awaits_last (h.awaits_last hawaits))
    obtain ⟨heq, -⟩ := h.tail.tail.tail.firing_of_job hawaits₃ hsev hact hjob hf (by simp [Finish.isFor])
    cases heq

/-- When the last job of a firing is complete, all jobs that were sent before it are over. -/
theorem Course.firing_ends {token : Completion} (h : Course manners (⟨s, .complete token :: rest⟩ :: past))
    (hm : s.machine? m = some machine) (hq : token.queue = machine.queue) (hlive : s.isLive m = true) :
    ∃ i job, token.ticket = i + 1 ∧ (enqueuedJobs (queueLog machine.queue past))[i]? = some job ∧
      (∀ j < i, .over (j + 1) ∈ queueLog machine.queue past) ∧ (job.finish = some (.reaction m slot) →
        Config.run 2 ⟨s, .complete token :: rest⟩ = ⟨(s.complete token).1, .conclude m slot :: .release (.machine m) ::
          .jobOver machine.queue :: .pump machine.queue :: .release (.queue machine.queue) :: rest⟩) := by
  obtain ⟨i, job, hticket, hjob, hagenda⟩ := h.completing hq (isOpen_of_live h.held hm hlive)
  refine ⟨i, job, hticket, hjob, fun j hj => ?_, fun hf => ?_⟩
  · have hmem : token ∈ Config.tokens ⟨s, .complete token :: rest⟩ := by simp [Config.tokens, Task.tokens]
    obtain ⟨jobs, job', -, hnumber, -, -, -, hturns⟩ := (h.serial machine.queue rfl).turn.exists_busy hmem hq
    have hlt : j < jobs.length := by omega
    have hover : .over (j + 1) ∈ turns (queueLog machine.queue past) := by
      rw [hturns]
      refine List.mem_append_left _ (mem_rounds (List.getElem?_eq_getElem hlt) ?_)
      rw [Nat.add_comm]
      simp [round, ending]
    exact List.mem_of_mem_filter hover
  · rw [hf] at hagenda
    have hlive' : (s.complete token).1.isLive m = true := by rw [isLive_complete, hlive]
    have hafter : Config.after s (.complete token) rest = ⟨(s.complete token).1,
        .finish machine.queue (.reaction m slot) :: .jobOver machine.queue :: .pump machine.queue ::
          .release (.queue machine.queue) :: rest⟩ := by
      rw [Config.mk.injEq]
      exact ⟨rfl, hagenda⟩
    rw [run_succ, hafter, run_succ, Config.run]
    simp only [Config.after, Task.carryOut, finish, hlive', if_true, List.cons_append, List.nil_append]

/-! ## The whole of a firing -/

/-- What a firing has sent, and what it has still to send, if `later` has happened since it stood before `rest`. -/
def Machine.fired (c : Machine) (m : Nat) (slot : Slot) (r : Reaction) (rest : List Task) (later : List Config) :
    Progress := progress rest (c.sending m slot r) later

/-- What becomes of a firing with the progress `p` that stood before `rest`. -/
structure Firing (machine : Machine) (m : Nat) (slot : Slot) (r : Reaction) (rest : List Task) (p : Progress)
    (past : List Config) (c : Config) : Prop where
  /-- Its jobs are sent in their order. -/
  order : (p.numbers machine.queue).Pairwise (· < ·)
  jobs : ∀ i k : Nat, (p.numbers machine.queue)[i]? = some k → ∃ j job, k = j + 1 ∧
    (withFinish (.reaction m slot) (machine.playable r))[i]? = some job ∧
    (enqueuedJobs (queueLog machine.queue past))[j]? = some job
  /-- Those that have not been sent are next after what the others have led to. -/
  todo : p.todo = (machine.sending m slot r).drop (p.numbers machine.queue).length
  waits : p.todo ≠ [] → ∃ us, c.agenda = us ++ p.todo ++ rest ∧ (p.begun = [] → us = [])
  /-- If the host dispatches nothing from inside its calls, the jobs stand side by side in the queue. -/
  adjacent : c.stage.manners.reflexes = [] →
    ∃ n, p.numbers machine.queue = List.range' (n + 1) (p.numbers machine.queue).length
  /-- When the last of its jobs is complete, the others are over, and the reaction is concluded two tasks later. -/
  ends : ∀ token rest', c.agenda = .complete token :: rest' → token.queue = machine.queue → c.stage.isLive m = true →
    p.todo = [] → (p.numbers machine.queue).getLast? = some token.ticket →
      (∀ k ∈ p.numbers machine.queue, k ≠ token.ticket → .over k ∈ queueLog machine.queue past) ∧
      ∃ s', Config.run 2 c = ⟨s', .conclude m slot :: .release (.machine m) :: .jobOver machine.queue ::
        .pump machine.queue :: .release (.queue machine.queue) :: rest'⟩

/-- The firings of a reaction with several effects, and its conclusions. -/
structure FiringsConclude (machine : Machine) (m : Nat) (slot : Slot) (r : Reaction) (past : List Config) (c : Config) :
    Prop where
  /-- A reaction that acts sends a job for each effect that can be played, or concludes at once if there is none. -/
  acts : ∀ anew rest, c.agenda = .act m slot anew :: rest → (Config.run 1 c).agenda =
    (if machine.playable r = [] then [.conclude m slot] else machine.sending m slot r) ++ rest
  firing : ∀ later s anew rest earlier, past = later ++ ⟨s, .act m slot anew :: rest⟩ :: earlier →
    Firing machine m slot r rest (machine.fired m slot r rest later) past c
  /-- No job belongs to two firings. -/
  apart : ∀ since s' anew' rest' mid s anew rest earlier,
    past = since ++ ⟨s', .act m slot anew' :: rest'⟩ :: (mid ++ ⟨s, .act m slot anew :: rest⟩ :: earlier) →
    ∀ k ∈ (machine.fired m slot r rest (since ++ ⟨s', .act m slot anew' :: rest'⟩ :: mid)).numbers machine.queue,
      k ∉ (machine.fired m slot r rest' since).numbers machine.queue
  /-- No job is completed twice. -/
  once : (completions (queueLog machine.queue past)).Nodup
  /-- The reaction is concluded only when the last job of a firing is complete, or by a firing that has no job. -/
  only : ∀ rest, c.agenda = .conclude m slot :: rest →
    (∃ s anew earlier, past = ⟨s, .act m slot anew :: rest⟩ :: earlier ∧ machine.playable r = []) ∨
    ∃ s₁ s₂ rest₁ rest₂ token earlier, past = ⟨s₁, .finish machine.queue (.reaction m slot) :: rest₁⟩ ::
        ⟨s₂, .complete token :: rest₂⟩ :: earlier ∧ token.queue = machine.queue ∧
      ∃ later s anew rest₀ before, earlier = later ++ ⟨s, .act m slot anew :: rest₀⟩ :: before ∧
        (machine.fired m slot r rest₀ later).todo = [] ∧
        ((machine.fired m slot r rest₀ later).numbers machine.queue).getLast? = some token.ticket
  /-- A conclusion makes the jump, and then calls the last hook. -/
  jumps : ∀ later s rest earlier, past = later ++ ⟨s, .conclude m slot :: rest⟩ :: earlier →
    (progress rest [.jump m slot, .hook m r.after slot.state] later).todo ≠ [] →
      ∃ us, c.agenda = us ++ (progress rest [.jump m slot, .hook m r.after slot.state] later).todo ++ rest ∧
        ((progress rest [.jump m slot, .hook m r.after slot.state] later).begun = [] → us = [])
  jumpsOnly : ∀ rest, c.agenda = .jump m slot :: rest → ∃ rest₀ earlier,
    past = ⟨c.stage, .conclude m slot :: rest₀⟩ :: earlier ∧ rest = .hook m r.after slot.state :: rest₀

theorem progress_nil (rest : List Task) (later : List Config) : progress rest [] later = ⟨[], []⟩ := by
  have hover := progress_append_over (show (progress rest [] []).todo = [] from rfl) later
  rwa [List.append_nil] at hover

theorem Machine.sending_eq_nil (hnone : machine.playable r = []) : machine.sending m slot r = [] := by
  rw [Machine.sending, hnone]
  rfl

theorem Machine.hasAction_of_playable (h : machine.playable r ≠ []) : r.hasAction = true :=
  Reaction.hasAction_of_actions fun hnone => h (by rw [Machine.playable, hnone]; rfl)

/-- A firing has left the tasks that send its jobs. -/
theorem Course.left_by_firing (h : Course manners (c :: (later ++ ⟨s, .act m slot anew :: rest⟩ :: earlier)))
    (hm : c.stage.machine? m = some machine) (hr : machine.reaction? slot = some r) (hsev : r.encoding = .several)
    (hsome : machine.playable r ≠ []) : (∃ machine₀, s.machine? m = some machine₀ ∧ machine₀.queue = machine.queue) ∧
      ((Task.act m slot anew).carryOut s rest).2 ++ rest =
        (withFinish (.reaction m slot) (machine.playable r)).map (.enqueue machine.queue) ++ rest := by
  have hawaits : Awaits s m slot r := h.awaits_before (.inr (by rw [reactionOf, hm]; exact hr))
  obtain ⟨machine₀, hm₀, hsending⟩ := (Course.drop (c :: later) h).sending_eq hawaits hsev
    (Machine.hasAction_of_playable hsome)
  obtain ⟨machine', hm', hmade⟩ := Course.machine?_since hm₀ h
  obtain rfl : machine = machine' := Option.some.inj (hm.symm.trans hm')
  refine ⟨⟨machine₀, hm₀, (congrArg Machine.queue hmade :).symm⟩, ?_⟩
  rw [hsending, if_neg (playable_of_made hmade ▸ hsome), ← sending_of_made hmade]
  rfl

/-- The last of the jobs of a firing is the one with the end. -/
theorem finish_of_getLast? {f : Finish} {job : Job} : ∀ {jobs : List Job} {i : Nat},
    (withFinish f jobs)[i]? = some job → i + 1 = jobs.length → job.finish = some f
  | [], _, h, _ => by cases h
  | [j], i, h, hi => by
    obtain rfl : i = 0 := by simpa using hi
    obtain rfl := Option.some.inj h
    rfl
  | j :: j' :: jobs, 0, _, hi => by simp at hi
  | j :: j' :: jobs, i + 1, h, hi =>
    finish_of_getLast? (show (withFinish f (j' :: jobs))[i]? = some job from h) (by simpa using hi)

theorem Course.firing (h : Course manners (c :: (later ++ ⟨s, .act m slot anew :: rest⟩ :: earlier)))
    (hm : c.stage.machine? m = some machine) (hr : machine.reaction? slot = some r) (hsev : r.encoding = .several) :
    Firing machine m slot r rest (machine.fired m slot r rest later)
      (later ++ ⟨s, .act m slot anew :: rest⟩ :: earlier) c := by
  by_cases hnone : machine.playable r = []
  · rw [Machine.fired, Machine.sending_eq_nil hnone, progress_nil]
    exact ⟨.nil, nofun, by rw [Machine.sending_eq_nil hnone]; rfl, fun h => absurd rfl h, fun _ => ⟨0, rfl⟩, nofun⟩
  obtain ⟨⟨machine₀, hm₀, hqueue⟩, hleft⟩ := h.left_by_firing hm hr hsev hnone
  have hdrop := todo_eq_drop rest (machine.sending m slot r) later
  have hlength : ((machine.fired m slot r rest later).numbers machine.queue).length =
      (machine.fired m slot r rest later).begun.length := List.length_map ..
  exact {
    order := h.pairwise_numbers rfl hleft
    jobs := fun i k hk => (h.jobs_of_numbers rfl hleft hk).imp fun j ⟨job, hj, hjob, hsent⟩ => ⟨job, hj, hjob, hsent⟩
    todo := by rw [hlength]; exact hdrop.1
    waits := fun htodo => h.progress_agenda rfl hleft htodo
    adjacent := by
      intro hreflexes
      rw [h.manners_eq] at hreflexes
      rw [← hqueue] at hleft
      have hside := (Course.adjacent_numbers hreflexes rfl hleft hm₀ rfl h).1
      rw [hqueue] at hside
      exact ⟨_, hlength ▸ hside⟩
    ends := by
      intro token rest' hagenda hq hlive htodo hlast
      obtain ⟨s', agenda⟩ := c
      obtain rfl : agenda = .complete token :: rest' := hagenda
      obtain ⟨i, job, hticket, hjob, hover, hrun⟩ := h.firing_ends hm hq hlive
      have hpairwise := h.pairwise_numbers rfl hleft
      refine ⟨fun k hk hne => ?_, _, hrun ?_⟩
      · -- the last of the numbers is the largest
        obtain ⟨l, hl⟩ := List.getElem?_of_mem hk
        obtain ⟨j, -, rfl, -, -⟩ := h.jobs_of_numbers rfl hleft hl
        obtain ⟨ks, hks⟩ := List.getLast?_eq_some_iff.1 hlast
        have hlt : j + 1 < token.ticket := by
          have hpairwise' : (ks ++ [token.ticket]).Pairwise (· < ·) := hks ▸ hpairwise
          rcases List.mem_append.1 (hks ▸ hk) with hmem | hmem
          · exact (List.pairwise_append.1 hpairwise').2.2 _ hmem _ (List.mem_singleton_self _)
          · exact absurd (List.mem_singleton.1 hmem) hne
        exact hover j (by omega)
      · rw [List.getLast?_eq_getElem?] at hlast
        obtain ⟨j, job', hj, hwith, hsent⟩ := h.jobs_of_numbers rfl hleft hlast
        obtain rfl : j = i := by omega
        obtain rfl : job' = job := Option.some.inj (hsent.symm.trans hjob)
        refine finish_of_getLast? hwith ?_
        -- all the jobs have been sent
        have hall : (machine.sending m slot r).length = (machine.playable r).length := by
          rw [Machine.sending, List.length_map, length_withFinish]
        have hle := List.drop_eq_nil_iff.1 (hdrop.1.symm.trans htodo)
        have hbegun : (machine.fired m slot r rest later).begun.length = (machine.sending m slot r).length :=
          Nat.le_antisymm hdrop.2 hle
        have hpos : _ < ((machine.fired m slot r rest later).numbers machine.queue).length :=
          (List.getElem?_eq_some_iff.1 hlast).1
        omega }

/-- **Every firing of a reaction with several effects is concluded once, when the last of its jobs is complete.** -/
theorem firings_conclude (h : Course manners (c :: past)) (hm : c.stage.machine? m = some machine)
    (hr : machine.reaction? slot = some r) (hsev : r.encoding = .several) (hact : r.hasAction = true) :
    FiringsConclude machine m slot r past c := by
  have hawaits : Awaits c.stage m slot r := .inr (by rw [reactionOf, hm]; exact hr)
  obtain ⟨s, agenda⟩ := c
  exact {
    acts := by
      rintro anew rest rfl
      rw [run_succ, Config.run, Config.after]
      exact congrArg (· ++ rest) (act_several hm hr hsev hact)
    firing := by
      rintro later s' anew rest earlier rfl
      exact h.firing hm hr hsev
    apart := by
      rintro since s' anew' rest' mid s'' anew rest earlier rfl k hk hk'
      by_cases hnone : machine.playable r = []
      · rw [Machine.fired, Machine.sending_eq_nil hnone, progress_nil] at hk
        cases hk
      · have hwhole := h
        rw [show since ++ ⟨s', .act m slot anew' :: rest'⟩ :: (mid ++ ⟨s'', .act m slot anew :: rest⟩ :: earlier) =
          (since ++ ⟨s', .act m slot anew' :: rest'⟩ :: mid) ++ ⟨s'', .act m slot anew :: rest⟩ :: earlier by simp]
          at hwhole
        exact h.numbers_apart rfl (hwhole.left_by_firing hm hr hsev hnone).2 rfl
          (h.left_by_firing hm hr hsev hnone).2 (fun _ _ heq => by cases heq) hk hk'
    once := (h.serial machine.queue rfl).nodup_completions
    only := by
      rintro rest rfl
      exact h.concludes_firing hm hr hsev hact
    jumps := by
      rintro later s' rest earlier rfl htodo
      exact h.jump_and_hook hawaits htodo
    jumpsOnly := by
      rintro rest rfl
      exact h.conclusion_before_jump hawaits hact }

end

/-- The pair is clicked again while its first animation plays, and then the token of its second one is about to be
completed. -/
def pairTwice : List Config :=
  Course.play 7 ([Cue.dispatch ⟨1⟩ "click", .dispatch ⟨1⟩ "animationend"].foldl (Course.play 40) pairPlayed)
    (.dispatch ⟨1⟩ "animationend")

/-- A word on a click that is no effect. -/
def riddle : Reaction := { on := .event "click", action := some ":unknown" }

/-- A machine with the riddle is clicked. -/
def riddleClicked : List Config :=
  Course.play 6 ([.build "m" ⟨1⟩ {} false [.ready ⟨"stage", [riddle], none⟩], .transition "m" "stage"].foldl
    (Course.play 40) [⟨.opened {}, []⟩]) (.dispatch ⟨1⟩ "click")

set_option maxRecDepth 1024 in
/-- The first firing of the pair is concluded when its second animation ends, though two more jobs are waiting by then;
the riddle is concluded at once. -/
theorem firings_conclude_pair : (∃ c past token rest s, pairTwice = c :: past ∧ c.agenda = .complete token :: rest ∧
      token.ticket = 2 ∧ (enqueuedJobs (queueLog 0 past)).length = 4 ∧ .over 1 ∈ queueLog 0 past ∧
      Config.run 2 c = ⟨s, .conclude 0 ⟨"stage", 0⟩ :: .release (.machine 0) :: .jobOver 0 :: .pump 0 ::
        .release (.queue 0) :: rest⟩) ∧
    ∃ c past anew rest, riddleClicked = c :: past ∧ c.agenda = .act 0 ⟨"stage", 0⟩ anew :: rest ∧
      (Config.run 1 c).agenda = .conclude 0 ⟨"stage", 0⟩ :: rest := by
  constructor
  · obtain ⟨c, past, machine, token, rest, later, s, anew, rest₀, earlier, hcs, hm, hr, hqueue, hagenda, hq, hticket,
        hlive, hsent, hpast, htodo, hnumbers⟩ : ∃ c past machine token rest later s anew rest₀ earlier,
        pairTwice = c :: past ∧ c.stage.machine? 0 = some machine ∧ machine.reaction? ⟨"stage", 0⟩ = some pair ∧
        machine.queue = 0 ∧ c.agenda = .complete token :: rest ∧ token.queue = machine.queue ∧ token.ticket = 2 ∧
        c.stage.isLive 0 = true ∧ (enqueuedJobs (queueLog 0 past)).length = 4 ∧
        past = later ++ ⟨s, .act 0 ⟨"stage", 0⟩ anew :: rest₀⟩ :: earlier ∧
        (machine.fired 0 ⟨"stage", 0⟩ pair rest₀ later).todo = [] ∧
        (machine.fired 0 ⟨"stage", 0⟩ pair rest₀ later).numbers machine.queue = [1, 2] :=
      ⟨_, _, _, _, _, pairTwice.tail.take 53, _, _, _, pairTwice.tail.drop 54, rfl, rfl, rfl, rfl, rfl, rfl, rfl, rfl,
        by decide +kernel, rfl, by decide +kernel, by decide +kernel⟩
    have hcourse : Course {} (c :: past) := hcs ▸ Course.play_course 7 (Course.plays {} 40 _
      (Course.plays {} 40 _ .opened)) (.dispatch ⟨1⟩ "animationend")
    have hfiring := (firings_conclude hcourse hm hr rfl (by decide)).firing later s anew rest₀ earlier hpast
    obtain ⟨hover, s', hrun⟩ := hfiring.ends token rest hagenda hq hlive htodo (by rw [hnumbers, hticket]; rfl)
    rw [hqueue] at hrun
    refine ⟨c, past, token, rest, s', hcs, hagenda, hticket, hsent, ?_, hrun⟩
    rw [← hqueue]
    exact hover 1 (by rw [hnumbers]; decide) (by rw [hticket]; decide)
  · obtain ⟨c, past, machine, anew, rest, hcs, hm, hr, hagenda, hnone⟩ : ∃ c past machine anew rest,
        riddleClicked = c :: past ∧ c.stage.machine? 0 = some machine ∧
        machine.reaction? ⟨"stage", 0⟩ = some riddle ∧ c.agenda = .act 0 ⟨"stage", 0⟩ anew :: rest ∧
        machine.playable riddle = [] := ⟨_, _, _, _, _, rfl, rfl, rfl, rfl, rfl⟩
    have hcourse : Course {} (c :: past) := hcs ▸ Course.play_course 6 (Course.plays {} 40 _ .opened)
      (.dispatch ⟨1⟩ "click")
    have hacts := (firings_conclude hcourse hm hr rfl (by decide)).acts anew rest hagenda
    rw [if_pos hnone] at hacts
    exact ⟨c, past, anew, rest, hcs, hagenda, hacts⟩

end Stagecraft
