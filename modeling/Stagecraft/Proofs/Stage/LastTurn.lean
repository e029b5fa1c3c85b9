import Stagecraft.Proofs.Stage.Relay
/-!
# The last turn of a queue

A queue is in use until its running job has been completed and the next one has started.  What is done at the end of a
job may let the machine go.  Its queue is then still there, looks for the next job and starts it.  If the machine is let
go at any other time, its queue is let go with it and nothing more happens to it.
-/
namespace Stagecraft
open Stage

/-! ## What a queue still does -/

theorem Task.holds_iff {hold : Hold} {agenda : List Task} :
    Task.holds hold agenda = true ↔ .release hold ∈ agenda := by
  unfold Task.holds
  rw [List.any_eq_true]
  constructor
  · rintro ⟨t, ht, hhold⟩
    cases t with
    | release hold' =>
      obtain rfl : hold' = hold := of_decide_eq_true hhold
      exact ht
    | _ => cases hhold
  · exact fun h => ⟨_, h, decide_eq_true rfl⟩

/-- What ends with the running job of a queue. -/
def Stage.overs (s : Stage) (q : Nat) : List QueueEvent := ((s.queueAt q).running.map fun r => .over r.ticket).toList

/-- What a queue does when its running job is over: the first of the jobs that wait starts. -/
def Stage.lastTurn (s : Stage) (q : Nat) : List QueueEvent :=
  s.overs q ++ ((s.queueAt q).waiting.head?.map fun job => .started ((s.queueAt q).started + 1) job).toList

/-- What a queue will still do if its machine is closed now: its last turn, if a call on the agenda holds the queue, and
else nothing. -/
def Config.remains (q : Nat) (b : Config) : List QueueEvent :=
  if Task.holds (.queue q) b.agenda then b.stage.lastTurn q else []

namespace Stage

/-- Where a queue is whose machine was closed at the point `b`, with what has happened to it since. -/
inductive Fading (q : Nat) (b : Config) (log : List QueueEvent) (c : Config) : Prop
  /-- What is to be done at the end of the running job is being done. -/
  | ending (us post : List Task) (h : c.agenda = us ++ .jobOver q :: .pump q :: .release (.queue q) :: post)
    (hpost : Task.release (.queue q) ∉ post) (hends : Unending q us) (hqueue : c.stage.queueAt q = b.stage.queueAt q)
    (hremains : b.remains q = b.stage.lastTurn q) (hlog : log = [])
  | looking (post : List Task) (h : c.agenda = .pump q :: .release (.queue q) :: post)
    (hpost : Task.release (.queue q) ∉ post) (hqueue : c.stage.queueAt q = (b.stage.queueAt q).rest)
    (hremains : b.remains q = b.stage.lastTurn q) (hlog : log = b.stage.overs q)
  | starting (us post : List Task) (h : c.agenda = us ++ .release (.queue q) :: post)
    (hplays : ∀ u ∈ us, u.plays = true) (hpost : Task.release (.queue q) ∉ post) (hlog : log = b.remains q)
  | shut (hclosed : (c.stage.queueAt q).closed = true) (hlog : log = b.remains q)

section
variable {s : Stage} {t : Task} {rest : List Task} {m q : Nat} {b c : Config} {log : List QueueEvent}

/-- While a job ends, its queue rests. -/
theorem rests_of_ending (hserial : Serial q log c) (hnot : ¬ Unending q c.agenda) :
    Task.jobOver q ∈ c.agenda ∧ (c.stage.queueAt q).start? = none ∧ Tokenless q c := by
  have hstart : ∀ {r : Running}, (c.stage.queueAt q).running = some r → (c.stage.queueAt q).start? = none := by
    intro r hr
    simp [JobQueue.start?, hr]
  cases hserial.turn with
  | idle _ _ hends => exact absurd hends hnot
  | busy _ _ _ _ _ _ hends => exact absurd hends hnot
  | finishing _ _ _ _ _ hrunning htokens hagenda => exact ⟨by simp [hagenda], hstart hrunning, htokens⟩
  | ending _ _ _ _ _ hrunning htokens hagenda => exact ⟨by simp [hagenda], hstart hrunning, htokens⟩

theorem not_unending_of_mem {ts : List Task} (h : Task.jobOver q ∈ ts) : ¬ Unending q ts := fun hends => by
  simpa [Task.ends] using hends _ h

/-- Only what is to be done at the end of a job may come before the job is over and belong to its end. -/
theorem unending_before {us post : List Task} (hserial : Serial q log c) (hagenda : c.agenda = us ++ .jobOver q :: post)
    (hhead : ∀ f, us.head? ≠ some (.finish q f)) : Unending q us := by
  have hnot : ¬ Unending q c.agenda := not_unending_of_mem (by simp [hagenda])
  cases hserial.turn with
  | idle _ _ hends => exact absurd hends hnot
  | busy _ _ _ _ _ _ hends => exact absurd hends hnot
  | finishing _ _ f rest _ _ _ heq =>
    cases us with
    | nil => exact List.forall_mem_nil _
    | cons u us =>
      obtain ⟨rfl, -⟩ := List.cons.inj (hagenda.symm.trans heq)
      exact absurd rfl (hhead f)
  | ending _ _ before rest _ _ _ heq hends =>
    have hmem : ∀ ts, Unending q ts → Task.jobOver q ∉ ts := fun ts hts hmem => not_unending_of_mem hmem hts
    obtain ⟨rfl, -⟩ := (List.append_cons_inj_of_notMem (hmem _ fun t ht => hends t (List.mem_append_left _ ht))
      (hmem _ fun t ht => hends t (List.mem_append_right _ ht))).1 (heq.symm.trans hagenda)
    exact fun t ht => hends t (List.mem_append_left _ ht)

/-- Nothing that comes before the end of a job is over does anything to its queue. -/
theorem rests_carryOut (hserial : Serial q log ⟨s, t :: rest⟩) (hmem : Task.jobOver q ∈ rest)
    (hrelease : Task.release (.queue q) ∈ rest) (hends : t.ends q = false) (hsend : ∀ job, t ≠ .enqueue q job) :
    (t.carryOut s rest).1.queueAt q = s.queueAt q ∧ s.queueEvent? q t = none ∧ Unending q (t.carryOut s rest).2 := by
  obtain ⟨-, hstart, htokens⟩ := rests_of_ending hserial (not_unending_of_mem (List.mem_cons_of_mem _ hmem))
  have hcomplete : ∀ token, t = .complete token → token.queue ≠ q := by
    rintro token rfl hq
    have := List.countP_eq_zero.1 htokens token (by simp [Config.tokens, Task.tokens])
    simp [hq] at this
  refine ⟨?_, ?_, unending_carryOut s rest hcomplete⟩
  · by_cases hhandles : handles q t = true
    · cases t with
      | enqueue p job => exact absurd (of_decide_eq_true hhandles ▸ rfl) (hsend job)
      | pump p =>
        obtain rfl : p = q := of_decide_eq_true hhandles
        simp only [Task.carryOut, pump, ← start?_queueAt, hstart]
      | complete token => exact absurd (of_decide_eq_true hhandles) (hcomplete token rfl)
      | jobOver p => exact absurd (hends.symm.trans hhandles) Bool.false_ne_true
      | release hold =>
        cases hold with
        | queue p =>
          obtain rfl : p = q := of_decide_eq_true hhandles
          have hholds : s.holdsQueue rest p = true := by
            by_contra hno
            exact (holdsQueue_eq_false (Bool.not_eq_true _ ▸ hno)).2.1 hrelease
          simp only [Task.carryOut, release, hholds, if_true]
        | _ => cases hhandles
      | _ => cases hhandles
    · exact queueAt_carryOut s rest (Bool.not_eq_true _ ▸ hhandles)
  · cases hevent : s.queueEvent? q t with
    | none => rfl
    | some e =>
      cases did_of_queueEvent? hevent with
      | enqueued job => exact absurd rfl (hsend job)
      | started job c h => cases hstart.symm.trans h
      | completed token h => exact absurd h (hcomplete token rfl)
      | _ => simp [Task.ends] at hends

/-- A queue is closed when no call holds it any more, if its machine is closed. -/
theorem closed_release {machine : Machine} (howned : Owned s) (hm : s.machine? m = some machine)
    (hlife : machine.life = .closed) (hrest : Task.release (.queue machine.queue) ∉ rest) :
    ((Task.carryOut s rest (.release (.queue machine.queue))).1.queueAt machine.queue).closed = true := by
  have hholds : s.holdsQueue rest machine.queue = false := by
    unfold holdsQueue
    rw [Bool.or_eq_false_iff, Bool.or_eq_false_iff]
    refine ⟨⟨by simpa using howned.unnamed m machine hm, List.any_eq_false.2 fun c hc => ?_⟩,
      Bool.eq_false_iff.2 (mt Task.holds_iff.1 hrest)⟩
    obtain ⟨n, hn⟩ := List.getElem?_of_mem hc
    by_cases hqueue : c.queue = machine.queue
    · obtain rfl := howned.own n m c machine hn hm hqueue
      obtain rfl : c = machine := Option.some.inj (hn.symm.trans hm)
      simp [hlife]
    · simp [hqueue]
  simp only [Task.carryOut, release, hholds, Bool.false_eq_true, if_false]
  obtain ⟨c, hc⟩ : ∃ c, s.queue? machine.queue = some c :=
    ⟨_, List.getElem?_eq_getElem (howned.there m machine hm)⟩
  rw [queueAt_mapQueue_self hc]
  rfl

theorem fading_ending {whole : List QueueEvent} {us post : List Task} (hserial : Serial q whole ⟨s, t :: rest⟩)
    (hheld : Held ⟨s, t :: rest⟩) (hsend : ∀ job, t ≠ .enqueue q job)
    (hagenda : t :: rest = us ++ .jobOver q :: .pump q :: .release (.queue q) :: post)
    (hpost : Task.release (.queue q) ∉ post) (hends : Unending q us) (hqueue : s.queueAt q = b.stage.queueAt q)
    (hremains : b.remains q = b.stage.lastTurn q) :
    Fading q b (Config.queueEvents q ⟨s, t :: rest⟩) (.after s t rest) := by
  rw [queueEvents_cons]
  cases us with
  | nil =>
    obtain ⟨rfl, rfl⟩ := List.cons.inj hagenda
    obtain ⟨c, hc, -⟩ := exists_queue?_of_isOpen (isOpen_of_held hheld rfl)
    refine .looking post rfl hpost ?_ hremains ?_
    · rw [← hqueue, queueAt_of_queue? hc]
      exact queueAt_mapQueue_self hc _
    · simp [queueEvent?, overs, hqueue]
  | cons u us =>
    obtain ⟨rfl, rfl⟩ := List.cons.inj hagenda
    obtain ⟨hsame, hevent, hleft⟩ := rests_carryOut hserial (by simp) (by simp) (hends t List.mem_cons_self) hsend
    exact .ending ((t.carryOut s _).2 ++ us) post (List.append_assoc ..).symm hpost (hleft.append hends.tail)
      (hsame.trans hqueue) hremains (by rw [hevent]; rfl)

theorem fading_looking {post : List Task}
    (heffect : ∀ job jq, (s.queueAt q).start? = some (job, jq) → job.isEffect = true)
    (hpost : Task.release (.queue q) ∉ post) (hqueue : s.queueAt q = (b.stage.queueAt q).rest)
    (hremains : b.remains q = b.stage.lastTurn q) :
    Fading q b (b.stage.overs q ++ Config.queueEvents q ⟨s, .pump q :: .release (.queue q) :: post⟩)
      (.after s (.pump q) (.release (.queue q) :: post)) := by
  refine .starting _ post rfl (plays_pump heffect) hpost ?_
  rw [queueEvents_cons, hremains, lastTurn, queueEvent?, if_pos rfl, hqueue]
  cases hwaiting : (b.stage.queueAt q).waiting with
  | nil => simp [JobQueue.start?, JobQueue.rest, hwaiting]
  | cons job waiting => simp [JobQueue.start?, JobQueue.rest, hwaiting]

theorem fading_starting {machine : Machine} {us post : List Task} (hr : s.manners.reflexes = []) (howned : Owned s)
    (hm : s.machine? m = some machine) (hlife : machine.life = .closed)
    (hagenda : t :: rest = us ++ .release (.queue machine.queue) :: post) (hplays : ∀ u ∈ us, u.plays = true)
    (hpost : Task.release (.queue machine.queue) ∉ post) :
    Fading machine.queue b (b.remains machine.queue ++ Config.queueEvents machine.queue ⟨s, t :: rest⟩)
      (.after s t rest) := by
  rw [queueEvents_cons]
  cases us with
  | nil =>
    obtain ⟨rfl, rfl⟩ := List.cons.inj hagenda
    exact .shut (closed_release howned hm hlife hpost) (List.append_nil _)
  | cons u us =>
    obtain ⟨rfl, rfl⟩ := List.cons.inj hagenda
    refine .starting _ post (List.append_assoc ..).symm (plays_next hr hplays) hpost ?_
    have hhead := hplays t List.mem_cons_self
    cases t with
    | run | perform | await | release => exact List.append_nil _
    | _ => cases hhead

theorem closed_of_not_open (h : (s.queueAt q).closed = true) : s.isOpen q ≠ true := by
  intro hopen
  rw [queueAt_open hopen] at h
  cases h

/-- Nothing happens to a queue that is closed. -/
theorem queueEvent?_of_closed {whole : List QueueEvent} (hserial : Serial q whole ⟨s, t :: rest⟩)
    (hheld : Held ⟨s, t :: rest⟩) (hclosed : (s.queueAt q).closed = true) : s.queueEvent? q t = none := by
  have hopen := closed_of_not_open hclosed
  cases hevent : s.queueEvent? q t with
  | none => rfl
  | some e =>
    cases did_of_queueEvent? hevent with
    | completed token _ h => exact absurd h hopen
    | finishing f =>
      have hends : (Task.finish q f).ends q = true := decide_eq_true rfl
      exact absurd (isOpen_of_mem rfl hheld (rests_of_ending hserial (not_unending hends rest)).1) hopen
    | _ => exact absurd (isOpen_of_held hheld rfl) hopen

theorem fading_shut {whole : List QueueEvent} (hserial : Serial q whole ⟨s, t :: rest⟩) (hheld : Held ⟨s, t :: rest⟩)
    (hclosed : (s.queueAt q).closed = true) :
    Fading q b (b.remains q ++ Config.queueEvents q ⟨s, t :: rest⟩) (.after s t rest) := by
  rw [queueEvents_cons, queueEvent?_of_closed hserial hheld hclosed]
  refine .shut ?_ (List.append_nil _)
  by_contra hno
  rw [closed_carryOut (Bool.not_eq_true _ ▸ hno)] at hclosed
  cases hclosed

end
end Stage
open Stage

section
variable {manners : Manners} {c b d : Config} {past later earlier : List Config} {m : Nat} {machine : Machine}
  {rest : List Task} {log : List QueueEvent}

/-- **If a machine is closed while its running job ends, its queue is not let go before it has looked for the next
job**, and else it is let go at once. -/
theorem Course.fading_closed (h : Course manners (b :: earlier)) (hr : manners.reflexes = [])
    (hb : b.agenda = .closed m :: rest) (hm : b.stage.machine? m = some machine) :
    Fading machine.queue b [] (.after b.stage (.closed m) rest) := by
  have hagenda : (Config.after b.stage (.closed m) rest).agenda = .release (.queue machine.queue) :: rest := by
    simp [Config.after, Task.carryOut, closed, hm]
  have hqueue : (Config.after b.stage (.closed m) rest).stage.queueAt machine.queue = b.stage.queueAt machine.queue :=
    queueAt_carryOut _ _ rfl
  cases (h.relayed hr hm).relay with
  | free hfree =>
    have hremains : b.remains machine.queue = [] := if_neg (mt Task.holds_iff.1 hfree)
    rw [hb] at hfree
    exact .starting [] rest hagenda (List.forall_mem_nil _) (fun hmem => hfree (List.mem_cons_of_mem _ hmem))
      hremains.symm
  | ending us post heq hpost =>
    have hremains : b.remains machine.queue = b.stage.lastTurn machine.queue :=
      if_pos (Task.holds_iff.2 (heq ▸ by simp))
    cases us with
    | nil => exact absurd (hb.symm.trans heq) (by simp)
    | cons u us =>
      obtain ⟨rfl, rfl⟩ := List.cons.inj (hb.symm.trans heq)
      have hends := unending_before (h.serial machine.queue rfl) heq (by simp)
      exact .ending (_ :: us) post hagenda hpost (List.forall_mem_cons.2 ⟨rfl, hends.tail⟩) hqueue hremains rfl
  | looking post heq => exact absurd (hb.symm.trans heq) (by simp)
  | starting us post heq hplays =>
    cases us with
    | nil => exact absurd (hb.symm.trans heq) (by simp)
    | cons u us =>
      obtain ⟨rfl, -⟩ := List.cons.inj (hb.symm.trans heq)
      exact absurd (hplays _ List.mem_cons_self) Bool.false_ne_true

theorem Course.fading_next (h : Course manners (c :: d :: past)) (hr : manners.reflexes = [])
    (hm : d.stage.machine? m = some machine) (hlife : machine.life = .closed) (hd : Fading machine.queue b log d) :
    Fading machine.queue b (log ++ d.queueEvents machine.queue) c := by
  have hd' := h.tail
  obtain ⟨s, agenda⟩ := d
  rcases h.undisturbed_or_after with ⟨rfl, hsame⟩ | ⟨t, rest, rfl, rfl⟩
  · cases hd with
    | shut hclosed hlog => exact .shut (by rwa [queueAt_congr hsame.queues]) (by simp [Config.queueEvents, hlog])
    | ending us post heq => exact absurd heq (by simp)
    | looking post heq => exact absurd heq (by simp)
    | starting us post heq => exact absurd heq (by simp)
  have hserial := hd'.serial machine.queue rfl
  have hheld := hd'.held
  cases hd with
  | ending us post heq hpost hends hqueue hremains hlog =>
    rw [hlog, List.nil_append]
    refine fading_ending hserial hheld (fun job ht => ?_) heq hpost hends hqueue hremains
    exact hd'.unsent_of_gone hr ⟨machine, hm, hlife⟩ hm job (ht ▸ List.mem_cons_self)
  | looking post heq hpost hqueue hremains hlog =>
    obtain ⟨rfl, rfl⟩ := List.cons.inj heq
    rw [hlog]
    exact fading_looking (fun job jq => hd'.isEffect_of_start? hm) hpost hqueue hremains
  | starting us post heq hplays hpost hlog =>
    rw [hlog]
    exact fading_starting (hd'.manners_eq.symm ▸ hr) hd'.owned hm hlife heq hplays hpost
  | shut hclosed hlog =>
    rw [hlog]
    exact fading_shut hserial hheld hclosed

/-- What happens to the queue of a machine after the machine has been closed. -/
theorem Course.fading (hr : manners.reflexes = []) (hb : b.agenda = .closed m :: rest)
    (hm : b.stage.machine? m = some machine) : ∀ {later : List Config} {c : Config},
      Course manners (c :: (later ++ b :: earlier)) → Fading machine.queue b (queueLog machine.queue later) c
  | [], c, h => by
    rw [h.eq_after hb]
    exact h.tail.fading_closed hr hb hm
  | d :: later, c, h => by
    obtain ⟨machine', hm', hmade⟩ := h.tail.machine?_since hm
    have hqueue : machine'.queue = machine.queue := (congrArg Machine.queue hmade :)
    obtain ⟨machine'', hm'', hlife⟩ := gone_since hb ⟨machine, hm⟩ h.tail
    obtain rfl : machine' = machine'' := Option.some.inj (hm'.symm.trans hm'')
    rw [queueLog, ← hqueue]
    exact h.fading_next hr hm' hlife (hqueue ▸ fading hr hb hm h.tail)

theorem Stage.Fading.history (h : Fading m b log c) : log <+: b.remains m := by
  cases h with
  | ending _ _ _ _ _ _ _ hlog => exact hlog ▸ List.nil_prefix
  | looking _ _ _ _ hremains hlog =>
    rw [hlog, hremains]
    exact List.prefix_append _ _
  | starting _ _ _ _ _ hlog => exact hlog ▸ List.prefix_rfl
  | shut _ hlog => exact hlog ▸ List.prefix_rfl

/-- Once nothing holds the queue any more, it has done all that was left to do. -/
theorem Stage.Fading.whole (h : Fading m b log c) (hfree : Task.release (.queue m) ∉ c.agenda) : log = b.remains m := by
  cases h with
  | ending _ _ heq => exact absurd (heq ▸ by simp) hfree
  | looking _ heq => exact absurd (heq ▸ by simp) hfree
  | starting _ _ heq => exact absurd (heq ▸ by simp) hfree
  | shut _ hlog => exact hlog

end

/-! ## What effects still do -/

section
variable {manners : Manners} {a b c : Config} {later earlier : List Config} {m q : Nat} {s : Stage} {t : Task}
  {rest rest₀ : List Task} {p : EffectPlan} {token : Completion}

theorem plays_of_mem_tasks (h : t ∈ p.tasks token) : t.plays = true := by
  simp only [EffectPlan.tasks, List.mem_append, List.mem_map, List.mem_singleton] at h
  rcases h with ((⟨op, -, rfl⟩ | rfl) | ⟨op, -, rfl⟩) | rfl <;> rfl

/-- If the host dispatches nothing from inside its calls, nothing else is done while an effect is set going. -/
theorem Course.plays_between (hr : manners.reflexes = [])
    (h : Course manners (c :: (later ++ ⟨s, .run (.effect p) token :: rest₀⟩ :: earlier)))
    (htodo : (progress rest₀ (p.tasks token) later).todo ≠ []) (hc : c.agenda.head? = some t) : t.plays = true := by
  obtain ⟨us, hagenda, hus, -⟩ := h.progress_between (P := fun t => t.plays = true) rfl (left_run s p token rest₀)
    (fun s t rest' later' hcourse ht => plays_carryOut (hcourse.manners_eq.symm ▸ hr)
      (ht.elim plays_of_mem_tasks id)) htodo
  obtain ⟨x, xs, heq⟩ := List.exists_cons_of_ne_nil (show us ++ (progress rest₀ (p.tasks token) later).todo ≠ [] from
    fun hnil => htodo (List.append_eq_nil_iff.1 hnil).2)
  rw [hagenda, heq] at hc
  obtain rfl : x = t := Option.some.inj hc
  have hmem : x ∈ us ++ (progress rest₀ (p.tasks token) later).todo := heq ▸ List.mem_cons_self
  exact (List.mem_append.1 hmem).elim (hus x) fun htodo => plays_of_mem_tasks (mem_of_mem_todo htodo)

/-- **What puts a class on through the host, or waits for the end of an effect, is an effect that has been started
since**, if there was something else to do at the point `b`. -/
theorem Course.started_since (hr : manners.reflexes = []) (hb : b.agenda = .closed m :: rest₀)
    (h : Course manners (⟨s, t :: rest⟩ :: (later ++ b :: earlier))) (ht : t.sets = true) :
    ∃ p token job, t ∈ p.tasks token ∧ .started token.ticket job ∈ queueLog token.queue later ∧
      job.body = .effect p := by
  obtain ⟨begun, s₁, p, token, rest₁, before, pre, post, hpast, htasks, -, htodo, -⟩ := h.effect_of_task ht
  have hmem : t ∈ p.tasks token := by simp [htasks]
  rcases List.append_eq_append_iff.1 hpast with ⟨xs, rfl, heq⟩ | ⟨xs, rfl, heq⟩
  · cases xs with
    | nil =>
      obtain ⟨rfl, -⟩ := List.cons.inj heq
      cases hb
    | cons x xs =>
      -- the effect was under way at `b`, where something else came first
      obtain ⟨rfl, rfl⟩ := List.cons.inj heq
      have hat : Course manners (b :: (xs ++ ⟨s₁, .run (.effect p) token :: rest₁⟩ :: before)) := by
        simpa using Course.drop (_ :: later) h
      refine absurd (hat.plays_between hr (fun hover => ?_) (show _ = some (.closed m) by rw [hb]; rfl)) nofun
      have := progress_append_over hover (later ++ [b])
      rw [List.append_assoc, List.singleton_append] at this
      rw [this, hover] at htodo
      cases htodo
  · cases xs with
    | nil =>
      obtain ⟨rfl, -⟩ := List.cons.inj heq
      cases hb
    | cons x xs =>
      obtain ⟨rfl, rfl⟩ := List.cons.inj heq
      rw [List.append_assoc] at h
      have hrun : Course manners (⟨s₁, .run (.effect p) token :: rest₁⟩ :: (xs ++ b :: earlier)) :=
        Course.drop (_ :: begun) h
      obtain ⟨s₂, earlier₂, job, jq, hpump, hstart, hbody, hticket⟩ := hrun.before_run
      cases xs with
      | nil =>
        obtain ⟨rfl, -⟩ := List.cons.inj hpump
        cases hb
      | cons x xs =>
        obtain ⟨rfl, rfl⟩ := List.cons.inj hpump
        refine ⟨p, token, job, hmem, ?_, hbody⟩
        rw [← hticket, queueLog_append]
        refine List.mem_append_left _ (List.mem_append_left _ (List.mem_append_right _ ?_))
        simp [queueEvents_cons, queueEvent?, hstart]

/-- No call is left to wait for the end of a job of the queue but by a job that has been started since. -/
theorem Course.awaited_since (hr : manners.reflexes = []) (hb : b.agenda = .closed m :: rest₀) : ∀ {later : List Config}
    {c : Config}, Course manners (c :: (later ++ b :: earlier)) → ∀ w ∈ c.stage.awaited q, w ∈ b.stage.awaited q ∨
      ∃ p token job, w.call = p.endCall token ∧ .started token.ticket job ∈ queueLog q later ∧ job.body = .effect p
  | [], c, h, w, hw => by
    rw [h.eq_after hb] at hw
    obtain ⟨hmem, htoken⟩ := List.mem_filter.1 hw
    rcases waiting_carryOut hmem with hmem | hawait | hnone
    · exact .inl (List.mem_filter.2 ⟨hmem, htoken⟩)
    · cases hawait
    · simp [hnone] at htoken
  | d :: later, c, h, w, hw => by
    have hsince : w ∈ d.stage.awaited q → w ∈ b.stage.awaited q ∨ ∃ p token job, w.call = p.endCall token ∧
        .started token.ticket job ∈ queueLog q (d :: later) ∧ job.body = .effect p := fun hd =>
      (awaited_since hr hb h.tail w hd).imp_right fun ⟨p, token, job, hcall, hstarted, hbody⟩ =>
        ⟨p, token, job, hcall, List.mem_append_left _ hstarted, hbody⟩
    have htail := h.tail
    obtain ⟨s, agenda⟩ := d
    obtain ⟨hmem, htoken⟩ := List.mem_filter.1 hw
    rcases h.undisturbed_or_after with ⟨-, hsame⟩ | ⟨t, rest, rfl, rfl⟩
    · rw [hsame.page] at hmem
      exact hsince (List.mem_filter.2 ⟨hmem, htoken⟩)
    rcases waiting_carryOut hmem with hmem | rfl | hnone
    · exact hsince (List.mem_filter.2 ⟨hmem, htoken⟩)
    · obtain ⟨p, token, job, htask, hstarted, hbody⟩ := htail.started_since hr hb rfl
      have hcall : w.call = p.endCall token := by
        simp [EffectPlan.tasks] at htask
        exact htask.2.2
      rw [hcall] at htoken
      obtain rfl : token.queue = q := by simpa [EffectPlan.endCall, OnceCall.tokens] using htoken
      exact .inr ⟨p, token, job, hcall, List.mem_append_left _ hstarted, hbody⟩
    · simp [hnone] at htoken

end

/-! ## The end of an effect -/

namespace Stage

/-- The stage when classes have been taken off an element through the host. -/
def strip (s : Stage) (el : ElementId) (classes : List String) : Stage :=
  classes.foldl (fun s names => (Stage.perform s (.removeClass el names)).1) s

section
variable {s : Stage} {el : ElementId} {rest : List Task}

theorem hasClass_strip (e : ElementId) (w : String) : ∀ (classes : List String) (s : Stage),
    (s.strip el classes).page.hasClass e w =
      (s.page.hasClass e w && !classes.any fun names => PageOp.takes e w (.removeClass el names))
  | [], s => by simp [strip]
  | names :: classes, s => by
    refine (hasClass_strip e w classes _).trans ?_
    rw [show (Stage.perform s (.removeClass el names)).1.page = s.page.perform (.removeClass el names) from rfl,
      Page.hasClass_perform, show PageOp.puts e w (.removeClass el names) = false from rfl, Bool.false_or,
      List.any_cons, Bool.not_or, Bool.and_assoc]

theorem queues_strip : ∀ (classes : List String) (s : Stage), (s.strip el classes).queues = s.queues
  | [], _ => rfl
  | _ :: classes, _ => queues_strip classes _

/-- If the host dispatches nothing from inside its calls, classes are taken off one after another. -/
theorem run_strip : ∀ (classes : List String) (s : Stage), s.manners.reflexes = [] →
    Config.run classes.length ⟨s, classes.map (fun names => .perform (.removeClass el names)) ++ rest⟩ =
      ⟨s.strip el classes, rest⟩
  | [], _, _ => rfl
  | names :: classes, s, hr => by
    rw [List.map_cons, List.cons_append, List.length_cons, run_succ]
    have hleft : (Task.carryOut s (classes.map (fun names => .perform (.removeClass el names)) ++ rest)
        (.perform (.removeClass el names))).2 = [] := reflexes_eq_nil hr _ _ _
    rw [Config.after, hleft]
    exact run_strip classes _ hr

theorem run_complete_of_closed {token : Completion} (hclosed : (s.queueAt token.queue).closed = true) :
    Config.run 1 ⟨s, .complete token :: rest⟩ = ⟨s, rest⟩ := by
  have hcomplete : s.complete token = (s, []) := if_neg (closed_of_not_open hclosed)
  rw [run_succ, Config.after, Task.carryOut, hcomplete]
  rfl

/-- The end of an effect takes its classes off, and does nothing else if the queue of its job is closed. -/
theorem run_effectEnd {classes : List String} {token : Completion} (hr : s.manners.reflexes = [])
    (hhost : s.hosted = true) (hclosed : (s.queueAt token.queue).closed = true) :
    Config.run (classes.length + 3) ⟨s, .callOnce (.effectEnd el classes token) :: rest⟩ =
      ⟨s.strip el classes, rest⟩ := by
  have hcall : s.callOnce rest (.effectEnd el classes token) =
      (s, classes.map (fun c => .perform (.removeClass el c)) ++ [.release .host, .complete token]) :=
    if_pos (by simp [hasHost, hhost])
  rw [run_succ, Config.after, Task.carryOut, hcall, List.append_assoc, Config.run_add, run_strip classes s hr]
  exact run_complete_of_closed (queueAt_congr (queues_strip classes s) token.queue ▸ hclosed)

end

/-- A queue with a token that is not that of an effect being set going is closed, if its machine is. -/
theorem Fading.closed_of_token {q : Nat} {b : Config} {log whole : List QueueEvent} {s : Stage} {t : Task}
    {rest : List Task} (h : Fading q b log ⟨s, t :: rest⟩) (hserial : Serial q whole ⟨s, t :: rest⟩)
    {token : Completion} (htoken : token ∈ t.tokens) (hq : token.queue = q) (ht : t.plays = false) :
    (s.queueAt q).closed = true := by
  cases h with
  | ending us post heq =>
    have hmem : Task.jobOver q ∈ (Config.mk s (t :: rest)).agenda := by
      rw [heq]
      simp
    obtain ⟨-, -, htokens⟩ := rests_of_ending hserial (not_unending_of_mem hmem)
    have := List.countP_eq_zero.1 htokens token (by simp [Config.tokens, htoken])
    simp [hq] at this
  | looking post heq =>
    obtain ⟨rfl, -⟩ := List.cons.inj heq
    cases htoken
  | starting us post heq hplays =>
    cases us with
    | nil =>
      obtain ⟨rfl, -⟩ := List.cons.inj heq
      cases htoken
    | cons u us =>
      obtain ⟨rfl, -⟩ := List.cons.inj heq
      rw [hplays t List.mem_cons_self] at ht
      cases ht
  | shut hclosed => exact hclosed

end Stage

/-- What a machine with the queue `q` still does that was closed at the point `b`, when `later` has happened since. -/
structure Inert (m q : Nat) (b : Config) (later : List Config) (c : Config) : Prop where
  /-- Nothing works on the machine, so none of its reactions is run and no hook is called for it. -/
  idle : ∀ t ∈ c.agenda, t.machine? ≠ some m
  listeners : ∀ l ∈ c.stage.page.listeners, l.call.machine? = some m → l ∈ b.stage.page.listeners
  frames : ∀ call ∈ c.stage.frames.waiting, call.machine? = some m → call ∈ b.stage.frames.waiting
  /-- No job starts but the next one in a queue that a call held when the machine was closed. -/
  history : queueLog q later <+: b.remains q
  whole : Task.release (.queue q) ∉ c.agenda → queueLog q later = b.remains q
  /-- Classes are put on and calls are left to wait by effects that have been started since. -/
  effects : ∀ t rest, c.agenda = t :: rest → t.sets = true → ∃ p token job, t ∈ p.tasks token ∧
    .started token.ticket job ∈ queueLog token.queue later ∧ job.body = .effect p
  awaited : ∀ w ∈ c.stage.awaited q, w ∈ b.stage.awaited q ∨ ∃ p token job, w.call = p.endCall token ∧
    .started token.ticket job ∈ queueLog q later ∧ job.body = .effect p
  /-- The end of an effect takes its classes off, and that is all. -/
  ends : ∀ el classes token rest, c.agenda = .callOnce (.effectEnd el classes token) :: rest → token.queue = q →
    c.stage.hosted = true → Config.run (classes.length + 3) c = ⟨c.stage.strip el classes, rest⟩ ∧
      ∀ e w, (c.stage.strip el classes).page.hasClass e w =
        (c.stage.page.hasClass e w && !classes.any fun names => PageOp.takes e w (.removeClass el names))
  mute : ∀ token rest, c.agenda = .complete token :: rest → token.queue = q → Config.run 1 c = ⟨c.stage, rest⟩

/-- **A machine that is closed does nothing more, but its queue may take its last turn.**  If the machine was let go
while its running job ended, the queue still starts the next job, whose effect puts its classes on; else nothing starts
any more. -/
theorem closed_machine_plays_only_its_last_turn {manners : Manners} {b c : Config} {later earlier : List Config}
    {m : Nat} {machine : Machine} {rest : List Task} (h : Course manners (c :: (later ++ b :: earlier)))
    (hr : manners.reflexes = []) (hb : b.agenda = .closed m :: rest) (hm : b.stage.machine? m = some machine) :
    Inert m machine.queue b later c := by
  have hfading := h.fading hr hb hm
  have hgone := h.gone_since hb ⟨machine, hm⟩
  have hserial := h.serial machine.queue rfl
  obtain ⟨s, agenda⟩ := c
  exact {
    idle := h.idle_of_gone hgone
    listeners := fun l hl hcall => h.listener_since hb ⟨machine, hm⟩ hcall hl
    frames := fun call hmem hcall => h.frame_since hb ⟨machine, hm⟩ hcall hmem
    history := hfading.history
    whole := hfading.whole
    effects := by
      rintro t rest rfl ht
      exact h.started_since hr hb ht
    awaited := h.awaited_since hr hb
    ends := by
      rintro el classes token rest rfl hq hhost
      have hclosed := hfading.closed_of_token hserial List.mem_cons_self hq rfl
      exact ⟨run_effectEnd (h.manners_eq.symm ▸ hr) hhost (hq ▸ hclosed), fun e w => hasClass_strip e w classes s⟩
    mute := by
      rintro token rest rfl hq
      have hclosed := hfading.closed_of_token hserial List.mem_cons_self hq rfl
      exact run_complete_of_closed (hq ▸ hclosed) }

/-- A machine is let go by the hook that it calls when its animation is over, while a second one waits. -/
def farewell : List Config :=
  [.hook "bye" [.drop "m"],
    .build "m" ⟨1⟩ {} true [.ready ⟨"stage",
      [{ on := .event "click", action := some "animate one", after := some "bye" },
        { on := .event "hover", action := some "animate two" }], none⟩],
    .transition "m" "stage", .dispatch ⟨1⟩ "click", .dispatch ⟨1⟩ "hover", .dispatch ⟨1⟩ "animationend"].foldl
    (Course.play 60) [⟨.opened {}, []⟩]

/-- After the farewell the second animation starts, and puts its class on. -/
theorem closed_machine_plays_only_its_last_turn_farewell : ∃ c later b earlier rest machine job,
    farewell = c :: (later ++ b :: earlier) ∧ b.agenda = .closed 0 :: rest ∧ b.stage.machine? 0 = some machine ∧
    queueLog machine.queue later = [.over 1, .started 2 job] ∧ job.label = "animate two" ∧
    b.stage.page.hasClass ⟨1⟩ "two" = false ∧ c.stage.page.hasClass ⟨1⟩ "two" = true ∧
    Inert 0 machine.queue b later c := by
  obtain ⟨c, later, b, earlier, rest, machine, job, hcs, hb, hm, hremains, hover, hlabel, hbefore, hafter⟩ :
      ∃ c later b earlier rest machine job, farewell = c :: (later ++ b :: earlier) ∧ b.agenda = .closed 0 :: rest ∧
      b.stage.machine? 0 = some machine ∧ b.remains machine.queue = [.over 1, .started 2 job] ∧ c.agenda = [] ∧
      job.label = "animate two" ∧ b.stage.page.hasClass ⟨1⟩ "two" = false ∧ c.stage.page.hasClass ⟨1⟩ "two" = true :=
    ⟨_, farewell.tail.take 11, _, farewell.tail.drop 12, _, _, _, rfl, rfl, rfl, rfl, rfl, rfl, rfl, rfl⟩
  have hcourse : Course {} (c :: (later ++ b :: earlier)) := hcs ▸ Course.plays {} 60 _ .opened
  have hinert := closed_machine_plays_only_its_last_turn hcourse rfl hb hm
  refine ⟨c, later, b, earlier, rest, machine, job, hcs, hb, hm, ?_, hlabel, hbefore, hafter, hinert⟩
  rw [← hremains]
  exact hinert.whole (by simp [hover])

end Stagecraft
