import Mathlib.Data.Multiset.DershowitzManna
import Mathlib.Tactic.Abel
import Stagecraft.Proofs.Stage.Still
/-!
# A still stage comes to rest

On a stage on which everything is still, each task leaves only tasks of less rank, and a job that is taken from a queue
is of less rank there than on its way to it.  So the ranks of all that is left to do, on the agenda and in the queues,
go down with every task, and the agenda is empty at some time.
-/
namespace Stagecraft

/-- The ranks of what a queue holds back. -/
def JobQueue.ranks (c : JobQueue) : Multiset (ℕ ×ₗ ℕ) :=
  (c.running.bind Running.finish).toList.map Finish.rankAhead + c.waiting.map Job.rank

def Stage.stored (s : Stage) : Multiset (ℕ ×ₗ ℕ) := (s.queues.map JobQueue.ranks).sum

/-- The ranks of all that is left to do. -/
def Config.weight (c : Config) : Multiset (ℕ ×ₗ ℕ) := c.agenda.map Task.rank + c.stage.stored

/-- Everything that may be done is still, and the host makes no events of its own. -/
structure Hushed (c : Config) : Prop where
  manners : c.stage.manners.reflexes = []
  hooks : ∀ script ∈ c.stage.hooks.values, isStillScript script = true
  queues : ∀ jq ∈ c.stage.queues, jq.isStill = true
  agenda : ∀ t ∈ c.agenda, t.isStill = true

namespace JobQueue

theorem ranks_add (c : JobQueue) (job : Job) : (c.add job).ranks = c.ranks + {job.rank} := by
  simp only [ranks, add, List.map_append, ← Multiset.coe_add, List.map_cons, List.map_nil, Multiset.coe_singleton,
    add_assoc]

/-- When a job starts, only its end is held back any longer. -/
theorem ranks_start? {c c' : JobQueue} {job : Job} (h : c.start? = some (job, c')) : ∃ held, c.ranks =
    held + {job.rank} ∧ c'.ranks = held + job.finish.toList.map Finish.rankAhead := by
  obtain ⟨hidle, waiting, hwaiting, rfl⟩ := Stage.start?_eq_some h
  refine ⟨waiting.map Job.rank, ?_, add_comm _ _⟩
  rw [ranks, hidle, hwaiting, List.map_cons, ← Multiset.cons_coe, ← Multiset.singleton_add, Option.bind_none]
  simp only [Option.toList_none, List.map_nil, Multiset.coe_nil, zero_add]
  exact add_comm _ _

theorem ranks_takeFinish? {c c' : JobQueue} {k : Nat} {f : Option Finish} (h : c.takeFinish? k = some (f, c')) :
    c.running.bind Running.finish = f ∧ c.ranks = c'.ranks + f.toList.map Finish.rankAhead ∧
      c'.waiting = c.waiting ∧ c'.running.bind Running.finish = none := by
  unfold takeFinish? at h
  split at h
  · rename_i r hr
    split at h
    · cases h
      refine ⟨by rw [hr]; rfl, ?_, rfl, rfl⟩
      rw [ranks, ranks, hr]
      simp only [Option.bind_some, Option.toList_none, List.map_nil, Multiset.coe_nil, zero_add]
      exact add_comm _ _
    · cases h
  · cases h

theorem ranks_rest (c : JobQueue) : ∃ lost, c.ranks = c.rest.ranks + lost := by
  refine ⟨(c.running.bind Running.finish).toList.map Finish.rankAhead, ?_⟩
  simp only [ranks, rest, Option.bind_none, Option.toList_none, List.map_nil, Multiset.coe_nil, zero_add]
  exact add_comm _ _

theorem ranks_close (c : JobQueue) : ∃ lost, c.ranks = c.close.ranks + lost :=
  ⟨c.waiting.map Job.rank, by simp only [ranks, close, List.map_nil, Multiset.coe_nil, add_zero]⟩

end JobQueue

namespace Stage

section
variable {s s' : Stage} {t : Task} {rest : List Task} {q : Nat}

/-! ## Changes of one queue -/

theorem sum_modify {α β : Type} [AddCommMonoid β] (g : α → β) : ∀ {as : List α} {i : Nat} {a : α}, as[i]? = some a →
    ∃ b, (as.map g).sum = b + g a ∧ ∀ f, ((as.modify i f).map g).sum = b + g (f a)
  | [], _, _, h => by cases h
  | a' :: as, 0, a, h => by
    obtain rfl : a' = a := Option.some.inj h
    exact ⟨(as.map g).sum, add_comm _ _, fun f => add_comm _ _⟩
  | a' :: as, i + 1, a, h => by
    have htail : as[i]? = some a := h
    obtain ⟨b, hb, hf⟩ := sum_modify g htail
    exact ⟨g a' + b, by rw [List.map_cons, List.sum_cons, hb, add_assoc],
      fun f => by rw [List.modify_succ_cons, List.map_cons, List.sum_cons, hf, add_assoc]⟩

theorem stored_mapQueue {c : JobQueue} (hc : s.queue? q = some c) :
    ∃ held, s.stored = held + c.ranks ∧ ∀ f, (s.mapQueue q f).stored = held + (f c).ranks :=
  sum_modify JobQueue.ranks hc

theorem mapQueue_of_none (hc : s.queue? q = none) (f : JobQueue → JobQueue) : (s.mapQueue q f).queues = s.queues := by
  rw [mapQueue, List.modify_eq_self (by simpa [queue?] using hc)]

theorem isStill_mapQueue (h : ∀ jq ∈ s.queues, jq.isStill = true) {f : JobQueue → JobQueue}
    (hf : ∀ c, s.queue? q = some c → c.isStill = true → (f c).isStill = true) :
    ∀ jq ∈ (s.mapQueue q f).queues, jq.isStill = true := by
  intro jq hjq
  obtain ⟨i, hi⟩ := List.getElem?_of_mem hjq
  simp only [mapQueue, List.getElem?_modify] at hi
  obtain ⟨c, hc, heq⟩ := Option.map_eq_some_iff.1 hi
  have hstill := h c (List.mem_of_getElem? hc)
  split at heq
  · rename_i hqi
    subst hqi
    exact heq ▸ hf c hc hstill
  · exact heq ▸ hstill

/-! ## What a task does to the ranks -/

/-- The rank of the task, or of something that a queue no longer holds back, is above all that is left to do and above
all that a queue holds back now. -/
structure Lessens (s : Stage) (t : Task) (o : Outcome) : Prop where
  still : ∀ jq ∈ o.1.queues, jq.isStill = true
  less : ∃ held lost gained, s.stored = held + lost ∧ o.1.stored = held + gained ∧
    (∀ r ∈ gained, ∃ r' ∈ t.rank ::ₘ lost, r < r') ∧ ∀ t' ∈ o.2, ∃ r ∈ t.rank ::ₘ lost, Below r t'

/-- A task that queues have nothing to do with. -/
theorem lessens_of_stored {o : Outcome} (hstill : ∀ jq ∈ o.1.queues, jq.isStill = true)
    (hstored : o.1.stored = s.stored) (hbelow : ∀ t' ∈ o.2, Below t.rank t') : Lessens s t o := by
  refine ⟨hstill, s.stored, 0, 0, (add_zero _).symm, hstored.trans (add_zero _).symm, fun r hr => ?_, fun t' ht' => ?_⟩
  · exact absurd hr (Multiset.notMem_zero r)
  · exact ⟨t.rank, Multiset.mem_cons_self _ _, hbelow t' ht'⟩

/-- A task that only takes away what queues hold back. -/
theorem lessens_of_less {s' : Stage} {lost held : Multiset (ℕ ×ₗ ℕ)} (hstill : ∀ jq ∈ s'.queues, jq.isStill = true)
    (hs : s.stored = held + lost) (hs' : s'.stored = held) : Lessens s t (s', []) :=
  ⟨hstill, held, lost, 0, hs, hs'.trans (add_zero _).symm, fun r hr => absurd hr (Multiset.notMem_zero r),
    fun _ ht => by cases ht⟩

theorem stored_append_empty (s : Stage) : ((s.queues ++ [JobQueue.empty]).map JobQueue.ranks).sum = s.stored := by
  rw [List.map_append, List.sum_append]
  exact add_zero _

theorem stored_congr (h : s'.queues = s.queues) : s'.stored = s.stored := by rw [stored, stored, h]

theorem rank_lt_rankAhead (job : Job) : job.rank < job.rankAhead ∧ toLex (0, 0) < job.rankAhead := by
  unfold Job.rank Job.rankAhead
  split
  · exact ⟨lt_place (by omega), lt_place (by omega)⟩
  · exact ⟨lt_place (by omega), lt_place (by omega)⟩
  · exact ⟨lt_place (by omega), lt_level (by omega)⟩

theorem lessens_enqueue {job : Job} (hqueues : ∀ jq ∈ s.queues, jq.isStill = true) (hjob : job.isStill = true) :
    Lessens s (.enqueue q job) (s.enqueue q job) := by
  have hstill : ∀ jq ∈ (s.enqueue q job).1.queues, jq.isStill = true :=
    isStill_mapQueue (s := s.notify _) hqueues fun c _ hc => by
      simp only [JobQueue.isStill, JobQueue.add, List.all_append, List.all_cons, List.all_nil, Bool.and_true,
        Bool.and_eq_true] at hc ⊢
      exact ⟨⟨hc.1, hjob⟩, hc.2⟩
  have hpump : Below job.rankAhead (.pump q) := below_of_isPlain rfl (rank_lt_rankAhead job).2
  cases hc : s.queue? q with
  | none =>
    refine lessens_of_stored hstill (stored_congr (mapQueue_of_none (s := s.notify _) hc _)) fun t ht => ?_
    rw [List.mem_singleton.1 ht]
    exact hpump
  | some c =>
    obtain ⟨held, hs, hf⟩ := stored_mapQueue (s := s.notify (.jobEnqueued job.label)) hc
    refine ⟨hstill, s.stored, 0, {job.rank}, (add_zero _).symm, ?_, fun r hr => ?_, fun t ht => ?_⟩
    · rw [enqueue, hf, JobQueue.ranks_add, ← add_assoc, ← hs]
      rfl
    · rw [Multiset.mem_singleton.1 hr]
      exact ⟨_, Multiset.mem_cons_self _ _, (rank_lt_rankAhead job).1⟩
    · rw [List.mem_singleton.1 ht]
      exact ⟨_, Multiset.mem_cons_self _ _, hpump⟩

/-- A job that starts is of higher rank than what it does, and than what is left for its end. -/
theorem rank_of_start (job : Job) : toLex (0, job.body.size + 8) < job.rank ∧
    ∀ f, job.finish = some f → f.rankAhead < job.rank := by
  unfold Job.rank
  split
  · rename_i h
    exact ⟨lt_place (by omega), fun f hf => by rw [h] at hf; cases hf⟩
  · rename_i label script h
    refine ⟨lt_place (by omega), fun f hf => ?_⟩
    rw [h] at hf
    cases hf
    exact lt_place (by omega)
  · rename_i f h hf
    refine ⟨lt_level (by omega), fun f' hf' => ?_⟩
    obtain rfl := Option.some.inj (hf.symm.trans hf')
    cases f with
    | outside label script => exact absurd rfl (h label script)
    | reaction | sequenceStep => exact lt_place (by decide)

theorem lessens_pump (hqueues : ∀ jq ∈ s.queues, jq.isStill = true) : Lessens s (.pump q) (s.pump q) := by
  unfold pump
  split
  · rename_i job c' hstart
    obtain ⟨c, hc, hstart⟩ := Option.bind_eq_some_iff.1 hstart
    obtain ⟨hrun, hend⟩ := rank_of_start job
    obtain ⟨held, hs, hf⟩ := stored_mapQueue hc
    obtain ⟨held', hbefore, hafter⟩ := JobQueue.ranks_start? hstart
    obtain ⟨-, waiting, hwaiting, hc'⟩ := start?_eq_some hstart
    have hcstill := hqueues c (List.mem_of_getElem? hc)
    simp only [JobQueue.isStill, hwaiting, List.all_cons, Job.isStill, Bool.and_eq_true] at hcstill
    obtain ⟨⟨⟨hbody, hfinish⟩, hrest⟩, -⟩ := hcstill
    have hjob : job.rank ∈ (Task.pump q).rank ::ₘ {job.rank} :=
      Multiset.mem_cons_of_mem (Multiset.mem_singleton_self _)
    refine ⟨isStill_mapQueue hqueues fun _ _ _ => ?_, held + held', {job.rank},
      job.finish.toList.map Finish.rankAhead, ?_, ?_, fun r hr => ?_, fun t ht => ?_⟩
    · rw [hc', JobQueue.isStill, hrest]
      exact hfinish
    · rw [hs, hbefore, add_assoc]
    · rw [add_assoc, ← hafter]
      exact hf fun _ => c'
    · obtain ⟨f, hjf, rfl⟩ := List.mem_map.1 (Multiset.mem_coe.1 hr)
      exact ⟨job.rank, hjob, hend f (Option.mem_toList.1 hjf)⟩
    · rw [List.mem_singleton.1 ht]
      exact ⟨job.rank, hjob, hbody, hrun⟩
  · exact lessens_of_stored hqueues rfl fun _ ht => by cases ht

theorem rank_lt_rankAhead_finish (f : Finish) : f.rank < f.rankAhead := by
  cases f with
  | outside label script => exact lt_place (by omega)
  | reaction | sequenceStep => exact lt_place (by decide)

/-- The end of a job is taken out of the queue when its token is completed. -/
theorem lessens_complete {token : Completion} (hqueues : ∀ jq ∈ s.queues, jq.isStill = true) :
    Lessens s (.complete token) (s.complete token) := by
  have hstay : Lessens s (.complete token) (s, []) := lessens_of_stored hqueues rfl fun _ ht => by cases ht
  unfold complete
  split
  · split
    · rename_i f c' htake
      obtain ⟨c, hc, htake⟩ := Option.bind_eq_some_iff.1 htake
      obtain ⟨hf, hranks, hwaiting, hend⟩ := JobQueue.ranks_takeFinish? htake
      have hcstill := hqueues c (List.mem_of_getElem? hc)
      rw [JobQueue.isStill, hf, Bool.and_eq_true] at hcstill
      obtain ⟨held, hs, hmap⟩ := stored_mapQueue hc
      refine ⟨isStill_mapQueue hqueues fun _ _ _ => ?_, held + c'.ranks, f.toList.map Finish.rankAhead, 0, ?_, ?_,
        fun r hr => absurd hr (Multiset.notMem_zero r), fun t ht => ?_⟩
      · rw [JobQueue.isStill, hwaiting, hend, hcstill.1]
        rfl
      · rw [hs, hranks, add_assoc]
      · rw [add_zero]
        exact hmap fun _ => c'
      · simp only [List.mem_append, List.mem_map, List.mem_cons, List.not_mem_nil, or_false] at ht
        rcases ht with ⟨f', hf', rfl⟩ | rfl | rfl | rfl
        · obtain rfl := Option.mem_toList.1 hf'
          exact ⟨f'.rankAhead, Multiset.mem_cons_of_mem (Multiset.mem_singleton_self _), hcstill.2,
            rank_lt_rankAhead_finish f'⟩
        · exact ⟨_, Multiset.mem_cons_self _ _, below_of_isPlain rfl (lt_place (by decide))⟩
        · exact ⟨_, Multiset.mem_cons_self _ _, below_of_isPlain rfl (lt_place (by decide))⟩
        · exact ⟨_, Multiset.mem_cons_self _ _, rfl, lt_place (by decide)⟩
    · exact hstay
  · exact hstay

theorem lessens_jobOver (hqueues : ∀ jq ∈ s.queues, jq.isStill = true) : Lessens s (.jobOver q) (s.jobOver q) := by
  have hstill : ∀ jq ∈ (s.mapQueue q (·.rest)).queues, jq.isStill = true := isStill_mapQueue hqueues fun c _ hc => by
    rw [JobQueue.isStill, Bool.and_eq_true] at hc
    simp only [JobQueue.isStill, JobQueue.rest, hc.1, Option.bind_none, Option.all_none, Bool.and_self]
  cases hc : s.queue? q with
  | none => exact lessens_of_stored hstill (stored_congr (mapQueue_of_none hc _)) fun _ ht => by cases ht
  | some c =>
    obtain ⟨held, hs, hf⟩ := stored_mapQueue hc
    obtain ⟨lost, hlost⟩ := c.ranks_rest
    exact lessens_of_less hstill (by rw [hs, hlost, add_assoc]) (hf _)

theorem lessens_releaseQueue (hqueues : ∀ jq ∈ s.queues, jq.isStill = true) :
    Lessens s (.release (.queue q)) (s.release rest (.queue q)) := by
  simp only [release]
  split
  · exact lessens_of_stored hqueues rfl fun _ ht => by cases ht
  · have hstill : ∀ jq ∈ (s.mapQueue q (·.close)).queues, jq.isStill = true :=
      isStill_mapQueue hqueues fun c _ hc => by
        rw [JobQueue.isStill, Bool.and_eq_true] at hc
        simp only [JobQueue.isStill, JobQueue.close, List.all_nil, hc.2, Bool.and_self]
    cases hc : s.queue? q with
    | none => exact lessens_of_stored hstill (stored_congr (mapQueue_of_none hc _)) fun _ ht => by cases ht
    | some c =>
      obtain ⟨held, hs, hf⟩ := stored_mapQueue hc
      obtain ⟨lost, hlost⟩ := c.ranks_close
      exact lessens_of_less hstill (by rw [hs, hlost, add_assoc]) (hf _)

theorem lessens_carryOut (h : Hushed ⟨s, t :: rest⟩) : Lessens s t (t.carryOut s rest) := by
  have ht := h.agenda t List.mem_cons_self
  have hbelow : t.kind.takesUp = false → ∀ t' ∈ (t.carryOut s rest).2, Below t.rank t' :=
    below_carryOut h.manners h.hooks ht
  have hother : .queues ∉ t.touches → t.kind.takesUp = false → Lessens s t (t.carryOut s rest) := by
    intro hq htakes
    have hqueues : (t.carryOut s rest).1.queues = s.queues := (within_carryOut s rest t).touched.agree .queues hq
    exact lessens_of_stored (hqueues ▸ h.queues) (stored_congr hqueues) (hbelow htakes)
  have hmore : (t.carryOut s rest).1.queues = s.queues ++ [JobQueue.empty] → t.kind.takesUp = false →
      Lessens s t (t.carryOut s rest) := by
    intro hqueues htakes
    refine lessens_of_stored (fun jq hjq => ?_) ?_ (hbelow htakes)
    · rw [hqueues] at hjq
      rcases List.mem_append.1 hjq with hjq | hjq
      · exact h.queues jq hjq
      · rw [List.mem_singleton.1 hjq]
        rfl
    · rw [stored, hqueues]
      exact stored_append_empty s
  cases t with
  | enqueue q job => exact lessens_enqueue h.queues ht
  | pump q => exact lessens_pump h.queues
  | complete token => exact lessens_complete h.queues
  | jobOver q => exact lessens_jobOver h.queues
  | release hold =>
    cases hold with
    | queue q => exact lessens_releaseQueue h.queues
    | _ => exact hother (by simp [Task.touches]) rfl
  | cue c =>
    cases c with
    | build name el settings hooked states =>
      rcases (queues_build s name el settings hooked states).1 with hqueues | hqueues
      · exact lessens_of_stored (fun jq hjq => h.queues jq (hqueues ▸ hjq)) (stored_congr hqueues) (hbelow rfl)
      · exact hmore hqueues rfl
    | queue name => exact hmore rfl rfl
    | _ => exact hother (by simp [Task.touches, Cue.touches]) rfl
  | _ => exact hother (by simp [Task.touches]) rfl

theorem hooks_carryOut {script : List Cue} (h : script ∈ (t.carryOut s rest).1.hooks.values) :
    script ∈ s.hooks.values ∨ ∃ name, t = .cue (.hook name script) := by
  by_cases ht : .hooks ∈ t.touches
  · cases t with
    | cue c =>
      cases c with
      | hook name script' => exact (Registry.mem_values_put h).imp_right fun heq => ⟨name, by rw [heq]⟩
      | unhook name => exact .inl (Registry.mem_values_of_mem_erase h)
      | _ => simp [Task.touches, Cue.touches] at ht
    | release hold => cases hold <;> simp [Task.touches] at ht
    | _ => simp [Task.touches] at ht
  · rw [show _ = s.hooks from (within_carryOut s rest t).touched.agree .hooks ht] at h
    exact .inl h

/-! ## Runs -/

/-- **A still stage stays still.** -/
theorem hushed_after (h : Hushed ⟨s, t :: rest⟩) : Hushed (.after s t rest) where
  manners := by
    rw [show (Config.after s t rest).stage.manners = s.manners from (within_carryOut s rest t).touched.manners]
    exact h.manners
  hooks script hscript := by
    rcases hooks_carryOut hscript with hscript | ⟨name, rfl⟩
    · exact h.hooks script hscript
    · exact h.agenda _ List.mem_cons_self
  queues := (lessens_carryOut h).still
  agenda t' ht' := by
    rcases List.mem_append.1 ht' with ht' | ht'
    · obtain ⟨_, _, _, -, -, -, hbelow⟩ := (lessens_carryOut h).less
      obtain ⟨_, -, hstill, -⟩ := hbelow t' ht'
      exact hstill
    · exact h.agenda t' (List.mem_cons_of_mem _ ht')

/-- The rank of a task, and what a queue no longer holds back, give way to ranks that are all less than one of these. -/
theorem isDershowitzMannaLT_of_less {r : ℕ ×ₗ ℕ} {ahead held lost gained left : Multiset (ℕ ×ₗ ℕ)}
    (hgained : ∀ x ∈ gained, ∃ y ∈ r ::ₘ lost, x < y) (hleft : ∀ x ∈ left, ∃ y ∈ r ::ₘ lost, x < y) :
    (left + ahead + (held + gained)).IsDershowitzMannaLT (r ::ₘ ahead + (held + lost)) := by
  refine ⟨ahead + held, left + gained, r ::ₘ lost, Multiset.cons_ne_zero, ?_, ?_, fun x hx => ?_⟩
  · abel
  · rw [← Multiset.singleton_add, ← Multiset.singleton_add]
    abel
  · exact (Multiset.mem_add.1 hx).elim (hleft x) (hgained x)

/-- **Every task of a still stage leaves less to do than there was.** -/
theorem weight_after (h : Hushed ⟨s, t :: rest⟩) :
    (Config.after s t rest).weight.IsDershowitzMannaLT (Config.mk s (t :: rest)).weight := by
  obtain ⟨held, lost, gained, hs, hs', hgained, hleft⟩ := (lessens_carryOut h).less
  simp only [Config.weight, Config.after, List.map_append, ← Multiset.coe_add, hs', List.map_cons, ← Multiset.cons_coe, hs]
  refine isDershowitzMannaLT_of_less hgained fun r hr => ?_
  obtain ⟨t', ht', rfl⟩ := List.mem_map.1 (Multiset.mem_coe.1 hr)
  obtain ⟨r, hr, -, hlt⟩ := hleft t' ht'
  exact ⟨r, hr, hlt⟩

end

end Stage
open Stage

/-- **A still stage comes to rest.** -/
theorem Hushed.halts {c : Config} (h : Hushed c) : ∃ n, (Config.run n c).agenda = [] := by
  have hfounded : WellFounded fun v w : Multiset (ℕ ×ₗ ℕ) => v.IsDershowitzMannaLT w :=
    Multiset.wellFounded_isDershowitzMannaLT
  generalize hw : c.weight = w
  induction w using hfounded.induction generalizing c with
  | _ w ih =>
    obtain ⟨s, agenda⟩ := c
    cases agenda with
    | nil => exact ⟨0, rfl⟩
    | cons t rest =>
      obtain ⟨n, hn⟩ := ih _ (hw ▸ weight_after h) (hushed_after h) rfl
      exact ⟨n + 1, hn⟩

end Stagecraft
