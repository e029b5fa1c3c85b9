import Mathlib.Data.Prod.Lex
import Stagecraft.Proofs.Stage.Owner
/-!
# What a still stage has left to do

A script is still if it makes no event and runs no frame, nor does what it sends to a queue or makes a hook.  If all
scripts that can be reached are still, and the host makes no events of its own, then whatever a task leaves to be done
is less than the task itself.
-/
namespace Stagecraft

mutual

/-- Whether a cue makes no event and runs no frame.  Scripts that it leaves on the page or for a frame do not count, for
they run only when an event or a frame comes. -/
def Cue.isStill : Cue → Bool
  | .dispatch .. => false
  | .tick => false
  | .runUntilIdle _ => false
  | .hook _ script => isStillScript script
  | .enqueue _ _ _ _ script finish => isStillScript script && isStillFinish finish
  | .effectJob _ _ _ _ finish => isStillFinish finish
  | _ => true

def isStillScript : List Cue → Bool
  | [] => true
  | c :: cs => c.isStill && isStillScript cs

def isStillFinish : Option (List Cue) → Bool
  | none => true
  | some script => isStillScript script

end

def ListenerCall.isStill : ListenerCall → Bool
  | .outside _ script => isStillScript script
  | _ => true

def OnceCall.isStill : OnceCall → Bool
  | .outside _ script => isStillScript script
  | _ => true

def JobBody.isStill : JobBody → Bool
  | .outside _ script _ => isStillScript script
  | .effect _ => true

def Finish.isStill : Finish → Bool
  | .outside _ script => isStillScript script
  | _ => true

def Job.isStill (job : Job) : Bool := job.body.isStill && job.finish.all Finish.isStill

def JobQueue.isStill (c : JobQueue) : Bool :=
  c.waiting.all Job.isStill && (c.running.bind Running.finish).all Finish.isStill

def Task.isStill : Task → Bool
  | .script cues => isStillScript cues
  | .cue c => c.isStill
  | .deliver once listeners _ => once.all OnceCall.isStill && listeners.all fun l => l.2.isStill
  | .callOnce c => c.isStill
  | .callListener c => c.isStill
  | .enqueue _ job => job.isStill
  | .run body _ => body.isStill
  | .finish _ f => f.isStill
  | .dispatch .. | .tick | .frame _ | .callFrame _ | .untilIdle .. => false
  | _ => true

/-! ## Ranks

A rank is a level and a place on it.  Above the scripts stands what may call a hook, for a hook may be any script that
is there by then; above that stand the calls of a dispatch, and the dispatch itself. -/

mutual

/-- How much a cue can lead to: more than the job that it sends, and more than any call on a machine but for the hooks
that are called then. -/
def Cue.size : Cue → ℕ
  | .enqueue _ _ _ _ script finish => sizeScript script + sizeFinish finish + 12
  | .effectJob _ _ _ _ finish => sizeFinish finish + 12
  | _ => 7

def sizeScript : List Cue → ℕ
  | [] => 0
  | c :: cs => c.size + sizeScript cs + 1

def sizeFinish : Option (List Cue) → ℕ
  | none => 0
  | some script => sizeScript script

end

def JobBody.size : JobBody → ℕ
  | .outside _ script _ => sizeScript script
  | .effect _ => 0

/-- The rank of what is to be done at the end of a job; a machine may call a hook then. -/
def Finish.rank : Finish → ℕ ×ₗ ℕ
  | .outside _ script => toLex (0, sizeScript script + 8)
  | _ => toLex (1, 3)

/-- The rank of the end of a running job. -/
def Finish.rankAhead : Finish → ℕ ×ₗ ℕ
  | .outside _ script => toLex (0, sizeScript script + 9)
  | _ => toLex (1, 4)

/-- The rank of a job that waits. -/
def Job.rank (job : Job) : ℕ ×ₗ ℕ :=
  match job.finish with
  | none => toLex (0, job.body.size + 10)
  | some (.outside _ script) => toLex (0, job.body.size + sizeScript script + 10)
  | some _ => toLex (1, 5)

/-- The rank of a job that is to be sent. -/
def Job.rankAhead (job : Job) : ℕ ×ₗ ℕ :=
  match job.finish with
  | none => toLex (0, job.body.size + 11)
  | some (.outside _ script) => toLex (0, job.body.size + sizeScript script + 11)
  | some _ => toLex (1, 6)

/-- The rank of tasks that do not differ in rank from others of their kind. -/
def Kind.rank : Kind → ℕ ×ₗ ℕ
  | .complete | .bind | .watch | .closed => toLex (0, 1)
  | .settle | .arrive | .install => toLex (0, 2)
  | .transition => toLex (0, 3)
  | .jump | .enterDefault | .visibility => toLex (0, 4)
  | .appear => toLex (0, 5)
  | .start => toLex (0, 6)
  | .hook => toLex (1, 0)
  | .conclude => toLex (1, 1)
  | .stepOver => toLex (1, 2)
  | .act => toLex (1, 7)
  | .fire => toLex (1, 8)
  | .callOnce | .callListener => toLex (2, 0)
  | _ => toLex (0, 0)

def Task.rank : Task → ℕ ×ₗ ℕ
  | .script cues => toLex (0, sizeScript cues)
  | .cue c => toLex (0, c.size)
  | .deliver once listeners _ => toLex (3, once.length + listeners.length)
  | .enqueue _ job => job.rankAhead
  | .run body _ => toLex (0, body.size + 8)
  | .finish _ f => f.rank
  | .release (.machine _) => toLex (0, 2)
  | t => t.kind.rank

theorem lt_level {a b c d : ℕ} (h : a < c) : (toLex (a, b) : ℕ ×ₗ ℕ) < toLex (c, d) :=
  Prod.Lex.toLex_lt_toLex.2 (.inl h)

theorem lt_place {a b d : ℕ} (h : b < d) : (toLex (a, b) : ℕ ×ₗ ℕ) < toLex (a, d) :=
  Prod.Lex.toLex_lt_toLex.2 (.inr ⟨rfl, h⟩)

/-- The kinds of task that are always still, and all of one rank. -/
def Kind.isPlain : Kind → Bool
  | .script | .cue | .dispatch | .deliver | .callOnce | .callListener => false
  | .tick | .frame | .callFrame | .untilIdle | .enqueue | .run | .finish | .release => false
  | _ => true

theorem Task.rank_of_isPlain {t : Task} (h : t.kind.isPlain = true) : t.isStill = true ∧ t.rank = t.kind.rank := by
  cases t with
  | script | cue | dispatch | deliver | callOnce | callListener => cases h
  | tick | frame | callFrame | untilIdle | enqueue | run | finish | release => cases h
  | _ => exact ⟨rfl, rfl⟩

/-- The kinds of task that take up what a queue has held back until then. -/
def Kind.takesUp : Kind → Bool
  | .pump | .complete => true
  | _ => false

namespace Stage

/-- The task is still, and less than that. -/
def Below (r : ℕ ×ₗ ℕ) (t : Task) : Prop := t.isStill = true ∧ t.rank < r

theorem below_of_isPlain {r : ℕ ×ₗ ℕ} {t : Task} (h : t.kind.isPlain = true) (hr : t.kind.rank < r) : Below r t := by
  obtain ⟨hstill, hrank⟩ := Task.rank_of_isPlain h
  exact ⟨hstill, hrank ▸ hr⟩

theorem rank_release_lt (h : Hold) {r : ℕ ×ₗ ℕ} (hr : toLex (0, 2) < r) : (Task.release h).rank < r := by
  refine lt_of_le_of_lt ?_ hr
  cases h with
  | machine m => exact le_refl _
  | queue q => exact Prod.Lex.toLex_le_toLex.2 (.inr ⟨rfl, Nat.zero_le 2⟩)
  | host => exact Prod.Lex.toLex_le_toLex.2 (.inr ⟨rfl, Nat.zero_le 2⟩)

section
variable {s : Stage} {t : Task} {rest : List Task}

theorem reflexes_eq_nil (hr : s.manners.reflexes = []) (call : HostCall) (argument : String) (el : ElementId) :
    s.reflexes call argument el = [] := by
  simp [reflexes, hr]

/-- A task that leaves only plain tasks, all of less rank. -/
theorem below_of_leaves (h : ∀ kind ∈ t.leaves, kind.isPlain = true ∧ kind.rank < t.rank) :
    ∀ t' ∈ (t.carryOut s rest).2, Below t.rank t' := fun t' ht' => by
  obtain ⟨hplain, hrank⟩ := h _ ((within_carryOut s rest t).kinds t' ht')
  exact below_of_isPlain hplain hrank

/-- Calls on machines and what else a cue leaves, but for the jobs that it sends. -/
theorem below_of_light {n : ℕ} (hn : 7 ≤ n)
    (h : t.kind ∈ [Kind.start, .transition, .visibility, .release, .reply, .complete, .lose]) :
    Below (toLex (0, n)) t := by
  have hlt : ∀ k < 7, (toLex (0, k) : ℕ ×ₗ ℕ) < toLex (0, n) := fun k hk => lt_place (Nat.lt_of_lt_of_le hk hn)
  cases t with
  | release hold => exact ⟨rfl, rank_release_lt hold (hlt 2 (by decide))⟩
  | start | transition | visibility | reply | complete | lose => exact ⟨rfl, hlt _ (by decide)⟩
  | _ => simp [Task.kind] at h

theorem below_script {cues : List Cue} (h : isStillScript cues = true) :
    ∀ t ∈ (s.script cues).2, Below (Task.script cues).rank t := by
  cases cues with
  | nil => exact fun _ ht => by cases ht
  | cons c cs =>
    rw [isStillScript, Bool.and_eq_true] at h
    intro t ht
    simp only [script, List.mem_cons, List.not_mem_nil, or_false] at ht
    rcases ht with rfl | rfl | rfl
    · exact ⟨h.1, lt_place (by rw [sizeScript]; omega)⟩
    · exact ⟨rfl, lt_place (Nat.succ_pos _)⟩
    · exact ⟨h.2, lt_place (by rw [sizeScript]; omega)⟩

theorem below_submit {queue : String} {job : Job} {n : ℕ} (hn : 7 ≤ n) (hstill : job.isStill = true)
    (hrank : job.rankAhead < toLex (0, n)) : ∀ t ∈ (s.submit queue job).2, Below (toLex (0, n)) t := by
  intro t ht
  unfold submit at ht
  split at ht
  · cases ht
  · simp only [List.mem_cons, List.not_mem_nil, or_false] at ht
    rcases ht with rfl | rfl | rfl
    · exact ⟨hstill, hrank⟩
    · exact below_of_light hn (by simp [Task.kind])
    · exact below_of_light hn (by simp [Task.kind])

/-- What is sent from outside. -/
theorem rankAhead_outside (job : Job) (label : String) (finish : Option (List Cue)) :
    Job.rankAhead { job with finish := finish.map (.outside label) } =
      toLex (0, job.body.size + sizeFinish finish + 11) := by
  cases finish <;> rfl

theorem isStill_outside (label : String) (finish : Option (List Cue)) :
    (finish.map (Finish.outside label)).all Finish.isStill = isStillFinish finish := by
  cases finish <;> rfl

theorem below_follow {c : Cue} (h : c.isStill = true) : ∀ t ∈ (s.follow c).2, Below (toLex (0, c.size)) t := by
  have hlight : 7 ≤ c.size → (∀ kind ∈ c.leaves,
      kind ∈ [Kind.start, .transition, .visibility, .release, .reply, .complete, .lose]) →
      ∀ t ∈ (s.follow c).2, Below (toLex (0, c.size)) t := fun hn hleaves t ht =>
    below_of_light hn (hleaves _ ((within_follow s c).kinds t ht))
  cases c with
  | dispatch => cases h
  | tick => cases h
  | runUntilIdle => cases h
  | enqueue queue name labelled fate script finish =>
    rw [Cue.isStill, Bool.and_eq_true] at h
    refine below_submit (by rw [Cue.size]; omega) ?_ ?_
    · rw [Job.isStill, isStill_outside, Bool.and_eq_true]
      exact h
    · rw [rankAhead_outside { label := _, body := .outside name script fate } name finish]
      exact lt_place (by rw [Cue.size, JobBody.size]; omega)
  | effectJob queue effect el settings finish =>
    intro t ht
    simp only [follow, submitEffect] at ht
    split at ht
    · split at ht
      · cases ht
      · rename_i e _
        split at ht
        · cases ht
        · rename_i job hjob
          have hbody : job.body.isStill = true ∧ job.body.size = 0 := by
            obtain ⟨p, -, rfl⟩ := Option.map_eq_some_iff.1 hjob
            exact ⟨rfl, rfl⟩
          refine below_submit (by rw [Cue.size]; omega) ?_ ?_ t ht
          · rw [Job.isStill, isStill_outside, Bool.and_eq_true]
            exact ⟨hbody.1, h⟩
          · rw [rankAhead_outside job e.source finish]
            exact lt_place (by rw [Cue.size, hbody.2]; omega)
    · cases ht
  | _ => exact hlight (Nat.le_refl 7) (by simp [Cue.leaves])

theorem below_deliver : ∀ {once : List OnceCall} {listeners : List (Nat × ListenerCall)} {ran : Nat},
    (Task.deliver once listeners ran).isStill = true →
    ∀ t ∈ (s.deliver once listeners ran).2, Below (Task.deliver once listeners ran).rank t
  | c :: cs, ls, ran, h => by
    simp only [Task.isStill, List.all_cons, Bool.and_eq_true] at h
    intro t ht
    simp only [deliver, List.mem_cons, List.not_mem_nil, or_false] at ht
    rcases ht with rfl | rfl
    · exact ⟨h.1.1, lt_level (by decide)⟩
    · refine ⟨by simp only [Task.isStill, h.1.2, h.2, Bool.and_self], lt_place ?_⟩
      simp only [List.length_cons]
      omega
  | [], (id, c) :: ls, ran, h => by
    simp only [Task.isStill, List.all_cons, List.all_nil, Bool.and_eq_true, Bool.true_and] at h
    have hrest : ∀ ran', Below (Task.deliver [] ((id, c) :: ls) ran).rank (.deliver [] ls ran') := fun ran' =>
      ⟨by simp only [Task.isStill, List.all_nil, h.2, Bool.and_self], lt_place (by simp only [List.length_cons]; omega)⟩
    intro t ht
    simp only [deliver] at ht
    split at ht
    · simp only [List.mem_cons, List.not_mem_nil, or_false] at ht
      rcases ht with rfl | rfl
      · exact ⟨h.1, lt_level (by decide)⟩
      · exact hrest _
    · rw [List.mem_singleton.1 ht]
      exact hrest _
  | [], [], ran, h => fun _ ht => by cases ht

theorem below_callOnce {c : OnceCall} (h : c.isStill = true) :
    ∀ t ∈ (s.callOnce rest c).2, Below (toLex (2, 0)) t := by
  cases c with
  | effectEnd el classes token =>
    intro t ht
    simp only [callOnce] at ht
    split at ht
    · simp only [List.mem_append, List.mem_map, List.mem_cons, List.not_mem_nil, or_false] at ht
      rcases ht with ⟨_, -, rfl⟩ | rfl | rfl
      · exact below_of_isPlain rfl (lt_level (by decide))
      · exact ⟨rfl, rank_release_lt _ (lt_level (by decide))⟩
      · exact below_of_isPlain rfl (lt_level (by decide))
    · rw [List.mem_singleton.1 ht]
      exact below_of_isPlain rfl (lt_level (by decide))
  | outside label script =>
    intro t ht
    rw [List.mem_singleton.1 ht]
    exact ⟨h, lt_level (by decide)⟩

theorem below_onMachine {m : Nat} (t' : Task) {r : ℕ ×ₗ ℕ} (ht' : Below r t') (hr : toLex (0, 2) < r) :
    ∀ t ∈ (s.onMachine m [t']).2, Below r t := by
  intro t ht
  simp only [onMachine] at ht
  split at ht
  · simp only [List.cons_append, List.nil_append, List.mem_cons, List.not_mem_nil, or_false] at ht
    rcases ht with rfl | rfl
    · exact ht'
    · exact ⟨rfl, rank_release_lt _ hr⟩
  · cases ht

theorem below_callListener {c : ListenerCall} (h : c.isStill = true) :
    ∀ t ∈ (s.callListener c).2, Below (toLex (2, 0)) t := by
  cases c with
  | react m slot => exact below_onMachine _ (below_of_isPlain rfl (lt_level (by decide))) (lt_level (by decide))
  | enter m state => exact below_onMachine _ (below_of_isPlain rfl (lt_level (by decide))) (lt_level (by decide))
  | outside label script =>
    intro t ht
    rw [List.mem_singleton.1 ht]
    exact ⟨h, lt_level (by decide)⟩

theorem below_run {body : JobBody} {token : Completion} (h : body.isStill = true) :
    ∀ t ∈ (s.run body token).2, Below (Task.run body token).rank t := by
  cases body with
  | effect p =>
    intro t ht
    simp only [run, List.mem_append, List.mem_map, List.mem_singleton] at ht
    rcases ht with ((⟨_, -, rfl⟩ | rfl) | ⟨_, -, rfl⟩) | rfl
    · exact below_of_isPlain rfl (lt_place (by omega))
    · exact below_of_isPlain rfl (lt_place (by omega))
    · exact below_of_isPlain rfl (lt_place (by omega))
    · exact ⟨rfl, rank_release_lt _ (lt_place (by omega))⟩
  | outside name script fate =>
    intro t ht
    have ht : t = .settle name fate token ∨ t = .script script := by
      simp only [run] at ht
      split at ht
      · simpa using ht
      · simpa [or_comm] using ht
    rcases ht with rfl | rfl
    · exact below_of_isPlain rfl (lt_place (by omega))
    · exact ⟨h, lt_place (by rw [JobBody.size]; omega)⟩

theorem below_finish {f : Finish} (h : f.isStill = true) : ∀ t ∈ (s.finish f).2, Below f.rank t := by
  cases f with
  | reaction m slot =>
    exact below_onMachine (.conclude m slot) (below_of_isPlain rfl (lt_place (by decide))) (lt_level (by decide))
  | sequenceStep m slot k =>
    exact below_onMachine (.stepOver m slot k) (below_of_isPlain rfl (lt_place (by decide)))
      (lt_level (by decide))
  | outside label script =>
    intro t ht
    rw [List.mem_singleton.1 ht]
    exact ⟨h, lt_place (by omega)⟩

theorem below_hook {m : Nat} {name : Option String} {state : String}
    (h : ∀ script ∈ s.hooks.values, isStillScript script = true) :
    ∀ t ∈ (s.hook m name state).2, Below (toLex (1, 0)) t := by
  intro t ht
  unfold hook at ht
  split at ht
  · split at ht
    · rename_i script hscript
      rw [List.mem_singleton.1 ht]
      refine ⟨h script ?_, lt_level (by decide)⟩
      split at hscript
      · exact Registry.mem_values_of_get? hscript
      · cases hscript
    · cases ht
  · cases ht

/-- A job that a machine sends for a reaction. -/
theorem below_enqueue {q : Nat} {job : Job} (heffect : job.isEffect = true)
    (hfinish : ∀ label script, job.finish ≠ some (.outside label script)) : Below (toLex (1, 7)) (.enqueue q job) := by
  obtain ⟨label, body, finish⟩ := job
  cases body with
  | outside => cases heffect
  | effect p =>
    cases finish with
    | none => exact ⟨rfl, lt_level (by decide)⟩
    | some f =>
      cases f with
      | outside label script => exact absurd rfl (hfinish label script)
      | reaction => exact ⟨rfl, lt_place (by decide)⟩
      | sequenceStep => exact ⟨rfl, lt_place (by decide)⟩

theorem below_act {m : Nat} {slot : Slot} : ∀ t ∈ (s.act m slot).2, Below (toLex (1, 7)) t := by
  intro t ht
  have hsends : ∀ q job, t = .enqueue q job → job.isEffect = true := by
    rintro q job rfl
    obtain ⟨c, -, -, hsends⟩ := sends_act ht
    exact hsends.isEffect
  unfold act at ht
  split at ht
  · cases ht
  · split at ht
    · cases ht
    · rename_i c _ _ r _
      split at ht
      · rw [List.mem_singleton.1 ht]
        exact below_of_isPlain rfl (lt_level (by decide))
      · split at ht
        · have hjobs := finish_of_mem_jobs c r.actions s
          unfold runAll at ht
          split at ht
          · rw [List.mem_singleton.1 ht]
            exact below_of_isPlain rfl (lt_place (by decide))
          · rename_i js _ heq
            rw [heq] at hjobs
            obtain ⟨job, hjob, rfl⟩ := List.mem_map.1 ht
            refine below_enqueue (hsends _ job rfl) fun label script hf => ?_
            rcases finish_of_mem_withFinish hjobs job hjob with hf' | hf' <;> rw [hf'] at hf <;> cases hf
        · unfold runNext at ht
          simp only at ht
          split at ht
          · cases ht
          · split at ht
            · cases ht
            · obtain rfl := List.mem_singleton.1 ht
              exact below_enqueue (hsends _ _ rfl) fun label script hf => by cases hf

/-- **What a task leaves on a still stage is still, and less than the task**, but for what a queue has held back until
then. -/
theorem below_carryOut (hr : s.manners.reflexes = []) (hhooks : ∀ script ∈ s.hooks.values, isStillScript script = true)
    (ht : t.isStill = true) (htakes : t.kind.takesUp = false) :
    ∀ t' ∈ (t.carryOut s rest).2, Below t.rank t' := by
  have hnil : (t.carryOut s rest).2 = [] → ∀ t' ∈ (t.carryOut s rest).2, Below t.rank t' := fun h t' ht' => by
    rw [h] at ht'
    cases ht'
  cases t with
  | script cues => exact below_script ht
  | cue c => exact below_follow ht
  | dispatch => cases ht
  | tick => cases ht
  | frame => cases ht
  | callFrame => cases ht
  | untilIdle => cases ht
  | deliver once listeners ran => exact below_deliver ht
  | callOnce c => exact below_callOnce ht
  | callListener c => exact below_callListener ht
  | perform op =>
    refine hnil ?_
    simp only [Task.carryOut, perform, reflexes_eq_nil hr]
    split
    · rfl
    · rfl
    · split <;> rfl
  | await el event call => exact hnil (reflexes_eq_nil hr ..)
  | detach el id => exact hnil (reflexes_eq_nil hr ..)
  | pump => cases htakes
  | complete => cases htakes
  | enqueue q job =>
    intro t' ht'
    rw [List.mem_singleton.1 ht']
    refine below_of_isPlain rfl ?_
    simp only [Task.rank, Job.rankAhead]
    split
    · exact lt_place (Nat.succ_pos _)
    · exact lt_place (Nat.succ_pos _)
    · exact lt_level (by decide)
  | run body token => exact below_run ht
  | finish q f => exact below_finish ht
  | hook m name state => exact below_hook hhooks
  | act m slot anew => exact below_act
  | bind m slot again =>
    intro t' ht'
    have hkind := (within_carryOut s rest (.bind m slot again)).kinds t' ht'
    simp only [Task.carryOut, bind] at ht'
    split at ht'
    · cases ht'
    · split at ht'
      · cases ht'
      · cases ht'
      · split at ht'
        · cases ht'
        · rw [attach, reflexes_eq_nil hr, List.nil_append, List.mem_singleton] at ht'
          rw [ht']
          exact below_of_isPlain rfl (lt_place (by decide))
  | watch m el event state =>
    intro t' ht'
    simp only [Task.carryOut, watch, attach, reflexes_eq_nil hr, List.nil_append, List.mem_singleton] at ht'
    rw [ht']
    exact below_of_isPlain rfl (lt_place (by decide))
  | closed m =>
    intro t' ht'
    simp only [Task.carryOut, closed] at ht'
    split at ht'
    · cases ht'
    · rw [List.mem_singleton.1 ht']
      exact ⟨rfl, lt_place (by decide)⟩
  | release hold =>
    cases hold with
    | machine m => exact below_of_leaves (by simp only [Task.leaves, Task.rank]; decide)
    | queue q => exact below_of_leaves (by simp [Task.leaves])
    | host => exact below_of_leaves (by simp [Task.leaves])
  | _ => exact below_of_leaves (by simp only [Task.leaves, Task.rank, Task.kind]; decide)

end

end Stage
end Stagecraft
