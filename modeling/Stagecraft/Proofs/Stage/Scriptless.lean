import Stagecraft.Proofs.Stage.Halting
/-!
# Stages without scripts

Where no script from outside has been left anywhere, and the host makes no events of its own, only machines and effects
act.  Such a stage stays without scripts, and a dispatch or a frame comes to an end on it: each makes the calls that it
has gathered, and these are followed by tasks that come to rest.
-/
namespace Stagecraft

def ListenerCall.isScriptless : ListenerCall → Bool
  | .outside .. => false
  | _ => true

def OnceCall.isScriptless : OnceCall → Bool
  | .outside .. => false
  | _ => true

def FrameCall.isScriptless : FrameCall → Bool
  | .outside .. => false
  | _ => true

def Finish.isScriptless : Finish → Bool
  | .outside .. => false
  | _ => true

def Job.isScriptless (job : Job) : Bool := job.isEffect && job.finish.all Finish.isScriptless

def JobQueue.isScriptless (c : JobQueue) : Bool :=
  c.waiting.all Job.isScriptless && (c.running.bind Running.finish).all Finish.isScriptless

/-- Whether a cue brings no script with it; one that runs frames until none is left is not counted either. -/
def Cue.isScriptless : Cue → Bool
  | .listenOnce .. | .addListener .. | .nextFrame .. | .hook .. | .enqueue .. | .effectJob .. | .runUntilIdle _ => false
  | _ => true

def Task.isScriptless : Task → Bool
  | .script _ | .report _ | .settle .. | .untilIdle .. => false
  | .cue c => c.isScriptless
  | .deliver once listeners _ => once.all OnceCall.isScriptless && listeners.all fun l => l.2.isScriptless
  | .callOnce c => c.isScriptless
  | .callListener c => c.isScriptless
  | .await _ _ c => c.isScriptless
  | .frame calls => calls.all FrameCall.isScriptless
  | .callFrame c => c.isScriptless
  | .enqueue _ job => job.isScriptless
  | .run (.outside ..) _ => false
  | .finish _ f => f.isScriptless
  | _ => true

/-- The kinds of task that never bring a script with them. -/
def Kind.isScriptless : Kind → Bool
  | .script | .report | .settle | .untilIdle | .cue | .deliver | .callOnce | .callListener | .await => false
  | .frame | .callFrame | .enqueue | .run | .finish => false
  | _ => true

theorem Task.isScriptless_of_kind {t : Task} (h : t.kind.isScriptless = true) : t.isScriptless = true := by
  cases t with
  | script | report | settle | untilIdle | cue | deliver | callOnce | callListener | await => cases h
  | frame | callFrame | enqueue | run | finish => cases h
  | _ => rfl

/-- No script has been left on the stage, and none is on the agenda. -/
structure Scriptless (c : Config) : Prop where
  manners : c.stage.manners.reflexes = []
  hooks : c.stage.hooks.values = []
  listeners : ∀ l ∈ c.stage.page.listeners, l.call.isScriptless = true
  waiting : ∀ w ∈ c.stage.page.waiting, w.call.isScriptless = true
  frames : ∀ f ∈ c.stage.frames.waiting, f.isScriptless = true
  queues : ∀ jq ∈ c.stage.queues, jq.isScriptless = true
  agenda : ∀ t ∈ c.agenda, t.isScriptless = true

theorem Scriptless.undisturbed {s s' : Stage} {ts : List Task} (h : Scriptless ⟨s, ts⟩) (hs : Stage.Undisturbed s s') :
    Scriptless ⟨s', ts⟩ where
  manners := hs.manners ▸ h.manners
  hooks := hs.hooks ▸ h.hooks
  listeners := hs.page ▸ h.listeners
  waiting := hs.page ▸ h.waiting
  frames := hs.frames ▸ h.frames
  queues := hs.queues ▸ h.queues
  agenda := h.agenda

namespace Stage

section
variable {s : Stage} {t : Task} {rest : List Task}

/-! ## What is left on the stage -/

theorem listeners_scriptless (h : Scriptless ⟨s, t :: rest⟩) :
    ∀ l ∈ (t.carryOut s rest).1.page.listeners, l.call.isScriptless = true := by
  have hadd : ∀ el event call, call.isScriptless = true →
      ∀ l ∈ (s.page.addListener el event call).listeners, l.call.isScriptless = true := by
    intro el event call hcall l hl
    rcases List.mem_append.1 hl with hl | hl
    · exact h.listeners l hl
    · rw [List.mem_singleton.1 hl]
      exact hcall
  by_cases ht : .listeners ∈ t.touches
  · cases t with
    | cue c =>
      cases c with
      | addListener => exact absurd (h.agenda _ List.mem_cons_self) Bool.false_ne_true
      | removeListener => exact fun l hl => h.listeners l (List.mem_filter.1 hl).1
      | _ => simp [Task.touches, Cue.touches] at ht
    | detach => exact fun l hl => h.listeners l (List.mem_filter.1 hl).1
    | watch => exact hadd _ _ _ rfl
    | bind m slot again =>
      simp only [Task.carryOut, bind]
      split
      · exact h.listeners
      · split
        · exact h.listeners
        · exact h.listeners
        · split
          · exact h.listeners
          · exact hadd _ _ _ rfl
    | release hold => cases hold <;> simp [Task.touches] at ht
    | _ => simp [Task.touches] at ht
  · rw [show _ = s.page.listeners from ((within_carryOut s rest t).touched.agree .listeners ht).1]
    exact h.listeners

theorem waiting_scriptless (h : Scriptless ⟨s, t :: rest⟩) :
    ∀ w ∈ (t.carryOut s rest).1.page.waiting, w.call.isScriptless = true := by
  by_cases ht : .waiting ∈ t.touches
  · cases t with
    | cue c =>
      cases c with
      | listenOnce => exact absurd (h.agenda _ List.mem_cons_self) Bool.false_ne_true
      | _ => simp [Task.touches, Cue.touches] at ht
    | dispatch => exact fun w hw => h.waiting w (List.mem_filter.1 hw).1
    | await el event call =>
      intro w hw
      rcases List.mem_append.1 hw with hw | hw
      · exact h.waiting w hw
      · rw [List.mem_singleton.1 hw]
        exact h.agenda _ List.mem_cons_self
    | release hold => cases hold <;> simp [Task.touches] at ht
    | _ => simp [Task.touches] at ht
  · rw [show _ = s.page.waiting from (within_carryOut s rest t).touched.agree .waiting ht]
    exact h.waiting

theorem frames_scriptless (h : Scriptless ⟨s, t :: rest⟩) :
    ∀ f ∈ (t.carryOut s rest).1.frames.waiting, f.isScriptless = true := by
  have hadd : ∀ call, call.isScriptless = true → ∀ f ∈ (s.schedule call).frames.waiting, f.isScriptless = true := by
    intro call hcall f hf
    rcases List.mem_append.1 hf with hf | hf
    · exact h.frames f hf
    · rw [List.mem_singleton.1 hf]
      exact hcall
  by_cases ht : .frames ∈ t.touches
  · cases t with
    | cue c =>
      cases c with
      | nextFrame => exact absurd (h.agenda _ List.mem_cons_self) Bool.false_ne_true
      | _ => simp [Task.touches, Cue.touches] at ht
    | tick => exact fun f hf => by cases hf
    | bind m slot again =>
      simp only [Task.carryOut, bind]
      split
      · exact h.frames
      · split
        · exact h.frames
        · exact hadd _ rfl
        · split <;> exact h.frames
    | stepOver m slot step =>
      simp only [Task.carryOut, stepOver]
      split
      · exact h.frames
      · split
        · exact hadd _ rfl
        · exact h.frames
    | release hold => cases hold <;> simp [Task.touches] at ht
    | _ => simp [Task.touches] at ht
  · rw [show _ = s.frames.waiting from (within_carryOut s rest t).touched.agree .frames ht]
    exact h.frames

theorem start?_scriptless {c c' : JobQueue} {job : Job} (hc : c.isScriptless = true) (h : c.start? = some (job, c')) :
    job.isScriptless = true ∧ c'.isScriptless = true := by
  obtain ⟨-, waiting, hwaiting, rfl⟩ := start?_eq_some h
  simp only [JobQueue.isScriptless, hwaiting, List.all_cons, Bool.and_eq_true] at hc
  have hfinish := hc.1.1
  rw [Job.isScriptless, Bool.and_eq_true] at hfinish
  refine ⟨hc.1.1, ?_⟩
  simp only [JobQueue.isScriptless, hc.1.2, Option.bind_some, hfinish.2, Bool.and_self]

theorem takeFinish?_scriptless {c c' : JobQueue} {k : Nat} {f : Option Finish} (hc : c.isScriptless = true)
    (h : c.takeFinish? k = some (f, c')) : f.all Finish.isScriptless = true ∧ c'.isScriptless = true := by
  rw [JobQueue.isScriptless, Bool.and_eq_true] at hc
  obtain ⟨hrunning, -, hwaiting, hnone⟩ := JobQueue.ranks_takeFinish? h
  refine ⟨hrunning ▸ hc.2, ?_⟩
  rw [JobQueue.isScriptless, hwaiting, hc.1, hnone]
  rfl

theorem scriptless_mapQueue (h : ∀ jq ∈ s.queues, jq.isScriptless = true) {q : Nat} {f : JobQueue → JobQueue}
    (hf : ∀ c, s.queue? q = some c → c.isScriptless = true → (f c).isScriptless = true) :
    ∀ jq ∈ (s.mapQueue q f).queues, jq.isScriptless = true := by
  intro jq hjq
  obtain ⟨i, hi⟩ := List.getElem?_of_mem hjq
  simp only [mapQueue, List.getElem?_modify] at hi
  obtain ⟨c, hc, heq⟩ := Option.map_eq_some_iff.1 hi
  have hscriptless := h c (List.mem_of_getElem? hc)
  split at heq
  · rename_i hqi
    subst hqi
    exact heq ▸ hf c hc hscriptless
  · exact heq ▸ hscriptless

theorem queues_scriptless (h : Scriptless ⟨s, t :: rest⟩) :
    ∀ jq ∈ (t.carryOut s rest).1.queues, jq.isScriptless = true := by
  have hmore : ∀ jq ∈ s.queues ++ [JobQueue.empty], jq.isScriptless = true := by
    intro jq hjq
    rcases List.mem_append.1 hjq with hjq | hjq
    · exact h.queues jq hjq
    · rw [List.mem_singleton.1 hjq]
      rfl
  have hqueue : ∀ {q c}, s.queue? q = some c → c.isScriptless = true := fun hc => h.queues _ (List.mem_of_getElem? hc)
  by_cases ht : .queues ∈ t.touches
  · cases t with
    | cue c =>
      cases c with
      | build name el settings hooked states =>
        rcases (queues_build s name el settings hooked states).1 with hqueues | hqueues
        · exact fun jq hjq => h.queues jq (hqueues ▸ hjq)
        · exact fun jq hjq => hmore jq (hqueues ▸ hjq)
      | queue name => exact hmore
      | _ => simp [Task.touches, Cue.touches] at ht
    | enqueue q job =>
      have hjob : job.isScriptless = true := h.agenda _ List.mem_cons_self
      refine scriptless_mapQueue h.queues fun c _ hc => ?_
      rw [JobQueue.isScriptless, Bool.and_eq_true] at hc
      simp only [JobQueue.isScriptless, JobQueue.add, List.all_append, List.all_cons, List.all_nil, hc.1, hc.2, hjob,
        Bool.and_self]
    | pump q =>
      simp only [Task.carryOut, pump]
      split
      · rename_i job c' hstart
        obtain ⟨c, hc, hstart⟩ := Option.bind_eq_some_iff.1 hstart
        exact scriptless_mapQueue h.queues fun _ _ _ => (start?_scriptless (hqueue hc) hstart).2
      · exact h.queues
    | complete token =>
      simp only [Task.carryOut, complete]
      split
      · split
        · rename_i finish c' htake
          obtain ⟨c, hc, htake⟩ := Option.bind_eq_some_iff.1 htake
          exact scriptless_mapQueue h.queues fun _ _ _ => (takeFinish?_scriptless (hqueue hc) htake).2
        · exact h.queues
      · exact h.queues
    | jobOver q =>
      refine scriptless_mapQueue h.queues fun c _ hc => ?_
      rw [JobQueue.isScriptless, Bool.and_eq_true] at hc
      simp only [JobQueue.isScriptless, JobQueue.rest, hc.1, Option.bind_none, Option.all_none, Bool.and_self]
    | release hold =>
      cases hold with
      | queue q =>
        simp only [Task.carryOut, release]
        split
        · exact h.queues
        · refine scriptless_mapQueue h.queues fun c _ hc => ?_
          rw [JobQueue.isScriptless, Bool.and_eq_true] at hc
          simp only [JobQueue.isScriptless, JobQueue.close, List.all_nil, hc.2, Bool.and_self]
      | _ => simp [Task.touches] at ht
    | _ => simp [Task.touches] at ht
  · rw [show _ = s.queues from (within_carryOut s rest t).touched.agree .queues ht]
    exact h.queues

/-! ## What is left to do -/

theorem finish_of_mem_sent {m : Nat} {slot : Slot} {q : Nat} {job : Job} (h : .enqueue q job ∈ (s.act m slot).2) :
    ∀ f ∈ job.finish, f = .reaction m slot ∨ ∃ k, f = .sequenceStep m slot k := by
  unfold act at h
  split at h
  · cases h
  · split at h
    · cases h
    · rename_i c _ _ r _
      split at h
      · simp at h
      · split at h
        · have hjobs := finish_of_mem_jobs c r.actions s
          unfold runAll at h
          split at h
          · simp at h
          · rename_i js _ heq
            rw [heq] at hjobs
            obtain ⟨job', hjob, heq⟩ := List.mem_map.1 h
            cases heq
            intro f hf
            rcases finish_of_mem_withFinish hjobs job hjob with hnone | hsome
            · rw [hnone] at hf
              cases hf
            · rw [hsome] at hf
              exact .inl (Option.some.inj hf).symm
        · unfold runNext at h
          simp only at h
          split at h
          · cases h
          · split at h
            · cases h
            · cases List.mem_singleton.1 h
              exact fun f hf => .inr ⟨_, (Option.some.inj hf).symm⟩

theorem isScriptless_of_mem_sent {m : Nat} {slot : Slot} {q : Nat} {job : Job}
    (h : .enqueue q job ∈ (s.act m slot).2) : job.isScriptless = true := by
  obtain ⟨c, -, -, hsends⟩ := sends_act h
  rw [Job.isScriptless, hsends.isEffect, Bool.true_and]
  cases hf : job.finish with
  | none => rfl
  | some f => rcases finish_of_mem_sent h f hf with rfl | ⟨k, rfl⟩ <;> rfl

theorem onMachine_scriptless {m : Nat} {t' : Task} (ht' : t'.isScriptless = true) :
    ∀ t'' ∈ (s.onMachine m [t']).2, t''.isScriptless = true := by
  unfold onMachine
  split
  · simp only [List.cons_append, List.nil_append, List.mem_cons, List.not_mem_nil, or_false]
    rintro t'' (rfl | rfl)
    · exact ht'
    · rfl
  · exact fun _ ht => by cases ht

/-- **No task brings a script with it** where there is none. -/
theorem tasks_scriptless (h : Scriptless ⟨s, t :: rest⟩) : ∀ t' ∈ (t.carryOut s rest).2, t'.isScriptless = true := by
  have hkinds : (∀ kind ∈ t.leaves, kind.isScriptless = true) → ∀ t' ∈ (t.carryOut s rest).2, t'.isScriptless = true :=
    fun hleaves t' ht' => Task.isScriptless_of_kind (hleaves _ ((within_carryOut s rest t).kinds t' ht'))
  have ht := h.agenda t List.mem_cons_self
  cases t with
  | script | settle | untilIdle => cases ht
  | cue c =>
    cases c with
    | listenOnce | addListener | nextFrame | hook | enqueue | effectJob | runUntilIdle => cases ht
    | _ => exact hkinds (by simp only [Task.leaves, Cue.leaves]; decide)
  | dispatch el event =>
    intro t' ht'
    rw [List.mem_singleton.1 ht', Task.isScriptless, Bool.and_eq_true, List.all_eq_true, List.all_eq_true]
    constructor
    · intro call hcall
      obtain ⟨w, hw, rfl⟩ := List.mem_map.1 hcall
      exact h.waiting w (List.mem_filter.1 hw).1
    · intro p hp
      obtain ⟨l, hl, rfl⟩ := List.mem_map.1 hp
      exact h.listeners l (List.mem_filter.1 hl).1
  | deliver once listeners ran =>
    rw [Task.isScriptless, Bool.and_eq_true] at ht
    cases once with
    | cons c cs =>
      rw [List.all_cons, Bool.and_eq_true] at ht
      simp [Task.carryOut, deliver, Task.isScriptless, ht.1.1, ht.1.2, ht.2]
    | nil =>
      cases listeners with
      | nil => exact fun _ ht' => by cases ht'
      | cons l ls =>
        rw [List.all_cons, Bool.and_eq_true] at ht
        simp only [Task.carryOut, deliver]
        split <;> simp [Task.isScriptless, ht.2.1, ht.2.2]
  | callOnce c =>
    cases c with
    | outside => cases ht
    | effectEnd el classes token =>
      simp only [Task.carryOut, callOnce]
      split
      · simp [Task.isScriptless, or_imp, forall_and]
      · simp [Task.isScriptless]
  | callListener c =>
    cases c with
    | outside => cases ht
    | react m slot => exact onMachine_scriptless rfl
    | enter m state => exact onMachine_scriptless rfl
  | tick =>
    have hcalls : s.frames.waiting.all FrameCall.isScriptless = true := List.all_eq_true.2 h.frames
    simp [Task.carryOut, tick, Task.isScriptless, hcalls]
  | frame calls =>
    cases calls with
    | nil => exact fun _ ht' => by cases ht'
    | cons c cs =>
      rw [Task.isScriptless, List.all_cons, Bool.and_eq_true] at ht
      simp [Task.carryOut, frame, Task.isScriptless, ht.1, ht.2]
  | callFrame c =>
    cases c with
    | outside => cases ht
    | react m slot => exact onMachine_scriptless rfl
    | resume m slot => exact onMachine_scriptless rfl
  | pump q =>
    simp only [Task.carryOut, pump]
    split
    · rename_i job c' hstart
      obtain ⟨c, hc, hstart⟩ := Option.bind_eq_some_iff.1 hstart
      have hjob := (start?_scriptless (h.queues c (List.mem_of_getElem? hc)) hstart).1
      obtain ⟨label, body, finish⟩ := job
      cases body with
      | outside => cases hjob
      | effect p => simp [Task.isScriptless]
    · exact fun _ ht' => by cases ht'
  | run body token =>
    cases body with
    | outside => cases ht
    | effect p => simp [Task.carryOut, run, Task.isScriptless, OnceCall.isScriptless, or_imp, forall_and]
  | complete token =>
    simp only [Task.carryOut, complete]
    split
    · split
      · rename_i finish c' htake
        obtain ⟨c, hc, htake⟩ := Option.bind_eq_some_iff.1 htake
        have hfinish := (takeFinish?_scriptless (h.queues c (List.mem_of_getElem? hc)) htake).1
        cases finish with
        | none => simp [Task.isScriptless]
        | some f =>
          have hf : f.isScriptless = true := hfinish
          simp [Task.isScriptless, hf]
      · exact fun _ ht' => by cases ht'
    · exact fun _ ht' => by cases ht'
  | finish q f =>
    cases f with
    | outside => cases ht
    | reaction m slot =>
      simp only [Task.carryOut, finish]
      split
      · simp [Task.isScriptless]
      · exact fun _ ht' => by cases ht'
    | sequenceStep m slot k =>
      simp only [Task.carryOut, finish]
      split
      · simp [Task.isScriptless]
      · exact fun _ ht' => by cases ht'
  | hook m name state =>
    have hnone : ∀ name, s.hooks.get? name = none := fun name => by
      cases hget : s.hooks.get? name with
      | none => rfl
      | some script =>
        have := Registry.mem_values_of_get? hget
        rw [h.hooks] at this
        cases this
    simp only [Task.carryOut, hook, hnone, ite_self]
    split <;> exact fun _ ht' => by cases ht'
  | act m slot anew =>
    intro t' ht'
    have hkind := (within_carryOut s rest (.act m slot anew)).kinds t' ht'
    cases t' with
    | enqueue q job => exact isScriptless_of_mem_sent ht'
    | jump => rfl
    | conclude => rfl
    | _ => simp [Task.kind, Task.leaves] at hkind
  | release hold => cases hold <;> exact hkinds (by simp only [Task.leaves]; decide)
  | _ => exact hkinds (by simp only [Task.leaves]; decide)

/-- **A stage without scripts stays without scripts.** -/
theorem scriptless_after (h : Scriptless ⟨s, t :: rest⟩) : Scriptless (.after s t rest) where
  manners := by
    rw [show (Config.after s t rest).stage.manners = s.manners from (within_carryOut s rest t).touched.manners]
    exact h.manners
  hooks := by
    rw [List.eq_nil_iff_forall_not_mem]
    intro script hscript
    rcases hooks_carryOut hscript with hscript | ⟨name, rfl⟩
    · rw [h.hooks] at hscript
      cases hscript
    · exact absurd (h.agenda _ List.mem_cons_self) Bool.false_ne_true
  listeners := listeners_scriptless h
  waiting := waiting_scriptless h
  frames := frames_scriptless h
  queues := queues_scriptless h
  agenda t' ht' := by
    rcases List.mem_append.1 ht' with ht' | ht'
    · exact tasks_scriptless h t' ht'
    · exact h.agenda t' (List.mem_cons_of_mem _ ht')

/-! ## What is done in the end -/

theorem holds_filter_isStill (hold : Hold) (agenda : List Task) :
    Task.holds hold (agenda.filter Task.isStill) = Task.holds hold agenda := by
  unfold Task.holds
  rw [List.any_filter]
  congr 1
  funext t
  cases t with
  | release => exact Bool.true_and _
  | _ => exact Bool.and_false _

/-- All that a task sees of the agenda is what running calls hold. -/
theorem carryOut_of_holds {rest' : List Task} (h : ∀ hold, Task.holds hold rest' = Task.holds hold rest) :
    t.carryOut s rest' = t.carryOut s rest := by
  cases t with
  | callOnce c =>
    cases c with
    | outside => rfl
    | effectEnd => rw [Task.carryOut, Task.carryOut, callOnce, callOnce, hasHost, hasHost, h]
  | release hold =>
    cases hold with
    | machine m =>
      have hheld : s.holdsMachine rest' m = s.holdsMachine rest m := by rw [holdsMachine, holdsMachine, h]
      rw [Task.carryOut, Task.carryOut, release, release, hheld]
    | queue q =>
      have hheld : s.holdsQueue rest' q = s.holdsQueue rest q := by rw [holdsQueue, holdsQueue, h]
      rw [Task.carryOut, Task.carryOut, release, release, hheld]
    | host => rfl
  | _ => rfl

end

end Stage

theorem OnceCall.isStill_of_isScriptless (c : OnceCall) (h : c.isScriptless = true) : c.isStill = true := by
  cases c with
  | outside => cases h
  | effectEnd => rfl

theorem ListenerCall.isStill_of_isScriptless (c : ListenerCall) (h : c.isScriptless = true) : c.isStill = true := by
  cases c with
  | outside => cases h
  | _ => rfl

theorem Finish.isStill_of_isScriptless (f : Finish) (h : f.isScriptless = true) : f.isStill = true := by
  cases f with
  | outside => cases h
  | _ => rfl

theorem Finish.all_isStill {f : Option Finish} (h : f.all Finish.isScriptless = true) : f.all Finish.isStill = true := by
  cases f with
  | none => rfl
  | some f => exact f.isStill_of_isScriptless h

theorem Job.isStill_of_isScriptless (job : Job) (h : job.isScriptless = true) : job.isStill = true := by
  obtain ⟨label, body, finish⟩ := job
  rw [isScriptless, Bool.and_eq_true] at h
  cases body with
  | outside => exact absurd h.1 Bool.false_ne_true
  | effect p => exact Finish.all_isStill h.2

theorem JobQueue.isStill_of_isScriptless (c : JobQueue) (h : c.isScriptless = true) : c.isStill = true := by
  rw [isScriptless, Bool.and_eq_true, List.all_eq_true] at h
  rw [isStill, Bool.and_eq_true, List.all_eq_true]
  exact ⟨fun job hjob => job.isStill_of_isScriptless (h.1 job hjob), Finish.all_isStill h.2⟩

/-- The rank of a task where dispatches and frames count. -/
def Task.height : Task → ℕ ×ₗ ℕ
  | .cue (.dispatch ..) | .cue .tick => toLex (6, 0)
  | .dispatch .. | .tick => toLex (5, 0)
  | .frame calls => toLex (4, calls.length)
  | .callFrame _ => toLex (2, 0)
  | t => t.rank

theorem Task.height_of_isStill {t : Task} (h : t.isStill = true) : t.height = t.rank := by
  cases t with
  | cue c =>
    cases c with
    | dispatch => cases h
    | tick => cases h
    | _ => rfl
  | dispatch | tick | frame | callFrame => cases h
  | _ => rfl

/-- The tasks that are not still though they bring no script. -/
def Task.isPulse : Task → Bool
  | .cue (.dispatch ..) | .cue .tick | .dispatch .. | .tick | .frame _ | .callFrame _ => true
  | _ => false

def Config.load (c : Config) : Multiset (ℕ ×ₗ ℕ) := c.agenda.map Task.height + c.stage.stored

namespace Stage

section
variable {s : Stage} {t : Task} {rest : List Task}

theorem isStill_of_isScriptless (h : t.isScriptless = true) (hpulse : t.isPulse = false) : t.isStill = true := by
  cases t with
  | script | settle | untilIdle => cases h
  | dispatch | tick | frame | callFrame => cases hpulse
  | cue c =>
    cases c with
    | listenOnce | addListener | nextFrame | hook | enqueue | effectJob | runUntilIdle => cases h
    | dispatch | tick => cases hpulse
    | _ => rfl
  | deliver once listeners ran =>
    rw [Task.isScriptless, Bool.and_eq_true, List.all_eq_true, List.all_eq_true] at h
    rw [Task.isStill, Bool.and_eq_true, List.all_eq_true, List.all_eq_true]
    exact ⟨fun c hc => c.isStill_of_isScriptless (h.1 c hc), fun l hl => l.2.isStill_of_isScriptless (h.2 l hl)⟩
  | callOnce c => exact c.isStill_of_isScriptless h
  | callListener c => exact c.isStill_of_isScriptless h
  | enqueue q job => exact job.isStill_of_isScriptless h
  | run body token =>
    cases body with
    | outside => cases h
    | effect => rfl
  | finish q f => exact f.isStill_of_isScriptless h
  | _ => rfl

/-- A dispatch or a frame leaves tasks that stand lower. -/
theorem height_of_isPulse (ht : t.isPulse = true) (hscriptless : ∀ t' ∈ (t.carryOut s rest).2, t'.isScriptless = true) :
    ∀ t' ∈ (t.carryOut s rest).2, t'.height < t.height := by
  have hmachine : ∀ {m : Nat} {slot : Slot} {anew : Bool}, ∀ t' ∈ (s.onMachine m [.fire m slot anew]).2,
      t'.height < toLex (2, 0) := by
    intro m slot anew t' ht'
    unfold onMachine at ht'
    split at ht'
    · simp only [List.cons_append, List.nil_append, List.mem_cons, List.not_mem_nil, or_false] at ht'
      rcases ht' with rfl | rfl
      · exact lt_level (by decide)
      · exact lt_level (by decide)
    · cases ht'
  cases t with
  | cue c =>
    cases c with
    | dispatch => simp [Task.carryOut, follow, Task.height, Prod.Lex.toLex_lt_toLex]
    | tick => simp [Task.carryOut, follow, Task.height, Prod.Lex.toLex_lt_toLex]
    | _ => cases ht
  | dispatch => simp [Task.carryOut, dispatch, Task.height, Task.rank, Prod.Lex.toLex_lt_toLex]
  | tick => simp [Task.carryOut, tick, Task.height, Task.rank, Task.kind, Kind.rank, Prod.Lex.toLex_lt_toLex]
  | frame calls =>
    cases calls with
    | nil => exact fun _ ht' => by cases ht'
    | cons c cs => simp [Task.carryOut, frame, Task.height, Prod.Lex.toLex_lt_toLex]
  | callFrame c =>
    cases c with
    | outside => exact absurd (hscriptless _ List.mem_cons_self) Bool.false_ne_true
    | react m slot => exact hmachine
    | resume m slot => exact hmachine
  | _ => cases ht

/-- What is less than the task, or than something that a queue no longer holds back, is all that comes in its place. -/
theorem lessens_heights (h : Scriptless ⟨s, t :: rest⟩) : ∃ held lost gained, s.stored = held + lost ∧
    (t.carryOut s rest).1.stored = held + gained ∧ (∀ r ∈ gained, ∃ r' ∈ t.height ::ₘ lost, r < r') ∧
    ∀ t' ∈ (t.carryOut s rest).2, ∃ r ∈ t.height ::ₘ lost, t'.height < r := by
  cases hpulse : t.isPulse with
  | true =>
    have hqueues : (t.carryOut s rest).1.queues = s.queues := by
      refine (within_carryOut s rest t).touched.agree .queues ?_
      cases t with
      | cue c =>
        cases c with
        | dispatch | tick => simp [Task.touches, Cue.touches]
        | _ => cases hpulse
      | dispatch | tick | frame | callFrame => simp [Task.touches]
      | _ => cases hpulse
    refine ⟨s.stored, 0, 0, (add_zero _).symm, (stored_congr hqueues).trans (add_zero _).symm, ?_, fun t' ht' => ?_⟩
    · exact fun r hr => absurd hr (Multiset.notMem_zero r)
    · exact ⟨t.height, Multiset.mem_cons_self _ _, height_of_isPulse hpulse (tasks_scriptless h) t' ht'⟩
  | false =>
    have hstill := isStill_of_isScriptless (h.agenda t List.mem_cons_self) hpulse
    -- only the still tasks behind it matter to a still task
    have hhushed : Hushed ⟨s, t :: rest.filter Task.isStill⟩ := {
      manners := h.manners
      hooks := fun script hscript => by
        rw [h.hooks] at hscript
        cases hscript
      queues := fun jq hjq => jq.isStill_of_isScriptless (h.queues jq hjq)
      agenda := fun t' ht' => by
        rcases List.mem_cons.1 ht' with rfl | ht'
        · exact hstill
        · exact (List.mem_filter.1 ht').2 }
    have hlessens := lessens_carryOut hhushed
    rw [carryOut_of_holds fun hold => holds_filter_isStill hold rest] at hlessens
    obtain ⟨held, lost, gained, hs, hs', hgained, hleft⟩ := hlessens.less
    rw [Task.height_of_isStill hstill]
    refine ⟨held, lost, gained, hs, hs', hgained, fun t' ht' => ?_⟩
    obtain ⟨r, hr, hstill', hlt⟩ := hleft t' ht'
    exact ⟨r, hr, Task.height_of_isStill hstill' ▸ hlt⟩

theorem load_after (h : Scriptless ⟨s, t :: rest⟩) :
    (Config.after s t rest).load.IsDershowitzMannaLT (Config.mk s (t :: rest)).load := by
  obtain ⟨held, lost, gained, hs, hs', hgained, hleft⟩ := lessens_heights h
  simp only [Config.load, Config.after, List.map_append, ← Multiset.coe_add, hs', List.map_cons, ← Multiset.cons_coe, hs]
  refine isDershowitzMannaLT_of_less hgained fun r hr => ?_
  obtain ⟨t', ht', rfl⟩ := List.mem_map.1 (Multiset.mem_coe.1 hr)
  exact hleft t' ht'

end

end Stage
open Stage

/-- **Without scripts everything comes to an end.** -/
theorem Scriptless.halts {c : Config} (h : Scriptless c) : ∃ n, (Config.run n c).agenda = [] := by
  have hfounded : WellFounded fun v w : Multiset (ℕ ×ₗ ℕ) => v.IsDershowitzMannaLT w :=
    Multiset.wellFounded_isDershowitzMannaLT
  generalize hw : c.load = w
  induction w using hfounded.induction generalizing c with
  | _ w ih =>
    obtain ⟨s, agenda⟩ := c
    cases agenda with
    | nil => exact ⟨0, rfl⟩
    | cons t rest =>
      obtain ⟨n, hn⟩ := ih _ (hw ▸ load_after h) (scriptless_after h) rfl
      exact ⟨n + 1, hn⟩

end Stagecraft
