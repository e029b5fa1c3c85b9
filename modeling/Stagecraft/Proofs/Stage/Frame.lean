import Stagecraft.Proofs.Machine.Hearing
import Stagecraft.Proofs.Stage.Footprint
/-!
# Every task keeps to its footprint

Function by function: what a task does not touch is as it was, and what it leaves to be done is of the kinds that it may
leave.
-/
namespace Stagecraft
namespace Stage

theorem kind_reflexes (s : Stage) (call : HostCall) (argument : String) (el : ElementId) :
    ∀ t ∈ s.reflexes call argument el, t.kind = .dispatch := by
  intro t ht
  obtain ⟨r, -, rfl⟩ := List.mem_map.1 ht
  rfl

theorem within_perform (s : Stage) (op : PageOp) : Within [.classes] [.dispatch] s (s.perform op) := by
  have hpage : Touched [.classes] s ((s.mapPage (·.perform op)).record (.op op)) := by
    refine (touched_page s _ (fun h => absurd (by decide) h) (fun _ => ?_) (fun _ => ?_)).trans (touched_record _ _ _)
    · cases op <;> exact ⟨rfl, rfl⟩
    · cases op <;> rfl
  cases op with
  | addClass el names => exact ⟨hpage, fun t ht => by rw [kind_reflexes s _ _ _ t ht]; decide⟩
  | removeClass el names => exact ⟨hpage, fun t ht => by rw [kind_reflexes s _ _ _ t ht]; decide⟩
  | flush el =>
    unfold perform
    simp only
    split
    · exact within_stay ..
    · exact ⟨hpage, fun t ht => by rw [kind_reflexes s _ _ _ t ht]; decide⟩

theorem within_attach (s : Stage) (el : ElementId) (event : String) (call : ListenerCall) (next : Nat → Task)
    {parts : List Part} {kinds : List Kind} (hparts : .listeners ∈ parts) (hdispatch : .dispatch ∈ kinds)
    (hnext : ∀ id, (next id).kind ∈ kinds) : Within parts kinds s (s.attach el event call next) := by
  refine ⟨touched_page s (·.addListener el event call) (fun _ => rfl) (fun h => absurd hparts h) (fun _ => rfl),
    fun t ht => ?_⟩
  rcases List.mem_append.1 ht with ht | ht
  · rw [kind_reflexes s _ _ _ t ht]
    exact hdispatch
  · rw [List.mem_singleton.1 ht]
    exact hnext _

theorem within_onMachine (s : Stage) (m : Nat) {tasks : List Task} {kinds : List Kind} (hrelease : .release ∈ kinds)
    (h : ∀ t ∈ tasks, t.kind ∈ kinds) : Within [] kinds s (s.onMachine m tasks) := by
  refine ⟨.refl [] s, ?_⟩
  unfold onMachine
  simp only
  split
  · intro t ht
    rcases List.mem_append.1 ht with ht | ht
    · exact h t ht
    · rw [List.mem_singleton.1 ht]
      exact hrelease
  · exact fun _ ht => by cases ht

theorem within_callListener (s : Stage) (c : ListenerCall) :
    Within [] [.fire, .transition, .release, .script] s (s.callListener c) := by
  cases c with
  | react m slot => exact within_onMachine s m (by decide) (by simp [Task.kind])
  | enter m state => exact within_onMachine s m (by decide) (by simp [Task.kind])
  | outside label script => exact ⟨touched_record .., by simp [callListener, Task.kind]⟩

theorem within_callFrame (s : Stage) (c : FrameCall) : Within [] [.fire, .release, .script] s (s.callFrame c) := by
  cases c with
  | react m slot => exact within_onMachine s m (by decide) (by simp [Task.kind])
  | resume m slot => exact within_onMachine s m (by decide) (by simp [Task.kind])
  | outside label script => exact ⟨touched_record .., by simp [callFrame, Task.kind]⟩

theorem within_callOnce (s : Stage) (agenda : List Task) (c : OnceCall) :
    Within [] [.perform, .release, .complete, .script] s (s.callOnce agenda c) := by
  cases c with
  | effectEnd el classes token =>
    unfold callOnce
    simp only
    split
    · refine ⟨.refl [] s, fun t ht => ?_⟩
      simp only [List.mem_append, List.mem_map, List.mem_cons, List.not_mem_nil, or_false] at ht
      rcases ht with ⟨_, -, rfl⟩ | rfl | rfl <;> simp [Task.kind]
    · exact ⟨.refl [] s, by simp [Task.kind]⟩
  | outside label script => exact ⟨touched_record .., by simp [callOnce, Task.kind]⟩

theorem within_deliver (s : Stage) :
    ∀ once listeners ran, Within [] [.callOnce, .callListener, .deliver] s (s.deliver once listeners ran)
  | c :: cs, ls, ran => ⟨.refl [] s, by simp [deliver, Task.kind]⟩
  | [], (id, c) :: ls, ran => by
    simp only [deliver]
    split
    · exact ⟨.refl [] s, by simp [Task.kind]⟩
    · exact ⟨.refl [] s, by simp [Task.kind]⟩
  | [], [], ran => within_nil (touched_reply ..)

theorem within_withMachine (s : Stage) (name : String) {f : Nat → Machine → Outcome} {parts : List Part}
    {kinds : List Kind} (h : ∀ m c, Within parts kinds s (f m c)) : Within parts kinds s (s.withMachine name f) := by
  unfold withMachine
  split
  · exact within_nil (touched_reply ..)
  · split
    · exact within_nil (touched_reply ..)
    · exact h ..

theorem within_submit (s : Stage) (queue : String) (job : Job) :
    Within [] [.enqueue, .release, .reply] s (s.submit queue job) := by
  unfold submit
  split
  · exact within_nil (touched_reply ..)
  · exact ⟨.refl [] s, by simp [Task.kind]⟩

theorem within_submitEffect (s : Stage) (queue effect : String) (el : ElementId) (settings : Settings)
    (finish : Option (List Cue)) :
    Within [] [.enqueue, .release, .reply] s (s.submitEffect queue effect el settings finish) := by
  unfold submitEffect
  split
  · split
    · exact within_nil (touched_reply ..)
    · rename_i e _
      have h := (undisturbed_prepare s settings e).touched []
      simp only
      split
      · exact within_nil (h.trans (touched_reply ..))
      · exact .after h (within_submit ..)
  · exact within_nil (touched_reply ..)

theorem within_nameQueue (s : Stage) (name : String) (q : Nat) {parts : List Part} (h : .queueNames ∈ parts) :
    Within parts [.release, .reply] s (s.nameQueue name q) := by
  refine ⟨⟨rfl, fun part hpart => ?_⟩, fun t ht => ?_⟩
  · cases part with
    | listeners => exact ⟨rfl, rfl⟩
    | queueNames => exact absurd h hpart
    | _ => rfl
  · unfold nameQueue at ht
    simp only [List.mem_append, List.mem_map, List.mem_singleton] at ht
    rcases ht with ⟨_, -, rfl⟩ | rfl <;> simp [Task.kind]

theorem within_withToken (s : Stage) (name : String) {f : Completion → Task} {kinds : List Kind}
    (h : ∀ c, (f c).kind ∈ kinds) (hreply : .reply ∈ kinds) : Within [.tokens] kinds s (s.withToken name f) := by
  unfold withToken
  split
  · refine ⟨⟨rfl, fun part hpart => ?_⟩, fun t ht => ?_⟩
    · cases part with
      | listeners => exact ⟨rfl, rfl⟩
      | tokens => exact absurd (by decide) hpart
      | _ => rfl
    · simp only [List.mem_cons, List.not_mem_nil, or_false] at ht
      rcases ht with rfl | rfl
      · exact h _
      · exact hreply
  · exact within_nil (touched_reply ..)

theorem within_build (s : Stage) (name : String) (el : ElementId) (settings : Settings) (hooked : Bool)
    (states : List Declaration) :
    Within [.makes, .wiring, .lives, .steps, .visible, .pending, .queues, .closings, .cast] [.release, .reply] s
      (s.build name el settings hooked states) := by
  unfold build
  split
  · refine .after ((undisturbed_declared el states s).touched _) ?_
    refine ⟨⟨rfl, fun part hpart => ?_⟩, fun t ht => ?_⟩
    · cases part with
      | listeners => exact ⟨rfl, rfl⟩
      | makes | wiring | lives | steps | visible | pending | queues | closings | cast => exact absurd (by decide) hpart
      | _ => rfl
    · simp only [castAs, List.mem_append, List.mem_map, List.mem_singleton] at ht
      rcases ht with ⟨_, -, rfl⟩ | rfl <;> simp [Task.kind]
  · exact within_nil (touched_reply ..)

theorem within_follow (s : Stage) (c : Cue) : Within c.touches c.leaves s (s.follow c) := by
  cases c with
  | addClass | removeClass =>
    refine within_nil (.trans (.trans (touched_page s _ (fun h => absurd (by simp [Cue.touches]) h) (fun _ => ?_)
      (fun _ => ?_)) (touched_record ..)) (touched_reply ..))
    · exact ⟨rfl, rfl⟩
    · rfl
  | flush => exact within_nil ((touched_record ..).trans (touched_reply ..))
  | listenOnce =>
    exact within_nil ((touched_page s _ (fun _ => rfl) (fun _ => ⟨rfl, rfl⟩)
      (fun h => absurd (by simp [Cue.touches]) h)).trans (touched_reply ..))
  | addListener | removeListener =>
    exact within_nil ((touched_page s _ (fun _ => rfl) (fun h => absurd (by simp [Cue.touches]) h)
      (fun _ => rfl)).trans (touched_reply ..))
  | registerSelector =>
    exact within_nil ((touched_page s _ (fun _ => rfl) (fun _ => ⟨rfl, rfl⟩) (fun _ => rfl)).trans (touched_reply ..))
  | select | hasClass | listenerCount | pendingOnce | unknown => exact within_nil (touched_reply ..)
  | dispatch | tick | runUntilIdle => exact ⟨.refl _ s, by simp [follow, Task.kind, Cue.leaves]⟩
  | nextFrame => exact within_nil ((touched_schedule s (by simp [Cue.touches]) _).trans (touched_reply ..))
  | resolve key body => exact within_nil (((undisturbed_resolve s key body).touched _).trans (touched_reply ..))
  | hook | unhook =>
    refine within_nil ⟨rfl, fun part hpart => ?_⟩
    cases part with
    | listeners => exact ⟨rfl, rfl⟩
    | hooks => exact absurd (by simp [Cue.touches]) hpart
    | _ => rfl
  | build => exact within_build ..
  | start | transition | visibility =>
    exact within_withMachine s _ fun m c => ⟨.refl _ s, by simp [Task.kind, Cue.leaves]⟩
  | hasState | step | debug => exact within_withMachine s _ fun m c => within_nil (touched_reply ..)
  | drop name =>
    unfold follow
    simp only
    split
    · refine ⟨⟨rfl, fun part hpart => ?_⟩, by simp [Task.kind, Cue.leaves]⟩
      cases part with
      | listeners => exact ⟨rfl, rfl⟩
      | cast => exact absurd (by simp [Cue.touches]) hpart
      | _ => rfl
    · exact within_nil (touched_reply ..)
  | dropHost =>
    refine within_nil ⟨rfl, fun part hpart => ?_⟩
    cases part with
    | listeners => exact ⟨rfl, rfl⟩
    | hosted => exact absurd (by simp [Cue.touches]) hpart
    | _ => rfl
  | queue name =>
    have h : Touched [.queues, .closings, .queueNames] s { s with queues := s.queues ++ [JobQueue.empty] } := by
      refine ⟨rfl, fun part hpart => ?_⟩
      cases part with
      | listeners => exact ⟨rfl, rfl⟩
      | queues | closings => exact absurd (by decide) hpart
      | _ => rfl
    exact .after h (within_nameQueue _ _ _ (by simp [Cue.touches]))
  | queueClone name copy =>
    unfold follow
    simp only
    split
    · exact within_nameQueue _ _ _ (by simp [Cue.touches])
    · exact within_nil (touched_reply ..)
  | queueDrop name =>
    unfold follow
    simp only
    split
    · refine ⟨⟨rfl, fun part hpart => ?_⟩, by simp [Task.kind, Cue.leaves]⟩
      cases part with
      | listeners => exact ⟨rfl, rfl⟩
      | queueNames => exact absurd (by simp [Cue.touches]) hpart
      | _ => rfl
    · exact within_nil (touched_reply ..)
  | enqueue => exact within_submit ..
  | effectJob => exact within_submitEffect ..
  | complete | dropToken => exact within_withToken s _ (fun _ => by simp [Task.kind, Cue.leaves]) (by simp [Cue.leaves])

theorem start?_closed {c c' : JobQueue} {job : Job} (h : c.start? = some (job, c')) : c'.closed = c.closed := by
  unfold JobQueue.start? at h
  split at h
  · cases h
    rfl
  · cases h

theorem takeFinish?_closed {c c' : JobQueue} {ticket : Nat} {f : Option Finish}
    (h : c.takeFinish? ticket = some (f, c')) : c'.closed = c.closed := by
  unfold JobQueue.takeFinish? at h
  split at h
  · split at h
    · cases h
      rfl
    · cases h
  · cases h

theorem within_pump (s : Stage) (q : Nat) : Within [.queues] [.run] s (s.pump q) := by
  unfold pump
  cases h : (s.queue? q).bind JobQueue.start? with
  | none => exact within_stay ..
  | some r =>
    obtain ⟨c, hc, hr⟩ := Option.bind_eq_some_iff.1 h
    refine ⟨(touched_mapQueue s (by decide) fun _ c' hc' => ?_).trans (touched_record ..), by simp [Task.kind]⟩
    rw [hc, Option.some.injEq] at hc'
    rw [start?_closed hr, hc']

theorem within_run (s : Stage) (body : JobBody) (token : Completion) :
    Within [] [.perform, .await, .release, .script, .settle] s (s.run body token) := by
  cases body with
  | effect p =>
    refine ⟨.refl _ s, fun t ht => ?_⟩
    unfold run at ht
    simp only [List.mem_append, List.mem_map, List.mem_singleton] at ht
    rcases ht with ((⟨_, -, rfl⟩ | rfl) | ⟨_, -, rfl⟩) | rfl <;> simp [Task.kind]
  | outside name script fate =>
    refine ⟨touched_record .., fun t ht => ?_⟩
    unfold run at ht
    simp only at ht
    split at ht <;> simp only [List.mem_cons, List.not_mem_nil, or_false] at ht <;>
      rcases ht with rfl | rfl <;> simp [Task.kind]

theorem within_settle (s : Stage) (name : String) (fate : Fate) (token : Completion) :
    Within [.tokens] [.complete, .lose] s (s.settle name fate token) := by
  cases fate with
  | complete => exact ⟨.refl _ s, by simp [settle, Task.kind]⟩
  | drop => exact ⟨.refl _ s, by simp [settle, Task.kind]⟩
  | park | lend =>
    refine ⟨⟨rfl, fun part hpart => ?_⟩, fun t ht => ?_⟩
    · cases part with
      | listeners => exact ⟨rfl, rfl⟩
      | tokens => exact absurd (by decide) hpart
      | _ => rfl
    · obtain ⟨_, -, rfl⟩ := List.mem_map.1 ht
      simp [Task.kind]

theorem within_complete (s : Stage) (token : Completion) :
    Within [.queues] [.finish, .jobOver, .pump, .release] s (s.complete token) := by
  unfold complete
  split
  · cases h : (s.queue? token.queue).bind (·.takeFinish? token.ticket) with
    | none => exact within_stay ..
    | some r =>
      obtain ⟨c, hc, hr⟩ := Option.bind_eq_some_iff.1 h
      refine ⟨touched_mapQueue s (by decide) fun _ c' hc' => ?_, fun t ht => ?_⟩
      · rw [hc, Option.some.injEq] at hc'
        rw [takeFinish?_closed hr, hc']
      · simp only [List.mem_append, List.mem_map, List.mem_cons, List.not_mem_nil, or_false] at ht
        rcases ht with ⟨_, -, rfl⟩ | rfl | rfl | rfl <;> simp [Task.kind]
  · exact within_stay ..

theorem within_lose (s : Stage) (token : Completion) : Within [] [] s (s.lose token) := by
  unfold lose
  split
  · exact within_nil (touched_record ..)
  · exact within_stay ..

theorem within_finish (s : Stage) (f : Finish) :
    Within [] [.conclude, .stepOver, .release, .script] s (s.finish f) := by
  cases f with
  | reaction m slot =>
    refine ⟨.refl _ s, ?_⟩
    unfold finish
    simp only
    split <;> simp [Task.kind]
  | sequenceStep m slot k =>
    refine ⟨.refl _ s, ?_⟩
    unfold finish
    simp only
    split <;> simp [Task.kind]
  | outside label script => exact ⟨touched_record .., by simp [finish, Task.kind]⟩

theorem within_transition (s : Stage) (m : Nat) (state : String) :
    Within [.wiring] [.detach, .arrive] s (s.transition m state) := by
  unfold transition
  split
  · exact within_stay ..
  · split
    · exact ⟨.refl _ s, by simp [Task.kind]⟩
    · refine ⟨touched_wiring s m fun _ => ⟨rfl, rfl, rfl, rfl, rfl⟩,
        fun t ht => ?_⟩
      simp only [List.mem_append, List.mem_map, List.mem_singleton] at ht
      rcases ht with ⟨_, -, rfl⟩ | rfl <;> simp [Task.kind]

theorem within_arrive (s : Stage) (m : Nat) (state : String) (again : Bool) :
    Within [.wiring] [.bind] s (s.arrive m state again) := by
  have h : Touched [.wiring] s
      (s.mapMachine m fun c => { c with current := if again then c.current else some state }) :=
    touched_wiring s m fun _ => ⟨rfl, rfl, rfl, rfl, rfl⟩
  unfold arrive
  refine .after h ?_
  simp only
  generalize (s.mapMachine m fun c => { c with current := if again then c.current else some state }) = s'
  split
  · exact within_stay ..
  · split
    · exact within_nil (touched_record ..)
    · refine ⟨touched_record .., fun t ht => ?_⟩
      obtain ⟨_, -, rfl⟩ := List.mem_map.1 ht
      simp [Task.kind]

theorem within_bind (s : Stage) (m : Nat) (slot : Slot) (again : Bool) :
    Within [.frames, .listeners] [.dispatch, .bound] s (s.bind m slot again) := by
  unfold bind
  split
  · exact within_stay ..
  · split
    · exact within_stay ..
    · exact within_nil (touched_schedule s (by decide) _)
    · split
      · exact within_stay ..
      · exact within_attach s _ _ _ _ (by decide) (by decide) fun _ => by simp [Task.kind]

theorem within_fire (s : Stage) (m : Nat) (slot : Slot) (anew : Bool) :
    Within [] [.hook, .act] s (s.fire m slot anew) := by
  unfold fire
  split
  · exact within_stay ..
  · split
    · exact within_stay ..
    · exact ⟨touched_record .., by simp [Task.kind]⟩

theorem within_hook (s : Stage) (m : Nat) (name : Option String) (state : String) :
    Within [] [.script] s (s.hook m name state) := by
  unfold hook
  split
  · split
    · exact ⟨touched_record .., by simp [Task.kind]⟩
    · exact within_nil (touched_record ..)
  · exact within_stay ..

theorem within_runAll (s : Stage) (c : Machine) (m : Nat) (slot : Slot) (r : Reaction) :
    Within [] [.conclude, .enqueue] s (s.runAll c m slot r) := by
  have h := (undisturbed_jobs c r.actions s).touched []
  unfold runAll
  split
  · rename_i s' heq
    rw [heq] at h
    exact ⟨h.trans (touched_record ..), by simp [Task.kind]⟩
  · rename_i s' js _ heq
    rw [heq] at h
    refine ⟨h, fun t ht => ?_⟩
    obtain ⟨_, -, rfl⟩ := List.mem_map.1 ht
    simp [Task.kind]

theorem touched_setStep (s : Stage) (m : Nat) (slot : Slot) (step : Option Nat) {parts : List Part}
    (h : .steps ∈ parts) : Touched parts s (s.mapMachine m (·.setStep slot step)) :=
  touched_mapMachine s m (fun _ _ => rfl) (fun _ _ => rfl) (fun _ _ => rfl) (fun hs => absurd h hs) (fun _ _ => rfl)
    (fun _ _ => rfl)

theorem within_runNext (s : Stage) (c : Machine) (m : Nat) (slot : Slot) (r : Reaction) (kind : EffectKind) :
    Within [.steps] [.enqueue] s (s.runNext c m slot r kind) := by
  unfold runNext
  simp only
  split
  · exact within_nil (touched_record ..)
  · rename_i step _
    have h := (undisturbed_prepare s c.settings (.step kind step)).touched [.steps]
    split
    · exact within_nil (h.trans (touched_setStep _ m slot none (by decide)))
    · exact ⟨h.trans (touched_setStep _ m slot _ (by decide)), by simp [Task.kind]⟩

theorem within_act (s : Stage) (m : Nat) (slot : Slot) :
    Within [.steps] [.jump, .conclude, .enqueue] s (s.act m slot) := by
  unfold act
  split
  · exact within_stay ..
  · split
    · exact within_stay ..
    · split
      · exact ⟨.refl _ s, by simp [Task.kind]⟩
      · split
        · exact (within_runAll ..).mono (by decide) (by decide)
        · exact (within_runNext ..).mono (by decide) (by decide)

theorem within_conclude (s : Stage) (m : Nat) (slot : Slot) : Within [] [.jump, .hook] s (s.conclude m slot) := by
  refine ⟨.refl _ s, ?_⟩
  unfold conclude
  simp only
  split <;> simp [Task.kind]

theorem within_stepOver (s : Stage) (m : Nat) (slot : Slot) (step : Nat) :
    Within [.frames, .steps] [.conclude] s (s.stepOver m slot step) := by
  unfold stepOver
  split
  · exact within_stay ..
  · split
    · exact within_nil (touched_schedule s (by decide) _)
    · exact ⟨touched_setStep s m slot none (by decide), by simp [Task.kind]⟩

theorem within_jump (s : Stage) (m : Nat) (slot : Slot) :
    Within [.wiring] [.detach, .transition] s (s.jump m slot) := by
  unfold jump
  split
  · exact within_stay ..
  · split
    · exact within_stay ..
    · split
      · exact within_stay ..
      · split
        · exact ⟨touched_wiring s m fun _ => ⟨rfl, rfl, rfl, rfl, rfl⟩, by simp [Task.kind]⟩
        · exact ⟨.refl _ s, by simp [Task.kind]⟩

theorem within_start (s : Stage) (m : Nat) (visible : Bool) :
    Within [.pending] [.install, .appear] s (s.start m visible) := by
  unfold start
  split
  · exact within_stay ..
  · refine ⟨touched_mapMachine s m (fun _ _ => rfl) (fun _ _ => rfl) (fun _ _ => rfl) (fun _ _ => rfl) (fun _ _ => rfl)
      (fun h => absurd (by decide) h), fun t ht => ?_⟩
    simp only [List.mem_append, List.mem_map, List.mem_singleton] at ht
    rcases ht with ⟨⟨_, _⟩, -, rfl⟩ | rfl <;> simp [Task.kind]

theorem within_install (s : Stage) (m : Nat) (state : String) (trigger : Trigger) :
    Within [] [.watch] s (s.install m state trigger) := by
  unfold install
  split
  · exact within_nil (touched_record ..)
  · refine ⟨?_, fun t ht => ?_⟩
    · simp only
      split
      · exact touched_record ..
      · exact .refl _ s
    · obtain ⟨_, -, rfl⟩ := List.mem_map.1 ht
      simp [Task.kind]

theorem touched_visible (s : Stage) (m : Nat) (visible : Bool) :
    Touched [.visible] s (s.mapMachine m fun c => { c with visible := some visible }) :=
  touched_mapMachine s m (fun _ _ => rfl) (fun _ _ => rfl) (fun _ _ => rfl) (fun _ _ => rfl)
    (fun h => absurd (by decide) h) (fun _ _ => rfl)

theorem within_appear (s : Stage) (m : Nat) (visible : Bool) :
    Within [.visible] [.transition, .enterDefault] s (s.appear m visible) := by
  unfold appear
  split
  · exact within_stay ..
  · split
    · refine ⟨touched_visible s m visible, ?_⟩
      simp only
      split <;> simp [Task.kind]
    · exact ⟨.refl _ s, by simp [Task.kind]⟩

theorem within_enterDefault (s : Stage) (m : Nat) : Within [] [.transition] s (s.enterDefault m) := by
  unfold enterDefault
  split
  · exact within_stay ..
  · refine ⟨.refl _ s, ?_⟩
    simp only
    split <;> simp [Task.kind]

theorem within_visibility (s : Stage) (m : Nat) (visible : Bool) :
    Within [.visible] [.transition] s (s.visibility m visible) := by
  unfold visibility
  split
  · exact within_stay ..
  · split
    · exact ⟨touched_visible s m visible, by simp [Task.kind]⟩
    · exact within_stay ..

theorem within_release (s : Stage) (agenda : List Task) (h : Hold) :
    Within (Task.release h).touches (Task.release h).leaves s (s.release agenda h) := by
  cases h with
  | machine m =>
    simp only [release, Task.touches, Task.leaves]
    split
    · exact within_stay ..
    · split
      · refine ⟨touched_mapMachine s m (fun _ _ => rfl) (fun h => absurd (by decide) h) (fun h => absurd (by decide) h)
          (fun _ _ => rfl) (fun _ _ => rfl) (fun _ _ => rfl), fun t ht => ?_⟩
        simp only [List.mem_append, List.mem_map, List.mem_singleton] at ht
        rcases ht with (⟨_, -, rfl⟩ | ⟨_, -, rfl⟩) | rfl <;> simp [Task.kind]
      · exact within_stay ..
  | queue q =>
    simp only [release, Task.touches, Task.leaves]
    split
    · exact within_stay ..
    · exact within_nil (touched_mapQueue s (by decide) fun h => absurd (by decide) h)
  | host => exact within_stay ..

theorem within_closed (s : Stage) (m : Nat) : Within [.wiring, .lives] [.release] s (s.closed m) := by
  unfold closed
  split
  · exact within_stay ..
  · exact ⟨touched_mapMachine s m (fun _ _ => rfl) (fun h => absurd (by decide) h) (fun h => absurd (by decide) h)
      (fun _ _ => rfl) (fun _ _ => rfl) (fun _ _ => rfl), by simp [Task.kind]⟩

theorem within_frameOver (s : Stage) (index : UInt64) (ran : Nat) : Within [] [] s (s.frameOver index ran) := by
  unfold frameOver
  split
  · exact within_nil (touched_reply ..)
  · exact within_nil ((touched_record ..).trans (touched_reply ..))

theorem within_untilIdle (s : Stage) (most ran : Nat) : Within [] [.tick, .untilIdle] s (s.untilIdle most ran) := by
  unfold untilIdle
  split
  · exact ⟨.refl _ s, by simp [Task.kind]⟩
  · exact within_nil (touched_reply ..)

theorem within_dispatch (s : Stage) (el : ElementId) (event : String) :
    Within [.waiting] [.deliver] s (s.dispatch el event) :=
  ⟨touched_page s (·.forget el event) (fun _ => rfl) (fun _ => ⟨rfl, rfl⟩) (fun h => absurd (by decide) h),
    by simp [dispatch, Task.kind]⟩

theorem within_await (s : Stage) (el : ElementId) (event : String) (call : OnceCall) :
    Within [.waiting] [.dispatch] s (s.await el event call) :=
  ⟨touched_page s (·.listenOnce el event call) (fun _ => rfl) (fun _ => ⟨rfl, rfl⟩) (fun h => absurd (by decide) h),
    fun t ht => by rw [kind_reflexes s _ _ _ t ht]; decide⟩

theorem within_detach (s : Stage) (el : ElementId) (id : Nat) : Within [.listeners] [.dispatch] s (s.detach el id) :=
  ⟨touched_page s (·.removeListener el id) (fun _ => rfl) (fun h => absurd (by decide) h) (fun _ => rfl),
    fun t ht => by rw [kind_reflexes s _ _ _ t ht]; decide⟩

theorem within_tick (s : Stage) : Within [.frames] [.frame, .frameOver] s s.tick := by
  refine ⟨⟨rfl, fun part hpart => ?_⟩, by simp [tick, Task.kind]⟩
  cases part with
  | listeners => exact ⟨rfl, rfl⟩
  | frames => exact absurd (by decide) hpart
  | _ => rfl

theorem within_enqueue (s : Stage) (q : Nat) (job : Job) : Within [.queues] [.pump] s (s.enqueue q job) :=
  ⟨(touched_record ..).trans (touched_mapQueue _ (by decide) fun _ _ _ => rfl), by simp [enqueue, Task.kind]⟩

theorem within_bound (s : Stage) (m index id : Nat) : Within [.wiring] [] s (s.bound m index id) := by
  refine within_nil (touched_wiring s m fun c => ?_)
  rw [c.bind_eq]
  exact ⟨rfl, rfl, rfl, rfl, rfl⟩

theorem within_watch (s : Stage) (m : Nat) (el : ElementId) (event state : String) :
    Within [.listeners] [.dispatch, .watched] s (s.watch m el event state) :=
  within_attach s _ _ _ _ (by decide) (by decide) fun _ => by simp [Task.kind]

theorem within_watched (s : Stage) (m : Nat) (el : ElementId) (id : Nat) :
    Within [.wiring] [] s (s.watched m el id) :=
  within_nil (touched_wiring s m fun _ => ⟨rfl, rfl, rfl, rfl, rfl⟩)

/-- **Every task keeps to its footprint**: it changes no part of the stage that it does not touch, and leaves only tasks
of the kinds that it may leave. -/
theorem within_carryOut (s : Stage) (agenda : List Task) (t : Task) :
    Within t.touches t.leaves s (t.carryOut s agenda) := by
  cases t with
  | cue c => exact within_follow s c
  | script cues =>
    cases cues with
    | nil => exact within_stay ..
    | cons c cs => exact ⟨.refl _ s, by simp [Task.carryOut, script, Task.kind, Task.leaves]⟩
  | reply => exact within_nil (touched_reply ..)
  | report => exact within_nil (touched_record ..)
  | dispatch => exact within_dispatch ..
  | deliver => exact within_deliver ..
  | callOnce => exact within_callOnce ..
  | callListener => exact within_callListener ..
  | perform => exact within_perform ..
  | await => exact within_await ..
  | detach => exact within_detach ..
  | tick => exact within_tick s
  | frame calls =>
    cases calls with
    | nil => exact within_stay ..
    | cons c cs => exact ⟨.refl _ s, by simp [Task.carryOut, frame, Task.kind, Task.leaves]⟩
  | callFrame => exact within_callFrame ..
  | frameOver => exact within_frameOver ..
  | untilIdle => exact within_untilIdle ..
  | enqueue => exact within_enqueue ..
  | pump => exact within_pump ..
  | run => exact within_run ..
  | settle => exact within_settle ..
  | complete => exact within_complete ..
  | lose => exact within_lose ..
  | finish => exact within_finish ..
  | jobOver => exact within_nil (touched_mapQueue s (by simp [Task.touches]) fun _ _ _ => rfl)
  | transition => exact within_transition ..
  | arrive => exact within_arrive ..
  | bind => exact within_bind ..
  | bound => exact within_bound ..
  | fire => exact within_fire ..
  | hook => exact within_hook ..
  | act => exact within_act ..
  | conclude => exact within_conclude ..
  | stepOver => exact within_stepOver ..
  | jump => exact within_jump ..
  | start => exact within_start ..
  | install => exact within_install ..
  | watch => exact within_watch ..
  | watched => exact within_watched ..
  | appear => exact within_appear ..
  | enterDefault => exact within_enterDefault ..
  | visibility => exact within_visibility ..
  | release hold => exact within_release ..
  | closed => exact within_closed ..

end Stage
end Stagecraft
