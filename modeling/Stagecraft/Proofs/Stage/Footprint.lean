import Stagecraft.Proofs.Stage.Reports
/-!
# Footprints

What each task may change on a stage, and what it may leave to be done: the words for it, and what is known of each kind
of change.
-/
namespace Stagecraft

/-- The machine without what it knows beside its listeners: how far its sequences have come, what it has seen, and
which triggers still wait. -/
def Machine.wiring (c : Machine) : Machine := { c with steps := {}, visible := none, pending := [] }

/-- What a machine was built with. -/
def Machine.made (c : Machine) : Machine :=
  { c with current := none, bindings := [], steps := {}, visible := none, pending := [], triggers := [], life := .live }

/-- The parts of a stage that its tasks work on. -/
inductive Part
  | classes
  | listeners
  /-- The calls that wait for an event. -/
  | waiting
  /-- The calls that wait for a frame. -/
  | frames
  | hooks
  | hosted
  /-- What the machines were built with. -/
  | makes
  | wiring
  /-- Whether machines are in use, and the queues that they have. -/
  | lives
  | steps
  | visible
  | pending
  | cast
  | queues
  /-- Whether queues are in use. -/
  | closings
  | queueNames
  | tokens
  deriving DecidableEq

/-- What a task is, without what it is about. -/
inductive Kind
  | script | cue | reply | report | dispatch | deliver | callOnce | callListener | perform | await | detach
  | tick | frame | callFrame | frameOver | untilIdle
  | enqueue | pump | run | settle | complete | lose | finish | jobOver
  | transition | arrive | bind | bound | fire | hook | act | conclude | stepOver | jump
  | start | install | watch | watched | appear | enterDefault | visibility | release | closed
  deriving DecidableEq

def Task.kind : Task → Kind
  | .script .. => .script
  | .cue .. => .cue
  | .reply .. => .reply
  | .report .. => .report
  | .dispatch .. => .dispatch
  | .deliver .. => .deliver
  | .callOnce .. => .callOnce
  | .callListener .. => .callListener
  | .perform .. => .perform
  | .await .. => .await
  | .detach .. => .detach
  | .tick => .tick
  | .frame .. => .frame
  | .callFrame .. => .callFrame
  | .frameOver .. => .frameOver
  | .untilIdle .. => .untilIdle
  | .enqueue .. => .enqueue
  | .pump .. => .pump
  | .run .. => .run
  | .settle .. => .settle
  | .complete .. => .complete
  | .lose .. => .lose
  | .finish .. => .finish
  | .jobOver .. => .jobOver
  | .transition .. => .transition
  | .arrive .. => .arrive
  | .bind .. => .bind
  | .bound .. => .bound
  | .fire .. => .fire
  | .hook .. => .hook
  | .act .. => .act
  | .conclude .. => .conclude
  | .stepOver .. => .stepOver
  | .jump .. => .jump
  | .start .. => .start
  | .install .. => .install
  | .watch .. => .watch
  | .watched .. => .watched
  | .appear .. => .appear
  | .enterDefault .. => .enterDefault
  | .visibility .. => .visibility
  | .release .. => .release
  | .closed .. => .closed

/-! ## What a task may change -/

def Cue.touches : Cue → List Part
  | .addClass .. | .removeClass .. => [.classes]
  | .listenOnce .. => [.waiting]
  | .addListener .. | .removeListener .. => [.listeners]
  | .nextFrame .. => [.frames]
  | .hook .. | .unhook .. => [.hooks]
  | .build .. => [.makes, .wiring, .lives, .steps, .visible, .pending, .queues, .closings, .cast]
  | .drop .. => [.cast]
  | .dropHost => [.hosted]
  | .queue .. => [.queues, .closings, .queueNames]
  | .queueClone .. | .queueDrop .. => [.queueNames]
  | .complete .. | .dropToken .. => [.tokens]
  | _ => []

def Task.touches : Task → List Part
  | .cue c => c.touches
  | .perform .. => [.classes]
  | .dispatch .. | .await .. => [.waiting]
  | .detach .. | .watch .. => [.listeners]
  | .tick => [.frames]
  | .enqueue .. | .pump .. | .complete .. | .jobOver .. => [.queues]
  | .settle .. => [.tokens]
  | .transition .. | .arrive .. | .bound .. | .jump .. | .watched .. => [.wiring]
  | .closed .. => [.wiring, .lives]
  | .bind .. => [.frames, .listeners]
  | .act .. => [.steps]
  | .stepOver .. => [.frames, .steps]
  | .start .. => [.pending]
  | .appear .. | .visibility .. => [.visible]
  | .release (.machine _) => [.wiring, .lives]
  | .release (.queue _) => [.queues, .closings]
  | _ => []

/-! ## What a task may leave to be done -/

def Cue.leaves : Cue → List Kind
  | .dispatch .. => [.dispatch]
  | .tick => [.tick]
  | .runUntilIdle .. => [.untilIdle]
  | .build .. | .drop .. | .queue .. | .queueClone .. | .queueDrop .. => [.release, .reply]
  | .start .. => [.start, .release, .reply]
  | .transition .. => [.transition, .release, .reply]
  | .visibility .. => [.visibility, .release, .reply]
  | .enqueue .. | .effectJob .. => [.enqueue, .release, .reply]
  | .complete .. => [.complete, .reply]
  | .dropToken .. => [.lose, .reply]
  | _ => []

def Task.leaves : Task → List Kind
  | .script .. => [.cue, .report, .script]
  | .cue c => c.leaves
  | .dispatch .. => [.deliver]
  | .deliver .. => [.callOnce, .callListener, .deliver]
  | .callOnce .. => [.perform, .release, .complete, .script]
  | .callListener .. => [.fire, .transition, .release, .script]
  | .perform .. | .await .. | .detach .. => [.dispatch]
  | .tick => [.frame, .frameOver]
  | .frame .. => [.callFrame, .frame]
  | .callFrame .. => [.fire, .release, .script]
  | .untilIdle .. => [.tick, .untilIdle]
  | .enqueue .. => [.pump]
  | .pump .. => [.run]
  | .run .. => [.perform, .await, .release, .script, .settle]
  | .settle .. => [.complete, .lose]
  | .complete .. => [.finish, .jobOver, .pump, .release]
  | .finish .. => [.conclude, .stepOver, .release, .script]
  | .transition .. => [.detach, .arrive]
  | .arrive .. => [.bind]
  | .bind .. => [.dispatch, .bound]
  | .fire .. => [.hook, .act]
  | .hook .. => [.script]
  | .act .. => [.jump, .conclude, .enqueue]
  | .conclude .. => [.jump, .hook]
  | .stepOver .. => [.conclude]
  | .jump .. => [.detach, .transition]
  | .start .. => [.install, .appear]
  | .install .. => [.watch]
  | .watch .. => [.dispatch, .watched]
  | .appear .. => [.transition, .enterDefault]
  | .enterDefault .. | .visibility .. => [.transition]
  | .release (.machine _) => [.detach, .closed]
  | .closed .. => [.release]
  | _ => []

namespace Stage

/-- The two stages have a part in common. -/
def Agree (s s' : Stage) : Part → Prop
  | .classes => s'.page.classes = s.page.classes
  | .listeners => s'.page.listeners = s.page.listeners ∧ s'.page.lastId = s.page.lastId
  | .waiting => s'.page.waiting = s.page.waiting
  | .frames => s'.frames.waiting = s.frames.waiting
  | .hooks => s'.hooks = s.hooks
  | .hosted => s'.hosted = s.hosted
  | .makes => s'.machines.map Machine.made = s.machines.map Machine.made
  | .wiring => s'.machines.map Machine.wiring = s.machines.map Machine.wiring
  | .lives => s'.machines.map (fun c => (c.life, c.queue)) = s.machines.map fun c => (c.life, c.queue)
  | .steps => s'.machines.map Machine.steps = s.machines.map Machine.steps
  | .visible => s'.machines.map Machine.visible = s.machines.map Machine.visible
  | .pending => s'.machines.map Machine.pending = s.machines.map Machine.pending
  | .cast => s'.cast = s.cast
  | .queues => s'.queues = s.queues
  | .closings => s'.queues.map JobQueue.closed = s.queues.map JobQueue.closed
  | .queueNames => s'.queueNames = s.queueNames
  | .tokens => s'.tokens = s.tokens

/-- At most these parts have changed; the manners never do. -/
structure Touched (parts : List Part) (s s' : Stage) : Prop where
  manners : s'.manners = s.manners
  agree : ∀ part, part ∉ parts → Agree s s' part

theorem Agree.refl (s : Stage) (part : Part) : Agree s s part := by
  cases part with
  | listeners => exact ⟨rfl, rfl⟩
  | _ => rfl

theorem Agree.trans {s s' s'' : Stage} {part : Part} (h : Agree s s' part) (h' : Agree s' s'' part) :
    Agree s s'' part := by
  cases part with
  | listeners => exact ⟨h'.1.trans h.1, h'.2.trans h.2⟩
  | _ => exact Eq.trans h' h

namespace Touched

theorem refl (parts : List Part) (s : Stage) : Touched parts s s := ⟨rfl, fun part _ => .refl s part⟩

theorem trans {parts : List Part} {s s' s'' : Stage} (h : Touched parts s s') (h' : Touched parts s' s'') :
    Touched parts s s'' :=
  ⟨h'.manners.trans h.manners, fun part hp => (h.agree part hp).trans (h'.agree part hp)⟩

end Touched

theorem Undisturbed.touched {s s' : Stage} (h : Undisturbed s s') (parts : List Part) : Touched parts s s' := by
  refine ⟨h.manners, fun part _ => ?_⟩
  cases part with
  | classes => exact by rw [Agree, h.page]
  | listeners => exact ⟨by rw [h.page], by rw [h.page]⟩
  | waiting => exact by rw [Agree, h.page]
  | frames => exact by rw [Agree, h.frames]
  | hooks => exact h.hooks
  | hosted => exact h.hosted
  | makes => exact by rw [Agree, h.machines]
  | wiring => exact by rw [Agree, h.machines]
  | lives => exact by rw [Agree, h.machines]
  | steps => exact by rw [Agree, h.machines]
  | visible => exact by rw [Agree, h.machines]
  | pending => exact by rw [Agree, h.machines]
  | cast => exact h.cast
  | queues => exact h.queues
  | closings => exact by rw [Agree, h.queues]
  | queueNames => exact h.queueNames
  | tokens => exact h.tokens

theorem map_modify_of_eq {α β : Type} {g : α → β} {f : α → α} {as : List α} {i : Nat}
    (h : ∀ a, as[i]? = some a → g (f a) = g a) : (as.modify i f).map g = as.map g := by
  refine List.ext_getElem? fun j => ?_
  simp only [List.getElem?_map, List.getElem?_modify]
  cases hj : as[j]? with
  | none => rfl
  | some a =>
    by_cases hij : i = j
    · subst hij
      simp [h a hj]
    · simp [hij]

/-- A change of a machine touches those parts of it that it does not keep. -/
theorem touched_mapMachine (s : Stage) (m : Nat) {f : Machine → Machine} {parts : List Part}
    (hm : .makes ∉ parts → ∀ c, (f c).made = c.made) (hw : .wiring ∉ parts → ∀ c, (f c).wiring = c.wiring)
    (hl : .lives ∉ parts → ∀ c, ((f c).life, (f c).queue) = (c.life, c.queue))
    (hs : .steps ∉ parts → ∀ c, (f c).steps = c.steps) (hv : .visible ∉ parts → ∀ c, (f c).visible = c.visible)
    (hp : .pending ∉ parts → ∀ c, (f c).pending = c.pending) : Touched parts s (s.mapMachine m f) := by
  refine ⟨rfl, fun part hpart => ?_⟩
  cases part with
  | listeners => exact ⟨rfl, rfl⟩
  | makes => exact map_modify_of_eq fun c _ => hm hpart c
  | wiring => exact map_modify_of_eq fun c _ => hw hpart c
  | lives => exact map_modify_of_eq fun c _ => hl hpart c
  | steps => exact map_modify_of_eq fun c _ => hs hpart c
  | visible => exact map_modify_of_eq fun c _ => hv hpart c
  | pending => exact map_modify_of_eq fun c _ => hp hpart c
  | _ => rfl

theorem touched_wiring (s : Stage) (m : Nat) {f : Machine → Machine}
    (h : ∀ c, (f c).made = c.made ∧ (f c).life = c.life ∧ (f c).steps = c.steps ∧ (f c).visible = c.visible ∧
      (f c).pending = c.pending) : Touched [.wiring] s (s.mapMachine m f) := by
  have hqueue : ∀ c, (f c).queue = c.queue := fun c => (congrArg Machine.queue (h c).1 :)
  exact touched_mapMachine s m (fun _ c => (h c).1) (fun h => absurd (by decide) h)
    (fun _ c => by rw [(h c).2.1, hqueue])
    (fun _ c => (h c).2.2.1) (fun _ c => (h c).2.2.2.1) (fun _ c => (h c).2.2.2.2)

theorem touched_page (s : Stage) {parts : List Part} (f : Page ListenerCall OnceCall → Page ListenerCall OnceCall)
    (hc : .classes ∉ parts → (f s.page).classes = s.page.classes)
    (hl : .listeners ∉ parts → (f s.page).listeners = s.page.listeners ∧ (f s.page).lastId = s.page.lastId)
    (hw : .waiting ∉ parts → (f s.page).waiting = s.page.waiting) : Touched parts s (s.mapPage f) := by
  refine ⟨rfl, fun part hpart => ?_⟩
  cases part with
  | classes => exact hc hpart
  | listeners => exact hl hpart
  | waiting => exact hw hpart
  | _ => rfl

theorem touched_schedule (s : Stage) {parts : List Part} (h : .frames ∈ parts) (c : FrameCall) :
    Touched parts s (s.schedule c) := by
  refine ⟨rfl, fun part hpart => ?_⟩
  cases part with
  | listeners => exact ⟨rfl, rfl⟩
  | frames => exact absurd h hpart
  | _ => rfl

theorem touched_mapQueue (s : Stage) {parts : List Part} (h : .queues ∈ parts) {q : Nat} {f : JobQueue → JobQueue}
    (hc : .closings ∉ parts → ∀ c, s.queue? q = some c → (f c).closed = c.closed) :
    Touched parts s (s.mapQueue q f) := by
  refine ⟨rfl, fun part hpart => ?_⟩
  cases part with
  | listeners => exact ⟨rfl, rfl⟩
  | queues => exact absurd h hpart
  | closings => exact map_modify_of_eq (hc hpart)
  | _ => rfl

/-- The outcome of something that touches these parts and leaves tasks of these kinds. -/
structure Within (parts : List Part) (kinds : List Kind) (s : Stage) (o : Outcome) : Prop where
  touched : Touched parts s o.1
  kinds : ∀ t ∈ o.2, t.kind ∈ kinds

theorem within_nil {parts : List Part} {kinds : List Kind} {s s' : Stage} (h : Touched parts s s') :
    Within parts kinds s (s', []) := ⟨h, fun _ ht => by cases ht⟩

theorem within_stay (parts : List Part) (kinds : List Kind) (s : Stage) : Within parts kinds s (s, []) :=
  within_nil (.refl parts s)

theorem Within.after {parts : List Part} {kinds : List Kind} {s s' : Stage} {o : Outcome} (h : Touched parts s s')
    (ho : Within parts kinds s' o) : Within parts kinds s o := ⟨h.trans ho.touched, ho.kinds⟩

theorem Within.mono {parts parts' : List Part} {kinds kinds' : List Kind} {s : Stage} {o : Outcome}
    (h : Within parts kinds s o) (hp : ∀ part ∈ parts, part ∈ parts') (hk : ∀ kind ∈ kinds, kind ∈ kinds') :
    Within parts' kinds' s o :=
  ⟨⟨h.touched.manners, fun part hpart => h.touched.agree part fun hin => hpart (hp part hin)⟩,
    fun t ht => hk _ (h.kinds t ht)⟩

theorem touched_record (parts : List Part) (s : Stage) (e : Entry) : Touched parts s (s.record e) :=
  (undisturbed_record s e).touched parts

theorem touched_reply (parts : List Part) (s : Stage) (a : Answer) : Touched parts s (s.reply a) :=
  (undisturbed_reply s a).touched parts

end Stage
end Stagecraft
