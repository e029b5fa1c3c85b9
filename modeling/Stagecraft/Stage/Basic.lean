import Stagecraft.Stage.Call
import Stagecraft.Motion.Reader
import Stagecraft.Style.Animation
/-!
# The stage

Everything that machines share: the page, the frames, the stylesheet, the hooks and the queues.  A stage also keeps
a journal, newest entry first, in which everything that can be seen from outside is written down as it happens.
-/
namespace Stagecraft

/-! ## The manners of the page

Machines and effects do not call the page itself but a host in front of it.  The host may dispatch events on its
own account before a call returns, and it may lack the two calls that a host can do without. -/

/-- The calls of the host after which it may dispatch. -/
inductive HostCall
  | addClass
  | removeClass
  | listenOnce
  | addListener
  | flush
  | removeListener
  deriving DecidableEq, Repr

/-- After this call, with this argument if one is given, the event is dispatched on the same element. -/
structure Reflex where
  call : HostCall
  argument : Option String
  event : String
  deriving DecidableEq, Repr

structure Manners where
  reflexes : List Reflex := []
  /-- Whether the host neither flushes styles nor finds elements. -/
  bare : Bool := false
  deriving DecidableEq, Repr

/-! ## The journal -/

/-- Where a script from outside was left to be run. -/
inductive Origin
  | once
  | listener
  | frame
  | run
  | finish
  deriving DecidableEq, Repr

inductive Entry
  | notice (n : Notice)
  | op (o : PageOp)
  /-- A script from outside begins. -/
  | called (origin : Origin) (label : String)
  /-- A hook begins, for this reaction of a state of an element. -/
  | hooked (name : String) (el : ElementId) (state : String)
  /-- A cue inside a script is over. -/
  | answered (word : String) (answer : Answer)
  /-- A rule was added to the stylesheet. -/
  | styled (rule : Rule)

structure Stage where
  page : Page ListenerCall OnceCall := {}
  frames : Frames FrameCall := {}
  styles : Stylesheet := {}
  hooks : Registry String (List Cue) := {}
  manners : Manners := {}
  /-- Whether the host may still be used from outside. -/
  hosted : Bool := true
  /-- All machines ever built, and the places of those that can be reached by a name. -/
  machines : List Machine := []
  cast : Registry String Nat := {}
  /-- All queues ever made, and the places of those that can be reached by a name. -/
  queues : List JobQueue := []
  queueNames : Registry String Nat := {}
  /-- The tokens kept from outside. -/
  tokens : Registry String Completion := {}
  /-- What the last call or cue answered. -/
  answer : Answer := .nothing
  journal : List Entry := []

namespace Stage

def record (s : Stage) (e : Entry) : Stage := { s with journal := e :: s.journal }

def notify (s : Stage) (n : Notice) : Stage := s.record (.notice n)

def notifyAll (s : Stage) (ns : List Notice) : Stage := ns.foldl notify s

def reply (s : Stage) (a : Answer) : Stage := { s with answer := a }

def complain (s : Stage) (c : Complaint) : Stage := s.reply (.complaint c)

/-- The journal in the order in which it was written. -/
def entries (s : Stage) : List Entry := s.journal.reverse

/-- The stage with an empty journal. -/
def cleared (s : Stage) : Stage := { s with journal := [] }

/-! ## Parts -/

def mapPage (s : Stage) (f : Page ListenerCall OnceCall → Page ListenerCall OnceCall) : Stage :=
  { s with page := f s.page }

def schedule (s : Stage) (c : FrameCall) : Stage := { s with frames := s.frames.schedule c }

def machine? (s : Stage) (m : Nat) : Option Machine := s.machines[m]?

def mapMachine (s : Stage) (m : Nat) (f : Machine → Machine) : Stage :=
  { s with machines := s.machines.modify m f }

def queue? (s : Stage) (q : Nat) : Option JobQueue := s.queues[q]?

def mapQueue (s : Stage) (q : Nat) (f : JobQueue → JobQueue) : Stage :=
  { s with queues := s.queues.modify q f }

theorem machine?_mapMachine_self (s : Stage) (m : Nat) (f : Machine → Machine) :
    (s.mapMachine m f).machine? m = (s.machine? m).map f := by
  simp [mapMachine, machine?]

theorem machine?_mapMachine_ne (s : Stage) {m n : Nat} (h : n ≠ m) (f : Machine → Machine) :
    (s.mapMachine m f).machine? n = s.machine? n := by
  simp [mapMachine, machine?, h.symm]

theorem queue?_mapQueue_self (s : Stage) (q : Nat) (f : JobQueue → JobQueue) :
    (s.mapQueue q f).queue? q = (s.queue? q).map f := by
  simp [mapQueue, queue?]

theorem queue?_mapQueue_ne (s : Stage) {q r : Nat} (h : r ≠ q) (f : JobQueue → JobQueue) :
    (s.mapQueue q f).queue? r = s.queue? r := by
  simp [mapQueue, queue?, h.symm]

/-- Whether a machine still acts on calls. -/
def isLive (s : Stage) (m : Nat) : Bool :=
  match s.machine? m with
  | some c => c.life = .live
  | none => false

/-- Whether a queue is still in use. -/
def isOpen (s : Stage) (q : Nat) : Bool :=
  match s.queue? q with
  | some c => !c.closed
  | none => false

/-! ## Rules and effects -/

/-- Asks the stylesheet for a class, and reports what came of it. -/
def resolve (s : Stage) (key body : String) : Stage :=
  let name := Stylesheet.classKey key
  let verdict := s.styles.verdict name body
  let s' := s.notifyAll (Notice.ofVerdict? name verdict).toList
  let s' := { s' with styles := s.styles.resolve key body }
  if verdict = .added then s'.record (.styled ⟨name, body⟩) else s'

/-- Asks for all rules of an animation. -/
def resolveAll (s : Stage) (a : Animation) : Stage :=
  a.requests.foldl (fun s r => s.resolve r.key r.body) s

theorem styles_notifyAll (s : Stage) (ns : List Notice) : (s.notifyAll ns).styles = s.styles := by
  unfold notifyAll
  induction ns generalizing s with
  | nil => rfl
  | cons n ns ih => exact ih (s.notify n)

/-- What is reported on the way changes nothing in the stylesheet. -/
theorem styles_resolve (s : Stage) (key body : String) : (s.resolve key body).styles = s.styles.resolve key body := by
  simp only [resolve]
  split <;> rfl

theorem styles_resolveAll (s : Stage) (a : Animation) : (s.resolveAll a).styles = a.addTo s.styles := by
  unfold resolveAll Animation.addTo
  induction a.requests generalizing s with
  | nil => rfl
  | cons r rs ih => rw [List.foldl_cons, List.foldl_cons, ih, styles_resolve]

/-- How an entry is played. -/
def enterPlan (settings : Settings) (el : ElementId) (a : Animation) : EffectPlan :=
  let initial := (Animation.place a.change).name
  let transition := a.transition.name
  { element := el, lead := [.addClass el initial, .flush el], endEvent := settings.transitionEnd,
    temporary := [transition], tail := [.addClass el transition, .removeClass el initial] }

/-- How a transform is played. -/
def transformPlan (settings : Settings) (el : ElementId) (a : Animation) : EffectPlan :=
  let target := (Animation.place a.change).name
  let transition := a.transition.name
  { element := el, lead := [.flush el], endEvent := settings.transitionEnd,
    temporary := [transition], tail := [.addClass el target, .addClass el transition] }

/-- How a keyframe animation is played. -/
def animatePlan (settings : Settings) (el : ElementId) (name : String) : EffectPlan :=
  { element := el, lead := [.flush el], endEvent := settings.animationEnd,
    temporary := [name, settings.animatedClass],
    tail := [.addClass el name, .addClass el settings.animatedClass] }

/-- The animation of an effect that is played with a transition. -/
def animation (settings : Settings) (e : Effect) : Animation :=
  match e.kind with
  | .enter => .enter (.parse e.source) settings
  | _ => .transform (.parse e.source) settings

/-- The plan of an effect; nothing for keyframes without a name. -/
def plan? (settings : Settings) (el : ElementId) (e : Effect) : Option EffectPlan :=
  match e.kind with
  | .enter => some (enterPlan settings el (animation settings e))
  | .transform => some (transformPlan settings el (animation settings e))
  | .animate => e.keyframe?.map (animatePlan settings el)

/-- The stage once the plan of an effect has been made: what its motion text left unused is reported, and its rules
are in the stylesheet. -/
def prepare (s : Stage) (settings : Settings) (e : Effect) : Stage :=
  match e.kind with
  | .animate => if e.keyframe?.isSome then s else s.notify (.keyframeMissing e.source)
  | _ =>
    (s.notifyAll ((Motion.diagnostics e.source).map (.skippedInEffect e.source))).resolveAll
      (animation settings e)

/-- The job that plays an effect. -/
def job? (settings : Settings) (el : ElementId) (e : Effect) : Option Job :=
  (plan? settings el e).map fun p => { label := e.source, body := .effect p }

end Stage
end Stagecraft
