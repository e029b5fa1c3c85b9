import Stagecraft.Stage.Cue
import Stagecraft.Page.Frames
/-!
# Calls and jobs

What can wait on a stage to be run later: calls of listeners, calls made once, calls of the next frame, and jobs in
a queue.  Each is data, so what a stage will do can be read off it.
-/
namespace Stagecraft

/-- The right to complete the running job of a queue.  A queue numbers its jobs as they start. -/
structure Completion where
  queue : Nat
  ticket : Nat
  label : String
  deriving DecidableEq, Repr

/-- A call made each time its event is dispatched. -/
inductive ListenerCall
  /-- Runs a reaction of a machine. -/
  | react (machine : Nat) (slot : Slot)
  /-- Moves a machine into a state. -/
  | enter (machine : Nat) (state : String)
  | outside (label : String) (script : List Cue)

/-- A call made once, when its event is next dispatched. -/
inductive OnceCall
  /-- The end of an effect: takes classes off the element, then completes the job. -/
  | effectEnd (el : ElementId) (classes : List String) (token : Completion)
  | outside (label : String) (script : List Cue)

/-- A call of the next frame. -/
inductive FrameCall
  /-- Runs a reaction to the entry of a state. -/
  | react (machine : Nat) (slot : Slot)
  /-- Goes on with a sequence, after a step that was not its last. -/
  | resume (machine : Nat) (slot : Slot)
  | outside (label : String) (script : List Cue)

/-- How an effect is played: what is done to the page before and after the wait for its end is set up, the event
that ends it, and the classes that the end takes off. -/
structure EffectPlan where
  element : ElementId
  lead : List PageOp
  endEvent : String
  temporary : List String
  tail : List PageOp
  deriving DecidableEq, Repr

/-- What a job does when it starts. -/
inductive JobBody
  | effect (plan : EffectPlan)
  | outside (name : String) (script : List Cue) (fate : Fate)

/-- What is done when a job is complete, before the next one starts. -/
inductive Finish
  /-- The last effect of a reaction is over. -/
  | reaction (machine : Nat) (slot : Slot)
  /-- A step of a sequence is over. -/
  | sequenceStep (machine : Nat) (slot : Slot) (step : Nat)
  | outside (label : String) (script : List Cue)

structure Job where
  label : String
  body : JobBody
  finish : Option Finish := none

/-- Whether a job plays an effect. -/
def Job.isEffect (j : Job) : Bool :=
  match j.body with
  | .effect _ => true
  | .outside .. => false

/-! ## Queues -/

/-- The job that has been started and is not yet complete. -/
structure Running where
  ticket : Nat
  finish : Option Finish

/-- Jobs that run strictly one after another. -/
structure JobQueue where
  waiting : List Job := []
  running : Option Running := none
  /-- The number of jobs started so far. -/
  started : Nat := 0
  /-- Whether no one holds the queue any more. -/
  closed : Bool := false

namespace JobQueue

/-- A queue that no job has been sent to. -/
def empty : JobQueue := {}

def isRunning (q : JobQueue) : Bool := q.running.isSome

def add (q : JobQueue) (job : Job) : JobQueue := { q with waiting := q.waiting ++ [job] }

/-- The next job to start, and the queue with that job running; nothing while another runs or none waits. -/
def start? (q : JobQueue) : Option (Job × JobQueue) :=
  match q.running, q.waiting with
  | none, job :: rest =>
    some (job, { q with waiting := rest, running := some ⟨q.started + 1, job.finish⟩, started := q.started + 1 })
  | _, _ => none

/-- Takes what is to be done at the end of the running job, if the ticket is its own. -/
def takeFinish? (q : JobQueue) (ticket : Nat) : Option (Option Finish × JobQueue) :=
  match q.running with
  | some r => if r.ticket = ticket then some (r.finish, { q with running := some ⟨r.ticket, none⟩ }) else none
  | none => none

/-- The queue once its running job is over. -/
def rest (q : JobQueue) : JobQueue := { q with running := none }

/-- The queue once no one holds it: the jobs that wait are lost. -/
def close (q : JobQueue) : JobQueue := { q with waiting := [], closed := true }

end JobQueue
end Stagecraft
