import Stagecraft.Stage.Basic
/-!
# Tasks

What happens on a stage is cut into tasks that are done one at a time.  A task changes the stage and may leave
further tasks, which are done before anything that was waiting already; so a list of tasks, the agenda, is all that
has been begun and is not yet over.  Calls may lead to calls to any depth, and nothing is hidden between them: every
state in which something could look at the stage is a state between two tasks.
-/
namespace Stagecraft

/-- What a running call keeps in use until it is over. -/
inductive Hold
  | machine (m : Nat)
  | queue (q : Nat)
  | host
  deriving DecidableEq, Repr

inductive Task
  -- scripts from outside
  | script (cues : List Cue)
  | cue (c : Cue)
  | reply (a : Answer)
  /-- Writes the answer of a cue inside a script into the journal. -/
  | report (word : String)
  -- events
  | dispatch (el : ElementId) (event : String)
  /-- Makes the calls that a dispatch gathered; `ran` have been made. -/
  | deliver (once : List OnceCall) (listeners : List (Nat × ListenerCall)) (ran : Nat)
  | callOnce (c : OnceCall)
  | callListener (c : ListenerCall)
  -- the host
  | perform (op : PageOp)
  | await (el : ElementId) (event : String) (call : OnceCall)
  | detach (el : ElementId) (id : Nat)
  -- frames
  | tick
  /-- Makes the remaining calls of a frame. -/
  | frame (calls : List FrameCall)
  | callFrame (c : FrameCall)
  /-- The end of a frame that made `ran` calls. -/
  | frameOver (index : UInt64) (ran : Nat)
  /-- Runs frames until nothing waits for one or `most` have been run; `ran` have been. -/
  | untilIdle (most ran : Nat)
  -- jobs
  | enqueue (q : Nat) (job : Job)
  | pump (q : Nat)
  | run (body : JobBody) (token : Completion)
  | settle (name : String) (fate : Fate) (token : Completion)
  | complete (token : Completion)
  | lose (token : Completion)
  /-- Does what is to be done at the end of a job of the queue. -/
  | finish (q : Nat) (f : Finish)
  | jobOver (q : Nat)
  -- machines
  | transition (m : Nat) (state : String)
  | arrive (m : Nat) (state : String) (again : Bool)
  /-- Sets up one reaction of the state that has been entered. -/
  | bind (m : Nat) (slot : Slot) (again : Bool)
  | bound (m : Nat) (index id : Nat)
  /-- Runs a reaction, either `anew` or to go on with its sequence. -/
  | fire (m : Nat) (slot : Slot) (anew : Bool)
  | hook (m : Nat) (name : Option String) (state : String)
  | act (m : Nat) (slot : Slot) (anew : Bool)
  | conclude (m : Nat) (slot : Slot)
  | stepOver (m : Nat) (slot : Slot) (step : Nat)
  | jump (m : Nat) (slot : Slot)
  | start (m : Nat) (visible : Bool)
  | install (m : Nat) (state : String) (trigger : Trigger)
  | watch (m : Nat) (el : ElementId) (event state : String)
  | watched (m : Nat) (el : ElementId) (id : Nat)
  | appear (m : Nat) (visible : Bool)
  | enterDefault (m : Nat)
  | visibility (m : Nat) (visible : Bool)
  | release (h : Hold)
  | closed (m : Nat)

/-- A stage after a task, and what the task leaves to be done before everything else. -/
abbrev Outcome := Stage × List Task

/-- Whether a running call on the agenda keeps something in use. -/
def Task.holds (h : Hold) (agenda : List Task) : Bool :=
  agenda.any fun t =>
    match t with
    | .release h' => h' = h
    | _ => false

end Stagecraft
