import Stagecraft.Machine.Basic
/-!
# Cues

A cue is one step of a script: something done to a stage from outside its machines.  Calls that a script leaves on
the stage carry scripts of their own, which run when the call is made.
-/
namespace Stagecraft

/-- What a job from outside does with its token when its script is over. -/
inductive Fate
  | complete
  | drop
  /-- Keeps it under the name of the job. -/
  | park
  /-- Keeps it under the name of the job before the script begins, so that the script itself may take it. -/
  | lend
  deriving DecidableEq, Repr

inductive Cue
  -- the page
  | addClass (el : ElementId) (names : String)
  | removeClass (el : ElementId) (names : String)
  | flush (el : ElementId)
  | listenOnce (el : ElementId) (event label : String) (script : List Cue)
  | addListener (el : ElementId) (event label : String) (script : List Cue)
  | removeListener (el : ElementId) (id : Nat)
  | registerSelector (selector : String) (els : List ElementId)
  | select (selector : String)
  | dispatch (el : ElementId) (event : String)
  | hasClass (el : ElementId) (name : String)
  | listenerCount (el : ElementId) (event : String)
  | pendingOnce (el : ElementId) (event : String)
  -- frames
  | nextFrame (label : String) (script : List Cue)
  | tick
  | runUntilIdle (most : Nat)
  -- style and hooks
  | resolve (key body : String)
  | hook (name : String) (script : List Cue)
  | unhook (name : String)
  -- machines
  | build (machine : String) (el : ElementId) (settings : Settings) (hooked : Bool) (states : List Declaration)
  | start (machine : String) (visible : Bool)
  | transition (machine state : String)
  | visibility (machine : String) (visible : Bool)
  | hasState (machine state : String)
  | step (machine state : String) (index : Nat)
  | debug (machine : String)
  | drop (machine : String)
  | dropHost
  -- queues
  | queue (name : String)
  | queueClone (name copy : String)
  | queueDrop (name : String)
  | enqueue (queue name : String) (labelled : Bool) (fate : Fate) (script : List Cue) (finish : Option (List Cue))
  | effectJob (queue effect : String) (el : ElementId) (settings : Settings) (finish : Option (List Cue))
  | complete (token : String)
  | dropToken (token : String)
  /-- A word that no cue goes by. -/
  | unknown (word : String)

/-- The word for a cue. -/
def Cue.word : Cue → String
  | .addClass .. => "add_class"
  | .removeClass .. => "remove_class"
  | .flush .. => "flush_style"
  | .listenOnce .. => "listen_once"
  | .addListener .. => "add_listener"
  | .removeListener .. => "remove_listener"
  | .registerSelector .. => "register_selector"
  | .select .. => "select"
  | .dispatch .. => "dispatch"
  | .hasClass .. => "has_class"
  | .listenerCount .. => "listener_count"
  | .pendingOnce .. => "pending_once"
  | .nextFrame .. => "next_frame"
  | .tick => "tick"
  | .runUntilIdle .. => "run_until_idle"
  | .resolve .. => "resolve"
  | .hook .. => "hook"
  | .unhook .. => "unhook"
  | .build .. => "build"
  | .start .. => "start"
  | .transition .. => "transition"
  | .visibility .. => "visibility"
  | .hasState .. => "has_state"
  | .step .. => "step"
  | .debug .. => "debug"
  | .drop .. => "drop"
  | .dropHost => "drop_host"
  | .queue .. => "queue"
  | .queueClone .. => "queue_clone"
  | .queueDrop .. => "queue_drop"
  | .enqueue .. => "enqueue"
  | .effectJob .. => "effect_job"
  | .complete .. => "complete"
  | .dropToken .. => "drop_token"
  | .unknown word => word

/-! ## Answers -/

/-- Why a cue could not be carried out. -/
inductive Complaint
  | noMachine (name : String)
  | noQueue (name : String)
  /-- The page has been given up, and nothing new may be built on it. -/
  | noHost
  | unknownStep (word : String)
  deriving DecidableEq, Repr

def Complaint.message : Complaint → String
  | .noMachine name => "no machine " ++ Text.quoted name
  | .noQueue name => "no queue " ++ Text.quoted name
  | .noHost => "no host"
  | .unknownStep word => "unknown step " ++ Text.quoted word

/-- What a cue answers. -/
inductive Answer
  | nothing
  | truth (b : Bool)
  | count (n : Nat)
  | elements (els : List ElementId)
  | text (s : String)
  /-- The frame that was run, and how many calls it made. -/
  | frame (index : UInt64) (calls : Nat)
  /-- The label of a job. -/
  | job (label : String)
  /-- The text describes no effect. -/
  | noEffect
  /-- The effect cannot be played. -/
  | noJob
  | complaint (c : Complaint)
  deriving DecidableEq, Repr

/-- How reports show a job. -/
def jobText (label : String) : String := "Job \x7b label: " ++ Text.quoted label ++ ", .. \x7d"

end Stagecraft
