import Stagecraft.Grammar.Diagnostic
import Stagecraft.Log.Level
import Stagecraft.Page.Basic
import Stagecraft.Style.Sheet
/-!
# Notices

Everything the library reports while it runs, as causes.  A notice has a level, the part of the program that it
comes from, and a message.
-/
namespace Stagecraft

inductive Notice
  /-- A state was entered that no one declared. -/
  | stateUnknown (el : ElementId) (state : String)
  | stateEntered (el : ElementId) (state : String) (again : Bool)
  | reactionFired (el : ElementId) (occasion state : String)
  | effectUnknown (el : ElementId) (action : String)
  | nothingToRun (el : ElementId) (action : Option String)
  | sequenceOver (el : ElementId) (action : Option String)
  | hookUnknown (el : ElementId) (name : String)
  | skippedInState (el : ElementId) (state : String) (diagnostic : Diagnostic)
  | triggerMalformed (el : ElementId) (state raw : String)
  | triggerWithoutEvent (state : String)
  | triggerMatchedNothing (selector state : String)
  | keyframeMissing (source : String)
  | skippedInEffect (source : String) (diagnostic : Diagnostic)
  | jobEnqueued (label : String)
  | jobStarted (label : String)
  /-- The token of a running job was lost, so the job will never be complete. -/
  | tokenLost (label : String)
  | ruleAdded (name : String)
  | ruleClash (name : String)
  | frameRan (index : UInt64) (calls : Nat)
  | sceneFinished (name : String)
  | loggingStarted
  | loggerPresent
  deriving DecidableEq, Repr

namespace Notice

def level : Notice → Level
  | .effectUnknown .. | .nothingToRun .. | .sequenceOver .. | .triggerMalformed .. | .triggerWithoutEvent ..
  | .keyframeMissing .. | .tokenLost .. | .ruleClash .. => .warn
  | .sceneFinished .. => .info
  | .stateUnknown .. | .stateEntered .. | .reactionFired .. | .skippedInState .. | .triggerMatchedNothing ..
  | .skippedInEffect .. | .ruleAdded .. | .loggingStarted | .loggerPresent => .debug
  | .hookUnknown .. | .jobEnqueued .. | .jobStarted .. | .frameRan .. => .trace

/-- The part of the program that a notice comes from, under the name that log filters know it by. -/
def target : Notice → String
  | .stateUnknown .. | .stateEntered .. | .reactionFired .. | .effectUnknown .. | .nothingToRun ..
  | .sequenceOver .. | .hookUnknown .. => "choreo_machine::maestro"
  | .skippedInState .. | .triggerMalformed .. | .triggerWithoutEvent .. | .triggerMatchedNothing .. =>
    "choreo_machine::element"
  | .keyframeMissing .. | .skippedInEffect .. => "choreo_engine::job"
  | .jobEnqueued .. | .jobStarted .. | .tokenLost .. => "choreo_engine::queue"
  | .ruleAdded .. | .ruleClash .. => "choreo_engine::style"
  | .frameRan .. => "choreo_engine::time::frame_queue"
  | .sceneFinished .. => "choreo_studio"
  | .loggingStarted | .loggerPresent => "choreo_engine::logging::init"

def message : Notice → String
  | .stateUnknown el state => el.text ++ ": state " ++ Text.quoted state ++ " has no events"
  | .stateEntered el state again =>
    el.text ++ ": enter state " ++ Text.quoted state ++ (if again then " (again)" else "")
  | .reactionFired el occasion state => el.text ++ ": fire " ++ occasion ++ " in " ++ Text.quoted state
  | .effectUnknown el action => el.text ++ ": skipping unknown effect " ++ Text.quoted action
  | .nothingToRun el action => el.text ++ ": no runnable effect in " ++ Text.quotedOption action
  | .sequenceOver el action =>
    el.text ++ ": sequence " ++ Text.quotedOption action ++ " is already finished"
  | .hookUnknown el name => el.text ++ ": hook " ++ Text.quoted name ++ " not registered"
  | .skippedInState el state d => el.text ++ " state " ++ Text.quoted state ++ ": " ++ d.text
  | .triggerMalformed el state raw =>
    el.text ++ " state " ++ Text.quoted state ++ ": ignoring malformed trigger " ++ Text.quoted raw
  | .triggerWithoutEvent state => "trigger for state " ++ Text.quoted state ++ " needs a host event"
  | .triggerMatchedNothing selector state =>
    "trigger " ++ Text.quoted selector ++ " for state " ++ Text.quoted state ++ " matched nothing"
  | .keyframeMissing source => "\x60animate\x60 without a keyframe name in " ++ Text.quoted source
  | .skippedInEffect source d => Text.quoted source ++ ": " ++ d.text
  | .jobEnqueued label => "enqueue job " ++ Text.quoted label
  | .jobStarted label => "start job " ++ Text.quoted label
  | .tokenLost label => "job " ++ Text.quoted label ++ " dropped its completion token; queue stalled"
  | .ruleAdded name => "injected style class " ++ name
  | .ruleClash name =>
    "style class " ++ Text.quoted name ++ " already bound to a different rule; keeping the first"
  | .frameRan index calls =>
    "frame " ++ Text.decimal index.toNat ++ ": ran " ++ Text.decimal calls ++ " callback(s)"
  | .sceneFinished name => "scene " ++ name ++ " finished"
  | .loggingStarted => "logging initialized"
  | .loggerPresent => "a logger was already installed"

end Notice

/-- What came of asking for a class, as a notice, if there is one to give. -/
def Notice.ofVerdict? (name : String) : Verdict → Option Notice
  | .added => some (.ruleAdded name)
  | .known => none
  | .clash => some (.ruleClash name)

end Stagecraft
