import Stagecraft.Log.Filter
import Stagecraft.Log.Notice
import Stagecraft.Text.Control
import Stagecraft.Text.Numeral
/-!
# Setting up the log

The log is set up once.  Its filter is taken from the set-up itself, else from the environment, else it is one level
for everything; a blank filter counts as none.
-/
namespace Stagecraft

structure LogSetup where
  filter : Option String := none
  /-- The level for everything when there is no filter. -/
  level : Verbosity := .upTo .info
  /-- Leaves out the time and the target. -/
  compact : Bool := false
  /-- Whether the output goes where a test can catch it. -/
  isTest : Bool := false
  deriving DecidableEq, Repr

/-- A change of a set-up. -/
inductive LogSetup.Change
  | filter (spec : String)
  | level (v : Verbosity)
  | compact
  | forTests
  deriving DecidableEq, Repr

/-- The variables of the environment that a log looks at. -/
structure LogEnvironment where
  own : Option String := none
  shared : Option String := none
  deriving DecidableEq, Repr

/-- A line of the log before it is filtered and laid out. -/
structure LogRecord where
  level : Level
  target : String
  message : String
  deriving DecidableEq, Repr

def Notice.record (n : Notice) : LogRecord := ⟨n.level, n.target, n.message⟩

namespace LogSetup

def apply (c : LogSetup) : Change → LogSetup
  | .filter spec => { c with filter := some spec }
  | .level v => { c with level := v }
  | .compact => { c with compact := true }
  | .forTests => { c with isTest := true }

/-- The filter that is in force: the first one given, unless it is blank. -/
def filterText? (c : LogSetup) (env : LogEnvironment) : Option String :=
  ((c.filter.or env.own).or env.shared).filter fun f => !(Text.trimmed f).isEmpty

/-- The filter of a set-up in an environment, and what was passed over in it. -/
def resolve (c : LogSetup) (env : LogEnvironment) : LogFilter × List FilterFault :=
  match c.filterText? env with
  | some spec => LogFilter.parse spec
  | none => (.ofVerbosity c.level, [])

/-- The head of a full line: the time, the level, and the target if it has a name. -/
def head (time : String) (r : LogRecord) : String :=
  time ++ " " ++ Text.flushLeft 5 r.level.name ++ (if r.target.isEmpty then "" else " " ++ r.target)

/-- A message with the lines after its first set in by four spaces. -/
def setIn (message : String) : String :=
  String.ofList (message.toList.flatMap fun c => if c = '\n' then ['\n', ' ', ' ', ' ', ' '] else [c])

/-- A record as it stands in the log.  A compact line leaves out the time and the target, and takes the message as it
is. -/
def line (c : LogSetup) (time : String) (r : LogRecord) : String :=
  if c.compact then "[" ++ Text.flushLeft 5 r.level.name ++ "] " ++ r.message
  else "[" ++ head time r ++ "] " ++ setIn r.message

/-- A warning about a part of a filter that was passed over. -/
def warning (fault : FilterFault) : String := "warning: " ++ fault.message ++ ", ignoring it"

/-- A record as the log writes it: its line, less what would steer a terminal.  A sequence that is left open takes the
end of the line with it. -/
def entry (c : LogSetup) (time : String) (r : LogRecord) : String := Text.withoutControls (c.line time r ++ "\n")

/-- What a log set up like this writes about its filter. -/
def warnings (c : LogSetup) (env : LogEnvironment) : String :=
  String.join ((c.resolve env).2.map fun fault => warning fault ++ "\n")

/-- What a log set up like this writes for some records, from the first warning to the last line. -/
def written (c : LogSetup) (env : LogEnvironment) (time : String) (records : List LogRecord) : String :=
  let f := (c.resolve env).1
  c.warnings env ++ String.join
    (((Notice.loggingStarted.record :: records).filter fun r => f.admits r.level r.target r.message).map (c.entry time))

end LogSetup

/-- A program in which a log is set up.  There may be a logger in it already, which then stays and collects all. -/
structure LogSession where
  setup : LogSetup
  env : LogEnvironment
  preinstalled : Bool
  deriving DecidableEq, Repr

namespace LogSession

/-- How much reaches the logger that is in place. -/
def verbosity (s : LogSession) : Verbosity :=
  if s.preinstalled then .upTo .trace else (s.setup.resolve s.env).1.verbosity

/-- What the logger that was there before has collected. -/
def collected (s : LogSession) (records : List LogRecord) : List LogRecord :=
  if s.preinstalled then Notice.loggerPresent.record :: records else []

/-- What the log has written. -/
def written (s : LogSession) (time : String) (records : List LogRecord) : String :=
  if s.preinstalled then s.setup.warnings s.env else s.setup.written s.env time records

end LogSession
end Stagecraft
