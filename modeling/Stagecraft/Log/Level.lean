/-!
# Levels of the log
-/
namespace Stagecraft

inductive Level
  | error
  | warn
  | info
  | debug
  | trace
  deriving DecidableEq, Repr

namespace Level

/-- From the gravest, 1, to the most detailed. -/
def rank : Level → Nat
  | .error => 1
  | .warn => 2
  | .info => 3
  | .debug => 4
  | .trace => 5

def name : Level → String
  | .error => "ERROR"
  | .warn => "WARN"
  | .info => "INFO"
  | .debug => "DEBUG"
  | .trace => "TRACE"

end Level

/-- How much of the log is kept: nothing, or everything up to a level. -/
inductive Verbosity
  | off
  | upTo (level : Level)
  deriving DecidableEq, Repr

namespace Verbosity

def rank : Verbosity → Nat
  | .off => 0
  | .upTo l => l.rank

def name : Verbosity → String
  | .off => "OFF"
  | .upTo l => l.name

def admits (v : Verbosity) (l : Level) : Bool := l.rank ≤ v.rank

/-- Reads the name of a level, in letters of any case. -/
def parse? (s : String) : Option Verbosity :=
  match String.ofList (s.toList.map Char.toUpper) with
  | "OFF" => some .off
  | "ERROR" => some (.upTo .error)
  | "WARN" => some (.upTo .warn)
  | "INFO" => some (.upTo .info)
  | "DEBUG" => some (.upTo .debug)
  | "TRACE" => some (.upTo .trace)
  | _ => none

end Verbosity
end Stagecraft
