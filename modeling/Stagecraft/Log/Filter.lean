import Stagecraft.Log.Level
import Stagecraft.Pattern.Compile
/-!
# Log filters

A filter is a list of directives between commas: a level for everything, or the start of a target and the level for
what comes from there.  For each record the directive with the longest name that fits decides; if none fits, the
record is not written.  After a slash a filter may hold a pattern that has to be found in every message.
-/
namespace Stagecraft

/-- A level for all targets that start with a name; without a name, for all. -/
structure Directive where
  name : Option String
  verbosity : Verbosity
  deriving DecidableEq, Repr

/-- A part of a filter that was passed over. -/
inductive FilterFault
  | malformed (part : String)
  | tooManySlashes (spec : String)
  | badPattern (text : String) (why : Pattern.Refusal)
  deriving DecidableEq, Repr

def FilterFault.message : FilterFault → String
  | .malformed part => "invalid logging spec '" ++ part ++ "'"
  | .tooManySlashes spec => "invalid logging spec '" ++ spec ++ "' (too many '/'s)"
  | .badPattern text why => "invalid regex filter - " ++ why.message text

structure LogFilter where
  /-- From the shortest name to the longest. -/
  directives : List Directive
  /-- What has to be found in every message. -/
  pattern? : Option Pattern := none
  deriving DecidableEq, Repr

namespace Directive

/-- The length of the name in bytes; no name is as short as can be. -/
def reach (d : Directive) : Nat := d.name.elim 0 String.utf8ByteSize

def fits (d : Directive) (target : String) : Bool := d.name.all fun n => n.toList.isPrefixOf target.toList

/-- Reads one part of a filter.  A single word is a level for everything, or else a name that lets everything
through. -/
def parse (part : String) : Except FilterFault Directive :=
  match Text.piecesOf '=' part with
  | [word] =>
    match Verbosity.parse? word with
    | some v => .ok ⟨none, v⟩
    | none => .ok ⟨some word, .upTo .trace⟩
  | [name, level] =>
    if (Text.trimmed level).isEmpty then .ok ⟨some name, .upTo .trace⟩
    else match Verbosity.parse? (Text.trimmed level) with
      | some v => .ok ⟨some name, v⟩
      | none => .error (.malformed (Text.trimmed level))
  | _ => .error (.malformed part)

/-- Adds a directive; one of the same name gives way in its place. -/
def insert (d : Directive) : List Directive → List Directive
  | [] => [d]
  | e :: es => if e.name = d.name then d :: es else e :: insert d es

end Directive

namespace LogFilter

/-- Directives in the order in which they are looked through from the end.  Without any, errors pass. -/
def ofDirectives (ds : List Directive) (pattern? : Option Pattern) : LogFilter :=
  if ds.isEmpty then ⟨[⟨none, .upTo .error⟩], pattern?⟩
  else ⟨(ds.foldl (fun es d => d.insert es) []).mergeSort fun a b => a.reach ≤ b.reach, pattern?⟩

/-- The same level for everything. -/
def ofVerbosity (v : Verbosity) : LogFilter := ofDirectives [⟨none, v⟩] none

/-- The pattern after the slash, if there is one, and what is wrong with it. -/
def readPattern : Option String → Option Pattern × List FilterFault
  | none => (none, [])
  | some text =>
    match Pattern.parse text with
    | .ok p => (some p, [])
    | .error why => (none, [.badPattern text why])

/-- Reads a filter, and reports the parts that were passed over. -/
def parse (spec : String) : LogFilter × List FilterFault :=
  match Text.piecesOf '/' spec with
  | mods :: slashed =>
    match slashed with
    | _ :: _ :: _ => (ofDirectives [] none, [.tooManySlashes spec])
    | _ =>
      let parts := ((Text.piecesOf ',' mods).filterMap Text.filled).map Directive.parse
      let (pattern?, faults) := readPattern slashed.head?
      (ofDirectives (parts.filterMap Except.toOption) pattern?,
        (parts.filterMap fun
          | .error fault => some fault
          | .ok _ => none) ++ faults)
  | [] => (ofDirectives [] none, [])

/-- The most that any directive lets through. -/
def verbosity (f : LogFilter) : Verbosity :=
  f.directives.foldl (fun v d => if v.rank < d.verbosity.rank then d.verbosity else v) .off

/-- Whether a record is written. -/
def admits (f : LogFilter) (level : Level) (target message : String) : Bool :=
  (match f.directives.reverse.find? (·.fits target) with
    | some d => d.verbosity.admits level
    | none => false)
  && f.pattern?.all (·.foundIn message)

end LogFilter
end Stagecraft
