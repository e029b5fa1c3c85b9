import Stagecraft.Scene.Basic
import Stagecraft.Stage.Run
/-!
# Playing a scene

The states of a scene are declared until `start` builds the machine; from then on the commands act on the stage.
A scene that breaks this order is given up at the first line that does, with all that has been printed so far.
-/
namespace Stagecraft

/-- How a line can break the order of a scene. -/
inductive OrderFault
  | stateAfterStart
  | startTwice
  | visibleBeforeStart
  | showBeforeStart
  deriving DecidableEq, Repr

def OrderFault.message : OrderFault → String
  | .stateAfterStart => "\x60state\x60 after \x60start\x60"
  | .startTwice => "\x60start\x60 given twice"
  | .visibleBeforeStart => "\x60visible\x60 before \x60start\x60"
  | .showBeforeStart => "\x60show\x60 before \x60start\x60"

structure PlayFault where
  number : Nat
  cause : OrderFault
  deriving DecidableEq, Repr

def PlayFault.message (f : PlayFault) : String := "line " ++ Text.decimal f.number ++ ": " ++ f.cause.message

/-- A scene being played. -/
structure Player where
  stage : Stage := Stage.opened {}
  /-- The states declared so far. -/
  states : List StateDecl := []
  /-- The machine, once it has been built. -/
  machine : Option Nat := none
  /-- The lines printed so far, newest first. -/
  printed : List String := []

namespace Player

def print (p : Player) (line : String) : Player := { p with printed := line :: p.printed }

def printAll (p : Player) (lines : List String) : Player := lines.foldl print p

/-- Prints what happened at a line of the scene. -/
def tell (p : Player) (number : Nat) (text : String) : Player :=
  p.print ("  " ++ Text.flushRight 3 (Text.decimal number) ++ "  " ++ text)

/-- Declares a state. -/
def declare (p : Player) (d : Declaration) : Player :=
  { p with stage := p.stage.notifyAll (d.notices Scene.element), states := Stagecraft.declare p.states d }

/-- Builds the machine from the states declared so far. -/
def build (p : Player) : Player :=
  { p with
    stage := ((p.stage.addMachine Scene.element {} false p.states).castAs "scene" p.stage.machines.length).1
    machine := some p.stage.machines.length }

/-- Lets tasks run on the stage. -/
def run (p : Player) (tasks : List Task) : Player := { p with stage := p.stage.runTasks tasks }

def fire (p : Player) (number : Nat) (event : String) (el : ElementId) : Player :=
  let p := p.run [.dispatch el event]
  let ran := match p.stage.answer with
    | .count n => n
    | _ => 0
  p.tell number ("fire " ++ event ++ " on #" ++ Text.decimal el.number ++ " (" ++ Text.decimal ran ++ " handler(s))")

def frame (p : Player) (number : Nat) : Player :=
  let p := p.run [.tick]
  match p.stage.answer with
  | .frame index ran =>
    p.tell number ("frame " ++ Text.decimal index.toNat ++ " (" ++ Text.decimal ran ++ " callback(s))")
  | _ => p

def frames (p : Player) (number : Nat) : Nat → Player
  | 0 => p
  | n + 1 => (p.frame number).frames number n

/-- Prints the state of the machine, whether it is busy, and the classes of its element. -/
def display (p : Player) (number m : Nat) : Player :=
  match p.stage.machine? m with
  | none => p
  | some c =>
    let busy := (p.stage.queue? c.queue).any JobQueue.isRunning
    p.tell number ("state=" ++ c.current.getD "-" ++ (if busy then " busy" else " idle") ++ " classes="
      ++ Text.quotedList (p.stage.page.classesOf Scene.element))

/-- Carries out the command of a line. -/
def command (p : Player) (number : Nat) : Command → Except OrderFault Player
  | .state name trigger description =>
    if p.machine.isSome then .error .stateAfterStart
    else .ok (p.declare (.described name trigger description))
  | .select selector el => .ok { p with stage := p.stage.mapPage (·.registerSelector selector [el]) }
  | .start visible =>
    if p.machine.isSome then .error .startTwice
    else .ok (p.build.run [.start p.stage.machines.length visible])
  | .fire event el => .ok (p.fire number event el)
  | .frame n => .ok (p.frames number n)
  | .visible inView =>
    match p.machine with
    | none => .error .visibleBeforeStart
    | some m => .ok (p.run [.visibility m inView])
  | .show =>
    match p.machine with
    | none => .error .showBeforeStart
    | some m => .ok (p.display number m)

/-- Plays lines up to the first one that breaks the order. -/
def lines (p : Player) : List SceneLine → Player × Option PlayFault
  | [] => (p, none)
  | l :: ls =>
    match p.command l.number l.command with
    | .error cause => (p, some ⟨l.number, cause⟩)
    | .ok p' => p'.lines ls

/-- Prints the stylesheet. -/
def showStyles (p : Player) : Player :=
  let sheet := p.stage.styles
  ((p.print "").print ("  stylesheet (" ++ Text.decimal sheet.size ++ " rule(s)):")).printAll
    ((Text.linesOf sheet.css).map ("    " ++ ·))

end Player

/-- What came of playing a scene. -/
structure Playback where
  printed : List String
  fault : Option PlayFault
  notices : List Notice

/-- Plays a scene to its end, or to the first line that breaks the order. -/
def Scene.play (s : Scene) : Playback :=
  let (p, fault) := ({} : Player).lines s.lines
  let p := if fault.isSome then p else p.showStyles
  ⟨p.printed.reverse, fault, p.stage.entries.filterMap fun
    | .notice n => some n
    | _ => none⟩

end Stagecraft
