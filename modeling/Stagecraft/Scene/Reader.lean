import Stagecraft.Scene.Basic
/-!
# Reading a scene

```text
state <name> [@ <selector> <event>] = <description>
select <selector> <id>
start [visible|hidden]
fire <event> [on <id>]
frame [count]
visible true|false
show
```

The first line that is no command ends the reading.
-/
namespace Stagecraft

namespace Command

/-- A text cut at its first blank; without one, all of it comes first. -/
def keyword (cs : List Char) : List Char × List Char := (Text.cutAt? Text.isBlank cs).getD (cs, [])

/-- The id of an element: a number from 1 to `2 ^ 64 - 1`. -/
def elementId (word : List Char) : Except CommandFault ElementId :=
  match Text.readWord64 (Text.trim word) with
  | .ok 0 => .error .elementZero
  | .ok n => .ok ⟨n⟩
  | .error fault => .error (.elementId (String.ofList word) fault)

/-- A name, a trigger after `@` if there is one, and a description after `=`. -/
def readState (rest : List Char) : Except CommandFault Command :=
  match Text.cutAt? (· = '=') rest with
  | none => .error .stateForm
  | some (head, description) =>
    let (name, trigger) :=
      match Text.cutAt? (· = '@') head with
      | some (name, trigger) => (name, some (String.ofList (Text.trim trigger)))
      | none => (head, none)
    .ok (.state (String.ofList (Text.trim name)) trigger (String.ofList (Text.trim description)))

def readSelect (rest : List Char) : Except CommandFault Command :=
  match Text.cutAt? Text.isBlank rest with
  | none => .error .selectForm
  | some (selector, id) => (elementId id).map fun el => .select (String.ofList selector) el

def readStart (rest : String) : Except CommandFault Command :=
  match rest with
  | "visible" => .ok (.start true)
  | "hidden" => .ok (.start false)
  | "" => .ok (.start false)
  | other => .error (.startForm other)

/-- An event, and the element it is for; without one, the element of the scene.  What follows is not read. -/
def readFire (rest : List Char) : Except CommandFault Command :=
  match Text.words rest with
  | [] => .error .eventMissing
  | [event] => .ok (.fire (String.ofList event) Scene.element)
  | event :: on :: id :: _ =>
    if String.ofList on = "on" then (elementId id).map fun el => .fire (String.ofList event) el
    else .error .fireForm
  | _ => .error .fireForm

def readFrame (rest : List Char) : Except CommandFault Command :=
  if rest.isEmpty then .ok (.frame 1)
  else match Text.readWord64 rest with
    | .ok n => .ok (.frame n)
    | .error fault => .error (.frameCount fault)

def readVisible (rest : String) : Except CommandFault Command :=
  match rest with
  | "true" => .ok (.visible true)
  | "false" => .ok (.visible false)
  | _ => .error .visibleForm

/-- Reads a line that has been trimmed and is not blank. -/
def read (line : List Char) : Except CommandFault Command :=
  let rest := Text.trim (keyword line).2
  match String.ofList (keyword line).1 with
  | "state" => readState rest
  | "select" => readSelect rest
  | "start" => readStart (String.ofList rest)
  | "fire" => readFire rest
  | "frame" => readFrame rest
  | "visible" => readVisible (String.ofList rest)
  | "show" => .ok .show
  | other => .error (.unknown other)

end Command

namespace Scene

/-- Whether a trimmed line holds no command. -/
def isIdle (line : List Char) : Bool := line.isEmpty || line.head? = some '#'

/-- Reads lines, the first of which has this number. -/
def readLines (number : Nat) : List (List Char) → Except SceneFault (List SceneLine)
  | [] => .ok []
  | raw :: rest =>
    let line := Text.trim raw
    if isIdle line then readLines (number + 1) rest
    else match Command.read line with
      | .error cause => .error ⟨number, String.ofList line, cause⟩
      | .ok command => (readLines (number + 1) rest).map (⟨number, command⟩ :: ·)

/-- Reads a scene. -/
def parse (src : String) : Except SceneFault Scene := (readLines 1 (Text.lines src.toList)).map Scene.mk

end Scene
end Stagecraft
