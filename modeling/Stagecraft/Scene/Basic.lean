import Stagecraft.Page.Basic
import Stagecraft.Text.Numeral
import Stagecraft.Text.Quoted
/-!
# Scenes

A scene is a script of one element: its states, and then what happens to it.  Each line holds one command; blank
lines and lines that start with `#` hold none.
-/
namespace Stagecraft

inductive Command
  | state (name : String) (trigger : Option String) (description : String)
  | select (selector : String) (element : ElementId)
  | start (visible : Bool)
  | fire (event : String) (element : ElementId)
  | frame (count : Nat)
  | visible (inView : Bool)
  | show
  deriving DecidableEq, Repr

/-- A command and the line on which it stands; lines are counted from 1. -/
structure SceneLine where
  number : Nat
  command : Command
  deriving DecidableEq, Repr

structure Scene where
  lines : List SceneLine := []
  deriving DecidableEq, Repr

/-- The element that the states of a scene belong to. -/
def Scene.element : ElementId := ⟨1⟩

/-! ## What can be wrong with a line -/

inductive CommandFault
  | stateForm
  | selectForm
  | startForm (word : String)
  | eventMissing
  | fireForm
  | frameCount (fault : Text.NumberFault)
  | visibleForm
  | elementId (word : String) (fault : Text.NumberFault)
  | elementZero
  | unknown (word : String)
  deriving DecidableEq, Repr

/-- What is wrong, from the general to the particular. -/
def CommandFault.messages : CommandFault → List String
  | .stateForm => ["expected \x60state <name> = <description>\x60"]
  | .selectForm => ["expected \x60select <selector> <id>\x60"]
  | .startForm word => ["expected \x60visible\x60 or \x60hidden\x60, got " ++ Text.quoted word]
  | .eventMissing => ["expected an event name"]
  | .fireForm => ["expected \x60fire <event> [on <id>]\x60"]
  | .frameCount fault => ["expected a frame count", fault.message]
  | .visibleForm =>
    ["expected \x60true\x60 or \x60false\x60", "provided string was not \x60true\x60 or \x60false\x60"]
  | .elementId word fault => ["bad element id " ++ Text.quoted word, fault.message]
  | .elementZero => ["element ids start at 1"]
  | .unknown word => ["unknown command " ++ Text.quoted word]

/-- A line that is no command. -/
structure SceneFault where
  number : Nat
  /-- The line without the blanks around it. -/
  text : String
  cause : CommandFault
  deriving DecidableEq, Repr

def SceneFault.messages (f : SceneFault) : List String :=
  ("line " ++ Text.decimal f.number ++ ": " ++ Text.quoted f.text) :: f.cause.messages

/-- A list of messages as one line. -/
def chained (messages : List String) : String := ": ".intercalate messages

end Stagecraft
