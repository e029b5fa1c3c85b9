import Stagecraft.Log.Notice
import Stagecraft.State.Description
/-!
# Declaring the states of a machine

States are declared one after another, each in one of three ways.  A later declaration of a name takes the place of
an earlier one.
-/
namespace Stagecraft

/-- A reaction given by separate attributes.  `animate` names keyframes that play one after another. -/
structure Attributes where
  on : Option String := none
  before : Option String := none
  after : Option String := none
  animate : Option String := none
  goto : Option String := none
  deriving DecidableEq, Repr

/-- The reaction that attributes describe; without `on` it runs on entry. -/
def Attributes.reaction (a : Attributes) : Reaction :=
  let on := Occasion.parse (a.on.getD "")
  { (a.animate.elim { on } (Reaction.sequence on .animate)) with
    before := a.before.bind Reaction.hookName?
    after := a.after.bind Reaction.hookName?
    goto := a.goto.bind Text.filled }

/-- One way of declaring a state. -/
inductive Declaration
  /-- By a description, with the text of a trigger if there is one. -/
  | described (name : String) (trigger : Option String) (description : String)
  /-- By attributes, one reaction each. -/
  | attributed (name : String) (trigger : Option String) (events : List Attributes)
  /-- By a state that is ready; its name is taken as it is. -/
  | ready (state : StateDecl)
  deriving DecidableEq, Repr

namespace Declaration

/-- The name that a state is declared under: trimmed, and `default` if nothing is left. -/
def stateName (name : String) : String := (Text.filled name).getD "default"

/-- The state that is declared. -/
def state : Declaration → StateDecl
  | .described name trigger src => .parse (stateName name) trigger src
  | .attributed name trigger events =>
    ⟨stateName name, events.map Attributes.reaction, trigger.bind Trigger.parse?⟩
  | .ready s => s

/-- What is reported when a state of this element is declared. -/
def notices (el : ElementId) : Declaration → List Notice
  | .described name trigger src =>
    (Description.read src).skipped.map (.skippedInState el (stateName name))
      ++ ((trigger.filter fun t => (Trigger.parse? t).isNone).map (.triggerMalformed el (stateName name))).toList
  | _ => []

end Declaration

/-- The states declared so far, each name once, in the order of their last declarations. -/
def declare (states : List StateDecl) (d : Declaration) : List StateDecl :=
  (states.filter fun s => s.name != d.state.name) ++ [d.state]

end Stagecraft
