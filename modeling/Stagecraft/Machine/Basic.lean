import Stagecraft.Machine.Declaration
import Stagecraft.Registry
import Stagecraft.Style.Settings
/-!
# Machines

A machine moves one element through its states.  This module holds what a machine knows and what it can answer;
how it acts on a page is told by the tasks of a stage.
-/
namespace Stagecraft

/-- One reaction of a machine: the place in the list of its state. -/
structure Slot where
  state : String
  index : Nat
  deriving DecidableEq, Repr

/-- The listener of a reaction of the current state; nothing once a jump has detached it. -/
structure Binding where
  index : Nat
  listener : Option Nat
  deriving DecidableEq, Repr

/-- Whether a machine is still in use. -/
inductive Life
  | live
  /-- No one holds the machine any more, and it is detaching its listeners. -/
  | closing
  | closed
  deriving DecidableEq, Repr

structure Machine where
  element : ElementId
  settings : Settings
  /-- Whether the machine can see the hooks of the stage. -/
  hooked : Bool
  states : List StateDecl
  /-- The place of the queue that its jobs go to. -/
  queue : Nat
  current : Option String := none
  bindings : List Binding := []
  /-- How far each sequence has come: the step that was started last. -/
  steps : Registry Slot Nat := {}
  /-- What was last reported about being in view. -/
  visible : Option Bool := none
  /-- The triggers that wait for the first start, with their states. -/
  pending : List (String × Trigger) := []
  /-- The listeners that triggers have added, with the elements they listen on. -/
  triggers : List (ElementId × Nat) := []
  life : Life := .live

namespace Machine

/-- A new machine for declared states. -/
def ofStates (element : ElementId) (settings : Settings) (hooked : Bool) (queue : Nat) (states : List StateDecl) :
    Machine :=
  { element, settings, hooked, states, queue,
    pending := states.filterMap fun s => s.trigger.map fun t => (s.name, t) }

/-! ## What it was declared with -/

def state? (m : Machine) (name : String) : Option StateDecl := m.states.find? fun s => s.name = name

def hasState (m : Machine) (name : String) : Bool := (m.state? name).isSome

def reaction? (m : Machine) (slot : Slot) : Option Reaction :=
  (m.state? slot.state).bind fun s => s.reactions[slot.index]?

/-- Whether the machine cares about coming into view and going out of it. -/
def tracksVisibility (m : Machine) : Bool := m.hasState "enter" || m.hasState "leave"

/-! ## Bindings -/

def isAttached (m : Machine) (index : Nat) : Bool :=
  m.bindings.any fun b => b.index = index && b.listener.isSome

/-- The listener bound for a reaction of the current state. -/
def listenerOf? (m : Machine) (index : Nat) : Option Nat :=
  (m.bindings.find? fun b => b.index = index).bind Binding.listener

/-- Writes a listener into the first of the bindings that belongs to the reaction. -/
def setListener (index : Nat) (listener : Option Nat) : List Binding → List Binding
  | [] => []
  | b :: bs => if b.index = index then ⟨index, listener⟩ :: bs else b :: setListener index listener bs

/-- Notes the listener of a reaction of the current state. -/
def bind (m : Machine) (index id : Nat) : Machine :=
  if m.bindings.any fun b => b.index = index then
    { m with bindings := setListener index (some id) m.bindings }
  else { m with bindings := m.bindings ++ [⟨index, some id⟩] }

/-- Forgets the listener of a reaction, and keeps its place. -/
def unbind (m : Machine) (index : Nat) : Machine := { m with bindings := setListener index none m.bindings }

/-- The listeners that are attached for the current state. -/
def bound (m : Machine) : List Nat := m.bindings.filterMap Binding.listener

/-! ## Sequences -/

def step? (m : Machine) (slot : Slot) : Option Nat := m.steps.get? slot

/-- The position of a sequence, as it answers to questions about a reaction that exists. -/
def position? (m : Machine) (slot : Slot) : Option Nat := (m.reaction? slot).bind fun _ => m.step? slot

def setStep (m : Machine) (slot : Slot) (step : Option Nat) : Machine :=
  { m with
    steps := match step with
      | some k => m.steps.put slot k
      | none => m.steps.erase slot }

theorem step?_setStep_self (m : Machine) (slot : Slot) (step : Option Nat) :
    (m.setStep slot step).step? slot = step := by
  cases step with
  | some k => exact Registry.get?_put_self ..
  | none => exact Registry.get?_erase_self ..

theorem step?_setStep_ne (m : Machine) {slot other : Slot} (h : other ≠ slot) (step : Option Nat) :
    (m.setStep slot step).step? other = m.step? other := by
  cases step with
  | some k => exact Registry.get?_put_ne _ h k
  | none => exact Registry.get?_erase_ne _ h

/-- How reports show a machine. -/
def text (m : Machine) : String :=
  "Maestro \x7b element: " ++ m.element.text ++ ", current: " ++ Text.quotedOption m.current ++ ", .. \x7d"

end Machine
end Stagecraft
