import Stagecraft.Text.Blank
import Stagecraft.Text.Numeral
import Stagecraft.Registry
/-!
# The page

An in-memory page: elements with classes, listeners for events, calls that wait for one event, and selectors.
Nothing happens on it by itself.  An event reaches the listeners only when it is dispatched, and who runs the calls
that a dispatch gathers is not the page's business, so the calls are of any type: `α` for listeners, `β` for calls
that are made once.
-/
namespace Stagecraft

structure ElementId where
  number : Nat
  deriving DecidableEq, Repr

/-- How reports name an element. -/
def ElementId.text (e : ElementId) : String := "ElementId(" ++ Text.decimal e.number ++ ")"

/-- A change of classes, or the demand that all changes so far take effect. -/
inductive PageOp
  | addClass (element : ElementId) (names : String)
  | removeClass (element : ElementId) (names : String)
  | flush (element : ElementId)
  deriving DecidableEq, Repr

structure Listener (α : Type) where
  id : Nat
  element : ElementId
  event : String
  call : α

structure Waiting (β : Type) where
  element : ElementId
  event : String
  call : β

/-- Whether a registration is for this event of this element. -/
def Listener.hears {α : Type} (l : Listener α) (el : ElementId) (event : String) : Bool :=
  l.element = el && l.event = event

def Waiting.hears {β : Type} (w : Waiting β) (el : ElementId) (event : String) : Bool :=
  w.element = el && w.event = event

structure Page (α β : Type) where
  /-- The greatest listener id given out. -/
  lastId : Nat := 0
  /-- The classes of each element, in ascending order. -/
  classes : Registry ElementId (List String) := {}
  listeners : List (Listener α) := []
  waiting : List (Waiting β) := []
  selectors : Registry String (List ElementId) := {}

namespace Page

variable {α β : Type}

/-! ## Classes -/

def classesOf (p : Page α β) (el : ElementId) : List String := (p.classes.get? el).getD []

/-- Inserts a class into an ascending list that has each class once. -/
def insertClass (name : String) : List String → List String
  | [] => [name]
  | c :: cs =>
    if name = c then c :: cs
    else if name < c then name :: c :: cs
    else c :: insertClass name cs

def setClasses (p : Page α β) (el : ElementId) (names : List String) : Page α β :=
  { p with classes := p.classes.put el names }

theorem classesOf_setClasses_self (p : Page α β) (el : ElementId) (names : List String) :
    (p.setClasses el names).classesOf el = names := by
  simp [setClasses, classesOf, Registry.get?_put_self]

theorem classesOf_setClasses_ne (p : Page α β) {el other : ElementId} (h : other ≠ el) (names : List String) :
    (p.setClasses el names).classesOf other = p.classesOf other := by
  simp [setClasses, classesOf, Registry.get?_put_ne _ h]

/-- Adds every class named in the text. -/
def addClass (p : Page α β) (el : ElementId) (names : String) : Page α β :=
  p.setClasses el ((Text.wordsOf names).foldl (fun cs n => insertClass n cs) (p.classesOf el))

/-- Removes every class named in the text. -/
def removeClass (p : Page α β) (el : ElementId) (names : String) : Page α β :=
  p.setClasses el ((p.classesOf el).filter fun c => !(Text.wordsOf names).contains c)

def perform (p : Page α β) : PageOp → Page α β
  | .addClass el names => p.addClass el names
  | .removeClass el names => p.removeClass el names
  | .flush _ => p

def hasClass (p : Page α β) (el : ElementId) (name : String) : Bool := (p.classesOf el).contains name

/-! ## Listeners -/

/-- The id that the next listener gets. -/
def nextId (p : Page α β) : Nat := p.lastId + 1

/-- Adds a listener under the next id. -/
def addListener (p : Page α β) (el : ElementId) (event : String) (call : α) : Page α β :=
  { p with lastId := p.nextId, listeners := p.listeners ++ [⟨p.nextId, el, event, call⟩] }

/-- Removes the listener with this id from this element, if it is there. -/
def removeListener (p : Page α β) (el : ElementId) (id : Nat) : Page α β :=
  { p with listeners := p.listeners.filter fun l => !(l.element = el && l.id = id) }

def isRegistered (p : Page α β) (id : Nat) : Bool := p.listeners.any fun l => l.id = id

/-- Makes a call the next time the event is dispatched, and then forgets it. -/
def listenOnce (p : Page α β) (el : ElementId) (event : String) (call : β) : Page α β :=
  { p with waiting := p.waiting ++ [⟨el, event, call⟩] }

/-- The listeners for an event, in the order in which they were added. -/
def listening (p : Page α β) (el : ElementId) (event : String) : List (Listener α) :=
  p.listeners.filter fun l => l.hears el event

theorem listening_addListener (p : Page α β) (el : ElementId) (event : String) (call : α) :
    (p.addListener el event call).listening el event = p.listening el event ++ [⟨p.nextId, el, event, call⟩] := by
  simp [addListener, listening, Listener.hears]

/-- The calls that wait for an event, in the order in which they were made. -/
def awaiting (p : Page α β) (el : ElementId) (event : String) : List (Waiting β) :=
  p.waiting.filter fun w => w.hears el event

/-- The page without the calls that wait for an event. -/
def forget (p : Page α β) (el : ElementId) (event : String) : Page α β :=
  { p with waiting := p.waiting.filter fun w => !w.hears el event }

/-- All listeners on an element. -/
def listenersOn (p : Page α β) (el : ElementId) : List (Listener α) := p.listeners.filter fun l => l.element = el

/-! ## Selectors -/

def registerSelector (p : Page α β) (selector : String) (els : List ElementId) : Page α β :=
  { p with selectors := p.selectors.put selector els }

/-- The elements that a selector stands for; none if it is not registered. -/
def select (p : Page α β) (selector : String) : List ElementId := (p.selectors.get? selector).getD []

end Page
end Stagecraft
