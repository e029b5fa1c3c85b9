import Stagecraft.Text.Blank
/-!
# Reactions

A state of an element is a name and a list of reactions.  A reaction says on what occasion it runs, which effects
it runs, which hooks are called around them and which state comes next.
-/
namespace Stagecraft

/-! ## Occasions -/

/-- What makes a reaction run. -/
inductive Occasion
  /-- The next frame after the state is entered. -/
  | entry
  /-- The event of this name, dispatched on the element. -/
  | event (name : String)
  deriving DecidableEq, Repr

namespace Occasion

/-- Reads the name of an occasion.  `active`, or nothing, is the entry; `enter` and `leave` are short for the
events of the pointer. -/
def parse (name : String) : Occasion :=
  match Text.trimmed name with
  | "" => .entry
  | "active" => .entry
  | "enter" => .event "mouseenter"
  | "leave" => .event "mouseleave"
  | other => .event other

def isEntry : Occasion → Bool
  | .entry => true
  | .event _ => false

def eventName? : Occasion → Option String
  | .entry => none
  | .event name => some name

def text : Occasion → String
  | .entry => "active"
  | .event name => name

end Occasion

/-! ## Effects -/

/-- The three kinds of effect. -/
inductive EffectKind
  /-- From an offset, transparent start into the position of rest. -/
  | enter
  /-- To a transform that stays. -/
  | transform
  /-- A named keyframe animation. -/
  | animate
  deriving DecidableEq, Repr

namespace EffectKind

def keyword : EffectKind → String
  | .enter => "enter"
  | .transform => "transform"
  | .animate => "animate"

def ofKeyword? : String → Option EffectKind
  | "enter" => some .enter
  | "transform" => some .transform
  | "animate" => some .animate
  | _ => none

end EffectKind

/-- An effect: its kind, and the text that describes it, which starts with the keyword of the kind. -/
structure Effect where
  kind : EffectKind
  source : String
  deriving DecidableEq, Repr

namespace Effect

/-- One step of a sequence of effects of one kind. -/
def step (kind : EffectKind) (text : String) : Effect :=
  ⟨kind, kind.keyword ++ " " ++ Text.trimmed text⟩

/-- The word after the keyword: for `animate`, the name of the keyframes. -/
def keyframe? (e : Effect) : Option String := (Text.wordsOf e.source)[1]?

/-- Reads one action.  Its first word is the keyword of its kind. -/
def parse? (action : String) : Option Effect :=
  match (Text.wordsOf action).head? with
  | some word => (EffectKind.ofKeyword? word).map fun kind => ⟨kind, Text.trimmed action⟩
  | none => none

end Effect

/-! ## Reactions -/

/-- How the action of a reaction is to be read. -/
inductive Encoding
  /-- Effects between colons, all of them run each time. -/
  | several
  /-- Steps of one kind between blanks, one of them run each time. -/
  | sequence (kind : EffectKind)
  deriving DecidableEq, Repr

structure Reaction where
  on : Occasion
  /-- The action as written; nothing if the reaction only leads to another state. -/
  action : Option String := none
  encoding : Encoding := .several
  /-- The hook called before the action. -/
  before : Option String := none
  /-- The hook called once the action is complete. -/
  after : Option String := none
  /-- The state entered once the action is complete. -/
  goto : Option String := none
  /-- A marker that is carried along and not interpreted. -/
  loop : Option String := none
  deriving DecidableEq, Repr

namespace Reaction

/-- A reaction that runs `steps` one by one. -/
def sequence (on : Occasion) (kind : EffectKind) (steps : String) : Reaction :=
  { on, action := if (Text.trimmed steps).isEmpty then none else some steps, encoding := .sequence kind }

/-- Drops every `()` at the end of a text that is given from its end. -/
def dropCalls : List Char → List Char
  | ')' :: '(' :: cs => dropCalls cs
  | cs => cs

/-- The name of a hook, which may be written as a call. -/
def hookName? (raw : String) : Option String :=
  Text.filled (String.ofList (dropCalls (Text.trim raw.toList).reverse).reverse)

def withBefore (r : Reaction) (hook : String) : Reaction := { r with before := hookName? hook }

def withAfter (r : Reaction) (hook : String) : Reaction := { r with after := hookName? hook }

def withGoto (r : Reaction) (state : String) : Reaction := { r with goto := Text.filled state }

/-- The reaction with one more effect in its action; a blank text adds nothing. -/
def addEffect (r : Reaction) (effect : String) : Reaction :=
  match Text.filled effect with
  | some e => { r with action := some (r.action.getD "" ++ ":" ++ e) }
  | none => r

/-- The effects between colons, blank ones left out. -/
def actions (r : Reaction) : List String := (Text.piecesOf ':' (r.action.getD "")).filterMap Text.filled

/-- The steps between blanks. -/
def steps (r : Reaction) : List String := Text.wordsOf (r.action.getD "")

/-- Whether there is something to run. -/
def hasAction (r : Reaction) : Bool :=
  match r.action with
  | some a => !(Text.trimmed a).isEmpty
  | none => false

end Reaction

/-! ## Triggers and states -/

/-- Elements that match `selector` switch the owner of a state into it, on an occasion of theirs. -/
structure Trigger where
  selector : String
  on : Occasion
  deriving DecidableEq, Repr

/-- The first two words of a text; both are needed. -/
def Trigger.parse? (src : String) : Option Trigger :=
  match Text.wordsOf src with
  | selector :: event :: _ => some ⟨selector, .parse event⟩
  | _ => none

/-- A named state.  Its trigger counts once, when the element is first set going. -/
structure StateDecl where
  name : String
  reactions : List Reaction
  trigger : Option Trigger := none
  deriving DecidableEq, Repr

end Stagecraft
