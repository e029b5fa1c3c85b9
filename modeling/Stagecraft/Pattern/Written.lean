import Stagecraft.Pattern.Basic
/-!
# The written form of a pattern

What the reader of patterns makes of a text: the parts of the pattern with the places where they stand, so that whatever
turns out to be wrong with one can be pointed at.
-/
namespace Stagecraft
namespace Pattern

/-- A place in the text of a pattern; lines and columns count from one. -/
structure Place where
  line : Nat := 1
  column : Nat := 1
  deriving DecidableEq, Repr

/-- The place behind a character. -/
def Place.after (p : Place) (c : Char) : Place :=
  if c = '\n' then ⟨p.line + 1, 1⟩ else ⟨p.line, p.column + 1⟩

/-- A part of the text of a pattern. -/
structure Span where
  start : Place
  stop : Place
  deriving DecidableEq, Repr

/-- Ways of reading a pattern. -/
inductive Mode
  | caseless
  | multiline
  | dotAll
  | lazy
  | unicode
  | returns
  | extended
  deriving DecidableEq, Repr

/-- A sign in a list of modes: a mode, or the dash that turns off those behind it. -/
inductive ModeSign
  | off
  | mode (m : Mode)
  deriving DecidableEq, Repr

/-- What a list of signs says of a mode, if anything. -/
def ModeSign.setting? (m : Mode) : List ModeSign → Option Bool
  | [] => none
  | .off :: signs => (setting? m signs).map fun _ => false
  | .mode n :: signs => if n = m then some true else setting? m signs

/-- A character that stands for itself. -/
structure Literal where
  span : Span
  char : Char
  /-- Whether it was written as a byte in hexadecimal. -/
  isByte : Bool := false
  deriving DecidableEq, Repr

/-- An anchor before the modes say what exactly it asks. -/
inductive AnchorSign
  | lineStart
  | lineStop
  | textStart
  | textStop
  | word (edge : WordEdge)
  deriving DecidableEq, Repr

/-- The short names of sets. -/
inductive Shorthand
  | digit
  | space
  | word
  deriving DecidableEq, Repr

/-- The sets that have a name inside brackets. -/
inductive NamedSet
  | alnum
  | alpha
  | ascii
  | blank
  | cntrl
  | digit
  | graph
  | lower
  | print
  | punct
  | space
  | upper
  | word
  | xdigit
  deriving DecidableEq, Repr

/-- A property of characters that a pattern names. -/
inductive PropertyName
  | plain (name : List Char)
  /-- A property together with a value of it. -/
  | valued (text : List Char)
  deriving DecidableEq, Repr

inductive SetOperator
  | inter
  | diff
  | symmDiff
  deriving DecidableEq, Repr

/-- What stands between brackets. -/
inductive WrittenSet
  | empty (span : Span)
  | literal (l : Literal)
  | range (span : Span) (first last : Literal)
  | named (span : Span) (negated : Bool) (set : NamedSet)
  | property (span : Span) (negated : Bool) (name : PropertyName)
  | shorthand (span : Span) (negated : Bool) (set : Shorthand)
  | bracket (span : Span) (negated : Bool) (set : WrittenSet)
  | union (span : Span) (sets : List WrittenSet)
  | operation (span : Span) (op : SetOperator) (left right : WrittenSet)

def WrittenSet.span : WrittenSet → Span
  | .empty s | .range s .. | .named s .. | .property s .. | .shorthand s .. | .bracket s .. | .union s ..
  | .operation s .. => s
  | .literal l => l.span

/-- A pattern as it is written. -/
inductive Written
  | empty (span : Span)
  /-- Modes for the rest of the group. -/
  | modes (span : Span) (signs : List ModeSign)
  | literal (l : Literal)
  | dot (span : Span)
  | anchor (span : Span) (sign : AnchorSign)
  | property (span : Span) (negated : Bool) (name : PropertyName)
  | shorthand (span : Span) (negated : Bool) (set : Shorthand)
  | bracket (span : Span) (negated : Bool) (set : WrittenSet)
  | times (span : Span) (least : Nat) (most : Option Nat) (part : Written)
  | group (span : Span) (captures : Bool) (signs : List ModeSign) (part : Written)
  | alternatives (span : Span) (parts : List Written)
  | sequence (span : Span) (parts : List Written)

namespace Written

def span : Written → Span
  | .empty s | .modes s .. | .dot s | .anchor s .. | .property s .. | .shorthand s .. | .bracket s .. | .times s ..
  | .group s .. | .alternatives s .. | .sequence s .. => s
  | .literal l => l.span

/-- Parts one after another. -/
def ofParts (span : Span) : List Written → Written
  | [] => .empty span
  | [part] => part
  | parts => .sequence span parts

/-- Alternatives, of which the last is still to be added. -/
def ofAlternatives (span : Span) (last : Written) : List Written → Written
  | [] => last
  | parts => .alternatives span (parts ++ [last])

end Written

/-- A union of the sets read so far: the part of the text that they cover, and the sets. -/
structure SetUnion where
  span : Span
  sets : List WrittenSet := []

namespace SetUnion

def push (u : SetUnion) (s : WrittenSet) : SetUnion :=
  ⟨⟨if u.sets.isEmpty then s.span.start else u.span.start, s.span.stop⟩, u.sets ++ [s]⟩

def toSet (u : SetUnion) : WrittenSet :=
  match u.sets with
  | [] => .empty u.span
  | [s] => s
  | sets => .union u.span sets

end SetUnion

/-! ## Nesting -/

mutual

/-- The first set that is nested deeper than allowed; `room` is how much deeper it may go. -/
def WrittenSet.tooDeep? (room : Nat) : WrittenSet → Option Span
  | .bracket span _ set =>
    match room with
    | 0 => some span
    | room + 1 => set.tooDeep? room
  | .union span sets =>
    match room with
    | 0 => some span
    | room + 1 => WrittenSet.firstTooDeep? room sets
  | .operation span _ left right =>
    match room with
    | 0 => some span
    | room + 1 => (left.tooDeep? room).or (right.tooDeep? room)
  | _ => none

def WrittenSet.firstTooDeep? (room : Nat) : List WrittenSet → Option Span
  | [] => none
  | set :: sets => (set.tooDeep? room).or (WrittenSet.firstTooDeep? room sets)

end

mutual

/-- The first part that is nested deeper than allowed; `room` is how much deeper it may go. -/
def Written.tooDeep? (room : Nat) : Written → Option Span
  | .bracket span _ set =>
    match room with
    | 0 => some span
    | room + 1 => set.tooDeep? room
  | .times span _ _ part | .group span _ _ part =>
    match room with
    | 0 => some span
    | room + 1 => part.tooDeep? room
  | .alternatives span parts | .sequence span parts =>
    match room with
    | 0 => some span
    | room + 1 => Written.firstTooDeep? room parts
  | _ => none

def Written.firstTooDeep? (room : Nat) : List Written → Option Span
  | [] => none
  | part :: parts => (part.tooDeep? room).or (Written.firstTooDeep? room parts)

end

end Pattern
end Stagecraft
