/-!
# Control sequences

A text may hold control characters and sequences that would move the cursor of a terminal, change its colours or name
its window.  `withoutControls` is what remains for a reader: visible characters, and the blanks that lay them out.

A sequence starts with an escape; what follows says of which kind it is and where it ends.  A blank inside a short
sequence is shown, and what comes after it too, up to the next control: there the sequence is taken up again.
-/
namespace Stagecraft
namespace Text

/-- How much of a control sequence has been read. -/
inductive Sequence
  /-- None is open. -/
  | none
  /-- The escape. -/
  | escape
  /-- The escape and some marks. -/
  | marked
  /-- A command with parameters, up to its letter. -/
  | command
  /-- The head of a string for a device, before its parameters. -/
  | deviceHead
  | deviceParameters
  | deviceMarked
  /-- A string that lasts until its terminator. -/
  | string
  /-- A string for the terminal itself, which a bell may end as well. -/
  | system
  deriving DecidableEq, Repr

namespace Sequence

/-- The sequence after one more character of ASCII that is not a control. -/
def next (s : Sequence) (c : Char) : Sequence :=
  match s with
  | .none => .none
  | .escape =>
    if c ≤ '/' then .marked
    else if c = '[' then .command
    else if c = ']' then .system
    else if c = 'P' then .deviceHead
    else if c = 'X' || c = '^' || c = '_' then .string
    else .none
  | .marked => if c ≤ '/' then .marked else .none
  | .command => if c ≤ '?' then .command else .none
  | .deviceHead => if c ≤ '/' then .deviceMarked else if c ≤ '?' then .deviceParameters else .string
  | .deviceParameters => if c ≤ '/' then .deviceMarked else if c ≤ ';' then .deviceParameters else .string
  | .deviceMarked => if c ≤ '/' then .deviceMarked else .string
  | .string => .string
  | .system => .system

/-- Whether a blank inside the sequence is shown. -/
def isShort : Sequence → Bool
  | .escape | .marked | .command => true
  | _ => false

/-- An escape opens a sequence, whatever was open before; a cancellation closes it. -/
def restart? (c : Char) : Option Sequence :=
  if c = '\x1b' then some .escape
  else if c = '\x18' || c = '\x1a' then some .none
  else Option.none

end Sequence

/-- The controls that lay out a text. -/
def isLayout (c : Char) : Bool := c = '\t' || c = '\n' || c = '\x0c' || c = '\r'

/-- Whether a character stands for itself outside of sequences. -/
def isShown (c : Char) : Bool := isLayout c || (' ' ≤ c && c ≠ '\x7f')

/-- Whether the terminator of strings is among the bytes of a character. -/
def holdsTerminator (c : Char) : Bool := (String.utf8EncodeChar c).contains 0x9C

/-- A place in a text: the open sequence, and whether it is interrupted by something that is shown. -/
structure ControlState where
  sequence : Sequence := .none
  interrupted : Bool := false
  deriving DecidableEq, Repr

namespace ControlState

/-- Whether characters that can be shown are shown here. -/
def isOpen (s : ControlState) : Bool := s.interrupted || s.sequence = .none

/-- The place after a character, and whether the character is shown. -/
def read (s : ControlState) (c : Char) : ControlState × Bool :=
  if s.isOpen && isShown c then (if c.toNat < 0x80 then s else {}, true)
  else match Sequence.restart? c with
    | some sequence => (⟨sequence, false⟩, false)
    | none =>
      if s.isOpen then (⟨s.sequence, false⟩, false)
      else if s.sequence.isShort && isLayout c then (⟨s.sequence, true⟩, true)
      else if 0x80 ≤ c.toNat then (if s.sequence = .string && holdsTerminator c then {} else s, false)
      else if isShown c && !isLayout c then (⟨s.sequence.next c, false⟩, false)
      else (if s.sequence = .system && c = '\x07' then {} else s, false)

/-- The characters that are shown from a place on. -/
def shown (s : ControlState) : List Char → List Char
  | [] => []
  | c :: cs => if (s.read c).2 then c :: (s.read c).1.shown cs else (s.read c).1.shown cs

/-- A text of visible characters and layout is shown as it is. -/
theorem shown_of_all : ∀ (cs : List Char), (∀ c ∈ cs, isShown c = true) → shown {} cs = cs
  | [], _ => rfl
  | c :: cs, h => by
    have hc := h c (by simp)
    have hread : read {} c = ({}, true) := by simp [read, isOpen, hc]
    rw [shown, hread]
    simp [shown_of_all cs fun d hd => h d (by simp [hd])]

end ControlState

/-- A text as a reader sees it. -/
def withoutControls (s : String) : String := String.ofList (ControlState.shown {} s.toList)

end Text
end Stagecraft
