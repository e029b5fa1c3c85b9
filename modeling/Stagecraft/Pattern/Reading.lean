import Stagecraft.Pattern.Fault
/-!
# Reading a pattern character by character

`Reading` is a step of the reader: it goes on in the text, and ends with a value or with a fault.  In the extended mode
blanks and comments between the signs of a pattern mean nothing; `skip` passes over them.
-/
namespace Stagecraft
namespace Pattern

/-- How far the reader has come. -/
structure Cursor where
  rest : List Char
  place : Place := {}
  extended : Bool := false
  /-- The names of groups so far, and where they stand. -/
  names : List (List Char × Span) := []
  deriving DecidableEq, Repr

abbrev Reading := StateT Cursor (Except SpanFault)

namespace Cursor

/-- Behind the next character. -/
def advance (c : Cursor) : Cursor :=
  match c.rest with
  | [] => c
  | x :: xs => { c with rest := xs, place := c.place.after x }

/-- Behind the blanks and comments that come next. -/
def skipFiller (inComment : Bool) (place : Place) : List Char → Place × List Char
  | [] => (place, [])
  | c :: cs =>
    if inComment then skipFiller (c ≠ '\n') (place.after c) cs
    else if Text.isBlank c then skipFiller false (place.after c) cs
    else if c = '#' then skipFiller true (place.after c) cs
    else (place, c :: cs)

def skip (c : Cursor) : Cursor :=
  if c.extended then
    let (place, rest) := skipFiller false c.place c.rest
    { c with rest, place }
  else c

/-- The sign after the next one.  In the extended mode blanks are passed over, and the mark of a comment with them, but
not the comment. -/
def second? (c : Cursor) : Option Char :=
  if c.extended then
    match dropBlanks c.rest.tail with
    | [] => c.rest.tail.head?
    | '#' :: cs => ((dropBlanks cs).head?).or c.rest.tail.head?
    | x :: _ => some x
  else c.rest.tail.head?
where
  dropBlanks (cs : List Char) : List Char := cs.dropWhile Text.isBlank

end Cursor

namespace Reading

def peek? : Reading (Option Char) := return (← get).rest.head?

def atEnd : Reading Bool := return (← get).rest.isEmpty

def place : Reading Place := return (← get).place

/-- The number of characters that are left. -/
def remaining : Reading Nat := return (← get).rest.length

def bump : Reading Unit := modify Cursor.advance

def skip : Reading Unit := modify Cursor.skip

def bumpSkip : Reading Unit := do bump; skip

/-- From a place to here. -/
def spanFrom (start : Place) : Reading Span := return ⟨start, ← place⟩

/-- The part of the text between two characters: here. -/
def here : Reading Span := do spanFrom (← place)

/-- The next character as a part of the text. -/
def charSpan : Reading Span := do
  let start ← place
  match ← peek? with
  | some c => pure ⟨start, start.after c⟩
  | none => pure ⟨start, start⟩

def fail {α : Type} (span : Span) (cause : Cause) : Reading α := throw ⟨cause, span, none⟩

/-- Passes over the given characters if they come next. -/
def take? (s : List Char) : Reading Bool := do
  if s.isPrefixOf (← get).rest then
    modify fun c => s.foldl (fun c _ => c.advance) c
    pure true
  else pure false

/-- Passes over blanks. -/
def skipBlanks : Nat → Reading Unit
  | 0 => pure ()
  | n + 1 => do
    match ← peek? with
    | some c => if Text.isBlank c then bump; skipBlanks n
    | none => pure ()

/-- The characters that come next and are accepted; what means nothing between them is passed over. -/
def run (p : Char → Bool) : Nat → Reading (List Char)
  | 0 => pure []
  | n + 1 => do
    match ← peek? with
    | some c =>
      if p c then do bumpSkip; pure (c :: (← run p n))
      else pure []
    | none => pure []

/-- The value of digits of ASCII. -/
def value (base : Nat) (digits : List Char) : Nat :=
  digits.foldl (fun n c =>
    base * n + (if c ≤ '9' then c.toNat - '0'.toNat else if c ≤ 'F' then c.toNat - 'A'.toNat + 10
      else c.toNat - 'a'.toNat + 10)) 0

/-- The least number that is too large for a count. -/
def countBound : Nat := 0x100000000

/-- A number in decimal, with blanks around it. -/
def decimal : Reading (Except SpanFault Nat) := do
  skipBlanks (← remaining)
  let start ← place
  let digits ← run Char.isDigit (← remaining)
  let span ← spanFrom start
  let _ ← run Text.isBlank (← remaining)
  if digits.isEmpty then pure (.error ⟨.countMissing, span, none⟩)
  else if value 10 digits < countBound then pure (.ok (value 10 digits))
  else pure (.error ⟨.decimalTooLarge, span, none⟩)

end Reading

end Pattern
end Stagecraft
