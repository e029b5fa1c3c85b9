import Stagecraft.Pattern.Reading
/-!
# Escapes in a pattern

What a backslash makes of the characters behind it, both between brackets and outside: a character by its code, a set
with a short name, a property, an anchor, or a sign that stands for itself.
-/
namespace Stagecraft
namespace Pattern

/-- The characters with a meaning of their own in a pattern. -/
def isSign (c : Char) : Bool := "\\.+*?()|[]\x7b\x7d^$#&-~".toList.contains c

/-- Whether a backslash before a character only says that it stands for itself.  Letters and digits are kept for escapes
with a meaning, and so are the brackets at the edges of words. -/
def isEscapable (c : Char) : Bool :=
  isSign c || (c.toNat < 0x80 && !c.isAlphanum && c ≠ '<' && c ≠ '>')

def isHexDigit (c : Char) : Bool := c.isDigit || ('a' ≤ c && c ≤ 'f') || ('A' ≤ c && c ≤ 'F')

/-- The character with a code, if there is one. -/
def charOfCode? (n : Nat) : Option Char := if n.isValidChar then some (Char.ofNat n) else none

/-- The controls that have a letter. -/
def controlOf? : Char → Option Char
  | 'a' => some '\x07'
  | 'f' => some '\x0c'
  | 't' => some '\t'
  | 'n' => some '\n'
  | 'r' => some '\r'
  | 'v' => some '\x0b'
  | _ => none

/-- The anchors that have a letter or an angle bracket. -/
def anchorOf? : Char → Option AnchorSign
  | 'A' => some .textStart
  | 'z' => some .textStop
  | 'b' => some (.word .either)
  | 'B' => some (.word .neither)
  | '<' => some (.word .first)
  | '>' => some (.word .last)
  | _ => none

/-- The sets that have a letter; in upper case it means all other characters. -/
def shorthandOf? : Char → Option (Bool × Shorthand)
  | 'd' => some (false, .digit)
  | 's' => some (false, .space)
  | 'w' => some (false, .word)
  | 'D' => some (true, .digit)
  | 'S' => some (true, .space)
  | 'W' => some (true, .word)
  | _ => none

def wordEdgeOf? (name : List Char) : Option WordEdge :=
  if name = "start".toList then some .first
  else if name = "end".toList then some .last
  else if name = "start-half".toList then some .beforeFirst
  else if name = "end-half".toList then some .afterLast
  else none

/-- The number of digits behind the letter of a code. -/
def codeLength (letter : Char) : Nat := if letter = 'x' then 2 else if letter = 'u' then 4 else 8

namespace Reading

/-- A fixed number of hexadecimal digits. -/
def hexDigits : Nat → Reading (List Char)
  | 0 => pure []
  | n + 1 => do
    match ← peek? with
    | none => fail (← here) .escapeCutOff
    | some c =>
      if isHexDigit c then do
        bumpSkip
        pure (c :: (← hexDigits n))
      else fail (← charSpan) .hexDigit

/-- The literal for a code that stands in a part of the text. -/
def codeLiteral (start : Place) (written : Span) (digits : List Char) (isByte : Bool) : Reading Literal := do
  match charOfCode? (value 16 digits) with
  | some char => pure ⟨← spanFrom start, char, isByte⟩
  | none => fail written .hexNotACharacter

/-- A character by its code; `start` is where the backslash stands. -/
def code (start : Place) (letter : Char) : Reading Literal := do
  bumpSkip
  match ← peek? with
  | none => fail (← here) .escapeCutOff
  | some '\x7b' =>
    let brace ← charSpan
    bumpSkip
    let digits ← run isHexDigit (← remaining)
    match ← peek? with
    | none => fail (← spanFrom brace.start) .escapeCutOff
    | some '\x7d' =>
      let written ← spanFrom brace.stop
      bumpSkip
      if digits.isEmpty then fail (← spanFrom brace.start) .hexMissing
      else codeLiteral start written digits false
    | some _ => fail (← charSpan) .hexDigit
  | some _ =>
    let first ← place
    let digits ← hexDigits (codeLength letter)
    codeLiteral start (← spanFrom first) digits (letter = 'x')

/-- A property of characters. -/
def property (start : Place) (negated : Bool) : Reading Written := do
  bumpSkip
  match ← peek? with
  | none => fail (← here) .escapeCutOff
  | some '\\' => fail (← charSpan) .propertySyntax
  | some '\x7b' =>
    bumpSkip
    let name ← run (· ≠ '\x7d') (← remaining)
    if ← atEnd then fail (← here) .escapeCutOff
    else
      bump
      let name := if name.any fun c => c = ':' || c = '=' then PropertyName.valued name else .plain name
      pure (.property (← spanFrom start) negated name)
  | some c =>
    bumpSkip
    pure (.property (← spanFrom start) negated (.plain [c]))

/-- The name of a word edge in braces, if that is what the braces behind the escape hold; otherwise they are left for a
count. -/
def wordEdge (start : Place) : Reading (Option WordEdge) := do
  let isNameChar (c : Char) : Bool := c.isAlpha || c = '-'
  let atBrace ← get
  bumpSkip
  match ← peek? with
  | none => fail (← spanFrom start) .wordEdgeCutOff
  | some c =>
    if isNameChar c then
      let first ← place
      let name ← run isNameChar (← remaining)
      if (← peek?) = some '\x7d' then
        let written ← spanFrom first
        bump
        match wordEdgeOf? name with
        | some edge => pure (some edge)
        | none => fail written .wordEdgeUnknown
      else fail (← spanFrom atBrace.place) .wordEdgeOpen
    else
      set atBrace
      pure none

/-- An escape, from its backslash. -/
def escape : Reading Written := do
  let start ← place
  bump
  match ← peek? with
  | none => fail (← spanFrom start) .escapeCutOff
  | some c =>
    if c.isDigit then fail ⟨start, (← charSpan).stop⟩ .backreference
    else if c = 'x' || c = 'u' || c = 'U' then return .literal (← code start c)
    else if c = 'p' || c = 'P' then property start (c = 'P')
    else
      bump
      let span ← spanFrom start
      match shorthandOf? c, anchorOf? c, controlOf? c with
      | some (negated, set), _, _ => pure (.shorthand span negated set)
      | none, some sign, _ =>
        if c = 'b' && (← peek?) = some '\x7b' then
          match ← wordEdge start with
          | some edge => pure (.anchor (← spanFrom start) (.word edge))
          | none => pure (.anchor span sign)
        else pure (.anchor span sign)
      | none, none, some char => pure (.literal ⟨span, char, false⟩)
      | none, none, none =>
        if isEscapable c then pure (.literal ⟨span, c, false⟩) else fail span .escapeUnknown

end Reading

end Pattern
end Stagecraft
