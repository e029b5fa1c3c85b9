import Stagecraft.Pattern.Reader
/-!
# What a written pattern means

The modes in force decide what a sign stands for.  In the mode `unicode`, which holds unless it is turned off, a pattern
speaks of characters; otherwise of bytes, and since texts are made of characters it may then name only those of one
byte.  There are no tables for the letters of all scripts: sets with short names, letters in both cases and the edges of
words are known for ASCII only, and a pattern that asks for more is refused.
-/
namespace Stagecraft
namespace Pattern

/-- The modes in force. -/
structure Modes where
  caseless : Bool := false
  multiline : Bool := false
  dotAll : Bool := false
  unicode : Bool := true
  returns : Bool := false
  deriving DecidableEq, Repr

namespace Modes

def set (m : Modes) (on : Bool) : Mode → Modes
  | .caseless => { m with caseless := on }
  | .multiline => { m with multiline := on }
  | .dotAll => { m with dotAll := on }
  | .unicode => { m with unicode := on }
  | .returns => { m with returns := on }
  | .lazy | .extended => m

/-- The modes after a list of signs; those behind the dash are turned off. -/
def apply (m : Modes) : List ModeSign → Modes
  | [] => m
  | .off :: signs => signs.foldl (fun m sign => match sign with
    | .mode mode => m.set false mode
    | .off => m) m
  | .mode mode :: signs => (m.set true mode).apply signs

end Modes

/-- What is known while a pattern is gone through. -/
structure Sense where
  modes : Modes := {}
  /-- Whether an edge of words of all scripts is asked for. -/
  asksForScripts : Bool := false
  deriving DecidableEq, Repr

abbrev Understanding := StateT Sense (Except SpanFault)

/-- What an anchor asks under some modes. -/
def AnchorSign.anchor (m : Modes) : AnchorSign → Anchor
  | .lineStart => if m.multiline then .lineStart m.returns else .textStart
  | .lineStop => if m.multiline then .lineStop m.returns else .textStop
  | .textStart => .textStart
  | .textStop => .textStop
  | .word edge => .word edge

def NamedSet.set : NamedSet → CharSet
  | .alnum => ⟨[(0x30, 0x39), (0x41, 0x5A), (0x61, 0x7A)]⟩
  | .alpha => ⟨[(0x41, 0x5A), (0x61, 0x7A)]⟩
  | .ascii => ⟨[(0x00, 0x7F)]⟩
  | .blank => ⟨[(0x09, 0x09), (0x20, 0x20)]⟩
  | .cntrl => ⟨[(0x00, 0x1F), (0x7F, 0x7F)]⟩
  | .digit => ⟨[(0x30, 0x39)]⟩
  | .graph => ⟨[(0x21, 0x7E)]⟩
  | .lower => ⟨[(0x61, 0x7A)]⟩
  | .print => ⟨[(0x20, 0x7E)]⟩
  | .punct => ⟨[(0x21, 0x2F), (0x3A, 0x40), (0x5B, 0x60), (0x7B, 0x7E)]⟩
  | .space => ⟨[(0x09, 0x0D), (0x20, 0x20)]⟩
  | .upper => ⟨[(0x41, 0x5A)]⟩
  | .word => ⟨[(0x30, 0x39), (0x41, 0x5A), (0x5F, 0x5F), (0x61, 0x7A)]⟩
  | .xdigit => ⟨[(0x30, 0x39), (0x41, 0x46), (0x61, 0x66)]⟩

/-- The set with a short name, in ASCII. -/
def Shorthand.set : Shorthand → CharSet
  | .digit => NamedSet.digit.set
  | .space => NamedSet.space.set
  | .word => NamedSet.word.set

/-- The name of a property without what does not count in it: blanks, dashes, case, and `is` before it. -/
def PropertyName.normal (name : List Char) : List Char :=
  let hasIs := (name.take 2).map Char.toLower = ['i', 's']
  let bare := (if hasIs then name.drop 2 else name).filter fun c =>
    c.toNat < 0x80 && c ≠ ' ' && c ≠ '_' && c ≠ '-'
  let folded := bare.map Char.toLower
  if hasIs && folded = ['c'] then ['i', 's', 'c'] else folded

/-- Why a property is not known.  Three names are those of categories before they are those of properties. -/
def PropertyName.cause : PropertyName → Cause
  | .valued _ => .propertyUnknown
  | .plain name =>
    if ["cf", "sc", "lc"].contains (String.ofList (normal name)) then .propertyValueUnknown else .propertyUnknown

namespace Understanding

/-- The modes in force here. -/
def inForce : Understanding Modes := return (← get).modes

def fail {α : Type} (span : Span) (cause : Cause) : Understanding α := throw ⟨cause, span, none⟩

/-- A set with both cases of its letters, if that is asked for. -/
def folded (span : Span) (s : CharSet) : Understanding CharSet := do
  let m ← inForce
  if !m.caseless then pure s
  else if !m.unicode then pure s.foldAscii
  else if s.isEmpty then pure s
  else fail span .noCaseTable

/-- A set as it was meant: with both cases if that is asked for, and then all but it, if it is negated. -/
def completed (span : Span) (negated : Bool) (s : CharSet) : Understanding CharSet := do
  let m ← inForce
  let s ← folded span s
  if m.unicode then pure (if negated then CharSet.all.diff s else s)
  else
    let s := if negated then CharSet.bytes.diff s else s
    if s.isAscii then pure s else fail span .partOfCharacter

/-- A byte above ASCII is only a part of a character. -/
def checkByte (l : Literal) : Understanding Unit := do
  if !(← inForce).unicode && l.isByte && 0x80 ≤ l.char.toNat then fail l.span .partOfCharacter

/-- A literal outside of brackets. -/
def literal (l : Literal) : Understanding CharSet := do
  checkByte l
  let m ← inForce
  if m.caseless && m.unicode then fail l.span .noCaseTable
  else if m.caseless then pure (CharSet.only l.char).foldAscii
  else pure (.only l.char)

/-- A literal between brackets. -/
def member (l : Literal) : Understanding Char := do
  checkByte l
  if !(← inForce).unicode && 0x80 ≤ l.char.toNat then fail l.span .bytesOnly
  else pure l.char

def shorthand (span : Span) (negated : Bool) (set : Shorthand) : Understanding CharSet := do
  if (← inForce).unicode then fail span .noShorthandTable
  else if negated then fail span .partOfCharacter
  else pure set.set

def property (span : Span) (name : PropertyName) : Understanding CharSet := do
  if (← inForce).unicode then fail span name.cause else fail span .bytesOnly

def dot (span : Span) : Understanding CharSet := do
  let m ← inForce
  if !m.unicode then fail span .partOfCharacter
  else if m.dotAll then pure .all
  else if m.returns then pure (CharSet.all.diff (.ofList ['\n', '\r']))
  else pure (CharSet.all.diff (.only '\n'))

end Understanding

open Understanding in
mutual

/-- The characters that a set in brackets holds. -/
def WrittenSet.meaning : WrittenSet → Understanding CharSet
  | .empty _ => pure .none
  | .literal l => do return .only (← member l)
  | .range _ first last => do
    let first ← member first
    let last ← member last
    return .between first last
  | .named span negated set => completed span negated set.set
  | .property span _ name => Understanding.property span name
  | .shorthand span negated set => Understanding.shorthand span negated set
  | .bracket span negated set => do completed span negated (← set.meaning)
  | .union _ sets => WrittenSet.unionMeaning sets
  | .operation _ op left right => do
    let leftSet ← left.meaning
    let rightSet ← right.meaning
    let rightSet ← folded right.span rightSet
    let leftSet ← folded left.span leftSet
    return match op with
      | .inter => leftSet.inter rightSet
      | .diff => leftSet.diff rightSet
      | .symmDiff => leftSet.symmDiff rightSet

def WrittenSet.unionMeaning : List WrittenSet → Understanding CharSet
  | [] => pure .none
  | set :: sets => do
    let first ← set.meaning
    let rest ← WrittenSet.unionMeaning sets
    return first.union rest

end

open Understanding in
mutual

/-- The pattern that is meant. -/
def Written.meaning : Written → Understanding Pattern
  | .empty _ => pure .empty
  | .modes _ signs => do
    modify fun s => { s with modes := s.modes.apply signs }
    pure .empty
  | .literal l => do return .one (← Understanding.literal l)
  | .dot span => do return .one (← Understanding.dot span)
  | .anchor _ sign => do
    let m ← inForce
    match sign.anchor m with
    | .word edge =>
      if m.unicode then modify fun s => { s with asksForScripts := true }
      pure (.anchor (.word edge))
    | a => pure (.anchor a)
  | .property span _ name => do return .one (← Understanding.property span name)
  | .shorthand span negated set => do return .one (← Understanding.shorthand span negated set)
  | .bracket span negated set => do return .one (← completed span negated (← set.meaning))
  | .times _ least most part => do
    let before := (← get).asksForScripts
    let p ← part.meaning
    if most = some 0 then
      modify fun s => { s with asksForScripts := before }
      pure .empty
    else pure (.times least most p)
  | .group _ captures signs part => do
    let outer ← inForce
    modify fun s => { s with modes := outer.apply signs }
    let p ← part.meaning
    modify fun s => { s with modes := outer }
    pure (if captures then .group p else p)
  | .alternatives _ parts => Written.meaningOfAny parts
  | .sequence _ parts => Written.meaningOfAll parts

def Written.meaningOfAny : List Written → Understanding Pattern
  | [] => pure (.one .none)
  | part :: parts => do
    let first ← part.meaning
    let rest ← Written.meaningOfAny parts
    return .alt first rest

def Written.meaningOfAll : List Written → Understanding Pattern
  | [] => pure .empty
  | part :: parts => do
    let first ← part.meaning
    let rest ← Written.meaningOfAll parts
    return .seq first rest

end

end Pattern
end Stagecraft
