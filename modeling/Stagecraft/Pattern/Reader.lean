import Stagecraft.Pattern.Bracket
import Stagecraft.Text.Letter
/-!
# Reading patterns

`Written.parse` reads a text as a pattern.  Alternatives bind least, then sequences, then repetitions; parentheses group
and may set modes.  The first fault from the left ends the reading.
-/
namespace Stagecraft
namespace Pattern

def modeOf? : Char → Option Mode
  | 'i' => some .caseless
  | 'm' => some .multiline
  | 's' => some .dotAll
  | 'U' => some .lazy
  | 'u' => some .unicode
  | 'R' => some .returns
  | 'x' => some .extended
  | _ => none

/-- Whether a character may stand in the name of a group. -/
def isNameChar (isFirst : Bool) (c : Char) : Bool :=
  if isFirst then c = '_' || Text.isLetter c
  else c = '_' || c = '.' || c = '[' || c = ']' || Text.isLetterOrNumeral c

/-- What an opening parenthesis and the signs behind it begin. -/
inductive Opening
  /-- Modes for the rest of the group, with the parenthesis that closes them. -/
  | modes (span : Span) (signs : List ModeSign)
  | group (span : Span) (captures : Bool) (signs : List ModeSign)

/-- The alternatives and the parts of the last of them that have been read in a group, parts from the last to the
first. -/
structure Draft where
  start : Place
  alternatives : List Written := []
  partsStart : Place
  parts : List Written := []

namespace Draft

def push (d : Draft) (part : Written) : Draft := { d with parts := part :: d.parts }

/-- The alternative that ends here. -/
def last (d : Draft) (stop : Place) : Written := .ofParts ⟨d.partsStart, stop⟩ d.parts.reverse

/-- The whole that ends here. -/
def close (d : Draft) (stop : Place) : Written := .ofAlternatives ⟨d.start, stop⟩ (d.last stop) d.alternatives

end Draft

namespace Reading

/-- The signs of a list of modes, up to the colon or parenthesis that ends it. -/
def modeSigns : Nat → List (ModeSign × Span) → Reading (List ModeSign)
  | 0, signs => pure (signs.map Prod.fst)
  | n + 1, signs => do
    let c := (← peek?).getD ')'
    if c = ':' || c = ')' then
      match signs.getLast? with
      | some (.off, span) => fail span .modeDanglingDash
      | _ => pure (signs.map Prod.fst)
    else
      let span ← charSpan
      let sign ← match c, modeOf? c with
        | '-', _ => pure ModeSign.off
        | _, some m => pure (.mode m)
        | _, none => fail span .modeUnknown
      match signs.find? (·.1 = sign) with
      | some (_, earlier) => throw ⟨if sign = .off then .modeDashTwice else .modeTwice, span, some earlier⟩
      | none =>
        bump
        if ← atEnd then fail (← here) .modeCutOff
        modeSigns n (signs ++ [(sign, span)])

/-- The characters of the name of a group. -/
def nameChars (isFirst : Bool) : Nat → Reading (List Char)
  | 0 => pure []
  | n + 1 => do
    match ← peek? with
    | none => pure []
    | some c =>
      if c = '>' then pure []
      else if isNameChar isFirst c then do
        bump
        pure (c :: (← nameChars false n))
      else fail (← charSpan) .groupNameCharacter

/-- The name of a group and the bracket behind it. -/
def groupName : Reading Unit := do
  let start ← place
  let name ← nameChars true (← remaining)
  if ← atEnd then fail (← here) .groupNameCutOff
  let span ← spanFrom start
  bump
  if name.isEmpty then fail ⟨start, start⟩ .groupNameMissing
  match (← get).names.lookup name with
  | some earlier => throw ⟨.groupNameTwice, span, some earlier⟩
  | none => modify fun c => { c with names := c.names ++ [(name, span)] }

/-- An opening parenthesis and the signs behind it. -/
def opening : Reading Opening := do
  let span ← charSpan
  bumpSkip
  for mark in ["?=", "?!", "?<=", "?<!"] do
    if ← take? mark.toList then fail (← spanFrom span.start) .lookAround
  let inner ← here
  if (← take? "?P<".toList) || (← take? "?<".toList) then
    groupName
    pure (.group span true [])
  else if ← take? ['?'] then
    if ← atEnd then fail span .groupOpen
    let signs ← modeSigns ((← remaining) + 1) []
    let closed := (← peek?) ≠ some ':'
    bump
    if !closed then pure (.group span false signs)
    else if signs.isEmpty then fail inner .nothingToRepeat
    else pure (.modes (← spanFrom span.start) signs)
  else pure (.group span true [])

/-- What a sign of repetition stands behind, and the parts before it. -/
def operand (parts : List Written) : Reading (Written × List Written) := do
  match parts with
  | [] | .empty _ :: _ | .modes _ _ :: _ => fail (← here) .nothingToRepeat
  | part :: parts => pure (part, parts)

/-- A question mark after a sign of repetition changes which stretch is preferred, and not which are found. -/
def preference : Reading Unit := do
  let _ ← take? ['?']

/-- Repetition by a single sign. -/
def repetition (least : Nat) (most : Option Nat) (parts : List Written) : Reading (List Written) := do
  let (part, parts) ← operand parts
  bump
  preference
  pure (.times ⟨part.span.start, ← place⟩ least most part :: parts)

/-- The bounds of a count, behind its opening brace; `start` is where that stands. -/
def bounds (start : Place) : Reading (Nat × Option Nat) := do
  let least ← decimal
  if ← atEnd then fail (← spanFrom start) .countOpen
  if (← peek?) = some ',' then
    bumpSkip
    if ← atEnd then fail (← spanFrom start) .countOpen
    let least ← least
    if (← peek?) = some '\x7d' then pure (least, none)
    else
      let most ← ← decimal
      pure (least, some most)
  else
    let n ← least
    pure (n, some n)

/-- Repetition by a count. -/
def counted (parts : List Written) : Reading (List Written) := do
  let start ← place
  let (part, parts) ← operand parts
  bumpSkip
  if ← atEnd then fail (← spanFrom start) .countOpen
  let (least, most) ← bounds start
  if (← peek?) ≠ some '\x7d' then fail (← spanFrom start) .countOpen
  bumpSkip
  preference
  if most.any (· < least) then fail (← spanFrom start) .countReversed
  pure (.times ⟨part.span.start, ← place⟩ least most part :: parts)

/-- A part that neither groups nor repeats. -/
def part (c : Char) : Reading Written := do
  if c = '[' then bracket
  else if c = '\\' then escape
  else
    let span ← charSpan
    bump
    if c = '.' then pure (.dot span)
    else if c = '^' then pure (.anchor span .lineStart)
    else if c = '$' then pure (.anchor span .lineStop)
    else pure (.literal ⟨span, c, false⟩)

/-- Alternatives up to the end of a group or of the text; `opened` is the parenthesis that has to be closed. -/
def body (opened : Option Span) : Nat → Draft → Reading Written
  | 0, d => return d.close (← place)
  | n + 1, d => do
    skip
    match ← peek? with
    | none =>
      match opened with
      | some span => fail span .groupOpen
      | none => return d.close (← place)
    | some ')' =>
      if opened.isSome then return d.close (← place) else fail (← charSpan) .groupNotOpened
    | some '(' =>
      let outer := (← get).extended
      match ← opening with
      | .modes span signs =>
        modify fun c => { c with extended := (ModeSign.setting? .extended signs).getD outer }
        body opened n (d.push (.modes span signs))
      | .group span captures signs =>
        modify fun c => { c with extended := (ModeSign.setting? .extended signs).getD outer }
        let start ← place
        let inside ← body (some span) n { start, partsStart := start }
        modify fun c => { c with extended := outer }
        bump
        body opened n (d.push (.group ⟨span.start, ← place⟩ captures signs inside))
    | some '|' =>
      let alternatives := d.alternatives ++ [d.last (← place)]
      bump
      body opened n { d with alternatives, partsStart := ← place, parts := [] }
    | some '?' => body opened n { d with parts := ← repetition 0 (some 1) d.parts }
    | some '*' => body opened n { d with parts := ← repetition 0 none d.parts }
    | some '+' => body opened n { d with parts := ← repetition 1 none d.parts }
    | some '\x7b' => body opened n { d with parts := ← counted d.parts }
    | some c => body opened n (d.push (← part c))

end Reading

namespace Written

/-- How deep a pattern may be nested. -/
def depthLimit : Nat := 250

/-- Reads a pattern. -/
def parse (text : String) : Except SpanFault Written := do
  let reading : Reading Written := Reading.body none (text.toList.length + 1) { start := {}, partsStart := {} }
  let (written, _) ← StateT.run reading { rest := text.toList }
  match written.tooDeep? depthLimit with
  | some span => throw ⟨.tooDeep depthLimit, span, none⟩
  | none => pure written

end Written

end Pattern
end Stagecraft
