import Stagecraft.Pattern.Escape
/-!
# Sets in brackets

Between brackets stand characters, ranges, sets with names and other sets in brackets.  What stands side by side is
joined; two operators of equal rank, read from the left, take the intersection, the difference or the symmetric
difference of what stands before and after them.
-/
namespace Stagecraft
namespace Pattern

def namedSetOf? (name : List Char) : Option NamedSet :=
  ([("alnum", .alnum), ("alpha", .alpha), ("ascii", .ascii), ("blank", .blank), ("cntrl", .cntrl), ("digit", .digit),
    ("graph", .graph), ("lower", .lower), ("print", .print), ("punct", .punct), ("space", .space), ("upper", .upper),
    ("word", .word), ("xdigit", .xdigit)] : List (String × NamedSet)).lookup (String.ofList name)

/-- The left side of an operator that waits for its right side. -/
structure PendingOperation where
  op : SetOperator
  left : WrittenSet

/-- Joins what has been read with the operation that waits for it. -/
def PendingOperation.close (right : WrittenSet) : Option PendingOperation → WrittenSet
  | none => right
  | some ⟨op, left⟩ => .operation ⟨left.span.start, right.span.stop⟩ op left right

namespace Reading

/-- A set with a name, between brackets and colons; if it is none, nothing has been read. -/
def namedSet? : Reading (Option WrittenSet) := do
  let start ← get
  if ← take? ['[', ':'] then
    let negated ← take? ['^']
    let rest := (← get).rest
    let name := rest.takeWhile (· ≠ ':')
    match namedSetOf? name with
    | some set =>
      if ← take? (name ++ [':', ']']) then return some (.named (← spanFrom start.place) negated set)
    | none => pure ()
  set start
  return none

/-- What opens brackets: whether they are negated, and the dashes or the bracket that stand for themselves because they
come first. -/
def bracketHead : Reading (Bool × SetUnion) := do
  let start ← place
  bumpSkip
  if ← atEnd then fail (← spanFrom start) .bracketOpen
  let negated := (← peek?) = some '^'
  if negated then
    bumpSkip
    if ← atEnd then fail (← spanFrom start) .bracketOpen
  let union ← dashes start (← remaining) ⟨← here, []⟩
  if union.sets.isEmpty && (← peek?) = some ']' then
    let union := union.push (.literal ⟨← charSpan, ']', false⟩)
    bumpSkip
    if ← atEnd then fail (← spanFrom start) .bracketOpen
    return (negated, union)
  return (negated, union)
where
  dashes (start : Place) : Nat → SetUnion → Reading SetUnion
    | 0, union => pure union
    | n + 1, union => do
      if (← peek?) = some '-' then
        let union := union.push (.literal ⟨← charSpan, '-', false⟩)
        bumpSkip
        if ← atEnd then fail ⟨start, start⟩ .bracketOpen
        dashes start n union
      else pure union

/-- A character or an escape between brackets. -/
def setSign : Reading Written := do
  match ← peek? with
  | some '\\' => escape
  | some c =>
    let span ← charSpan
    bump
    pure (.literal ⟨span, c, false⟩)
  | none => return .empty (← here)

/-- A sign as a set of its own. -/
def asSet : Written → Reading WrittenSet
  | .literal l => pure (.literal l)
  | .shorthand span negated set => pure (.shorthand span negated set)
  | .property span negated name => pure (.property span negated name)
  | w => fail w.span .escapeInBrackets

/-- A sign as an end of a range. -/
def asBoundary : Written → Reading Literal
  | .literal l => pure l
  | w => fail w.span .rangeBoundary

/-- A sign, or a range between two; `opened` is what is pointed at when the brackets are not closed. -/
def setRange (opened : Span) : Reading WrittenSet := do
  let first ← setSign
  skip
  if ← atEnd then fail opened .bracketOpen
  let second := (← get).second?
  if (← peek?) ≠ some '-' || second = some ']' || second = some '-' then asSet first
  else
    bumpSkip
    if ← atEnd then fail opened .bracketOpen
    let last ← setSign
    let span : Span := ⟨first.span.start, last.span.stop⟩
    let first ← asBoundary first
    let last ← asBoundary last
    if first.char ≤ last.char then pure (.range span first last) else fail span .rangeReversed

/-- The operator that comes next, passed over. -/
def setOperator? : Reading (Option SetOperator) := do
  if ← take? ['&', '&'] then return some .inter
  else if ← take? ['-', '-'] then return some .diff
  else if ← take? ['~', '~'] then return some .symmDiff
  else return none

/-- Sets up to the bracket that closes them, and that bracket. -/
def setBody (start : Place) (negated : Bool) (opened : Span) :
    Nat → SetUnion → Option PendingOperation → Reading WrittenSet
  | 0, _, _ => fail opened .bracketOpen
  | n + 1, union, pending => do
    skip
    match ← peek? with
    | none => fail opened .bracketOpen
    | some ']' =>
      bump
      pure (.bracket (← spanFrom start) negated (PendingOperation.close union.toSet pending))
    | some '[' =>
      match ← namedSet? with
      | some set => setBody start negated opened n (union.push set) pending
      | none =>
        let innerStart ← place
        let (innerNegated, inner) ← bracketHead
        let innerOpened ← spanFrom innerStart
        let set ← setBody innerStart innerNegated innerOpened n inner none
        setBody start negated opened n (union.push set) pending
    | some _ =>
      match ← setOperator? with
      | some op =>
        let left := PendingOperation.close union.toSet pending
        setBody start negated opened n ⟨← here, []⟩ (some ⟨op, left⟩)
      | none => setBody start negated opened n (union.push (← setRange opened)) pending

/-- A set in brackets, from its opening bracket. -/
def bracket : Reading Written := do
  let start ← place
  let (negated, union) ← bracketHead
  let opened ← spanFrom start
  match ← setBody start negated opened ((← remaining) + 1) union none with
  | .bracket span negated set => pure (.bracket span negated set)
  | set => pure (.bracket set.span false set)

end Reading

end Pattern
end Stagecraft
