import Stagecraft.Pattern.Written
import Stagecraft.Text.Numeral
/-!
# What can be wrong with a pattern

A fault has a cause and points at the part of the pattern where it is, sometimes at an earlier part as well.  Its report
shows the pattern with carets under those parts; a pattern of several lines is shown between rules, with line numbers.
-/
namespace Stagecraft
namespace Pattern

/-- Why a text is no pattern, or one that this library has no tables for. -/
inductive Cause
  | escapeInBrackets
  | rangeReversed
  | rangeBoundary
  | bracketOpen
  | decimalTooLarge
  | hexMissing
  | hexNotACharacter
  | hexDigit
  | escapeCutOff
  | escapeUnknown
  | modeDanglingDash
  | modeTwice
  | modeDashTwice
  | modeCutOff
  | modeUnknown
  | groupNameTwice
  | groupNameMissing
  | groupNameCharacter
  | groupNameCutOff
  | groupOpen
  | groupNotOpened
  | tooDeep (limit : Nat)
  | countReversed
  | countMissing
  | countOpen
  | nothingToRepeat
  | wordEdgeOpen
  | wordEdgeUnknown
  | wordEdgeCutOff
  | propertySyntax
  | backreference
  | lookAround
  | bytesOnly
  | partOfCharacter
  | propertyUnknown
  | propertyValueUnknown
  | noShorthandTable
  | noCaseTable
  deriving DecidableEq, Repr

def Cause.message : Cause → String
  | .escapeInBrackets => "invalid escape sequence found in character class"
  | .rangeReversed => "invalid character class range, the start must be <= the end"
  | .rangeBoundary => "invalid range boundary, must be a literal"
  | .bracketOpen => "unclosed character class"
  | .decimalTooLarge => "decimal literal invalid"
  | .hexMissing => "hexadecimal literal empty"
  | .hexNotACharacter => "hexadecimal literal is not a Unicode scalar value"
  | .hexDigit => "invalid hexadecimal digit"
  | .escapeCutOff => "incomplete escape sequence, reached end of pattern prematurely"
  | .escapeUnknown => "unrecognized escape sequence"
  | .modeDanglingDash => "dangling flag negation operator"
  | .modeTwice => "duplicate flag"
  | .modeDashTwice => "flag negation operator repeated"
  | .modeCutOff => "expected flag but got end of regex"
  | .modeUnknown => "unrecognized flag"
  | .groupNameTwice => "duplicate capture group name"
  | .groupNameMissing => "empty capture group name"
  | .groupNameCharacter => "invalid capture group character"
  | .groupNameCutOff => "unclosed capture group name"
  | .groupOpen => "unclosed group"
  | .groupNotOpened => "unopened group"
  | .tooDeep limit =>
    "exceed the maximum number of nested parentheses/brackets (" ++ Text.decimal limit ++ ")"
  | .countReversed => "invalid repetition count range, the start must be <= the end"
  | .countMissing => "repetition quantifier expects a valid decimal"
  | .countOpen => "unclosed counted repetition"
  | .nothingToRepeat => "repetition operator missing expression"
  | .wordEdgeOpen => "special word boundary assertion is either unclosed or contains an invalid character"
  | .wordEdgeUnknown =>
    "unrecognized special word boundary assertion, valid choices are: start, end, start-half or end-half"
  | .wordEdgeCutOff => "found either the beginning of a special word boundary or a bounded repetition on a \\b "
    ++ "with an opening brace, but no closing brace"
  | .propertySyntax => "invalid Unicode character class"
  | .backreference => "backreferences are not supported"
  | .lookAround => "look-around, including look-ahead and look-behind, is not supported"
  | .bytesOnly => "Unicode not allowed here"
  | .partOfCharacter => "pattern can match invalid UTF-8"
  | .propertyUnknown => "Unicode property not found"
  | .propertyValueUnknown => "Unicode property value not found"
  | .noShorthandTable => "Unicode-aware Perl class not found (make sure the unicode-perl feature is enabled)"
  | .noCaseTable => "Unicode-aware case insensitivity matching is not available "
    ++ "(make sure the unicode-case feature is enabled)"

structure SpanFault where
  cause : Cause
  span : Span
  /-- The earlier part of the pattern with which this one clashes. -/
  earlier? : Option Span := none
  deriving DecidableEq, Repr

namespace SpanFault

/-- The parts to point at, from the first to the last. -/
def spans (f : SpanFault) : List Span := f.earlier?.toList ++ [f.span]

/-- Carets under some columns of a line, from a column on. -/
def carets (column : Nat) : List Span → List Char
  | [] => []
  | s :: rest =>
    let width := max 1 (s.stop.column - s.start.column)
    List.replicate (s.start.column - column) ' ' ++ List.replicate width '^'
      ++ carets (max column s.start.column + width) rest

/-- The lines that show one line of the pattern. -/
def showLine (f : SpanFault) (margin : String) (number : Nat) (line : String) : List String :=
  let here := f.spans.filter fun s => s.start.line = number && s.stop.line = number
  (margin ++ line) :: (if here.isEmpty then []
    else [String.ofList (List.replicate margin.length ' ' ++ carets 1 here)])

/-- Where a part is that goes on over several lines. -/
def stretch (s : Span) : String :=
  "on line " ++ Text.decimal s.start.line ++ " (column " ++ Text.decimal s.start.column ++ ") through line "
    ++ Text.decimal s.stop.line ++ " (column " ++ Text.decimal (s.stop.column - 1) ++ ")"

/-- The report of a fault of a pattern. -/
def report (f : SpanFault) (pattern : String) : String :=
  let lines := Text.linesOf pattern
  let count := lines.length + if pattern.endsWith "\n" then 1 else 0
  let width := if count ≤ 1 then 0 else (Text.decimal count).length
  let margin (number : Nat) : String :=
    if width = 0 then "    " else Text.flushRight width (Text.decimal number) ++ ": "
  let shown := lines.zipIdx.flatMap fun (line, i) => f.showLine (margin (i + 1)) (i + 1) line
  let body :=
    if pattern.contains '\n' then
      let rule := String.ofList (List.replicate 79 '~')
      let long := f.spans.filter fun s => s.start.line ≠ s.stop.line
      [rule] ++ shown ++ [rule] ++ long.map stretch
    else shown
  "\n".intercalate (["regex parse error:"] ++ body ++ ["error: " ++ f.cause.message])

end SpanFault

end Pattern
end Stagecraft
