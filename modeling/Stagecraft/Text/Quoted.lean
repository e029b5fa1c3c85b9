import Stagecraft.Text.Blank
import Stagecraft.Text.Combining
import Stagecraft.Text.Unprintable
/-!
# Quoted texts

How messages and reports show a text: between double quotes, with a backslash before quotes and backslashes,
short escapes for the usual controls, and the code point of whatever would not be seen for what it is.
-/
namespace Stagecraft
namespace Text

/-- Whether a character is shown by its code point: it is a control, invisible, or drawn on its neighbour. -/
def isHidden (c : Char) : Bool :=
  if c.toNat < 0x7F then c.toNat < 0x20
  else inRanges unprintableRanges c.toNat || inRanges fillerRanges c.toNat || inRanges combiningRanges c.toNat

/-- The code point in braces, in lower-case hexadecimal. -/
def codePoint (c : Char) : List Char :=
  "\\u\x7b".toList ++ Nat.toDigits 16 c.toNat ++ ['\x7d']

/-- One character inside a quotation. -/
def escape (c : Char) : List Char :=
  if c = '\x00' then ['\\', '0']
  else if c = '\t' then ['\\', 't']
  else if c = '\r' then ['\\', 'r']
  else if c = '\n' then ['\\', 'n']
  else if c = '"' || c = '\\' then ['\\', c]
  else if isHidden c then codePoint c
  else [c]

/-- A text as a quotation. -/
def quoted (s : String) : String := String.ofList ('"' :: s.toList.flatMap escape ++ ['"'])

/-- A list of texts as a list of quotations. -/
def quotedList (ss : List String) : String := "[" ++ ", ".intercalate (ss.map quoted) ++ "]"

/-- A text that may be absent. -/
def quotedOption : Option String → String
  | none => "None"
  | some s => "Some(" ++ quoted s ++ ")"

end Text
end Stagecraft
