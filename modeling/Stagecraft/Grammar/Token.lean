import Stagecraft.Text.Blank
/-!
# Tokens of a description

A description is cut into words and colons; blanks separate words and otherwise mean nothing.  Cutting cannot
fail, for every character is blank, a colon, or part of a word.  A word remembers the blanks before it, so a run
of words can be written back as it stood.
-/
namespace Stagecraft

/-- A run of characters that are neither blank nor a colon, with the blanks before it and the byte where it
starts. -/
structure Word where
  gap : List Char
  chars : List Char
  offset : Nat
  deriving DecidableEq, Repr

namespace Word

def text (w : Word) : String := String.ofList w.chars

/-- The byte just past the word. -/
def finish (w : Word) : Nat := w.offset + Text.bytes w.chars

/-- A run of words as it stood: from the start of the first to the end of the last. -/
def span : List Word → String
  | [] => ""
  | w :: ws => String.ofList (w.chars ++ ws.flatMap fun v => v.gap ++ v.chars)

end Word

/-- A piece of a description.  The last one marks its end. -/
inductive Token
  | word (w : Word)
  | colon (offset : Nat)
  | stop (offset : Nat)
  deriving DecidableEq, Repr

namespace Token

def offset : Token → Nat
  | .word w => w.offset
  | .colon o => o
  | .stop o => o

def finish : Token → Nat
  | .word w => w.finish
  | .colon o => o + 1
  | .stop o => o

def word? : Token → Option Word
  | .word w => some w
  | _ => none

def isColon : Token → Bool
  | .colon _ => true
  | _ => false

/-- Puts the character at byte `offset` in front of the tokens of what follows it.  A word character joins the
word that starts right behind it; a blank joins the gap of the word that comes next. -/
def push (c : Char) (offset : Nat) (rest : List Token) : List Token :=
  if c = ':' then .colon offset :: rest
  else if Text.isBlank c then
    match rest with
    | .word w :: ts => .word { w with gap := c :: w.gap } :: ts
    | ts => ts
  else
    match rest with
    | .word ⟨[], cs, _⟩ :: ts => .word ⟨[], c :: cs, offset⟩ :: ts
    | ts => .word ⟨[], [c], offset⟩ :: ts

/-- The tokens of a text whose first character stands at byte `offset`. -/
def scan (offset : Nat) : List Char → List Token
  | [] => [.stop offset]
  | c :: cs => push c offset (scan (offset + c.utf8Size) cs)

/-- The tokens of a description. -/
def ofText (src : String) : List Token := scan 0 src.toList

/-- The words of a description, colons left out. -/
def wordsOf (src : String) : List Word := (ofText src).filterMap word?

/-- The runs of words between colons, some of them empty; at least one. -/
def runs : List Token → List (List Word)
  | [] => [[]]
  | .stop _ :: _ => [[]]
  | .colon _ :: ts => [] :: runs ts
  | .word w :: ts =>
    match runs ts with
    | r :: rs => (w :: r) :: rs
    | [] => [[w]]

end Token
end Stagecraft
