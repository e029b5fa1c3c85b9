import Stagecraft.Pattern.CharSet
/-!
# Patterns

A pattern says which stretches of a text it fits.  `Pattern.step` leads from the gaps in which a stretch may begin to
those in which it may end; a gap lies before each character of the text and one more after the last.  A text is found
if some stretch of it fits, wherever that stands.
-/
namespace Stagecraft

/-- What surrounds a gap: the characters before and after it, if there are any. -/
structure Gap where
  before : Option Char
  after : Option Char
  deriving DecidableEq, Repr

/-- The ways in which a gap can lie at a word. -/
inductive WordEdge
  | either
  | neither
  | first
  | last
  | beforeFirst
  | afterLast
  deriving DecidableEq, Repr

/-- What a pattern may ask of a gap. -/
inductive Anchor
  | textStart
  | textStop
  /-- The start of a line; lines may be held to end with a line feed alone or with a carriage return as well. -/
  | lineStart (returns : Bool)
  | lineStop (returns : Bool)
  | word (edge : WordEdge)
  deriving DecidableEq, Repr

/-- A pattern. -/
inductive Pattern
  /-- Fits the stretch without characters. -/
  | empty
  | one (s : CharSet)
  | anchor (a : Anchor)
  | seq (p q : Pattern)
  | alt (p q : Pattern)
  /-- So many times in a row at least, and at most, if there is a bound. -/
  | times (least : Nat) (most : Option Nat) (p : Pattern)
  /-- A part that is kept together; it fits what it would fit by itself. -/
  | group (p : Pattern)
  deriving DecidableEq, Repr

/-- Whether a character is part of a word: a letter or a digit of ASCII, or an underscore. -/
def isWordChar (c : Char) : Bool := c.isAlphanum || c = '_'

def WordEdge.holds : WordEdge → Bool → Bool → Bool
  | .either, before, after => before != after
  | .neither, before, after => before == after
  | .first, before, after => !before && after
  | .last, before, after => before && !after
  | .beforeFirst, before, _ => !before
  | .afterLast, _, after => !after

/-- Whether a gap is as asked.  No line starts or ends between a carriage return and a line feed. -/
def Anchor.holds (g : Gap) : Anchor → Bool
  | .textStart => g.before.isNone
  | .textStop => g.after.isNone
  | .lineStart false => g.before.all (· = '\n')
  | .lineStop false => g.after.all (· = '\n')
  | .lineStart true => g.before.all fun c => c = '\n' || (c = '\r' && g.after ≠ some '\n')
  | .lineStop true => g.after.all fun c => c = '\r' || (c = '\n' && g.before ≠ some '\r')
  | .word edge => edge.holds (g.before.any isWordChar) (g.after.any isWordChar)

/-- The gaps of a text that follows a character, from the first to the last. -/
def Gap.ofText (before : Option Char) : List Char → List Gap
  | [] => [⟨before, none⟩]
  | c :: cs => ⟨before, some c⟩ :: ofText (some c) cs

theorem Gap.length_ofText : ∀ (before : Option Char) (cs : List Char), (ofText before cs).length = cs.length + 1
  | _, [] => rfl
  | _, _ :: cs => by simp [ofText, length_ofText _ cs]

/-- Some of the gaps of a text, by whether each is among them. -/
abbrev Gaps := List Bool

namespace Gaps

def join (h k : Gaps) : Gaps := List.zipWith or h k

/-- Applies a step so often, and no more once it changes nothing. -/
def settle (f : Gaps → Gaps) : Nat → Gaps → Gaps
  | 0, h => h
  | n + 1, h => if f h = h then h else settle f n (f h)

theorem settle_of_fixed {f : Gaps → Gaps} {h : Gaps} (hf : f h = h) : ∀ n, settle f n h = h
  | 0 => rfl
  | n + 1 => by simp [settle, hf]

/-- Settling is nothing but repeating. -/
theorem settle_succ (f : Gaps → Gaps) : ∀ (n : Nat) (h : Gaps), settle f (n + 1) h = f (settle f n h)
  | 0, h => by
    simp only [settle]
    split
    · rename_i hf
      exact hf.symm
    · rfl
  | n + 1, h => by
    by_cases hf : f h = h
    · rw [settle_of_fixed hf, settle_of_fixed hf, hf]
    · rw [settle, if_neg hf, settle_succ f n (f h)]
      conv => rhs; rw [settle, if_neg hf]

end Gaps

namespace Pattern

/-- The gaps of a text in which a stretch that fits can end, from those in which it can begin.

Repetition goes only so far as there are gaps: in a longer row some turn stands still, and as many such turns as one
likes can be left out or put in. -/
def step (cs : List Char) : Pattern → Gaps → Gaps
  | .empty, h => h
  | .one s, h => false :: List.zipWith (fun here c => here && s.contains c) h cs
  | .anchor a, h => List.zipWith (fun here g => here && a.holds g) h (Gap.ofText none cs)
  | .seq p q, h => step cs q (step cs p h)
  | .alt p q, h => (step cs p h).join (step cs q h)
  | .group p, h => step cs p h
  | .times least most p, h =>
    let gaps := cs.length + 1
    let further := match most with
      | some n => min (n - least) gaps
      | none => gaps
    Gaps.settle (fun k => k.join (step cs p k)) further (Gaps.settle (step cs p) (min least gaps) h)

/-- Whether some stretch of a text fits. -/
def foundIn (p : Pattern) (text : String) : Bool :=
  (p.step text.toList (List.replicate (text.toList.length + 1) true)).any id

/-- A step says of every gap whether it can end there, and of nothing else. -/
theorem length_step (cs : List Char) : ∀ (p : Pattern) (h : Gaps), h.length = cs.length + 1 →
    (p.step cs h).length = cs.length + 1
  | .empty, _, hh => hh
  | .one s, h, hh => by simp [step, hh]
  | .anchor a, h, hh => by simp [step, hh, Gap.length_ofText]
  | .seq p q, h, hh => length_step cs q _ (length_step cs p h hh)
  | .group p, h, hh => length_step cs p h hh
  | .alt p q, h, hh => by simp [step, Gaps.join, length_step cs p h hh, length_step cs q h hh]
  | .times least most p, h, hh => by
    have settled : ∀ (f : Gaps → Gaps) (_ : ∀ k : Gaps, k.length = cs.length + 1 → (f k).length = cs.length + 1)
        (n : Nat) (k : Gaps), k.length = cs.length + 1 → (Gaps.settle f n k).length = cs.length + 1 := by
      intro f hf n
      induction n with
      | zero => exact fun _ hk => hk
      | succ n ih =>
        intro k hk
        rw [Gaps.settle_succ]
        exact hf _ (ih k hk)
    have hp := length_step cs p
    refine settled _ (fun k hk => ?_) _ _ (settled _ hp _ _ hh)
    simp [Gaps.join, hk, hp k hk]

/-- The pattern without characters is found in every text. -/
theorem foundIn_empty (text : String) : Pattern.empty.foundIn text = true := by
  simp [foundIn, step]

end Pattern
end Stagecraft
