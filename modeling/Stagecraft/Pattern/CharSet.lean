import Stagecraft.Text.Blank
/-!
# Sets of characters

A set is a list of closed ranges of code points, in no order and perhaps with overlaps; only `contains` matters, and
the lemmas say what each operation does to it.
-/
namespace Stagecraft

structure CharSet where
  ranges : List (Nat × Nat)
  deriving DecidableEq, Repr

namespace CharSet

def has (s : CharSet) (code : Nat) : Bool := Text.inRanges s.ranges code

def contains (s : CharSet) (c : Char) : Bool := s.has c.toNat

def none : CharSet := ⟨[]⟩

def between (lo hi : Char) : CharSet := ⟨[(lo.toNat, hi.toNat)]⟩

def only (c : Char) : CharSet := between c c

/-- The characters of a text. -/
def ofList (cs : List Char) : CharSet := ⟨cs.map fun c => (c.toNat, c.toNat)⟩

/-- All characters. -/
def all : CharSet := ⟨[(0, 0xD7FF), (0xE000, 0x10FFFF)]⟩

/-- What one byte can hold. -/
def bytes : CharSet := ⟨[(0, 0xFF)]⟩

def isEmpty (s : CharSet) : Bool := s.ranges.isEmpty

def isAscii (s : CharSet) : Bool := s.ranges.all fun r => r.2 < 0x80

def union (s t : CharSet) : CharSet := ⟨s.ranges ++ t.ranges⟩

/-- What two ranges have in common. -/
def meet (q r : Nat × Nat) : List (Nat × Nat) :=
  if max q.1 r.1 ≤ min q.2 r.2 then [(max q.1 r.1, min q.2 r.2)] else []

/-- What is left of a range outside of another. -/
def cut (q r : Nat × Nat) : List (Nat × Nat) :=
  (if q.1 < r.1 then meet q (q.1, r.1 - 1) else []) ++ (if r.2 < q.2 then meet q (r.2 + 1, q.2) else [])

def inter (s t : CharSet) : CharSet := ⟨s.ranges.flatMap fun q => t.ranges.flatMap (meet q)⟩

/-- Without the ranges of a list. -/
def without (s : List (Nat × Nat)) : List (Nat × Nat) → List (Nat × Nat)
  | [] => s
  | r :: rs => without (s.flatMap fun q => cut q r) rs

def diff (s t : CharSet) : CharSet := ⟨without s.ranges t.ranges⟩

/-- What is in one of two sets and not in both. -/
def symmDiff (s t : CharSet) : CharSet := (s.union t).diff (s.inter t)

/-- With the ranges of `s` in one alphabet moved to another one that starts at `base`. -/
def moved (s : CharSet) (alphabet : Nat × Nat) (base : Nat) : List (Nat × Nat) :=
  (s.ranges.flatMap (meet alphabet)).map fun r => (r.1 - alphabet.1 + base, r.2 - alphabet.1 + base)

/-- With every letter of ASCII in both its cases. -/
def foldAscii (s : CharSet) : CharSet := ⟨s.ranges ++ s.moved (0x41, 0x5A) 0x61 ++ s.moved (0x61, 0x7A) 0x41⟩

/-! ## Membership -/

theorem has_iff (s : CharSet) (n : Nat) : s.has n = true ↔ ∃ r ∈ s.ranges, r.1 ≤ n ∧ n ≤ r.2 := by
  simp [has, Text.inRanges]

theorem has_union (s t : CharSet) (n : Nat) : (s.union t).has n = true ↔ s.has n = true ∨ t.has n = true := by
  simp only [has_iff, union, List.mem_append, or_and_right, exists_or]

theorem mem_meet (q r : Nat × Nat) (n : Nat) :
    (∃ p ∈ meet q r, p.1 ≤ n ∧ n ≤ p.2) ↔ (q.1 ≤ n ∧ n ≤ q.2) ∧ r.1 ≤ n ∧ n ≤ r.2 := by
  unfold meet
  split <;> simp <;> omega

theorem has_inter (s t : CharSet) (n : Nat) : (s.inter t).has n = true ↔ s.has n = true ∧ t.has n = true := by
  simp only [has_iff, inter, List.mem_flatMap]
  constructor
  · rintro ⟨p, ⟨q, hq, r, hr, hp⟩, hpn⟩
    have h := (mem_meet q r n).1 ⟨p, hp, hpn⟩
    exact ⟨⟨q, hq, h.1⟩, r, hr, h.2⟩
  · rintro ⟨⟨q, hq, hqn⟩, r, hr, hrn⟩
    obtain ⟨p, hp, hpn⟩ := (mem_meet q r n).2 ⟨hqn, hrn⟩
    exact ⟨p, ⟨q, hq, r, hr, hp⟩, hpn⟩

theorem mem_cut (q r : Nat × Nat) (n : Nat) :
    (∃ p ∈ cut q r, p.1 ≤ n ∧ n ≤ p.2) ↔ (q.1 ≤ n ∧ n ≤ q.2) ∧ ¬(r.1 ≤ n ∧ n ≤ r.2) := by
  unfold cut
  simp only [List.mem_append, or_and_right, exists_or]
  split <;> split <;> simp only [mem_meet, List.not_mem_nil, false_and, exists_false, or_false, false_or,
    false_iff] <;> omega

theorem mem_without (n : Nat) : ∀ (t s : List (Nat × Nat)),
    (∃ p ∈ without s t, p.1 ≤ n ∧ n ≤ p.2) ↔
      (∃ q ∈ s, q.1 ≤ n ∧ n ≤ q.2) ∧ ¬∃ r ∈ t, r.1 ≤ n ∧ n ≤ r.2
  | [], s => by simp [without]
  | r :: rs, s => by
    rw [without, mem_without n rs]
    simp only [List.mem_flatMap, List.mem_cons, exists_eq_or_imp, not_or]
    constructor
    · rintro ⟨⟨p, ⟨q, hq, hp⟩, hpn⟩, hrs⟩
      have h := (mem_cut q r n).1 ⟨p, hp, hpn⟩
      exact ⟨⟨q, hq, h.1⟩, h.2, hrs⟩
    · rintro ⟨⟨q, hq, hqn⟩, hr, hrs⟩
      obtain ⟨p, hp, hpn⟩ := (mem_cut q r n).2 ⟨hqn, hr⟩
      exact ⟨⟨p, ⟨q, hq, hp⟩, hpn⟩, hrs⟩

theorem has_diff (s t : CharSet) (n : Nat) : (s.diff t).has n = true ↔ s.has n = true ∧ ¬t.has n = true := by
  simp only [has_iff]
  exact mem_without n t.ranges s.ranges

end CharSet
end Stagecraft
