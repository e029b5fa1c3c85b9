/-!
# Blank characters, and the cuts made at them

Every reader of this library agrees on one notion of blank: the Unicode property `White_Space`.  Texts are
stored as `String`; the cuts work on the list of characters, where each is a short structural recursion.
-/
namespace Stagecraft
namespace Text

/-- The code points with the property `White_Space`, as closed ranges. -/
def blankRanges : List (Nat × Nat) :=
  [(0x09, 0x0D), (0x20, 0x20), (0x85, 0x85), (0xA0, 0xA0), (0x1680, 0x1680), (0x2000, 0x200A),
   (0x2028, 0x2029), (0x202F, 0x202F), (0x205F, 0x205F), (0x3000, 0x3000)]

/-- Whether a code point lies in one of the closed ranges of a table. -/
def inRanges (table : List (Nat × Nat)) (code : Nat) : Bool :=
  table.any fun r => r.1 ≤ code && code ≤ r.2

def isBlank (c : Char) : Bool := inRanges blankRanges c.toNat

theorem isBlank_space : isBlank ' ' = true := by decide

theorem isBlank_newline : isBlank '\n' = true := by decide

theorem isBlank_colon : isBlank ':' = false := by decide

/-! ## Trimming -/

def trimStart (cs : List Char) : List Char := cs.dropWhile isBlank

def trimEnd (cs : List Char) : List Char := (cs.reverse.dropWhile isBlank).reverse

/-- Without the blanks at either end. -/
def trim (cs : List Char) : List Char := trimEnd (trimStart cs)

def trimmed (s : String) : String := String.ofList (trim s.toList)

/-- The trimmed text, if anything is left of it. -/
def filled (s : String) : Option String :=
  if (trimmed s).isEmpty then none else some (trimmed s)

/-! ## Words -/

/-- The maximal runs of characters that are not blank. -/
def words : List Char → List (List Char)
  | [] => []
  | [c] => if isBlank c then [] else [[c]]
  | c :: d :: cs =>
    if isBlank c then words (d :: cs)
    else if isBlank d then [c] :: words (d :: cs)
    else match words (d :: cs) with
      | w :: ws => (c :: w) :: ws
      | [] => [[c]]

/-- A word is never empty and holds no blank. -/
theorem words_spec : ∀ (cs : List Char), ∀ w ∈ words cs, w ≠ [] ∧ ∀ c ∈ w, isBlank c = false
  | [], w, hw => by simp [words] at hw
  | [c], w, hw => by
    by_cases h : isBlank c = true
    · simp [words, h] at hw
    · simp only [words, h, Bool.false_eq_true, ↓reduceIte, List.mem_singleton] at hw
      simpa [hw] using h
  | c :: d :: cs, w, hw => by
    have ih := words_spec (d :: cs)
    unfold words at hw
    by_cases hc : isBlank c = true
    · rw [if_pos hc] at hw
      exact ih w hw
    · rw [if_neg hc] at hw
      by_cases hd : isBlank d = true
      · rw [if_pos hd, List.mem_cons] at hw
        rcases hw with rfl | hw
        · simpa using hc
        · exact ih w hw
      · rw [if_neg hd] at hw
        split at hw
        · rename_i v vs hv
          rcases List.mem_cons.1 hw with rfl | hw
          · have := (ih v (by simp [hv])).2
            simpa using ⟨by simpa using hc, this⟩
          · exact ih w (by simp [hv, hw])
        · rw [List.mem_singleton] at hw
          simpa [hw] using hc

def wordsOf (s : String) : List String := (words s.toList).map String.ofList

/-! ## Cuts at the first separator, at every separator, and at line ends -/

/-- What stands before and after the first character that `p` accepts; nothing if there is none. -/
def cutAt? (p : Char → Bool) : List Char → Option (List Char × List Char)
  | [] => none
  | c :: cs => if p c then some ([], cs) else (cutAt? p cs).map fun (a, b) => (c :: a, b)

/-- A cut is made at the first character that `p` accepts. -/
theorem cutAt?_eq_some {p : Char → Bool} : ∀ {cs a b : List Char}, cutAt? p cs = some (a, b) →
    ∃ c, cs = a ++ c :: b ∧ p c = true ∧ ∀ x ∈ a, p x = false
  | [], _, _, h => by simp [cutAt?] at h
  | c :: cs, a, b, h => by
    by_cases hc : p c = true
    · simp only [cutAt?, hc, ↓reduceIte, Option.some.injEq, Prod.mk.injEq] at h
      obtain ⟨rfl, rfl⟩ := h
      exact ⟨c, rfl, hc, by simp⟩
    · simp only [cutAt?, hc, Bool.false_eq_true, ↓reduceIte, Option.map_eq_some_iff, Prod.exists,
        Prod.mk.injEq] at h
      obtain ⟨a', b', h', rfl, rfl⟩ := h
      obtain ⟨d, rfl, hd, ha⟩ := cutAt?_eq_some h'
      exact ⟨d, rfl, hd, by simpa using ⟨by simpa using hc, ha⟩⟩

theorem cutAt?_eq_none_iff {p : Char → Bool} : ∀ {cs : List Char}, cutAt? p cs = none ↔ ∀ c ∈ cs, p c = false
  | [] => by simp [cutAt?]
  | c :: cs => by
    by_cases hc : p c = true
    · simp [cutAt?, hc]
    · simp [cutAt?, hc, cutAt?_eq_none_iff]

/-- The pieces between the occurrences of `sep`; one more than there are of them. -/
def pieces (sep : Char) : List Char → List (List Char)
  | [] => [[]]
  | c :: cs =>
    if c = sep then [] :: pieces sep cs
    else match pieces sep cs with
      | p :: ps => (c :: p) :: ps
      | [] => [[c]]

theorem length_pieces (sep : Char) (cs : List Char) : (pieces sep cs).length = cs.count sep + 1 := by
  induction cs with
  | nil => rfl
  | cons c cs ih =>
    by_cases h : c = sep
    · simp [pieces, h, ih]
    · rw [pieces, if_neg h, List.count_cons_of_ne h]
      split
      · rename_i p ps hp
        rw [hp] at ih
        simpa using ih
      · rename_i hp
        rw [hp] at ih
        simp at ih

def piecesOf (sep : Char) (s : String) : List String := (pieces sep s.toList).map String.ofList

/-- The lines of a text.  A line ends at a newline, with the carriage return before it if there is one; what
follows the last line end is a line only if it is not empty. -/
def lines : List Char → List (List Char)
  | [] => []
  | '\r' :: '\n' :: cs => [] :: lines cs
  | '\n' :: cs => [] :: lines cs
  | c :: cs =>
    match lines cs with
    | l :: ls => (c :: l) :: ls
    | [] => [[c]]

def linesOf (s : String) : List String := (lines s.toList).map String.ofList

/-! ## Extent -/

/-- The number of bytes that the characters take in UTF-8. -/
def bytes : List Char → Nat
  | [] => 0
  | c :: cs => c.utf8Size + bytes cs

theorem bytes_append (as bs : List Char) : bytes (as ++ bs) = bytes as + bytes bs := by
  induction as with
  | nil => simp [bytes]
  | cons a as ih => simp only [List.cons_append, bytes, ih, Nat.add_assoc]

end Text
end Stagecraft
