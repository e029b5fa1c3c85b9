import Stagecraft.Proofs.Text.Trimmed
/-!
# The lines of a text

A text is cut at its newlines, so its first line is settled without the rest of it, and a text that ends in a newline has
the same lines in front of any other.
-/
namespace Stagecraft
namespace Text

/-- A line without the carriage return that it may end in. -/
def chomp : List Char → List Char
  | [] => []
  | ['\r'] => []
  | c :: cs => c :: chomp cs

theorem chomp_cons {c : Char} {cs : List Char} (h : c = '\r' → cs ≠ []) : chomp (c :: cs) = c :: chomp cs := by
  rw [chomp]
  exact h

/-- A carriage return is blank, so lines that are trimmed are so without it. -/
theorem trim_chomp (cs : List Char) : trim (chomp cs) = trim cs := by
  obtain ⟨b, hb, hcs⟩ : ∃ b, Blanks b ∧ cs = chomp cs ++ b := by
    induction cs with
    | nil => exact ⟨[], .nil, rfl⟩
    | cons c cs ih =>
      by_cases hreturn : c = '\r' ∧ cs = []
      · obtain ⟨rfl, rfl⟩ := hreturn
        exact ⟨['\r'], blanks_singleton (by decide), rfl⟩
      · obtain ⟨b, hb, hcs⟩ := ih
        refine ⟨b, hb, ?_⟩
        rw [chomp_cons fun hc hnil => hreturn ⟨hc, hnil⟩, List.cons_append, ← hcs]
  have h := trim_append_blanks hb (chomp cs)
  rwa [← hcs, eq_comm] at h

/-- A character that ends no line belongs to the first line of the rest. -/
theorem lines_cons {c : Char} {cs : List Char} (hc : c ≠ '\n') (hreturn : c = '\r' → cs.head? ≠ some '\n') :
    lines (c :: cs) = (c :: (lines cs).head?.getD []) :: (lines cs).tail := by
  rw [lines]
  · cases lines cs <;> rfl
  · rintro rest rfl rfl
    exact hreturn rfl rfl
  · exact hc

/-- **The first line of a text** ends at its first newline. -/
theorem lines_append_newline (rest : List Char) : ∀ {l : List Char}, '\n' ∉ l →
    lines (l ++ '\n' :: rest) = chomp l :: lines rest
  | [], _ => by rw [List.nil_append, lines, chomp]
  | c :: l, h => by
    have hc : c ≠ '\n' := fun hc => h (hc ▸ List.mem_cons_self)
    have hl : '\n' ∉ l := fun hl => h (List.mem_cons_of_mem c hl)
    by_cases hreturn : c = '\r' ∧ l = []
    · obtain ⟨rfl, rfl⟩ := hreturn
      rw [List.cons_append, List.nil_append, lines, chomp]
    · have hnot : c = '\r' → l ≠ [] := fun hr hnil => hreturn ⟨hr, hnil⟩
      rw [List.cons_append, lines_cons hc, lines_append_newline rest hl, chomp_cons hnot]
      · rfl
      · intro hr
        obtain ⟨d, ds, rfl⟩ := List.exists_cons_of_ne_nil (hnot hr)
        rw [List.cons_append, List.head?_cons]
        exact fun hd => hl (Option.some.inj hd ▸ List.mem_cons_self)

/-- A text without a newline is one line, if it is not empty. -/
theorem lines_of_not_mem : ∀ {l : List Char}, '\n' ∉ l → l ≠ [] → lines l = [l]
  | [], _, hne => absurd rfl hne
  | [c], h, _ => by
    rw [lines_cons (fun hc => h (hc ▸ List.mem_cons_self)) (by simp)]
    rfl
  | c :: d :: l, h, _ => by
    have hl : '\n' ∉ d :: l := fun hl => h (List.mem_cons_of_mem c hl)
    rw [lines_cons (fun hc => h (hc ▸ List.mem_cons_self)), lines_of_not_mem hl (List.cons_ne_nil d l)]
    · rfl
    · intro _ hd
      exact hl (Option.some.inj hd ▸ List.mem_cons_self)

/-! ## Texts whose last line has ended -/

/-- A text that is empty or ends in a newline, line by line. -/
inductive Ended : List Char → Prop
  | nil : Ended []
  | line {l rest : List Char} (h : '\n' ∉ l) (hrest : Ended rest) : Ended (l ++ '\n' :: rest)

theorem ended_of_getLast? : ∀ {a : List Char}, a.getLast? = some '\n' → Ended a
  | [], h => by cases h
  | [c], h => by
    obtain rfl : c = '\n' := Option.some.inj h
    exact .line (l := []) nofun .nil
  | c :: d :: a, h => by
    have ih := ended_of_getLast? (a := d :: a) (by rwa [List.getLast?_cons_cons] at h)
    by_cases hc : c = '\n'
    · rw [hc]
      exact .line (l := []) nofun ih
    · -- the character goes in front of the first line of the rest
      generalize d :: a = a at h ih
      cases ih with
      | nil => exact absurd (Option.some.inj h) hc
      | line hl hrest => exact .line (l := c :: _) (by simpa [Ne.symm hc] using hl) hrest

theorem Ended.lines_append {a : List Char} (h : Ended a) (b : List Char) : lines (a ++ b) = lines a ++ lines b := by
  induction h with
  | nil => rw [List.nil_append, lines, List.nil_append]
  | line hl _ ih =>
    rw [List.append_assoc, List.cons_append, lines_append_newline _ hl, lines_append_newline _ hl, ih, List.cons_append]

/-- Such a text has as many lines as newlines. -/
theorem Ended.length_lines {a : List Char} (h : Ended a) : (lines a).length = a.count '\n' := by
  induction h with
  | nil => rw [lines, List.length_nil, List.count_nil]
  | line hl _ ih =>
    rw [lines_append_newline _ hl, List.length_cons, ih, List.count_append, List.count_cons_self,
      List.count_eq_zero_of_not_mem hl, Nat.zero_add]

end Text
end Stagecraft
