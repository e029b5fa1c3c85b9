import Stagecraft.Proofs.Text.Lines
import Stagecraft.Scene.Reader
/-!
# Scenes are read line by line

What a line is read as depends on nothing but the line, and its number is how many lines stand before it.  So a script is
read in front of another as it is read alone, and the first line that is no command decides about all of it.
-/
namespace Stagecraft

/-- The line, further down in its script. -/
def SceneLine.later (n : Nat) (l : SceneLine) : SceneLine := { l with number := l.number + n }

/-- The fault, further down in its script. -/
def SceneFault.later (n : Nat) (f : SceneFault) : SceneFault := { f with number := f.number + n }

namespace Scene

/-! ## What becomes of one line -/

/-- A line that is neither blank nor a comment, and no command either. -/
def Rejected (raw : List Char) (cause : CommandFault) : Prop :=
  isIdle (Text.trim raw) = false ∧ Command.read (Text.trim raw) = .error cause

/-- A line that is a command. -/
def Accepted (raw : List Char) (c : Command) : Prop := isIdle (Text.trim raw) = false ∧ Command.read (Text.trim raw) = .ok c

theorem line_cases (raw : List Char) :
    isIdle (Text.trim raw) = true ∨ (∃ c, Accepted raw c) ∨ ∃ cause, Rejected raw cause := by
  cases hidle : isIdle (Text.trim raw) with
  | true => exact .inl rfl
  | false =>
    cases hread : Command.read (Text.trim raw) with
    | ok c => exact .inr (.inl ⟨c, hidle, hread⟩)
    | error cause => exact .inr (.inr ⟨cause, hidle, hread⟩)

theorem Rejected.not_idle {raw : List Char} {cause : CommandFault} (h : Rejected raw cause) :
    ¬ isIdle (Text.trim raw) = true := by
  rw [h.1]
  exact Bool.false_ne_true

theorem Rejected.not_accepted {raw : List Char} {cause : CommandFault} {c : Command} (h : Rejected raw cause) :
    ¬ Accepted raw c := fun hc => nomatch h.2.symm.trans hc.2

theorem readLines_idle {raw : List Char} (h : isIdle (Text.trim raw) = true) (k : Nat) (rest : List (List Char)) :
    readLines k (raw :: rest) = readLines (k + 1) rest := by
  rw [readLines, if_pos h]

theorem readLines_accepted {raw : List Char} {c : Command} (h : Accepted raw c) (k : Nat) (rest : List (List Char)) :
    readLines k (raw :: rest) = (readLines (k + 1) rest).map (⟨k, c⟩ :: ·) := by
  rw [readLines, if_neg (by rw [h.1]; exact Bool.false_ne_true), h.2]

theorem readLines_rejected {raw : List Char} {cause : CommandFault} (h : Rejected raw cause) (k : Nat)
    (rest : List (List Char)) :
    readLines k (raw :: rest) = .error ⟨k, String.ofList (Text.trim raw), cause⟩ := by
  rw [readLines, if_neg h.not_idle, h.2]

/-! ## Lines behind lines -/

/-- The lines of a script are read in order, and those behind are read only if all before have been. -/
theorem readLines_append (ys : List (List Char)) : ∀ (k : Nat) (xs : List (List Char)), readLines k (xs ++ ys) =
    (readLines k xs).bind fun ls => (readLines (k + xs.length) ys).map (ls ++ ·)
  | k, [] => by
    simp only [List.nil_append, readLines, Except.bind, List.length_nil, Nat.add_zero]
    cases readLines k ys <;> rfl
  | k, raw :: xs => by
    have ih := readLines_append ys (k + 1) xs
    have hplace : k + 1 + xs.length = k + (raw :: xs).length := by
      rw [List.length_cons]
      omega
    rw [hplace] at ih
    rw [List.cons_append]
    rcases line_cases raw with h | ⟨c, h⟩ | ⟨cause, h⟩
    · rw [readLines_idle h, readLines_idle h, ih]
    · rw [readLines_accepted h, readLines_accepted h, ih]
      cases readLines (k + 1) xs with
      | error f => rfl
      | ok ls => cases readLines (k + (raw :: xs).length) ys <;> rfl
    · rw [readLines_rejected h, readLines_rejected h]
      rfl

/-- Only the numbers depend on where the lines stand. -/
theorem readLines_later (n : Nat) : ∀ (k : Nat) (raws : List (List Char)), readLines (k + n) raws =
    ((readLines k raws).mapError (SceneFault.later n)).map (·.map (SceneLine.later n))
  | k, [] => rfl
  | k, raw :: rest => by
    have ih := readLines_later n (k + 1) rest
    rw [Nat.add_right_comm] at ih
    rcases line_cases raw with h | ⟨c, h⟩ | ⟨cause, h⟩
    · rw [readLines_idle h, readLines_idle h, ih]
    · rw [readLines_accepted h, readLines_accepted h, ih]
      cases readLines (k + 1) rest <;> rfl
    · rw [readLines_rejected h, readLines_rejected h]
      rfl

/-! ## The first rejected line -/

theorem exists_readLines_ok : ∀ {raws : List (List Char)} (k : Nat), (∀ raw ∈ raws, ∀ cause, ¬ Rejected raw cause) →
    ∃ ls, readLines k raws = .ok ls
  | [], k, _ => ⟨[], rfl⟩
  | raw :: rest, k, h => by
    obtain ⟨ls, hls⟩ := exists_readLines_ok (k + 1) fun r hr => h r (List.mem_cons_of_mem _ hr)
    rcases line_cases raw with hidle | ⟨c, hc⟩ | ⟨cause, hcause⟩
    · exact ⟨ls, by rw [readLines_idle hidle, hls]⟩
    · exact ⟨⟨k, c⟩ :: ls, by rw [readLines_accepted hc, hls]; rfl⟩
    · exact absurd hcause (h raw List.mem_cons_self cause)

/-- A script is read to its end only if no line is rejected. -/
theorem not_rejected_of_readLines {k : Nat} {raws : List (List Char)} {ls : List SceneLine}
    (h : readLines k raws = .ok ls) : ∀ raw ∈ raws, ∀ cause, ¬ Rejected raw cause := by
  intro raw hmem cause hraw
  obtain ⟨pre, post, rfl⟩ := List.append_of_mem hmem
  rw [readLines_append, readLines_rejected hraw] at h
  cases hpre : readLines k pre <;> rw [hpre] at h <;> cases h

/-- A fault is that of a rejected line with no rejected line before it. -/
def FirstRejected (k : Nat) (raws : List (List Char)) (f : SceneFault) : Prop :=
  ∃ pre raw post, raws = pre ++ raw :: post ∧ (∀ r ∈ pre, ∀ cause, ¬ Rejected r cause) ∧ Rejected raw f.cause ∧
    f.number = k + pre.length ∧ f.text = String.ofList (Text.trim raw)

/-- A line that is not rejected in front only moves the fault. -/
theorem FirstRejected.cons {k : Nat} {raw : List Char} {rest : List (List Char)} {f : SceneFault}
    (h : FirstRejected (k + 1) rest f) (hraw : ∀ cause, ¬ Rejected raw cause) : FirstRejected k (raw :: rest) f := by
  obtain ⟨pre, r, post, rfl, hpre, hr, hnumber, htext⟩ := h
  refine ⟨raw :: pre, r, post, rfl, List.forall_mem_cons.2 ⟨hraw, hpre⟩, hr, ?_, htext⟩
  rw [hnumber, List.length_cons]
  omega

theorem firstRejected_of_readLines : ∀ {k : Nat} {raws : List (List Char)} {f : SceneFault},
    readLines k raws = .error f → FirstRejected k raws f
  | k, [], f, h => by cases h
  | k, raw :: rest, f, h => by
    rcases line_cases raw with hidle | ⟨c, hc⟩ | ⟨cause, hcause⟩
    · rw [readLines_idle hidle] at h
      exact (firstRejected_of_readLines h).cons fun _ hr => hr.not_idle hidle
    · rw [readLines_accepted hc] at h
      cases hrest : readLines (k + 1) rest with
      | ok ls =>
        rw [hrest] at h
        cases h
      | error f' =>
        rw [hrest] at h
        obtain rfl := Except.error.inj h
        exact (firstRejected_of_readLines hrest).cons fun _ hr => hr.not_accepted hc
    · rw [readLines_rejected hcause] at h
      obtain rfl := Except.error.inj h
      exact ⟨[], raw, rest, rfl, nofun, hcause, rfl, rfl⟩

/-- **The reading ends at the first rejected line**, with its number, its text and its cause. -/
theorem readLines_eq_error_iff {k : Nat} {raws : List (List Char)} {f : SceneFault} :
    readLines k raws = .error f ↔ FirstRejected k raws f := by
  refine ⟨firstRejected_of_readLines, ?_⟩
  rintro ⟨pre, raw, post, rfl, hpre, hraw, hnumber, htext⟩
  obtain ⟨ls, hls⟩ := exists_readLines_ok k hpre
  obtain ⟨number, text, cause⟩ := f
  obtain rfl : number = k + pre.length := hnumber
  obtain rfl : text = String.ofList (Text.trim raw) := htext
  rw [readLines_append, hls, readLines_rejected hraw]
  rfl

/-! ## Scripts behind scripts -/

theorem parse_eq_error_iff {src : String} {f : SceneFault} :
    parse src = .error f ↔ readLines 1 (Text.lines src.toList) = .error f := by
  unfold parse
  cases readLines 1 (Text.lines src.toList) <;> simp [Except.map]

theorem parse_eq_ok_iff {src : String} {s : Scene} :
    parse src = .ok s ↔ readLines 1 (Text.lines src.toList) = .ok s.lines := by
  obtain ⟨ls⟩ := s
  unfold parse
  cases readLines 1 (Text.lines src.toList) <;> simp [Except.map]

/-- A script behind one whose lines have all ended. -/
theorem readLines_script_append {a b : List Char} (h : Text.Ended a) : readLines 1 (Text.lines (a ++ b)) =
    (readLines 1 (Text.lines a)).bind fun ls => (((readLines 1 (Text.lines b)).mapError
      (SceneFault.later (a.count '\n'))).map (·.map (SceneLine.later (a.count '\n')))).map (ls ++ ·) := by
  rw [h.lines_append, readLines_append, h.length_lines]
  congr 1
  funext ls
  rw [readLines_later]

theorem ended_of_ends {a : String} (h : a = "" ∨ a.toList.getLast? = some '\n') : Text.Ended a.toList := by
  rcases h with rfl | h
  · exact .nil
  · exact Text.ended_of_getLast? h

/-- **Scenes are read line by line.**  Behind a script whose last line has ended, another is read as it is alone, with all
numbers moved by the newlines before it, unless the first is given up, which then is what becomes of the whole.  So a script is
given up exactly if one of its lines is rejected, and what is told is the first such line, its number and its cause. -/
theorem parse_append_and_parse_eq_error_iff :
    (∀ a b : String, a = "" ∨ a.toList.getLast? = some '\n' →
      (∀ f, parse a = .error f → parse (a ++ b) = .error f) ∧
      (∀ s f, parse a = .ok s → parse b = .error f → parse (a ++ b) = .error (f.later (a.toList.count '\n'))) ∧
      ∀ s t, parse a = .ok s → parse b = .ok t →
        parse (a ++ b) = .ok ⟨s.lines ++ t.lines.map (SceneLine.later (a.toList.count '\n'))⟩) ∧
    (∀ src, (∃ f, parse src = .error f) ↔ ∃ raw ∈ Text.lines src.toList, ∃ cause, Rejected raw cause) ∧
    ∀ src f, parse src = .error f ↔ FirstRejected 1 (Text.lines src.toList) f := by
  have hfirst : ∀ src f, parse src = .error f ↔ FirstRejected 1 (Text.lines src.toList) f := fun src f =>
    parse_eq_error_iff.trans readLines_eq_error_iff
  refine ⟨fun a b h => ?_, fun src => ⟨?_, ?_⟩, hfirst⟩
  · have happend := readLines_script_append (b := b.toList) (ended_of_ends h)
    rw [← String.toList_append] at happend
    refine ⟨fun f ha => ?_, fun s f ha hb => ?_, fun s t ha hb => ?_⟩
    · rw [parse_eq_error_iff] at ha ⊢
      rw [happend, ha]
      rfl
    · rw [parse_eq_ok_iff] at ha
      rw [parse_eq_error_iff] at hb ⊢
      rw [happend, ha, hb]
      rfl
    · rw [parse_eq_ok_iff] at ha hb ⊢
      rw [happend, ha, hb]
      rfl
  · rintro ⟨f, hf⟩
    obtain ⟨pre, raw, post, hlines, -, hraw, -⟩ := (hfirst src f).1 hf
    exact ⟨raw, hlines ▸ List.mem_append_right _ List.mem_cons_self, f.cause, hraw⟩
  · rintro ⟨raw, hmem, cause, hraw⟩
    cases hparse : parse src with
    | error f => exact ⟨f, rfl⟩
    | ok s => exact absurd hraw (not_rejected_of_readLines (parse_eq_ok_iff.1 hparse) raw hmem cause)

/-- Two lines behind three, the second of them no command: the fault is in line 5. -/
theorem parse_append_wiggle :
    parse ("# intro\n\nshow\n" ++ "frame 2\nwiggle now") = .error ⟨5, "wiggle now", .unknown "wiggle"⟩ := by
  have hfront : parse "# intro\n\nshow\n" = .ok ⟨[⟨3, .show⟩]⟩ := by rfl
  have hbehind : parse "frame 2\nwiggle now" = .error ⟨2, "wiggle now", .unknown "wiggle"⟩ := by rfl
  exact (parse_append_and_parse_eq_error_iff.1 _ _ (.inr (by decide))).2.1 _ _ hfront hbehind

end Scene
end Stagecraft
