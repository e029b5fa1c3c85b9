import Stagecraft.Proofs.Scene.Linewise
import Stagecraft.Proofs.State.Captured
import Stagecraft.Proofs.Text.Numeral
import Stagecraft.Proofs.Text.Trimmed
/-!
# Scenes written and read back

A command may be written with any blanks between its words, and any number of lines without a command may stand between two
that have one.  Names, triggers and descriptions are not words: where one ends is told by the first `=`, and by the first
`@` before it, so a name has neither, a trigger may have a second `@`, and a description may have both.
-/
namespace Stagecraft

open Text (Blanks Parted Single trim)

namespace Text

/-- Blanks on a line. -/
def Spacing (cs : List Char) : Prop := Blanks cs ∧ '\n' ∉ cs

instance (cs : List Char) : Decidable (Blanks cs) := decidable_of_iff (cs.all isBlank = true) List.all_eq_true

instance (cs : List Char) : Decidable (Spacing cs) := inferInstanceAs (Decidable (Blanks cs ∧ '\n' ∉ cs))

theorem Spacing.nil : Spacing [] := ⟨Blanks.nil, nofun⟩

theorem Spacing.space : Spacing [' '] := ⟨blanks_singleton isBlank_space, by decide⟩

theorem Spacing.parted {gap : List Char} (h : Spacing gap) (hne : gap ≠ []) (cs : List Char) : Parted (gap ++ cs) := by
  obtain ⟨d, gap, rfl⟩ := List.exists_cons_of_ne_nil hne
  intro c hc
  cases hc
  exact h.1 d List.mem_cons_self

/-- A text with blanks around it. -/
def Padded (s : String) (cs : List Char) : Prop := ∃ a b, Spacing a ∧ Spacing b ∧ cs = a ++ s.toList ++ b

theorem Padded.trim {s : String} {cs : List Char} (h : Padded s cs) (hs : trimmed s = s) : trim cs = s.toList := by
  obtain ⟨a, b, ha, hb, rfl⟩ := h
  rw [trim_append_blanks hb.1, trim_blanks_append ha.1, trim_eq_of_trimmed hs]

theorem Padded.not_mem {s : String} {cs : List Char} {c : Char} (h : Padded s cs) (hs : c ∉ s.toList)
    (hc : isBlank c = false ∨ c = '\n') : c ∉ cs := by
  obtain ⟨a, b, ha, hb, rfl⟩ := h
  have hgap : ∀ {g}, Spacing g → c ∉ g := by
    intro g hg hmem
    rcases hc with hc | rfl
    · rw [hg.1 c hmem] at hc
      cases hc
    · exact hg.2 hmem
  simp only [List.mem_append, not_or]
  exact ⟨⟨hgap ha, hs⟩, hgap hb⟩

/-- Words, each with blanks in front, and blanks at the end. -/
inductive Spread : List String → List Char → Prop
  | nil {cs : List Char} (h : Spacing cs) : Spread [] cs
  | cons {w : String} {ws : List String} {gap cs : List Char} (hgap : Spacing gap) (hne : gap ≠ []) (hcs : Spread ws cs) :
    Spread (w :: ws) (gap ++ w.toList ++ cs)

namespace Spread

variable {w : String} {ws : List String} {cs : List Char}

theorem parted (h : Spread ws cs) : Parted cs := by
  cases h with
  | nil h => exact fun c hc => h.1 c (List.mem_of_mem_head? hc)
  | @cons w ws gap cs hgap hne hcs =>
    rw [List.append_assoc]
    exact hgap.parted hne _

theorem trim_nil (h : Spread [] cs) : trim cs = [] := by
  cases h with
  | nil h => exact h.1.trim

theorem trim_singleton (h : Spread [w] cs) (hw : Single w.toList) : trim cs = w.toList := by
  cases h with
  | cons hgap hne hcs =>
    cases hcs with
    | nil h => rw [trim_append_blanks h.1, trim_blanks_append hgap.1, hw.trim]

theorem words_eq (h : Spread ws cs) (hws : ∀ w ∈ ws, Single w.toList) : words cs = ws.map String.toList := by
  induction h with
  | nil h => exact h.1.words
  | @cons w ws gap cs hgap hne hcs ih =>
    have hw := hws w List.mem_cons_self
    have ih := ih fun v hv => hws v (List.mem_cons_of_mem w hv)
    rw [List.append_assoc, words_blanks_append hgap.1, List.map_cons, ← ih]
    cases cs with
    | nil => rw [List.append_nil, words_of_solid hw.1 hw.2, words]
    | cons c cs =>
      have hc := hcs.parted c rfl
      rw [words_append_blank hc cs hw.1 hw.2]
      exact congrArg _ (words_blanks_append (blanks_singleton hc) cs).symm

theorem newline_not_mem (h : Spread ws cs) (hws : ∀ w ∈ ws, '\n' ∉ w.toList) : '\n' ∉ cs := by
  induction h with
  | nil h => exact h.2
  | @cons w ws gap cs hgap hne hcs ih =>
    simp only [List.mem_append, not_or]
    exact ⟨⟨hgap.2, hws w List.mem_cons_self⟩, ih fun v hv => hws v (List.mem_cons_of_mem w hv)⟩

end Spread
end Text

open Text (Spacing Padded Spread)

namespace Command

/-! ## How commands are written -/

/-- The words of a command other than the declaration of a state. -/
inductive Phrase : Command → List String → Prop
  | select (s : String) (el : ElementId) : Phrase (.select s el) ["select", s, Text.decimal el.number]
  | startVisible : Phrase (.start true) ["start", "visible"]
  | startHidden : Phrase (.start false) ["start", "hidden"]
  | start : Phrase (.start false) ["start"]
  | fireOn (e : String) (el : ElementId) : Phrase (.fire e el) ["fire", e, "on", Text.decimal el.number]
  | fire (e : String) : Phrase (.fire e Scene.element) ["fire", e]
  | frames (n : Nat) : Phrase (.frame n) ["frame", Text.decimal n]
  | frame : Phrase (.frame 1) ["frame"]
  | inView : Phrase (.visible true) ["visible", "true"]
  | outOfView : Phrase (.visible false) ["visible", "false"]
  | show : Phrase .show ["show"]

/-- A line with a command. -/
inductive Written : Command → List Char → Prop
  | phrase {c : Command} {keyword : String} {ws : List String} {before tail : List Char} (h : Phrase c (keyword :: ws))
    (hbefore : Spacing before) (htail : Spread ws tail) : Written c (before ++ keyword.toList ++ tail)
  | state {name description : String} {before gap n d : List Char} (hbefore : Spacing before) (hgap : Spacing gap) (hne : gap ≠ [])
    (hname : Padded name n) (hdescription : Padded description d) :
    Written (.state name none description) (before ++ "state".toList ++ (gap ++ n ++ '=' :: d))
  | stateOn {name trigger description : String} {before gap n t d : List Char} (hbefore : Spacing before) (hgap : Spacing gap)
    (hne : gap ≠ []) (hname : Padded name n) (htrigger : Padded trigger t) (hdescription : Padded description d) :
    Written (.state name (some trigger) description) (before ++ "state".toList ++ (gap ++ n ++ '@' :: (t ++ '=' :: d)))

/-- A command whose texts can be told apart from what is written around them, and whose numbers are not too large. -/
def Representable : Command → Prop
  | .state name trigger description =>
    (Text.trimmed name = name ∧ '=' ∉ name.toList ∧ '@' ∉ name.toList ∧ '\n' ∉ name.toList) ∧
    (∀ t ∈ trigger, Text.trimmed t = t ∧ '=' ∉ t.toList ∧ '\n' ∉ t.toList) ∧
    Text.trimmed description = description ∧ '\n' ∉ description.toList
  | .select s el => Single s.toList ∧ 1 ≤ el.number ∧ el.number < Text.word64Bound
  | .fire e el => Single e.toList ∧ 1 ≤ el.number ∧ el.number < Text.word64Bound
  | .frame n => n < Text.word64Bound
  | .start _ | .visible _ | .show => True

/-- A command with one blank between its words. -/
def print : Command → String
  | .state name none description => "state " ++ name ++ " = " ++ description
  | .state name (some trigger) description => "state " ++ name ++ " @ " ++ trigger ++ " = " ++ description
  | .select s el => "select " ++ s ++ " " ++ Text.decimal el.number
  | .start inView => if inView then "start visible" else "start hidden"
  | .fire e el => "fire " ++ e ++ " on " ++ Text.decimal el.number
  | .frame n => "frame " ++ Text.decimal n
  | .visible inView => if inView then "visible true" else "visible false"
  | .show => "show"

end Command

/-- A line of a script, with the command that stands on it if there is one. -/
inductive Scene.Row : Option Command → List Char → Prop
  | blank {cs : List Char} (h : Spacing cs) : Row none cs
  | comment {before cs : List Char} (hbefore : Spacing before) (hcs : '\n' ∉ cs) : Row none (before ++ '#' :: cs)
  | command {c : Command} {cs : List Char} (h : c.Written cs) : Row (some c) cs

namespace Command

/-! ## The words of a command -/

theorem toList_decimal (n : Nat) : (Text.decimal n).toList = Text.digits n := Nat.toList_repr

theorem single_decimal (n : Nat) : Single (Text.decimal n).toList := by
  rw [toList_decimal]
  exact ⟨Nat.toDigits_ne_nil, fun c hc =>
    Text.isBlank_of_isDigit (Nat.isDigit_of_mem_toDigits (by decide) (by decide) hc)⟩

theorem Phrase.single {c : Command} {ws : List String} (h : Phrase c ws) (hc : c.Representable) :
    ∀ w ∈ ws, Single w.toList := by
  cases h <;> simp only [List.forall_mem_cons, List.not_mem_nil, false_imp_iff, implies_true, and_true]
  case select s el => exact ⟨by decide, hc.1, single_decimal _⟩
  case fireOn e el => exact ⟨by decide, hc.1, by decide, single_decimal _⟩
  case fire e => exact ⟨by decide, hc.1⟩
  case frames n => exact ⟨by decide, single_decimal n⟩
  all_goals decide

/-- No keyword makes a comment of its line. -/
theorem Phrase.not_idle {c : Command} {keyword : String} {ws : List String} (h : Phrase c (keyword :: ws))
    (cs : List Char) : Scene.isIdle (keyword.toList ++ cs) = false := by
  cases h <;> rfl

/-! ## Reading what has been written -/

theorem exists_keyword {b w tail : List Char} (hb : Blanks b) (hw : Single w) (htail : Parted tail) :
    ∃ rest, keyword (trim (b ++ w ++ tail)) = (w, rest) ∧ trim rest = trim tail := by
  by_cases hnil : trim tail = []
  · have hend := Text.trimEnd_append_blanks (Text.blanks_of_trim hnil) []
    rw [List.nil_append] at hend
    have hcut : Text.cutAt? Text.isBlank w = none := Text.cutAt?_eq_none_iff.2 hw.2
    refine ⟨[], ?_, hnil.symm⟩
    rw [keyword, Text.trim_blanks_single_append hb hw, hend, show Text.trimEnd [] = [] from rfl, List.append_nil, hcut]
    rfl
  · obtain ⟨rest, hcut, hrest⟩ := Text.cutAt?_trim hb hw htail hnil
    exact ⟨rest, by rw [keyword, hcut]; rfl, hrest⟩

theorem elementId_of_decimal {el : ElementId} {cs : List Char} (hcs : trim cs = (Text.decimal el.number).toList)
    (hpos : 1 ≤ el.number) (hlt : el.number < Text.word64Bound) : elementId cs = .ok el := by
  obtain ⟨n⟩ := el
  cases n with
  | zero => cases hpos
  | succ n =>
    rw [elementId, hcs, toList_decimal, Text.readWord64_digits hlt]
    rfl

theorem readSelect_trim {s : String} {el : ElementId} {tail : List Char} (htail : Spread [s, Text.decimal el.number] tail)
    (hc : (Command.select s el).Representable) : readSelect (trim tail) = .ok (.select s el) := by
  obtain ⟨hs, hpos, hlt⟩ := hc
  cases htail with
  | @cons _ _ gap cs hgap hne hcs =>
    have hid := hcs.trim_singleton (single_decimal el.number)
    have hmore : trim cs ≠ [] := by
      rw [hid]
      exact (single_decimal el.number).1
    obtain ⟨rest, hcut, hrest⟩ := Text.cutAt?_trim hgap.1 hs hcs.parted hmore
    rw [readSelect, hcut]
    simp only
    rw [elementId_of_decimal (hrest.trans hid) hpos hlt, String.ofList_toList]
    rfl

theorem readFrame_decimal {n : Nat} (hn : n < Text.word64Bound) : readFrame (Text.decimal n).toList = .ok (.frame n) := by
  have hsome : ¬ (Text.digits n).isEmpty = true := by
    rw [List.isEmpty_iff]
    exact Nat.toDigits_ne_nil
  rw [readFrame, toList_decimal, if_neg hsome, Text.readWord64_digits hn]

/-- A phrase is read from its words. -/
theorem Phrase.read {c : Command} {word : String} {ws : List String} {line rest tail : List Char}
    (h : Phrase c (word :: ws)) (hc : c.Representable) (htail : Spread ws tail)
    (hline : keyword line = (word.toList, rest)) (hrest : trim rest = trim tail) : Command.read line = .ok c := by
  have hsingle : ∀ w ∈ ws, Single w.toList := fun w hw => h.single hc w (List.mem_cons_of_mem word hw)
  have hwords := htail.words_eq hsingle
  unfold Command.read
  rw [hline]
  simp only [hrest, String.ofList_toList]
  cases h with
  | select s el => exact readSelect_trim htail hc
  | startVisible | startHidden | inView | outOfView =>
    rw [htail.trim_singleton (by decide)]
    rfl
  | start | frame =>
    rw [htail.trim_nil]
    rfl
  | fireOn e el =>
    have hid := elementId_of_decimal (single_decimal el.number).trim hc.2.1 hc.2.2
    show readFire _ = _
    rw [readFire, Text.words_trim, hwords]
    simp only [List.map_cons, List.map_nil, String.ofList_toList, if_true, hid]
    rfl
  | fire e =>
    show readFire _ = _
    rw [readFire, Text.words_trim, hwords]
    simp only [List.map_cons, List.map_nil, String.ofList_toList]
  | frames n =>
    rw [htail.trim_singleton (single_decimal n)]
    exact readFrame_decimal hc
  | «show» => rfl

theorem readState_append {n d : List Char} (hequals : '=' ∉ n) (hat : '@' ∉ n) : readState (n ++ '=' :: d) =
    .ok (.state (String.ofList (trim n)) none (String.ofList (trim d))) := by
  have hfirst : ∀ c ∈ n, decide (c = '=') = false := fun c hc => decide_eq_false fun heq => hequals (heq ▸ hc)
  have hnone : Text.cutAt? (· = '@') n = none :=
    Text.cutAt?_eq_none_iff.2 fun c hc => decide_eq_false fun heq => hat (heq ▸ hc)
  rw [readState, Text.cutAt?_append_cons (decide_eq_true rfl) d hfirst]
  simp only [hnone]

/-- A second `@` belongs to the trigger, and a second `=` to the description. -/
theorem readState_append_append {n t d : List Char} (hequals : '=' ∉ n) (hat : '@' ∉ n) (htrigger : '=' ∉ t) :
    readState (n ++ '@' :: t ++ '=' :: d) =
      .ok (.state (String.ofList (trim n)) (some (String.ofList (trim t))) (String.ofList (trim d))) := by
  have hfirst : ∀ c ∈ n ++ '@' :: t, decide (c = '=') = false := by
    intro c hc
    refine decide_eq_false ?_
    rintro rfl
    rcases List.mem_append.1 hc with hc | hc
    · exact hequals hc
    · exact htrigger ((List.mem_cons.1 hc).resolve_left (by decide))
  have hsecond : ∀ c ∈ n, decide (c = '@') = false := fun c hc => decide_eq_false fun heq => hat (heq ▸ hc)
  rw [readState, Text.cutAt?_append_cons (decide_eq_true rfl) d hfirst]
  simp only [Text.cutAt?_append_cons (decide_eq_true rfl) t hsecond]

/-- What is left of blanks and a name at the start of a text. -/
theorem trimStart_gap_append {s : String} {gap n : List Char} (hgap : Spacing gap) (hn : Padded s n)
    (hs : Text.trimmed s = s) : trim (Text.trimStart (gap ++ n)) = s.toList := by
  rw [Text.trim_trimStart, Text.trim_blanks_append hgap.1, hn.trim hs]

theorem not_mem_trimStart {s : String} {gap n : List Char} {c : Char} (hgap : Spacing gap) (hn : Padded s n)
    (hs : c ∉ s.toList) (hc : Text.isBlank c = false) : c ∉ Text.trimStart (gap ++ n) := by
  intro hmem
  have hmem : c ∈ gap ++ n := (List.dropWhile_sublist Text.isBlank).subset hmem
  rcases List.mem_append.1 hmem with h | h
  · rw [hgap.1 c h] at hc
    cases hc
  · exact hn.not_mem hs (.inl hc) h

/-- A line is read by its first word and what is left behind it. -/
theorem accepted_of_keyword {c : Command} {before word tail : List Char} (hbefore : Spacing before) (hword : Single word)
    (htail : Parted tail) (hidle : ∀ cs, Scene.isIdle (word ++ cs) = false)
    (hread : ∀ {line rest}, keyword line = (word, rest) → trim rest = trim tail → read line = .ok c) :
    Scene.Accepted (before ++ word ++ tail) c := by
  obtain ⟨rest, hline, hrest⟩ := exists_keyword hbefore.1 hword htail
  refine ⟨?_, hread hline hrest⟩
  rw [Text.trim_blanks_single_append hbefore.1 hword]
  exact hidle _

theorem accepted_state {c : Command} {before gap cs : List Char} (hbefore : Spacing before) (hgap : Spacing gap) (hne : gap ≠ [])
    (h : readState (trim (gap ++ cs)) = .ok c) : Scene.Accepted (before ++ "state".toList ++ (gap ++ cs)) c := by
  refine accepted_of_keyword hbefore (by decide) (hgap.parted hne cs) (fun _ => rfl) fun hline hrest => ?_
  unfold read
  rw [hline]
  simp only [hrest, String.ofList_toList]
  exact h

/-- **A line with a command is read as that command.** -/
theorem Written.accepted {c : Command} {cs : List Char} (h : c.Written cs) (hc : c.Representable) :
    Scene.Accepted cs c := by
  cases h with
  | phrase h hbefore htail =>
    exact accepted_of_keyword hbefore (h.single hc _ List.mem_cons_self) htail.parted h.not_idle (h.read hc htail)
  | @state name description before gap n d hbefore hgap hne hname hdescription =>
    obtain ⟨⟨hn, hequals, hat, -⟩, -, hd, -⟩ := hc
    rw [List.append_assoc gap]
    refine accepted_state hbefore hgap hne ?_
    rw [← List.append_assoc, Text.trim_append_cons (by decide), readState_append (not_mem_trimStart hgap hname hequals
      (by decide)) (not_mem_trimStart hgap hname hat (by decide)), trimStart_gap_append hgap hname hn, Text.trim_trimEnd,
      hdescription.trim hd, String.ofList_toList, String.ofList_toList]
  | @stateOn name trigger description before gap n t d hbefore hgap hne hname htrigger hdescription =>
    obtain ⟨⟨hn, hequals, hat, -⟩, ht, hd, -⟩ := hc
    obtain ⟨ht, hsecond, -⟩ := ht trigger rfl
    rw [List.append_assoc gap]
    refine accepted_state hbefore hgap hne ?_
    rw [← List.append_assoc, ← List.cons_append, ← List.append_assoc, Text.trim_append_cons (by decide),
      Text.trimStart_append_cons (by decide), readState_append_append (not_mem_trimStart hgap hname hequals (by decide))
      (not_mem_trimStart hgap hname hat (by decide)) (htrigger.not_mem hsecond (.inl (by decide))),
      trimStart_gap_append hgap hname hn, Text.trim_trimEnd, htrigger.trim ht, hdescription.trim hd, String.ofList_toList,
      String.ofList_toList, String.ofList_toList]

/-- A line with a command is one line. -/
theorem Written.newline_not_mem {c : Command} {cs : List Char} (h : c.Written cs) (hc : c.Representable) :
    '\n' ∉ cs := by
  cases h with
  | phrase h hbefore htail =>
    have hsingle := h.single hc
    simp only [List.mem_append, not_or]
    exact ⟨⟨hbefore.2, (hsingle _ List.mem_cons_self).newline_not_mem⟩,
      htail.newline_not_mem fun w hw => (hsingle w (List.mem_cons_of_mem _ hw)).newline_not_mem⟩
  | state hbefore hgap _ hname hdescription =>
    obtain ⟨⟨-, -, -, hn⟩, -, -, hd⟩ := hc
    simp only [List.mem_append, List.mem_cons, not_or]
    exact ⟨⟨hbefore.2, by decide⟩, ⟨hgap.2, hname.not_mem hn (.inr rfl)⟩, by decide, hdescription.not_mem hd (.inr rfl)⟩
  | stateOn hbefore hgap _ hname htrigger hdescription =>
    obtain ⟨⟨-, -, -, hn⟩, ht, -, hd⟩ := hc
    obtain ⟨-, -, ht⟩ := ht _ rfl
    simp only [List.mem_append, List.mem_cons, not_or]
    exact ⟨⟨hbefore.2, by decide⟩, ⟨hgap.2, hname.not_mem hn (.inr rfl)⟩, by decide, htrigger.not_mem ht (.inr rfl), by decide,
      hdescription.not_mem hd (.inr rfl)⟩

/-- Every command can be written. -/
theorem written_print (c : Command) : c.Written c.print.toList := by
  have hword : ∀ {ws cs} (w : String), Spread ws cs → Spread (w :: ws) ([' '] ++ w.toList ++ cs) := fun w h =>
    .cons .space (List.cons_ne_nil _ _) h
  have hend : Spread [] [] := .nil .nil
  cases c with
  | state name trigger description =>
    have hname : Padded name (name.toList ++ [' ']) := ⟨[], [' '], .nil, .space, rfl⟩
    have hdescription : Padded description (' ' :: description.toList) :=
      ⟨[' '], [], .space, .nil, (List.append_nil _).symm⟩
    cases trigger with
    | none => simpa [print] using Written.state .nil .space (List.cons_ne_nil _ _) hname hdescription
    | some trigger =>
      have htrigger : Padded trigger (' ' :: (trigger.toList ++ [' '])) := ⟨[' '], [' '], .space, .space, rfl⟩
      simpa [print] using Written.stateOn .nil .space (List.cons_ne_nil _ _) hname htrigger hdescription
  | select s el => simpa [print] using Written.phrase (.select s el) .nil (hword s (hword _ hend))
  | start inView =>
    cases inView with
    | true => simpa [print] using Written.phrase .startVisible .nil (hword _ hend)
    | false => simpa [print] using Written.phrase .startHidden .nil (hword _ hend)
  | fire e el => simpa [print] using Written.phrase (.fireOn e el) .nil (hword e (hword _ (hword _ hend)))
  | frame n => simpa [print] using Written.phrase (.frames n) .nil (hword _ hend)
  | visible inView =>
    cases inView with
    | true => simpa [print] using Written.phrase .inView .nil (hword _ hend)
    | false => simpa [print] using Written.phrase .outOfView .nil (hword _ hend)
  | «show» => simpa [print] using Written.phrase .show .nil hend

end Command

namespace Scene

variable {r : Option Command} {cs : List Char}

/-- A line without a command is passed over. -/
theorem Row.idle (h : Row none cs) : isIdle (trim cs) = true := by
  cases h with
  | blank h =>
    rw [h.1.trim]
    rfl
  | comment hbefore hcs =>
    rw [Text.trim_append_cons (by decide), hbefore.1.trimStart]
    rfl

theorem Row.newline_not_mem (h : Row r cs) (hr : ∀ c ∈ r, c.Representable) : '\n' ∉ cs := by
  cases h with
  | blank h => exact h.2
  | comment hbefore hcs =>
    simp only [List.mem_append, List.mem_cons, not_or]
    exact ⟨hbefore.2, by decide, hcs⟩
  | command h => exact h.newline_not_mem (hr _ rfl)

/-- Commands with the numbers of their lines, which are counted from `k`. -/
def numbered (k : Nat) (rs : List (Option Command)) : List SceneLine :=
  (rs.zipIdx k).filterMap fun r => r.1.map (SceneLine.mk r.2)

theorem readLines_rows : ∀ (k : Nat) {rows : List (Option Command × List Char)}, (∀ r ∈ rows, Row r.1 r.2) →
    (∀ r ∈ rows, ∀ c ∈ r.1, c.Representable) →
      readLines k (rows.map Prod.snd) = .ok (numbered k (rows.map Prod.fst))
  | k, [], _, _ => rfl
  | k, (r, cs) :: rows, hrows, hc => by
    have ih := readLines_rows (k + 1) (fun r hr => hrows r (List.mem_cons_of_mem _ hr)) fun r hr =>
      hc r (List.mem_cons_of_mem _ hr)
    have hrow : Row r cs := hrows _ List.mem_cons_self
    cases r with
    | none =>
      rw [List.map_cons, List.map_cons, readLines_idle hrow.idle, ih]
      rfl
    | some c =>
      cases hrow with
      | command hwritten =>
        rw [List.map_cons, List.map_cons, readLines_accepted (hwritten.accepted (hc _ List.mem_cons_self c rfl)), ih]
        rfl

/-- Lines that are joined by newlines are read as they are. -/
theorem readLines_intercalate : ∀ (k : Nat) {ls : List (List Char)}, (∀ l ∈ ls, '\n' ∉ l) →
    readLines k (Text.lines (['\n'].intercalate ls)) = readLines k ls
  | k, [], _ => rfl
  | k, [l], h => by
    have hl := h l List.mem_cons_self
    rw [List.intercalate_singleton]
    by_cases hnil : l = []
    · -- nothing behind the last newline is no line
      rw [hnil]
      rfl
    · rw [Text.lines_of_not_mem hl hnil]
  | k, l :: l' :: ls, h => by
    have ih := readLines_intercalate (k + 1) fun x hx => h x (List.mem_cons_of_mem l hx)
    rw [List.intercalate_cons_cons, List.append_assoc, List.singleton_append,
      Text.lines_append_newline _ (h l List.mem_cons_self), readLines, readLines, Text.trim_chomp, ih]

/-- **What is written as a scene is read back.**  Commands that are representable come out of a script with the numbers of
their lines, however they are laid out in it; so do commands printed one to a line. -/
theorem parse_rows_and_parse_print :
    (∀ rows : List (Option Command × List Char), (∀ r ∈ rows, Row r.1 r.2) →
      (∀ r ∈ rows, ∀ c ∈ r.1, c.Representable) →
        parse (String.ofList (['\n'].intercalate (rows.map Prod.snd))) = .ok ⟨numbered 1 (rows.map Prod.fst)⟩) ∧
    ∀ cs : List Command, (∀ c ∈ cs, c.Representable) →
      parse ("\n".intercalate (cs.map Command.print)) = .ok ⟨numbered 1 (cs.map some)⟩ := by
  have hrows : ∀ rows : List (Option Command × List Char), (∀ r ∈ rows, Row r.1 r.2) →
      (∀ r ∈ rows, ∀ c ∈ r.1, c.Representable) →
        parse (String.ofList (['\n'].intercalate (rows.map Prod.snd))) = .ok ⟨numbered 1 (rows.map Prod.fst)⟩ := by
    intro rows hrows hc
    have hlines : ∀ l ∈ rows.map Prod.snd, '\n' ∉ l := by
      intro l hl
      obtain ⟨r, hr, rfl⟩ := List.mem_map.1 hl
      exact (hrows r hr).newline_not_mem (hc r hr)
    rw [parse_eq_ok_iff, String.toList_ofList, readLines_intercalate 1 hlines, readLines_rows 1 hrows hc]
  refine ⟨hrows, fun cs hcs => ?_⟩
  have h := hrows (cs.map fun c => (some c, c.print.toList)) ?_ ?_
  · have htext : "\n".intercalate (cs.map Command.print) = String.ofList (['\n'].intercalate
        ((cs.map fun c => (some c, c.print.toList)).map Prod.snd)) := by
      rw [← String.toList_inj, String.toList_ofList, String.toList_intercalate, List.map_map, List.map_map]
      rfl
    rw [htext, h, List.map_map]
    rfl
  · intro r hr
    obtain ⟨c, hc, rfl⟩ := List.mem_map.1 hr
    exact .command c.written_print
  · intro r hr c' hc'
    obtain ⟨c, hc, rfl⟩ := List.mem_map.1 hr
    obtain rfl := Option.some.inj hc'
    exact hcs _ hc

/-- A state with a second `@` and a second `=`, behind a comment, and an event with more blanks than it needs. -/
theorem parse_state_fire :
    parse "# a scene\nstate a @ #b @c = x = y\n\n  fire \tclick\r" =
      .ok ⟨[⟨2, .state "a" (some "#b @c") "x = y"⟩, ⟨4, .fire "click" element⟩]⟩ := by
  let c : Command := .state "a" (some "#b @c") "x = y"
  let rows : List (Option Command × List Char) := [(none, "# a scene".toList), (some c, c.print.toList), (none, []),
    (some (.fire "click" element), "  fire \tclick\r".toList)]
  have htext : String.ofList (['\n'].intercalate (rows.map Prod.snd)) =
    "# a scene\nstate a @ #b @c = x = y\n\n  fire \tclick\r" := by decide +kernel
  have hbefore : Spacing [' ', ' '] := by decide
  have hgap : Spacing [' ', '\t'] := by decide
  have hafter : Spacing ['\r'] := by decide
  have hfire : Command.Written (.fire "click" element) "  fire \tclick\r".toList :=
    .phrase (.fire "click") hbefore (.cons hgap (List.cons_ne_nil _ _) (.nil hafter))
  have hrows : ∀ r ∈ rows, Row r.1 r.2 := by
    simp only [rows, List.forall_mem_cons, List.not_mem_nil, false_imp_iff, implies_true, and_true]
    exact ⟨.comment .nil (by decide), .command c.written_print, .blank .nil, .command hfire⟩
  have hstate : c.Representable := by
    unfold c Command.Representable
    decide +kernel
  have hevent : Command.Representable (.fire "click" element) := ⟨by decide, by decide, by decide⟩
  have hc : ∀ r ∈ rows, ∀ c ∈ r.1, c.Representable := by
    simp only [rows, List.forall_mem_cons, List.not_mem_nil, Option.mem_def, Option.some.injEq, forall_eq', reduceCtorEq,
      false_imp_iff, implies_true, and_true, true_and]
    exact ⟨hstate, hevent⟩
  rw [← htext]
  exact parse_rows_and_parse_print.1 rows hrows hc

end Scene
end Stagecraft
