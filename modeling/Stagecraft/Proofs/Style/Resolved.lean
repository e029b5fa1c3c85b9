import Mathlib.Data.List.Induction
import Mathlib.Data.List.Nodup
import Stagecraft.Proofs.Style.ClassName
import Stagecraft.Stage.Run
/-!
# A stylesheet over any number of calls

Distinct keys may fall together in one class.  Whatever keys and bodies are asked for, the first body for a class is the
rule of the class for ever, and the classes, the rules handed to the page and the text of the stylesheet stay in step.
-/
namespace Stagecraft

open Animation (Request)

namespace Stylesheet

/-! ## Class names -/

/-- The characters of a class name. -/
def isSafe (c : Char) : Bool := c.isAlphanum || c = '_'

theorem isSafe_of_mem_classChars {c d : Char} (h : d ∈ classChars c) : isSafe d = true := by
  unfold classChars at h
  split at h
  · rw [List.mem_singleton.1 h]
    decide
  split at h
  · simp only [List.mem_cons, List.not_mem_nil, or_false] at h
    rcases h with rfl | rfl | rfl <;> decide
  split at h
  · rename_i hsafe
    rw [List.mem_singleton.1 h]
    exact hsafe
  · rw [List.mem_singleton.1 h]
    decide

/-- A safe character stands for itself. -/
theorem classChars_of_isSafe {c : Char} (h : isSafe c = true) : classChars c = [c] := by
  rw [isSafe, Bool.or_eq_true, decide_eq_true_eq] at h
  rcases h with h | rfl
  · exact classChars_of_isAlphanum h
  · decide

theorem isSafe_of_mem_classKey {key : String} {c : Char} (h : c ∈ (classKey key).toList) : isSafe c = true := by
  rw [toList_classKey, classOf, List.mem_flatMap] at h
  obtain ⟨d, -, hc⟩ := h
  exact isSafe_of_mem_classChars hc

theorem classOf_of_isSafe : ∀ {cs : List Char}, (∀ c ∈ cs, isSafe c = true) → classOf cs = cs
  | [], _ => rfl
  | c :: cs, h => by
    have ih : classOf cs = cs := classOf_of_isSafe fun d hd => h d (List.mem_cons_of_mem _ hd)
    rw [← List.singleton_append, classOf_append, ih, classOf, List.flatMap_singleton,
      classChars_of_isSafe (h c List.mem_cons_self)]

theorem classKey_classKey (key : String) : classKey (classKey key) = classKey key := by
  rw [← String.toList_inj, toList_classKey]
  exact classOf_of_isSafe fun c hc => isSafe_of_mem_classKey hc

/-! ## One call -/

theorem rule?_eq_none_iff {s : Stylesheet} {name : String} : s.rule? name = none ↔ name ∉ s.classes := by
  rw [rule?, Option.map_eq_none_iff, List.find?_eq_none, classes, List.mem_map]
  simp only [beq_iff_eq, not_exists, not_and]

theorem classes_resolve (s : Stylesheet) (key body : String) :
    (s.resolve key body).classes = if classKey key ∈ s.classes then s.classes else s.classes ++ [classKey key] := by
  unfold resolve
  split
  · rename_i hnone
    rw [if_neg (rule?_eq_none_iff.1 hnone), classes, List.map_append]
    rfl
  · rename_i b hsome
    have hmem : classKey key ∈ s.classes := by
      refine Decidable.of_not_not fun hmem => ?_
      rw [rule?_eq_none_iff.2 hmem] at hsome
      cases hsome
    rw [if_pos hmem]

/-- A call leaves the rules of other classes alone, and the rule of its own if there is one. -/
theorem rule?_resolve (s : Stylesheet) (key body name : String) :
    (s.resolve key body).rule? name = (s.rule? name).or (if classKey key = name then some body else none) := by
  cases h : s.rule? name with
  | some b => exact rule?_resolve_of_eq_some h key body
  | none =>
    rw [Option.none_or]
    split
    · rename_i hname
      rw [← hname] at h ⊢
      rw [rule?_resolve_self, h, Option.getD_none]
    · rename_i hname
      unfold resolve
      split
      · simp only [rule?, Option.map_eq_none_iff] at h
        simp [rule?, List.find?_append, h, hname]
      · exact h

/-- In a stylesheet without repetitions a rule is found by its class. -/
theorem rule?_of_mem {r : Rule} : ∀ {s : Stylesheet}, s.classes.Nodup → r ∈ s.rules → s.rule? r.name = some r.body
  | ⟨[]⟩, _, hr => by cases hr
  | ⟨q :: qs⟩, hnodup, hr => by
    rw [classes, List.map_cons, List.nodup_cons] at hnodup
    rw [rule?, List.find?_cons]
    rcases List.mem_cons.1 hr with rfl | hr
    · rw [beq_self_eq_true]
      rfl
    · have hne : (q.name == r.name) = false := by
        rw [beq_eq_false_iff_ne]
        intro heq
        exact hnodup.1 (heq ▸ List.mem_map_of_mem hr)
      rw [hne]
      exact rule?_of_mem (s := ⟨qs⟩) hnodup.2 hr

end Stylesheet

namespace Stage

/-! ## What is seen of calls -/

/-- The rules that were handed to the page, in order. -/
def handed (s : Stage) : List Rule :=
  s.entries.filterMap fun
    | .styled rule => some rule
    | _ => none

/-- The warnings that were given, in order. -/
def warnings (s : Stage) : List Notice :=
  s.entries.filterMap fun
    | .notice n => if n.level = .warn then some n else none
    | _ => none

/-- The stage after a number of calls for a class. -/
def asked (s : Stage) (calls : List Request) : Stage := calls.foldl (fun s r => s.runCue (.resolve r.key r.body)) s

/-- A call for a class leaves nothing to be done. -/
theorem runCue_resolve (s : Stage) (key body : String) :
    s.runCue (.resolve key body) = (s.resolve key body).reply (.text (Stylesheet.classKey key)) := by
  rw [runCue, runTasks, show patience = patience - 1 + 1 from rfl, Config.run]
  exact congrArg Config.stage (Config.run_of_agenda_eq_nil rfl _)

section
variable (s : Stage) (r : Request)

theorem styles_runCue : (s.runCue (.resolve r.key r.body)).styles = s.styles.resolve r.key r.body := by
  rw [runCue_resolve]
  exact styles_resolve s r.key r.body

theorem journal_runCue : (s.runCue (.resolve r.key r.body)).journal =
    match s.styles.verdict r.name r.body with
    | .added => .styled ⟨r.name, r.body⟩ :: .notice (.ruleAdded r.name) :: s.journal
    | .known => s.journal
    | .clash => .notice (.ruleClash r.name) :: s.journal := by
  rw [runCue_resolve, Request.name]
  simp only [reply, resolve]
  cases s.styles.verdict (Stylesheet.classKey r.key) r.body <;> rfl

/-- A rule is handed to the page exactly if its class is new. -/
theorem handed_runCue : (s.runCue (.resolve r.key r.body)).handed =
    s.handed ++ if (s.styles.rule? r.name).isNone then [⟨r.name, r.body⟩] else [] := by
  rw [handed, entries, journal_runCue, Stylesheet.verdict, handed, entries]
  cases s.styles.rule? r.name with
  | none => simp
  | some b =>
    by_cases hb : b = r.body
    · simp [hb]
    · simp [hb]

/-- A warning is given exactly if the class has another rule. -/
theorem warnings_runCue : (s.runCue (.resolve r.key r.body)).warnings =
    s.warnings ++ if ∃ b ∈ s.styles.rule? r.name, b ≠ r.body then [Notice.ruleClash r.name] else [] := by
  rw [warnings, entries, journal_runCue, Stylesheet.verdict, warnings, entries]
  cases s.styles.rule? r.name with
  | none => simp [Notice.level]
  | some b =>
    by_cases hb : b = r.body
    · simp [hb]
    · simp [hb, Notice.level]

end

/-! ## Any number of calls -/

/-- A name is listed where it first comes up. -/
theorem eraseDups_concat (names : List String) (name : String) :
    (names ++ [name]).eraseDups = if name ∈ names then names.eraseDups else names.eraseDups ++ [name] := by
  rw [List.eraseDups_append, List.removeAll]
  by_cases h : name ∈ names
  · rw [if_pos h, List.filter_cons_of_neg (by simpa using h), List.filter_nil, List.eraseDups_nil, List.append_nil]
  · rw [if_neg h, List.filter_cons_of_pos (by simpa using h), List.filter_nil]
    rfl

theorem asked_concat (s : Stage) (calls : List Request) (r : Request) :
    s.asked (calls ++ [r]) = (s.asked calls).runCue (.resolve r.key r.body) := by
  rw [asked, List.foldl_append, List.foldl_cons, List.foldl_nil, ← asked]

/-- **The first body for a class is its rule for ever.** -/
theorem rule?_asked (s : Stage) (calls : List Request) (name : String) : (s.asked calls).styles.rule? name =
    (s.styles.rule? name).or ((calls.find? fun r => r.name == name).map Request.body) := by
  induction calls generalizing s with
  | nil => rw [asked, List.foldl_nil, List.find?_nil, Option.map_none, Option.or_none]
  | cons r calls ih =>
    rw [asked, List.foldl_cons, ← asked, ih, styles_runCue, Stylesheet.rule?_resolve, Option.or_assoc, List.find?_cons,
      ← Request.name]
    by_cases hname : r.name = name
    · rw [if_pos hname, beq_iff_eq.2 hname, Option.some_or, Option.map_some]
    · rw [if_neg hname, beq_eq_false_iff_ne.2 hname, Option.none_or]

/-- What has been handed to the page is the stylesheet, one rule for each class that was asked for. -/
structure InStep (calls : List Request) (s : Stage) : Prop where
  handed_eq : s.handed = s.styles.rules
  classes_eq : s.styles.classes = (calls.map Request.name).eraseDups
  nodup : s.styles.classes.Nodup

theorem inStep_opened (manners : Manners) : InStep [] (opened manners) where
  handed_eq := rfl
  classes_eq := rfl
  nodup := List.nodup_nil

theorem InStep.runCue {calls : List Request} {s : Stage} (h : InStep calls s) (r : Request) :
    InStep (calls ++ [r]) (s.runCue (.resolve r.key r.body)) := by
  have hclasses := Stylesheet.classes_resolve s.styles r.key r.body
  rw [← Request.name] at hclasses
  constructor
  · rw [handed_runCue, styles_runCue, h.handed_eq, Stylesheet.resolve, ← Request.name]
    cases s.styles.rule? r.name with
    | none => rfl
    | some b => exact List.append_nil _
  · have hmem : r.name ∈ s.styles.classes ↔ r.name ∈ calls.map Request.name := by
      rw [h.classes_eq, List.mem_eraseDups]
    rw [styles_runCue, hclasses, List.map_append, List.map_singleton, eraseDups_concat, ← h.classes_eq]
    exact if_congr hmem rfl rfl
  · rw [styles_runCue, hclasses]
    split
    · exact h.nodup
    · rename_i hname
      exact List.nodup_append.2 ⟨h.nodup, List.nodup_singleton _, fun a ha b hb => by
        rw [List.mem_singleton.1 hb]
        exact fun heq => hname (heq ▸ ha)⟩

theorem inStep_asked (manners : Manners) (calls : List Request) : InStep calls ((opened manners).asked calls) := by
  induction calls using List.reverseRecOn with
  | nil => exact inStep_opened manners
  | append_singleton calls r ih =>
    rw [asked_concat]
    exact ih.runCue r

/-- The text of a stylesheet by its classes. -/
theorem InStep.css_eq {calls : List Request} {s : Stage} (h : InStep calls s) : s.styles.css =
    String.join (s.styles.classes.map fun c => Stylesheet.lineOf ⟨c, (s.styles.rule? c).getD ""⟩) := by
  rw [Stylesheet.css, Stylesheet.classes, List.map_map]
  refine congrArg String.join (List.map_congr_left fun rule hrule => ?_)
  rw [Function.comp_apply, Stylesheet.rule?_of_mem h.nodup hrule, Option.getD_some]

/-- What has been handed to the page by its classes. -/
theorem InStep.handed_eq_map {calls : List Request} {s : Stage} (h : InStep calls s) :
    (s.handed.map fun rule => (rule.name, some rule.body)) = s.styles.classes.map fun c => (c, s.styles.rule? c) := by
  rw [h.handed_eq, Stylesheet.classes, List.map_map]
  refine List.map_congr_left fun rule hrule => ?_
  rw [Function.comp_apply, Stylesheet.rule?_of_mem h.nodup hrule]

/-- **A stylesheet stays in step with all that is seen of it.**  After any calls on a new stage, the next one is answered with
the class of its key, which is made of letters, digits and underscores and is its own class; and it gives a warning exactly
if the class has another rule.  The classes are those that were answered, each where it first was; each has for its rule
the first body it was asked for with, whatever came later; and the page was handed, and the stylesheet says, just that. -/
theorem stylesheet_stays_in_step (manners : Manners) (calls : List Request) :
    let s := (opened manners).asked calls
    (∀ r : Request,
      (s.runCue (.resolve r.key r.body)).answer = .text r.name ∧
      (∀ c ∈ r.name.toList, Stylesheet.isSafe c = true) ∧ Stylesheet.classKey r.name = r.name ∧
      (s.runCue (.resolve r.key r.body)).warnings =
        s.warnings ++ if ∃ b ∈ s.styles.rule? r.name, b ≠ r.body then [Notice.ruleClash r.name] else []) ∧
    s.styles.classes = (calls.map Request.name).eraseDups ∧ s.styles.classes.Nodup ∧
    (∀ name, s.styles.rule? name = (calls.find? fun r => r.name == name).map Request.body) ∧
    (s.handed.map fun rule => (rule.name, some rule.body)) = s.styles.classes.map (fun c => (c, s.styles.rule? c)) ∧
    s.styles.css = String.join (s.styles.classes.map fun c => Stylesheet.lineOf ⟨c, (s.styles.rule? c).getD ""⟩) := by
  intro s
  have hs : InStep calls s := inStep_asked manners calls
  refine ⟨fun r => ⟨?_, ?_, ?_, warnings_runCue s r⟩, hs.classes_eq, hs.nodup, fun name => ?_, hs.handed_eq_map, hs.css_eq⟩
  · rw [runCue_resolve]
    rfl
  · exact fun c hc => Stylesheet.isSafe_of_mem_classKey hc
  · exact Stylesheet.classKey_classKey r.key
  · exact rule?_asked (opened manners) calls name

/-- Two keys that fall together, with a body each; the first body is kept, and a third is warned about. -/
theorem stylesheet_stays_in_step_collision :
    let s := (opened {}).asked [⟨"a-1", "opacity: 0;"⟩, ⟨"50%", "opacity: 1;"⟩, ⟨"am1", "top: 0;"⟩]
    s.styles.classes = ["am1", "50pct"] ∧ s.styles.rule? "am1" = some "opacity: 0;" ∧
    s.handed.map Rule.name = ["am1", "50pct"] ∧
    s.styles.css = ".am1 \x7b opacity: 0; \x7d\n.50pct \x7b opacity: 1; \x7d\n" ∧
    (s.runCue (.resolve "a-1" "left: 0;")).warnings = s.warnings ++ [.ruleClash "am1"] := by
  intro s
  obtain ⟨hnext, hclasses, -, hrule, hhanded, hcss⟩ := stylesheet_stays_in_step {}
    [⟨"a-1", "opacity: 0;"⟩, ⟨"50%", "opacity: 1;"⟩, ⟨"am1", "top: 0;"⟩]
  have hnames : s.styles.classes = ["am1", "50pct"] := hclasses.trans (by decide)
  have hfirst : s.styles.rule? "am1" = some "opacity: 0;" := (hrule "am1").trans (by decide)
  have hsecond : s.styles.rule? "50pct" = some "opacity: 1;" := (hrule "50pct").trans (by decide)
  refine ⟨hnames, hfirst, ?_, ?_, ?_⟩
  · have hfst := congrArg (List.map Prod.fst) hhanded
    rw [List.map_map, List.map_map, hnames] at hfst
    exact hfst
  · rw [hnames, List.map_cons, List.map_cons, List.map_nil, hfirst, hsecond] at hcss
    exact hcss.trans (by decide)
  · refine (hnext ⟨"a-1", "left: 0;"⟩).2.2.2.trans (congrArg (s.warnings ++ ·) (if_pos ?_))
    exact ⟨"opacity: 0;", hfirst, by decide⟩

end Stage
end Stagecraft
