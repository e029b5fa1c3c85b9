import Stagecraft.Proofs.Stage.Conclusion
/-!
# Who put a class on an element

A class is on an element because something put it there, and nothing has taken it off since.  What put it there is a
cue from outside or an effect.  An effect takes its temporary classes off again at its end; but the wait for the end is
set up before the classes are put on, so if the host answers too soon the end comes first.
-/
namespace Stagecraft

namespace PageOp

/-- Whether a change of the page puts a class on an element. -/
def puts (el : ElementId) (w : String) : PageOp → Bool
  | .addClass e names => e = el && (Text.wordsOf names).contains w
  | _ => false

/-- Whether a change of the page takes a class off an element. -/
def takes (el : ElementId) (w : String) : PageOp → Bool
  | .removeClass e names => e = el && (Text.wordsOf names).contains w
  | _ => false

end PageOp

namespace Page

variable {α β : Type} {el : ElementId} {w : String}

theorem mem_insertClass (name : String) : ∀ cs : List String, w ∈ insertClass name cs ↔ w = name ∨ w ∈ cs
  | [] => by simp [insertClass]
  | c :: cs => by
    rw [insertClass]
    split
    · rename_i heq
      rw [heq, List.mem_cons]
      exact ⟨.inr, fun h => h.elim .inl id⟩
    · split
      · exact List.mem_cons
      · rw [List.mem_cons, mem_insertClass name cs, List.mem_cons]
        exact or_left_comm

theorem mem_insertClasses : ∀ names cs : List String,
    w ∈ names.foldl (fun cs n => insertClass n cs) cs ↔ w ∈ names ∨ w ∈ cs
  | [], cs => by simp
  | name :: names, cs => by
    rw [List.foldl_cons, mem_insertClasses names, mem_insertClass, List.mem_cons, or_left_comm, or_assoc]

theorem hasClass_iff {p : Page α β} : p.hasClass el w = true ↔ w ∈ p.classesOf el := List.contains_iff_mem

/-- What a change of the page does to a class of an element. -/
theorem hasClass_perform (p : Page α β) (op : PageOp) (el : ElementId) (w : String) :
    (p.perform op).hasClass el w = (op.puts el w || (p.hasClass el w && !op.takes el w)) := by
  rw [Bool.eq_iff_iff, Bool.or_eq_true, Bool.and_eq_true, hasClass_iff, hasClass_iff]
  cases op with
  | addClass e names =>
    by_cases heq : e = el
    · subst heq
      simp [perform, addClass, classesOf_setClasses_self, mem_insertClasses, PageOp.puts, PageOp.takes]
    · rw [perform, addClass, classesOf_setClasses_ne p (Ne.symm heq)]
      simp [PageOp.puts, PageOp.takes, heq]
  | removeClass e names =>
    by_cases heq : e = el
    · subst heq
      simp [perform, removeClass, classesOf_setClasses_self, PageOp.puts, PageOp.takes]
    · rw [perform, removeClass, classesOf_setClasses_ne p (Ne.symm heq)]
      simp [PageOp.puts, PageOp.takes, heq]
  | flush e => simp [perform, PageOp.puts, PageOp.takes]

end Page

/-- The change of the page that a task makes. -/
def Task.op? : Task → Option PageOp
  | .perform op => some op
  | .cue (.addClass el names) => some (.addClass el names)
  | .cue (.removeClass el names) => some (.removeClass el names)
  | _ => none

/-- Whether the next task puts a class on an element, or takes it off. -/
def Config.puts (el : ElementId) (w : String) (c : Config) : Bool :=
  ((c.agenda.head?.bind Task.op?).map (PageOp.puts el w)).getD false

def Config.takes (el : ElementId) (w : String) (c : Config) : Bool :=
  ((c.agenda.head?.bind Task.op?).map (PageOp.takes el w)).getD false

namespace Stage

variable {s : Stage} {t : Task} {rest : List Task} {el : ElementId} {w : String}

theorem hasClass_of_classes {s' : Stage} (h : s'.page.classes = s.page.classes) :
    s'.page.hasClass el w = s.page.hasClass el w := by
  rw [Page.hasClass, Page.hasClass, Page.classesOf, Page.classesOf, h]

theorem op?_eq_none (h : .classes ∉ t.touches) : t.op? = none := by
  cases t with
  | cue cue => cases cue <;> simp [Task.touches, Cue.touches, Task.op?] at h ⊢
  | perform op => simp [Task.touches] at h
  | _ => rfl

/-- **Nothing but a change of its classes changes the classes of an element.** -/
theorem hasClass_after (s : Stage) (t : Task) (rest : List Task) (el : ElementId) (w : String) :
    (Config.after s t rest).stage.page.hasClass el w =
      (Config.puts el w ⟨s, t :: rest⟩ || (s.page.hasClass el w && !Config.takes el w ⟨s, t :: rest⟩)) := by
  by_cases ht : .classes ∈ t.touches
  · cases t with
    | cue cue =>
      cases cue with
      | addClass e names => exact Page.hasClass_perform s.page (.addClass e names) el w
      | removeClass e names => exact Page.hasClass_perform s.page (.removeClass e names) el w
      | _ => simp [Task.touches, Cue.touches] at ht
    | perform op =>
      refine Eq.trans ?_ (Page.hasClass_perform s.page op el w)
      cases op with
      | flush e =>
        simp only [Config.after, Task.carryOut, perform]
        split <;> rfl
      | _ => rfl
    | release hold => cases hold <;> simp [Task.touches] at ht
    | _ => simp [Task.touches] at ht
  · rw [Config.puts, Config.takes, List.head?_cons, Option.bind_some, op?_eq_none ht]
    have hclasses := (within_carryOut s rest t).touched.agree .classes ht
    rw [Config.after, hasClass_of_classes hclasses]
    simp

end Stage
open Stage

section
variable {manners : Manners} {c d : Config} {past : List Config} {el : ElementId} {w : String}

/-- Between two tasks nothing happens on a stage. -/
theorem Course.undisturbed_or_after (h : Course manners (c :: d :: past)) :
    (d.agenda = [] ∧ Undisturbed d.stage c.stage) ∨ ∃ t rest, d.agenda = t :: rest ∧ c = .after d.stage t rest := by
  obtain ⟨s, agenda⟩ := d
  cases agenda with
  | cons t rest => exact .inr ⟨t, rest, rfl, h.eq_after rfl⟩
  | nil =>
    refine .inl ⟨rfl, ?_⟩
    cases h with
    | cleared => exact ⟨rfl, rfl, rfl, rfl, rfl, rfl, rfl, rfl, rfl, rfl⟩
    | called => exact .refl s
    | stepped _ hstep => cases hstep

theorem Course.hasClass_next (h : Course manners (c :: d :: past)) : c.stage.page.hasClass el w =
    (d.puts el w || (d.stage.page.hasClass el w && !d.takes el w)) := by
  obtain ⟨s, agenda⟩ := d
  rcases h.undisturbed_or_after with ⟨rfl, hsame⟩ | ⟨t, rest, rfl, rfl⟩
  · simp [Config.puts, Config.takes, hsame.page]
  · exact hasClass_after s t rest el w

/-- **A class is on an element exactly if something put it there and nothing has taken it off since.** -/
theorem Course.hasClass_iff : ∀ {past : List Config} {c : Config}, Course manners (c :: past) →
    (c.stage.page.hasClass el w = true ↔ ∃ (later : List Config) (b : Config) (earlier : List Config),
      past = later ++ b :: earlier ∧ b.puts el w = true ∧ ∀ d ∈ later, d.takes el w = false)
  | [], c, h => by
    cases h
    simp [Stage.opened, Page.hasClass, Page.classesOf, Registry.get?]
  | d :: past, c, h => by
    rw [h.hasClass_next, Bool.or_eq_true, Bool.and_eq_true, hasClass_iff h.tail, Bool.not_eq_true']
    constructor
    · rintro (hputs | ⟨⟨later, b, earlier, rfl, hputs, hkept⟩, htakes⟩)
      · exact ⟨[], d, past, rfl, hputs, List.forall_mem_nil _⟩
      · exact ⟨d :: later, b, earlier, rfl, hputs, List.forall_mem_cons.2 ⟨htakes, hkept⟩⟩
    · rintro ⟨later, b, earlier, heq, hputs, hkept⟩
      cases later with
      | nil =>
        obtain ⟨rfl, rfl⟩ := List.cons.inj heq
        exact .inl hputs
      | cons d' later =>
        obtain ⟨rfl, rfl⟩ := List.cons.inj heq
        rw [List.forall_mem_cons] at hkept
        exact .inr ⟨⟨later, b, earlier, rfl, hputs, hkept.2⟩, hkept.1⟩

end

end Stagecraft
