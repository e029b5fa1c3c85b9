import Stagecraft.Stage.Run
/-!
# The course of events

Everything that can happen on a stage is a course: a list of configurations, the latest first, in which each comes from
the one behind it by doing one task, or by a cue from outside when nothing is left to do.  Scripts that are left on a
stage run inside a course too, so a statement about all courses covers calls nested to any depth.
-/
namespace Stagecraft

/-- The configuration after the first task of an agenda has been done. -/
def Config.after (s : Stage) (t : Task) (rest : List Task) : Config :=
  ⟨(t.carryOut s rest).1, (t.carryOut s rest).2 ++ rest⟩

theorem Config.step?_cons (s : Stage) (t : Task) (rest : List Task) :
    (Config.mk s (t :: rest)).step? = some (.after s t rest) := rfl

inductive Course (manners : Manners) : List Config → Prop
  | opened : Course manners [⟨.opened manners, []⟩]
  /-- The journal has been read, and is begun anew. -/
  | cleared {s : Stage} {past : List Config} :
      Course manners (⟨s, []⟩ :: past) → Course manners (⟨s.cleared, []⟩ :: ⟨s, []⟩ :: past)
  | called {s : Stage} {past : List Config} (c : Cue) :
      Course manners (⟨s, []⟩ :: past) → Course manners (⟨s, [.cue c]⟩ :: ⟨s, []⟩ :: past)
  | stepped {c c' : Config} {past : List Config} :
      Course manners (c :: past) → c.step? = some c' → Course manners (c' :: c :: past)

namespace Course

variable {manners : Manners}

theorem tail {c c' : Config} {past : List Config} (h : Course manners (c :: c' :: past)) :
    Course manners (c' :: past) := by
  cases h with
  | cleared h => exact h
  | called _ h => exact h
  | stepped h _ => exact h

/-- What was the case earlier in a course was the case in a course. -/
theorem drop {c : Config} {past : List Config} : ∀ (later : List Config), Course manners (later ++ c :: past) →
    Course manners (c :: past)
  | [], h => h
  | [_], h => h.tail
  | _ :: b :: later, h => drop (b :: later) h.tail

/-- **What holds at the beginning and survives every task, cue and reading holds always.**  Whatever is known of the
configuration before a task, from the course that led there or from `P`, may be used. -/
theorem invariant {I P : Config → Prop} (hopened : I ⟨.opened manners, []⟩)
    (hcleared : ∀ s, I ⟨s, []⟩ → I ⟨s.cleared, []⟩) (hcalled : ∀ s c, I ⟨s, []⟩ → I ⟨s, [.cue c]⟩)
    (hstep : ∀ s t rest past, Course manners (⟨s, t :: rest⟩ :: past) → P ⟨s, t :: rest⟩ → I ⟨s, t :: rest⟩ →
      I (.after s t rest)) :
    ∀ {c : Config} {past : List Config}, Course manners (c :: past) → (∀ b ∈ past, P b) → I c := by
  intro c past h hP
  generalize hcs : c :: past = cs at h
  induction h generalizing c past with
  | opened =>
    cases hcs
    exact hopened
  | cleared h ih =>
    cases hcs
    exact hcleared _ (ih (fun b hb => hP b (List.mem_cons_of_mem _ hb)) rfl)
  | called cue h ih =>
    cases hcs
    exact hcalled _ cue (ih (fun b hb => hP b (List.mem_cons_of_mem _ hb)) rfl)
  | @stepped b _ past h hstep' ih =>
    cases hcs
    obtain ⟨s, agenda⟩ := b
    cases agenda with
    | nil => cases hstep'
    | cons t rest =>
      rw [Config.step?_cons, Option.some.injEq] at hstep'
      rw [← hstep']
      exact hstep s t rest past h (hP _ List.mem_cons_self)
        (ih (fun b hb => hP b (List.mem_cons_of_mem _ hb)) rfl)

/-- The configurations that a run of at most `fuel` tasks passes through after `c`, the latest first. -/
def passed : Nat → Config → List Config
  | 0, _ => []
  | fuel + 1, c =>
    match c.step? with
    | none => []
    | some c' => passed fuel c' ++ [c']

/-- A run goes on with a course. -/
theorem run : ∀ (fuel : Nat) {c : Config} {past : List Config}, Course manners (c :: past) →
    Course manners (passed fuel c ++ c :: past)
  | 0, _, _, h => h
  | fuel + 1, c, past, h => by
    unfold passed
    cases hc : c.step? with
    | none => exact h
    | some c' =>
      rw [List.append_assoc]
      exact run fuel (.stepped h hc)

/-- A course goes on with a cue and at most `fuel` tasks, if nothing is left to do. -/
def play (fuel : Nat) (cs : List Config) (c : Cue) : List Config :=
  match cs with
  | ⟨s, []⟩ :: past => passed fuel ⟨s, [.cue c]⟩ ++ ⟨s, [.cue c]⟩ :: ⟨s, []⟩ :: past
  | cs => cs

theorem play_course (fuel : Nat) {cs : List Config} (h : Course manners cs) (c : Cue) :
    Course manners (play fuel cs c) := by
  unfold play
  split
  · exact run fuel (.called c h)
  · exact h

/-- Cues given one after another make a course. -/
theorem plays (manners : Manners) (fuel : Nat) : ∀ (cues : List Cue) {cs : List Config}, Course manners cs →
    Course manners (cues.foldl (play fuel) cs)
  | [], _, h => h
  | c :: cues, _, h => plays manners fuel cues (play_course fuel h c)

end Course
end Stagecraft
