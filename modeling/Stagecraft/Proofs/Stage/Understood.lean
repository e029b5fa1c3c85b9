import Stagecraft.Proofs.Stage.Course
import Stagecraft.Proofs.State.Runnable
import Stagecraft.Proofs.Style.Compiled
/-!
# What descriptions say is understood

A text in the action of a reaction that is no effect is reported and passed over.  For a state that was declared by a
description this never happens: whatever the description is, the action of each of its reactions holds effects alone.
-/
namespace Stagecraft
namespace Stage

/-- Whether it has been reported that a text is no effect. -/
def Reports (s : Stage) (el : ElementId) (action : String) : Prop :=
  .notice (.effectUnknown el action) ∈ s.journal

section
variable {s : Stage} {el : ElementId} {action : String}

@[simp]
theorem reports_notify {n : Notice} :
    (s.notify n).Reports el action ↔ .effectUnknown el action = n ∨ s.Reports el action := by
  rw [Reports, notify, record, List.mem_cons, Entry.notice.injEq]
  rfl

@[simp]
theorem reports_record {e : Entry} :
    (s.record e).Reports el action ↔ .notice (.effectUnknown el action) = e ∨ s.Reports el action := List.mem_cons

@[simp]
theorem reports_notifyAll {ns : List Notice} :
    (s.notifyAll ns).Reports el action ↔ .effectUnknown el action ∈ ns ∨ s.Reports el action := by
  unfold notifyAll
  induction ns generalizing s with
  | nil => simp
  | cons n ns ih => rw [List.foldl_cons, ih, reports_notify, List.mem_cons, or_left_comm, or_assoc]

theorem reports_resolve {key body : String} (h : (s.resolve key body).Reports el action) : s.Reports el action := by
  rcases mem_journal_resolve h with h | ⟨rule, h⟩ | ⟨n, h, hn⟩
  · exact h
  · cases h
  · cases h
    revert hn
    cases s.styles.verdict (Stylesheet.classKey key) body <;> nofun

theorem reports_resolveAll {a : Animation} (h : (s.resolveAll a).Reports el action) : s.Reports el action := by
  unfold resolveAll at h
  generalize a.requests = rs at h
  induction rs generalizing s with
  | nil => exact h
  | cons r rs ih => exact reports_resolve (ih h)

/-- Making a plan reports nothing of that kind. -/
theorem reports_prepare {settings : Settings} {e : Effect} (h : (s.prepare settings e).Reports el action) :
    s.Reports el action := by
  unfold prepare at h
  split at h
  · split at h
    · exact h
    · simpa using h
  · simpa using reports_resolveAll h

theorem reports_declared {owner : ElementId} : ∀ {ds : List Declaration} {s : Stage},
    (ds.foldl (fun s d => s.notifyAll (d.notices owner)) s).Reports el action → s.Reports el action
  | [], _, h => h
  | d :: ds, s, h => by
    have hfirst : (s.notifyAll (d.notices owner)).Reports el action := reports_declared h
    rw [reports_notifyAll] at hfirst
    refine hfirst.resolve_left fun hmem => ?_
    cases d with
    | described name trigger src => simp [Declaration.notices] at hmem
    | attributed | ready => cases hmem

theorem reports_follow {c : Cue} (h : (s.follow c).1.Reports el action) : s.Reports el action := by
  cases c with
  | addClass | removeClass | flush => simpa [follow, reply, Reports, record, mapPage] using h
  | build name owner settings hooked declarations =>
    simp only [follow, build] at h
    split at h
    · exact @reports_declared el action owner declarations s h
    · exact h
  | resolve key body => exact reports_resolve h
  | effectJob queue effect owner settings finish =>
    simp only [follow, submitEffect] at h
    (repeat' split at h)
    · exact h
    · exact reports_prepare h
    · unfold submit at h
      split at h <;> exact reports_prepare h
    · exact h
  | start | transition | visibility | hasState | step | debug =>
    simp only [follow, direct, withMachine] at h
    (repeat' split at h) <;> exact h
  | enqueue =>
    simp only [follow, submit] at h
    (repeat' split at h) <;> exact h
  | drop | queueClone | queueDrop | complete | dropToken =>
    simp only [follow, nameQueue, withToken] at h
    (repeat' split at h) <;> exact h
  | _ => exact h

theorem reports_jobs {c : Machine} : ∀ {actions : List String} {s : Stage}, (s.jobs c actions).1.Reports el action →
    s.Reports el action ∨ c.element = el ∧ action ∈ actions ∧ Effect.parse? action = none
  | [], _, h => .inl h
  | text :: rest, s, h => by
    unfold jobs at h
    split at h
    · rename_i hnone
      rcases reports_jobs h with h | ⟨hel, hmem, hparse⟩
      · rw [reports_notify, Notice.effectUnknown.injEq] at h
        rcases h with ⟨rfl, rfl⟩ | h
        · exact .inr ⟨rfl, List.mem_cons_self, hnone⟩
        · exact .inl h
      · exact .inr ⟨hel, List.mem_cons_of_mem _ hmem, hparse⟩
    · rcases reports_jobs h with h | ⟨hel, hmem, hparse⟩
      · exact .inl (reports_prepare h)
      · exact .inr ⟨hel, List.mem_cons_of_mem _ hmem, hparse⟩

/-- A reaction that is about to run holds a text that is no effect. -/
def Misled (s : Stage) (el : ElementId) (action : String) (m : Nat) (slot : Slot) : Prop :=
  ∃ c r, s.machine? m = some c ∧ c.element = el ∧ c.reaction? slot = some r ∧ r.encoding = .several ∧
    action ∈ r.actions ∧ Effect.parse? action = none

theorem reports_act {m : Nat} {slot : Slot} (h : (s.act m slot).1.Reports el action) :
    s.Reports el action ∨ s.Misled el action m slot := by
  unfold act at h
  split at h
  · exact .inl h
  rename_i c hc
  split at h
  · exact .inl h
  rename_i r hr
  split at h
  · exact .inl h
  split at h
  · rename_i hseveral
    have hjobs : (s.jobs c r.actions).1.Reports el action := by
      unfold runAll at h
      split at h
      · rename_i heq
        rw [heq]
        simpa using h
      · rename_i heq
        rw [heq]
        exact h
    exact (reports_jobs hjobs).imp_right fun ⟨hel, hmem, hparse⟩ => ⟨c, r, hc, hel, hr, hseveral, hmem, hparse⟩
  · refine .inl ?_
    unfold runNext at h
    simp only at h
    (repeat' split at h)
    · simpa using h
    · exact reports_prepare h
    · exact reports_prepare h

/-- **Only a reaction that holds such a text has it reported.** -/
theorem reports_carryOut {t : Task} {rest : List Task} (h : (t.carryOut s rest).1.Reports el action) :
    s.Reports el action ∨ ∃ m slot anew, t = .act m slot anew ∧ s.Misled el action m slot := by
  cases t with
  | act m slot anew => exact (reports_act h).imp_right fun hmisled => ⟨m, slot, anew, rfl, hmisled⟩
  | cue c => exact .inl (reports_follow h)
  | script cues => cases cues <;> exact .inl h
  | deliver once ls ran =>
    simp only [Task.carryOut] at h
    unfold deliver at h
    (repeat' split at h) <;> exact .inl h
  | callListener c | callFrame c | callOnce c =>
    simp only [Task.carryOut, callListener, callFrame, callOnce, onMachine] at h
    (repeat' split at h) <;> exact .inl (by simpa using h)
  | perform op =>
    simp only [Task.carryOut, perform] at h
    (repeat' split at h) <;> exact .inl (by simpa [Reports, record, mapPage] using h)
  | report word => exact .inl (by simpa [Task.carryOut] using h)
  | frame calls => cases calls <;> exact .inl h
  | frameOver | untilIdle | enqueue | pump | run | settle | complete | lose =>
    simp only [Task.carryOut, frameOver, untilIdle, enqueue, pump, run, settle, complete, lose] at h
    (repeat' split at h) <;> exact .inl (by simpa [Reports, reply, mapQueue, notify, record] using h)
  | finish q f => cases f <;> exact .inl (by simpa [Task.carryOut, finish] using h)
  | transition | arrive | bind | fire | hook | conclude | stepOver | jump | start | install | appear | enterDefault
  | visibility | closed =>
    simp only [Task.carryOut, transition, arrive, bind, fire, hook, conclude, stepOver, jump, start, install, appear,
      enterDefault, visibility, closed] at h
    (repeat' split at h) <;> exact .inl (by simpa [Reports, mapMachine, notify, record, schedule, attach, mapPage] using h)
  | release hold =>
    simp only [Task.carryOut] at h
    unfold release at h
    (repeat' split at h) <;> exact .inl (by simpa [Reports, mapMachine, mapQueue] using h)
  | _ => exact .inl h

/-- No text in a reaction that was read from a description is reported. -/
theorem not_misled {m : Nat} {slot : Slot} {c : Machine} (hc : s.machine? m = some c) {name src : String}
    {trigger : Option String} (hd : c.state? slot.state = some (.parse name trigger src)) :
    ¬ s.Misled el action m slot := by
  rintro ⟨c', r, hc', -, hr, -, hmem, hparse⟩
  obtain rfl := Option.some.inj (hc.symm.trans hc')
  rw [Machine.reaction?, hd, Option.bind_some] at hr
  have hrunnable := Description.runnable_of_mem_read src (List.mem_of_getElem? hr)
  obtain ⟨kind, -, hsome⟩ := hrunnable.understood action hmem
  rw [hparse] at hsome
  cases hsome

end
end Stage

open Stage Description

/-- What has been reported was in a reaction that began to run. -/
theorem Course.exists_misled {manners : Manners} {c : Config} {past : List Config} (h : Course manners (c :: past))
    {el : ElementId} {action : String} (hreports : c.stage.Reports el action) :
    ∃ b ∈ past, ∃ m slot anew rest, b.agenda = .act m slot anew :: rest ∧ b.stage.Misled el action m slot := by
  by_contra hnone
  refine Course.invariant (I := fun c => ¬ c.stage.Reports el action)
    (P := fun b => ¬ ∃ m slot anew rest, b.agenda = .act m slot anew :: rest ∧ b.stage.Misled el action m slot)
    nofun (fun s _ => nofun) (fun s cue hs => hs) ?_ h (fun b hb hbefore => hnone ⟨b, hb, hbefore⟩) hreports
  intro s t rest past _ hP hs hafter
  rcases reports_carryOut hafter with hbefore | ⟨m, slot, anew, rfl, hmisled⟩
  · exact hs hbefore
  · exact hP ⟨m, slot, anew, rest, rfl, hmisled⟩

/-- **Whatever a description says, what comes out of it can be run.**  The effects of each reaction are those of its own
part of the description, and all of them together are pieces of it, one behind another; each is understood as it is
written.  So whenever it is reported that a text is no effect, the text was in a reaction of a state that comes from no
description. -/
theorem descriptions_can_be_run :
    (∀ src : String, (∀ r ∈ (read src).reactions, r.Runnable) ∧
      (read src).reactions.map Reaction.actions = (parts src).map (fun e => effects e.2) ∧
      (read src).reactions.flatMap Reaction.actions = effects (clausesOf src) ∧
      PiecesOf (effects (clausesOf src)) src.toList) ∧
    ∀ {manners : Manners} {c : Config} {past : List Config}, Course manners (c :: past) →
      ∀ el action, .notice (.effectUnknown el action) ∈ c.stage.journal →
        ∃ b ∈ past, ∃ m slot anew rest machine d, b.agenda = .act m slot anew :: rest ∧
          b.stage.machine? m = some machine ∧ machine.element = el ∧ machine.state? slot.state = some d ∧
          (∃ r ∈ d.reactions, action ∈ r.actions) ∧ ∀ name trigger src, d ≠ .parse name trigger src := by
  refine ⟨fun src => ⟨fun r => runnable_of_mem_read src, actions_read src, flatMap_actions_read src,
    pieces_effects src⟩, ?_⟩
  intro manners c past h el action hreports
  obtain ⟨b, hb, m, slot, anew, rest, hagenda, hmisled⟩ := h.exists_misled hreports
  obtain ⟨machine, r, hm, hel, hr, -, hmem, -⟩ := id hmisled
  obtain ⟨d, hd, hr⟩ := Option.bind_eq_some_iff.1 hr
  refine ⟨b, hb, m, slot, anew, rest, machine, d, hagenda, hm, hel, hd, ⟨r, List.mem_of_getElem? hr, hmem⟩, ?_⟩
  rintro name trigger src rfl
  exact not_misled hm hd hmisled

/-- One state is ready, and what its reaction holds is no effect. -/
def misprint : Cue :=
  .build "m" ⟨1⟩ {} false [.ready ⟨"a", [{ on := .entry, action := some "blink" }], none⟩]

def misprinted : List Config := [misprint, .transition "m" "a", .tick].foldl (Course.play 40) [⟨.opened {}, []⟩]

theorem descriptions_can_be_run_misprinted :
    (read "fade click :animate pulse :on click :enter left  8px :go open").reactions.map Reaction.actions =
      [["animate pulse"], ["enter left  8px"]] ∧
    ∃ c past, misprinted = c :: past ∧ ∃ b ∈ past, ∃ (m : Nat) (slot : Slot) (machine : Machine) (d : StateDecl),
      b.stage.machine? m = some machine ∧ machine.state? slot.state = some d ∧
        ∀ name trigger src, d ≠ StateDecl.parse name trigger src := by
  refine ⟨(descriptions_can_be_run.1 _).2.1.trans (by decide), ?_⟩
  obtain ⟨c, past, heq, hreports⟩ : ∃ c past, misprinted = c :: past ∧
      .notice (.effectUnknown ⟨1⟩ "blink") ∈ c.stage.journal := ⟨_, _, rfl, .tail _ (.tail _ (.head _))⟩
  have hcourse : Course {} (c :: past) := heq ▸ Course.plays {} 40 _ .opened
  obtain ⟨b, hb, m, slot, anew, rest, machine, d, -, hm, -, hd, -, hnone⟩ :=
    descriptions_can_be_run.2 hcourse ⟨1⟩ "blink" hreports
  exact ⟨c, past, heq, b, hb, m, slot, machine, d, hm, hd, hnone⟩

end Stagecraft
