import Stagecraft.Proofs.Machine.Hearing
import Stagecraft.Proofs.Stage.Frame
/-!
# Wiring

The wiring of a stage is what decides which listener calls which machine: the listeners of the page, and of each machine
its element, its states, where it is and what it has noted.  Only few tasks touch it.
-/
namespace Stagecraft

/-- The tasks by which listeners come and go.  They follow on each other with nothing between them. -/
def Kind.isInner : Kind → Bool
  | .detach | .arrive | .bind | .bound | .watched => true
  | _ => false

def Task.isInner (t : Task) : Bool := t.kind.isInner

/-- Whether a task leaves the wiring as it is. -/
def Task.isPlain (t : Task) : Bool := !t.touches.contains .listeners && !t.touches.contains .wiring

namespace Stage

structure SameWiring (s s' : Stage) : Prop where
  listeners : s'.page.listeners = s.page.listeners
  lastId : s'.page.lastId = s.page.lastId
  machines : s'.machines.map Machine.wiring = s.machines.map Machine.wiring

theorem Touched.sameWiring {parts : List Part} {s s' : Stage} (h : Touched parts s s') (hl : .listeners ∉ parts)
    (hw : .wiring ∉ parts) : SameWiring s s' :=
  ⟨(h.agree .listeners hl).1, (h.agree .listeners hl).2, h.agree .wiring hw⟩

theorem Undisturbed.sameWiring {s s' : Stage} (h : Undisturbed s s') : SameWiring s s' :=
  (h.touched []).sameWiring List.not_mem_nil List.not_mem_nil

theorem SameWiring.length {s s' : Stage} (h : SameWiring s s') : s'.machines.length = s.machines.length := by
  have := congrArg List.length h.machines
  rwa [List.length_map, List.length_map] at this

theorem exists_machine?_of_wiring {s s' : Stage}
    (h : s'.machines.map Machine.wiring = s.machines.map Machine.wiring) {m : Nat} {c : Machine}
    (hc : s.machine? m = some c) : ∃ c', s'.machine? m = some c' ∧ c'.wiring = c.wiring := by
  have hm := congrArg (·[m]?) h
  simp only [List.getElem?_map] at hm
  rw [machine?] at hc
  rwa [hc, Option.map_some, Option.map_eq_some_iff] at hm

/-- A machine after is a machine from before, wired alike. -/
theorem SameWiring.machine {s s' : Stage} (h : SameWiring s s') {m : Nat} {c' : Machine}
    (hc : s'.machine? m = some c') : ∃ c, s.machine? m = some c ∧ c'.wiring = c.wiring := by
  obtain ⟨c, hc, hw⟩ := exists_machine?_of_wiring h.machines.symm hc
  exact ⟨c, hc, hw.symm⟩

theorem isInner_of_mem_leaves {t : Task} (h : t.isPlain = true) : ∀ kind ∈ t.leaves, kind.isInner = false := by
  cases t with
  | cue c => cases c <;> simp [Task.leaves, Cue.leaves, Kind.isInner]
  | release hold =>
    cases hold with
    | machine m => cases h
    | queue q => simp [Task.leaves]
    | host => simp [Task.leaves]
  | transition | arrive | bind | bound | jump | watch | watched | closed | detach => cases h
  | _ => simp [Task.leaves, Kind.isInner]

/-- **A plain task leaves the wiring as it is**, and what it leaves to be done at once touches it only through a task
that is not inner. -/
theorem plain_carryOut (s : Stage) (agenda : List Task) {t : Task} (h : t.isPlain = true) :
    SameWiring s (t.carryOut s agenda).1 ∧ ∀ t' ∈ (t.carryOut s agenda).2, t'.isInner = false := by
  have hw := within_carryOut s agenda t
  refine ⟨hw.touched.sameWiring ?_ ?_, fun t' ht => isInner_of_mem_leaves h _ (hw.kinds t' ht)⟩
  · intro hmem
    simp [Task.isPlain, hmem] at h
  · intro hmem
    simp [Task.isPlain, hmem] at h

end Stage
end Stagecraft
