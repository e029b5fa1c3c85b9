import Mathlib.Data.List.Pairwise
import Stagecraft.Proofs.Stage.Firing
import Stagecraft.Proofs.Stage.Played
/-!
# What frames alone lead to

A machine is started, and from then on only frames pass.  Each frame makes the calls that wait for it, and a reaction that
jumps at once enters a state whose reactions to the entry wait for the next frame.  So the calls that wait after a frame
are known from the declarations: they are the reactions to the entry of the states that the frame has entered, each as
often as it has.
-/
namespace Stagecraft

/-- Whether a reaction is run on entry. -/
def Reaction.isEntry (r : Reaction) : Bool := r.on.isEntry

namespace Machine

/-- The reactions to the entry of a state. -/
def entries (c : Machine) (state : String) : List Slot :=
  ((List.range ((c.state? state).elim 0 fun d => d.reactions.length)).map (Slot.mk state)).filter fun slot =>
    (c.reaction? slot).any Reaction.isEntry

/-- The state that a reaction jumps to at once: if it has no action, or none of its effects can be played. -/
def next? (c : Machine) (slot : Slot) : Option String :=
  (c.reaction? slot).bind fun r =>
    if !r.hasAction || (r.encoding = .several && (c.playable r).isEmpty) then r.goto else none

/-- The states that the reactions to the entry of a state jump to at once. -/
def nexts (c : Machine) (state : String) : List String := (c.entries state).filterMap c.next?

/-- The state that a machine is started in. -/
def opening (c : Machine) (visible : Bool) : List String :=
  if c.hasState "default" then ["default"] else if visible && c.tracksVisibility then ["enter"] else []

/-- The states that the start enters, and those that each frame after it does. -/
def entered (c : Machine) (visible : Bool) : Nat → List String
  | 0 => c.opening visible
  | k + 1 => (c.entered visible k).flatMap c.nexts

/-- The number of reactions to the entry of any state. -/
def autostarts (c : Machine) : Nat := (c.states.flatMap StateDecl.reactions).countP Reaction.isEntry

/-- What a jump leads to. -/
def follows (c : Machine) (slot : Slot) : List Slot :=
  ((c.reaction? slot).bind Reaction.goto).toList.flatMap c.entries

/-- What a reaction leads to that jumps at once. -/
def passes (c : Machine) (slot : Slot) : List Slot := (c.next? slot).toList.flatMap c.entries

end Machine

/-- The calls that a task leads to in the next frame, as reactions of the machine. -/
def Task.yield (c : Machine) : Task → List Slot
  | .frame calls => calls.flatMap fun
    | .react _ slot => c.passes slot
    | _ => []
  | .callFrame (.react _ slot) | .fire _ slot _ | .act _ slot _ => c.passes slot
  | .conclude _ slot | .jump _ slot => c.follows slot
  | .transition _ state | .arrive _ state _ => c.entries state
  | .bind _ slot _ => if (c.reaction? slot).any Reaction.isEntry then [slot] else []
  | .enterDefault _ => if c.hasState "default" then c.entries "default" else []
  | .appear _ visible | .start _ visible => (c.opening visible).flatMap c.entries
  | _ => []

/-- The tasks that a start or a frame leads to when nothing is dispatched, all of one machine. -/
def Task.isForward (m : Nat) : Task → Bool
  | .reply _ | .perform _ | .await .. | .detach .. | .frameOver .. | .enqueue .. | .pump _ | .run .. => true
  | .bound .. | .hook .. | .install .. | .watch .. | .watched .. | .release .host => true
  | .frame calls => calls.all fun
    | .react n _ => n = m
    | _ => false
  | .callFrame (.react n _) | .fire n _ _ | .act n _ _ | .conclude n _ | .jump n _ => n = m
  | .transition n _ | .arrive n _ _ | .bind n _ _ | .enterDefault n | .appear n _ | .start n _ => n = m
  | .release (.machine n) => n = m
  | _ => false

namespace Stage

variable {c c' : Machine} {m : Nat} {s : Stage}

theorem yield_transition {state : String} (hm : s.machine? m = some c') :
    (s.transition m state).2.flatMap (Task.yield c) = c.entries state := by
  simp only [transition, hm]
  split
  · exact List.append_nil _
  · rw [List.flatMap_append, List.flatMap_map]
    simp [Task.yield]

theorem isForward_act {slot : Slot} : ∀ t' ∈ (s.act m slot).2, t'.isForward m = true := by
  unfold act
  split
  · exact fun _ ht' => by cases ht'
  · split
    · exact fun _ ht' => by cases ht'
    · split
      · simp [Task.isForward]
      · split
        · unfold runAll
          split <;> simp [Task.isForward]
        · unfold runNext
          simp only
          split
          · exact fun _ ht' => by cases ht'
          · split <;> simp [Task.isForward]

end Stage

/-- The kinds of task that lead to nothing in the next frame. -/
def Kind.isBarren : Kind → Bool
  | .frame | .callFrame | .fire | .act | .conclude | .jump | .transition | .arrive | .bind => false
  | .enterDefault | .appear | .start => false
  | _ => true

/-- A machine with a name is at work, with all that it leads to in the next frame. -/
structure Forward (c : Machine) (m : Nat) (total : List Slot) (b : Config) : Prop where
  scriptless : Scriptless b
  machine : ∃ c', b.stage.machine? m = some c' ∧ c'.made = c.made ∧ c'.life = .live
  named : m ∈ b.stage.cast.values
  tasks : ∀ t ∈ b.agenda, t.isForward m = true
  total : b.stage.frames.waiting ++ (b.agenda.flatMap (Task.yield c)).map (.react m) = total.map (.react m)

namespace Stage

section
variable {c c' : Machine} {m : Nat} {s : Stage} {t : Task} {rest : List Task}

theorem reaction?_of_made (h : c'.made = c.made) (slot : Slot) : c'.reaction? slot = c.reaction? slot := by
  have hstates : c'.states = c.states := (congrArg Machine.states h :)
  rw [Machine.reaction?, Machine.reaction?, Machine.state?, Machine.state?, hstates]

theorem hasState_of_made (h : c'.made = c.made) (state : String) : c'.hasState state = c.hasState state := by
  have hstates : c'.states = c.states := (congrArg Machine.states h :)
  rw [Machine.hasState, Machine.hasState, Machine.state?, Machine.state?, hstates]

theorem next?_of_made (h : c'.made = c.made) (slot : Slot) : c'.next? slot = c.next? slot := by
  simp only [Machine.next?, reaction?_of_made h, playable_of_made h]

/-! ## What a task leads to -/

theorem flatMap_yield_of_kinds {ts : List Task} {kinds : List Kind} (hkinds : ∀ t ∈ ts, t.kind ∈ kinds)
    (hbarren : ∀ kind ∈ kinds, kind.isBarren = true) : ts.flatMap (Task.yield c) = [] := by
  rw [List.flatMap_eq_nil_iff]
  intro t ht
  have hkind := hbarren _ (hkinds t ht)
  cases t with
  | frame | callFrame | fire | act | conclude | jump | transition | arrive | bind => cases hkind
  | enterDefault | appear | start => cases hkind
  | _ => rfl

theorem yield_binds (slots : List Slot) (again : Bool) : (slots.map fun slot => Task.bind m slot again).flatMap (Task.yield c) =
    slots.filter fun slot => (c.reaction? slot).any Reaction.isEntry := by
  induction slots with
  | nil => rfl
  | cons slot slots ih =>
    rw [List.map_cons, List.flatMap_cons, ih, Task.yield, List.filter_cons]
    split <;> rfl

theorem yield_arrive {state : String} {again : Bool} (hm : s.machine? m = some c') (hmade : c'.made = c.made) :
    (s.arrive m state again).2.flatMap (Task.yield c) = c.entries state := by
  have hstates : c'.states = c.states := (congrArg Machine.states hmade :)
  simp only [arrive, machine?_mapMachine_self, hm, Option.map_some, Machine.state?, hstates]
  rw [Machine.entries, Machine.state?]
  cases c.states.find? fun d => d.name = state with
  | none => rfl
  | some d =>
    rw [← yield_binds (m := m) _ again, List.map_map]
    rfl

theorem yield_act {slot : Slot} (hm : s.machine? m = some c') (hmade : c'.made = c.made) :
    (s.act m slot).2.flatMap (Task.yield c) = c.passes slot := by
  rw [Machine.passes, ← next?_of_made hmade, Machine.next?]
  cases hr : c'.reaction? slot with
  | none => simp [act, hm, hr]
  | some r =>
    have hfollows : c.follows slot = r.goto.toList.flatMap c.entries := by
      rw [Machine.follows, ← reaction?_of_made hmade, hr, Option.bind_some]
    rw [Option.bind_some]
    by_cases hact : r.hasAction = true
    · by_cases hsev : r.encoding = .several
      · rw [act_several hm hr hsev hact]
        by_cases hnone : c'.playable r = []
        · simp [hnone, hsev, Task.yield, hfollows]
        · rw [if_neg hnone, Machine.sending, List.flatMap_map]
          simp [hact, hnone, Task.yield]
      · -- a sequence sends a job, or nothing
        have hbarren : (s.act m slot).2.flatMap (Task.yield c) = [] := by
          simp only [act, hm, hr, hact, Bool.not_true, Bool.false_eq_true, if_false]
          split
          · exact absurd ‹_› hsev
          · unfold runNext
            simp only
            split
            · rfl
            · split <;> rfl
        rw [hbarren]
        simp [hact, hsev]
    · simp [act, hm, hr, hact, Task.yield, hfollows]

theorem yield_jump {slot : Slot} (hm : s.machine? m = some c') (hmade : c'.made = c.made) :
    (s.jump m slot).2.flatMap (Task.yield c) = c.follows slot := by
  rw [Machine.follows, ← reaction?_of_made hmade]
  simp only [jump, hm]
  cases c'.reaction? slot with
  | none => rfl
  | some r =>
    simp only [Option.bind_some]
    cases r.goto with
    | none => rfl
    | some target =>
      simp only
      split <;> simp [Task.yield]

theorem yield_appear {visible : Bool} (hm : s.machine? m = some c') (hmade : c'.made = c.made) :
    (s.appear m visible).2.flatMap (Task.yield c) = (c.opening visible).flatMap c.entries := by
  have htracks : c'.tracksVisibility = c.tracksVisibility := by
    rw [Machine.tracksVisibility, Machine.tracksVisibility, hasState_of_made hmade, hasState_of_made hmade]
  simp only [appear, hm, hasState_of_made hmade, htracks, Machine.opening]
  cases hdefault : c.hasState "default" <;> cases c.tracksVisibility <;> cases visible <;> simp [Task.yield, hdefault]

/-- **Every task hands on what it leads to**, but for the reactions that it has put off to the next frame. -/
theorem yield_carryOut (hforward : t.isForward m = true) (hm : s.machine? m = some c') (hmade : c'.made = c.made)
    (hlive : c'.life = .live) (hnamed : m ∈ s.cast.values) (ht : .frames ∉ t.touches) :
    (t.carryOut s rest).2.flatMap (Task.yield c) = t.yield c := by
  have hbarren : (∀ kind ∈ t.leaves, kind.isBarren = true) → (t.carryOut s rest).2.flatMap (Task.yield c) = [] :=
    flatMap_yield_of_kinds (within_carryOut s rest t).kinds
  cases t with
  | frame calls =>
    cases calls with
    | nil => rfl
    | cons call calls =>
      simp only [Task.carryOut, frame, List.flatMap_cons, List.flatMap_nil, List.append_nil]
      cases call with
      | react n slot => rfl
      | _ => simp [Task.isForward] at hforward
  | callFrame call =>
    cases call with
    | react n slot =>
      obtain rfl : n = m := by simpa [Task.isForward] using hforward
      have hisLive : s.isLive n = true := by simp [isLive, hm, hlive]
      simp [Task.carryOut, callFrame, onMachine, hisLive, Task.yield]
    | _ => cases hforward
  | fire n slot anew =>
    obtain rfl : n = m := by simpa [Task.isForward] using hforward
    simp only [Task.carryOut, fire, hm]
    cases hr : c'.reaction? slot with
    | none =>
      have hnone : c.passes slot = [] := by
        rw [Machine.passes, ← next?_of_made hmade, Machine.next?, hr]
        rfl
      exact hnone.symm
    | some r => simp [Task.yield]
  | act n slot anew =>
    obtain rfl : n = m := by simpa [Task.isForward] using hforward
    exact yield_act hm hmade
  | conclude n slot =>
    simp only [Task.carryOut, conclude, List.flatMap_cons]
    split <;> simp [Task.yield]
  | jump n slot =>
    obtain rfl : n = m := by simpa [Task.isForward] using hforward
    exact yield_jump hm hmade
  | transition n state =>
    obtain rfl : n = m := by simpa [Task.isForward] using hforward
    exact yield_transition hm
  | arrive n state again =>
    obtain rfl : n = m := by simpa [Task.isForward] using hforward
    exact yield_arrive hm hmade
  | bind => exact absurd (by simp [Task.touches]) ht
  | enterDefault n =>
    obtain rfl : n = m := by simpa [Task.isForward] using hforward
    simp only [Task.carryOut, enterDefault, hm, hasState_of_made hmade, Task.yield]
    split
    · exact List.append_nil _
    · rfl
  | appear n visible =>
    obtain rfl : n = m := by simpa [Task.isForward] using hforward
    exact yield_appear hm hmade
  | start n visible =>
    obtain rfl : n = m := by simpa [Task.isForward] using hforward
    simp only [Task.carryOut, start, hm, List.flatMap_append, List.flatMap_map]
    simp [Task.yield]
  | release hold =>
    cases hold with
    | machine n => exact hbarren (by simp only [Task.leaves]; decide)
    | queue q => cases hforward
    | host => rfl
  | dispatch | deliver | callOnce | callListener | tick | untilIdle | script | cue | report => cases hforward
  | settle | complete | lose | finish | jobOver | stepOver | visibility | closed => cases hforward
  | _ => exact hbarren (by simp only [Task.leaves]; decide)

/-- A reaction to the entry is put off to the next frame. -/
theorem waiting_bind {slot : Slot} {again : Bool} (hm : s.machine? m = some c') (hmade : c'.made = c.made) :
    (s.bind m slot again).1.frames.waiting ++ ((s.bind m slot again).2.flatMap (Task.yield c)).map (.react m) =
      s.frames.waiting ++ ((Task.bind m slot again).yield c).map (.react m) := by
  have hbarren : ∀ kind ∈ (Task.bind m slot again).leaves, kind.isBarren = true := by
    simp only [Task.leaves]
    decide
  have hyield := flatMap_yield_of_kinds (c := c) (within_carryOut s [] (.bind m slot again)).kinds hbarren
  rw [show (s.bind m slot again).2.flatMap (Task.yield c) = [] from hyield, List.map_nil, List.append_nil]
  simp only [bind, hm, Task.yield, ← reaction?_of_made hmade]
  cases c'.reaction? slot with
  | none => exact (List.append_nil _).symm
  | some r =>
    obtain ⟨on, _, _, _, _, _, _⟩ := r
    cases on with
    | entry => rfl
    | event name =>
      simp only [Option.map_some, Option.any_some, Reaction.isEntry, Occasion.isEntry, Bool.false_eq_true, if_false,
        List.map_nil, List.append_nil]
      split <;> rfl

/-! ## What a task leaves -/

/-- What a task of a machine leaves is of the same machine, and leads only forward. -/
theorem isForward_carryOut (h : Scriptless ⟨s, t :: rest⟩) (hforward : t.isForward m = true)
    (hm : s.machine? m = some c') (hnamed : m ∈ s.cast.values) : ∀ t' ∈ (t.carryOut s rest).2, t'.isForward m = true := by
  have hnil : (t.carryOut s rest).2 = [] → ∀ t' ∈ (t.carryOut s rest).2, t'.isForward m = true := fun hnil t' ht' => by
    rw [hnil] at ht'
    cases ht'
  have hleaves : t.leaves = [] → ∀ t' ∈ (t.carryOut s rest).2, t'.isForward m = true := fun hnone t' ht' => by
    have hkind := (within_carryOut s rest t).kinds t' ht'
    rw [hnone] at hkind
    cases hkind
  cases t with
  | reply | frameOver | bound | watched => exact hleaves rfl
  | perform op =>
    refine hnil ?_
    simp only [Task.carryOut, perform, reflexes_eq_nil h.manners]
    split
    · rfl
    · rfl
    · split <;> rfl
  | await el event call => exact hnil (reflexes_eq_nil h.manners ..)
  | detach el id => exact hnil (reflexes_eq_nil h.manners ..)
  | watch n el event state => simp [Task.carryOut, watch, attach, reflexes_eq_nil h.manners, Task.isForward]
  | enqueue q job => simp [Task.carryOut, enqueue, Task.isForward]
  | pump q =>
    simp only [Task.carryOut, pump]
    split
    · simp [Task.isForward]
    · exact fun _ ht' => by cases ht'
  | run body token =>
    cases body with
    | outside => exact absurd (h.agenda _ List.mem_cons_self) Bool.false_ne_true
    | effect p => simp [Task.carryOut, run, Task.isForward, or_imp, forall_and]
  | frame calls =>
    cases calls with
    | nil => exact fun _ ht' => by cases ht'
    | cons call calls =>
      cases call with
      | react n slot =>
        simp only [Task.isForward, List.all_cons, Bool.and_eq_true] at hforward
        simp [Task.carryOut, frame, Task.isForward, hforward.1, hforward.2]
      | _ => simp [Task.isForward] at hforward
  | callFrame call =>
    cases call with
    | react n slot =>
      simp only [Task.carryOut, callFrame, onMachine]
      split
      · simpa [Task.isForward] using hforward
      · exact fun _ ht' => by cases ht'
    | _ => cases hforward
  | fire n slot anew =>
    simp only [Task.carryOut, fire]
    split
    · exact fun _ ht' => by cases ht'
    · split
      · exact fun _ ht' => by cases ht'
      · simpa [Task.isForward] using hforward
  | hook n name state =>
    intro t' ht'
    have hkind := (within_carryOut s rest (.hook n name state)).kinds t' ht'
    have hscriptless := tasks_scriptless h t' ht'
    cases t' with
    | script => cases hscriptless
    | _ => simp [Task.kind, Task.leaves] at hkind
  | act n slot anew =>
    obtain rfl : n = m := by simpa [Task.isForward] using hforward
    exact isForward_act
  | conclude n slot =>
    simp only [Task.carryOut, conclude]
    split <;> simpa [Task.isForward] using hforward
  | jump n slot =>
    obtain rfl : n = m := by simpa [Task.isForward] using hforward
    simp only [Task.carryOut, jump, hm]
    split
    · exact fun _ ht' => by cases ht'
    · split
      · exact fun _ ht' => by cases ht'
      · split <;> simp [Task.isForward]
  | transition n state =>
    obtain rfl : n = m := by simpa [Task.isForward] using hforward
    simp only [Task.carryOut, transition, hm]
    split <;> simp [Task.isForward, or_imp, forall_and]
  | arrive n state again =>
    obtain rfl : n = m := by simpa [Task.isForward] using hforward
    simp only [Task.carryOut, arrive]
    split
    · exact fun _ ht' => by cases ht'
    · split
      · exact fun _ ht' => by cases ht'
      · simp [Task.isForward]
  | bind n slot again =>
    simp only [Task.carryOut, bind]
    split
    · exact fun _ ht' => by cases ht'
    · split
      · exact fun _ ht' => by cases ht'
      · exact fun _ ht' => by cases ht'
      · split
        · exact fun _ ht' => by cases ht'
        · simp [attach, reflexes_eq_nil h.manners, Task.isForward]
  | enterDefault n =>
    simp only [Task.carryOut, enterDefault]
    split
    · exact fun _ ht' => by cases ht'
    · split
      · simpa [Task.isForward] using hforward
      · exact fun _ ht' => by cases ht'
  | appear n visible =>
    obtain rfl : n = m := by simpa [Task.isForward] using hforward
    simp only [Task.carryOut, appear, hm]
    split
    · split <;> simp [Task.isForward]
    · simp [Task.isForward]
  | start n visible =>
    obtain rfl : n = m := by simpa [Task.isForward] using hforward
    intro t' ht'
    simp only [Task.carryOut, start, hm, List.mem_append, List.mem_map, List.mem_singleton] at ht'
    rcases ht' with ⟨p, -, rfl⟩ | rfl
    · rfl
    · simp [Task.isForward]
  | install n state trigger =>
    simp only [Task.carryOut, install]
    split
    · exact fun _ ht' => by cases ht'
    · simp [Task.isForward]
  | release hold =>
    cases hold with
    | machine n =>
      obtain rfl : n = m := by simpa [Task.isForward] using hforward
      have hheld : s.holdsMachine rest n = true := by simp [holdsMachine, hnamed]
      refine hnil ?_
      simp [Task.carryOut, release, hm, hheld]
    | queue q => cases hforward
    | host => exact hnil rfl
  | dispatch | deliver | callOnce | callListener | tick | untilIdle | script | cue | report => cases hforward
  | settle | complete | lose | finish | jobOver | stepOver | visibility | closed => cases hforward

/-- A machine that is live and has a name stays so while it works. -/
theorem machine_carryOut (rest : List Task) (hforward : t.isForward m = true) (hm : s.machine? m = some c')
    (hlive : c'.life = .live) (hnamed : m ∈ s.cast.values) : (∃ c'', (t.carryOut s rest).1.machine? m = some c'' ∧ c''.made = c'.made ∧
      c''.life = .live) ∧ m ∈ (t.carryOut s rest).1.cast.values := by
  by_cases hrelease : t = .release (.machine m)
  · subst hrelease
    have hheld : s.holdsMachine rest m = true := by simp [holdsMachine, hnamed]
    have hstay : (Task.release (.machine m)).carryOut s rest = (s, []) := by
      simp [Task.carryOut, release, hm, hheld]
    rw [hstay]
    exact ⟨⟨c', hm, rfl, hlive⟩, hnamed⟩
  · have htouches : .makes ∉ t.touches ∧ .lives ∉ t.touches ∧ .cast ∉ t.touches := by
      cases t with
      | cue => cases hforward
      | closed => cases hforward
      | release hold =>
        cases hold with
        | machine n => exact absurd (by simpa [Task.isForward] using hforward) hrelease
        | _ => simp [Task.touches]
      | _ => simp [Task.touches]
    have hagree := (within_carryOut s rest t).touched.agree
    obtain ⟨c'', hc'', hmade⟩ := Option.map_eq_some_iff.1
      ((machine?_made (hagree .makes htouches.1) m).trans (congrArg (Option.map Machine.made) hm))
    refine ⟨⟨c'', hc'', hmade, ?_⟩, ?_⟩
    · have hlives := congrArg (·[m]?) (hagree .lives htouches.2.1)
      simp only [List.getElem?_map] at hlives
      rw [show (t.carryOut s rest).1.machines[m]? = some c'' from hc'', show s.machines[m]? = some c' from hm] at hlives
      exact (congrArg Prod.fst (Option.some.inj hlives)).trans hlive
    · rw [show (t.carryOut s rest).1.cast = s.cast from hagree .cast htouches.2.2]
      exact hnamed

theorem forward_after {total : List Slot} (h : Forward c m total ⟨s, t :: rest⟩) :
    Forward c m total (.after s t rest) := by
  obtain ⟨c', hm, hmade, hlive⟩ := h.machine
  have hforward := h.tasks t List.mem_cons_self
  obtain ⟨⟨c'', hm', hmade', hlive'⟩, hnamed⟩ := machine_carryOut rest hforward hm hlive h.named
  refine ⟨scriptless_after h.scriptless, ⟨c'', hm', hmade'.trans hmade, hlive'⟩, hnamed, fun t' ht' => ?_, ?_⟩
  · rcases List.mem_append.1 ht' with ht' | ht'
    · exact isForward_carryOut h.scriptless hforward hm h.named t' ht'
    · exact h.tasks t' (List.mem_cons_of_mem _ ht')
  · have htotal := h.total
    simp only [List.flatMap_cons, List.map_append, ← List.append_assoc] at htotal
    simp only [Config.after, List.flatMap_append, List.map_append, ← List.append_assoc]
    rw [← htotal]
    refine congrArg (· ++ _) ?_
    by_cases ht : .frames ∈ t.touches
    · cases t with
      | bind n slot again =>
        obtain rfl : n = m := by simpa [Task.isForward] using hforward
        exact waiting_bind hm hmade
      | cue | tick | stepOver => cases hforward
      | release hold => cases hold <;> simp [Task.touches] at ht
      | _ => simp [Task.touches] at ht
    · rw [yield_carryOut hforward hm hmade hlive h.named ht]
      exact congrArg (· ++ _) ((within_carryOut s rest t).touched.agree .frames ht)

end

end Stage

open Stage

/-! ## Starts and frames -/

section
variable {c : Machine} {m : Nat} {s : Stage}

theorem Forward.ends {total : List Slot} {b : Config} (h : Forward c m total b) : ∃ n s', Config.run n b = ⟨s', []⟩ ∧
    Forward c m total ⟨s', []⟩ := h.scriptless.ends (fun _ _ _ => forward_after) h

/-- **A frame runs into the next generation** of reactions. -/
theorem Forward.tick {slots : List Slot} (h : Forward c m slots ⟨s, []⟩) : ∃ s', Plays s [.tick] s' ∧
    Forward c m (slots.flatMap c.passes) ⟨s', []⟩ := by
  have hwaiting : s.frames.waiting = slots.map (.react m) := by
    have := h.total
    rwa [List.flatMap_nil, List.map_nil, List.append_nil] at this
  have hframe : Forward c m (slots.flatMap c.passes)
      ⟨{ s with frames := s.frames.begin },
        [.frame s.frames.waiting, .frameOver s.frames.index s.frames.waiting.length]⟩ := by
    have hscriptless : Scriptless ⟨s, [.cue .tick]⟩ := { h.scriptless with
      agenda := fun t ht => by
        rw [List.mem_singleton.1 ht]
        rfl }
    refine ⟨scriptless_after (scriptless_after hscriptless), h.machine, h.named, ?_, ?_⟩
    · simp [hwaiting, Task.isForward]
    · simp [hwaiting, Task.yield, Frames.begin, List.flatMap_map]
  obtain ⟨n, s', hrun, hend⟩ := hframe.ends
  exact ⟨s', .cons (n + 2) hrun (.nil _), hend⟩

theorem Forward.start {name : String} (h : Forward c m [] ⟨s, []⟩) (hname : s.cast.get? name = some m) (visible : Bool) :
    ∃ s', Plays s [.start name visible] s' ∧ Forward c m ((c.opening visible).flatMap c.entries) ⟨s', []⟩ := by
  obtain ⟨c', hm, -⟩ := h.machine
  have hwaiting : s.frames.waiting = [] := by
    have := h.total
    rwa [List.flatMap_nil, List.map_nil, List.append_nil] at this
  have hfollow : s.follow (.start name visible) = (s, [.start m visible, .release (.machine m), .reply .nothing]) := by
    simp [follow, direct, withMachine, hname, hm]
  have hstart : Forward c m ((c.opening visible).flatMap c.entries)
      ⟨s, [.start m visible, .release (.machine m), .reply .nothing]⟩ := by
    refine ⟨{ h.scriptless with agenda := ?_ }, h.machine, h.named, ?_, ?_⟩
    · simp [Task.isScriptless]
    · simp [Task.isForward]
    · simp [hwaiting, Task.yield]
  obtain ⟨n, s', hrun, hend⟩ := hstart.ends
  refine ⟨s', .cons (n + 1) ?_ (.nil _), hend⟩
  rw [Config.run, Config.step?_cons]
  simp only [Config.after, Task.carryOut, hfollow]
  exact hrun

theorem Forward.ticks {visible : Bool} (h : Forward c m ((c.opening visible).flatMap c.entries) ⟨s, []⟩) :
    ∀ k, ∃ s', Plays s (List.replicate k .tick) s' ∧ Forward c m ((c.entered visible k).flatMap c.entries) ⟨s', []⟩
  | 0 => ⟨s, .nil s, h⟩
  | k + 1 => by
    obtain ⟨s', hplays, hk⟩ := Forward.ticks h k
    obtain ⟨s'', htick, hnext⟩ := hk.tick
    have hgeneration : ((c.entered visible k).flatMap c.entries).flatMap c.passes =
        (c.entered visible (k + 1)).flatMap c.entries := by
      simp only [Machine.entered, Machine.nexts, List.flatMap_assoc, List.filterMap_eq_flatMap_toList]
      rfl
    rw [hgeneration] at hnext
    refine ⟨s'', ?_, hnext⟩
    rw [List.replicate_succ']
    exact hplays.append htick

/-- A machine has just been built on a stage that no one has used. -/
theorem Forward.built {manners : Manners} (hreflexes : manners.reflexes = []) (name : String) (el : ElementId)
    (settings : Settings) (hooked : Bool) (declarations : List Declaration) :
    ∃ s, Plays (.opened manners) [.build name el settings hooked declarations] s ∧ s.cast.get? name = some 0 ∧
      Forward (.ofStates el settings hooked 0 (declarations.foldl declare [])) 0 [] ⟨s, []⟩ := by
  have hfree : (Stage.opened manners).cast.get? name = none := rfl
  obtain ⟨s, hplays, hbuilt⟩ := Plays.build (s := .opened manners) rfl hfree el settings hooked declarations
  have hcast : s.cast.get? name = some 0 := by
    rw [hbuilt.cast]
    exact Registry.get?_put_self ..
  have hscriptless : Scriptless ⟨(Stage.opened manners).built name el settings hooked declarations, []⟩ :=
    ⟨hreflexes, rfl, List.forall_mem_nil _, List.forall_mem_nil _, List.forall_mem_nil _,
      List.forall_mem_singleton.2 rfl, List.forall_mem_nil _⟩
  refine ⟨s, hplays, hcast, hscriptless.undisturbed hbuilt, ?_, Registry.mem_values_of_get? hcast,
    List.forall_mem_nil _, ?_⟩
  · exact ⟨_, hbuilt.machine? 0, rfl, rfl⟩
  · rw [hbuilt.frames]
    rfl

end

/-! ## How many calls there are -/

theorem nodup_names_declare {states : List StateDecl} (h : (states.map StateDecl.name).Nodup) (d : Declaration) :
    ((declare states d).map StateDecl.name).Nodup := by
  rw [declare, List.map_append, List.nodup_append]
  refine ⟨h.sublist (List.filter_sublist.map _), List.nodup_singleton _, ?_⟩
  intro name hname other hother
  obtain ⟨d', hd', rfl⟩ := List.mem_map.1 hname
  rw [List.mem_singleton.1 hother]
  simpa using (List.mem_filter.1 hd').2

theorem nodup_names_declared (declarations : List Declaration) :
    ((declarations.foldl declare []).map StateDecl.name).Nodup := by
  suffices h : ∀ states : List StateDecl, (states.map StateDecl.name).Nodup →
      ((declarations.foldl declare states).map StateDecl.name).Nodup from h [] List.nodup_nil
  induction declarations with
  | nil => exact fun _ h => h
  | cons d ds ih => exact fun states h => ih _ (nodup_names_declare h d)

namespace Machine

variable {c : Machine}

theorem state?_eq_some (hnames : (c.states.map StateDecl.name).Nodup) {d : StateDecl} (hd : d ∈ c.states) :
    c.state? d.name = some d := by
  rw [state?]
  cases hfind : c.states.find? fun d' => d'.name = d.name with
  | none => simpa using List.find?_eq_none.1 hfind d hd
  | some d' =>
    have hname : d'.name = d.name := by simpa using List.find?_some hfind
    exact congrArg some (List.inj_on_of_nodup_map hnames (List.mem_of_find?_eq_some hfind) hd hname)

theorem mem_entries {state : String} {slot : Slot} (h : slot ∈ c.entries state) :
    slot.state = state ∧ ∃ d ∈ c.states, d.name = state := by
  obtain ⟨i, hi, rfl⟩ := List.mem_map.1 (List.mem_filter.1 h).1
  refine ⟨rfl, ?_⟩
  cases hd : c.state? state with
  | none => simp [hd] at hi
  | some d => exact ⟨d, List.mem_of_find?_eq_some hd, by simpa using List.find?_some hd⟩

theorem nodup_entries (state : String) : (c.entries state).Nodup := by
  refine List.Nodup.filter _ (List.Nodup.map ?_ List.nodup_range)
  intro i j hij
  exact (Slot.mk.injEq .. ▸ hij).2

theorem countP_range {α : Type} (p : α → Bool) (as : List α) :
    (List.range as.length).countP (fun i => as[i]?.any p) = as.countP p := by
  induction as with
  | nil => rfl
  | cons a as ih =>
    rw [List.length_cons, List.range_succ_eq_map, List.countP_cons, List.countP_map, List.countP_cons]
    exact congrArg₂ (· + ·) ih rfl

theorem length_entries (hnames : (c.states.map StateDecl.name).Nodup) {d : StateDecl} (hd : d ∈ c.states) :
    (c.entries d.name).length = d.reactions.countP Reaction.isEntry := by
  rw [entries, state?_eq_some hnames hd, ← List.countP_eq_length_filter, List.countP_map,
    ← countP_range Reaction.isEntry d.reactions]
  simp only [Option.elim_some, Function.comp_def, reaction?, state?_eq_some hnames hd, Option.bind_some]

/-- **States that are entered once each** have no more reactions to the entry than there are. -/
theorem length_entries_le (hnames : (c.states.map StateDecl.name).Nodup) {names : List String} (h : names.Nodup) :
    (names.flatMap c.entries).length ≤ c.autostarts := by
  have hsubset : names.flatMap c.entries ⊆ c.states.flatMap fun d => c.entries d.name := by
    intro slot hslot
    obtain ⟨state, -, hmem⟩ := List.mem_flatMap.1 hslot
    obtain ⟨-, d, hd, rfl⟩ := mem_entries hmem
    exact List.mem_flatMap.2 ⟨d, hd, hmem⟩
  have hnodup : (names.flatMap c.entries).Nodup := by
    refine List.nodup_flatMap.2 ⟨fun state _ => nodup_entries state, h.imp fun hne slot hslot hslot' => hne ?_⟩
    rw [← (mem_entries hslot).1, (mem_entries hslot').1]
  have hall : (c.states.flatMap fun d => c.entries d.name).length = c.autostarts := by
    rw [autostarts, List.length_flatMap, List.countP_flatMap]
    exact congrArg List.sum (List.map_congr_left fun d hd => length_entries hnames hd)
  exact hall ▸ (hnodup.subperm hsubset).length_le

theorem nexts_eq_nil {state : String} (h : ∀ d ∈ c.states, d.name ≠ state) : c.nexts state = [] := by
  have hentries : c.entries state = [] := by
    rw [List.eq_nil_iff_forall_not_mem]
    intro slot hslot
    obtain ⟨-, d, hd, hname⟩ := mem_entries hslot
    exact h d hd hname
  rw [nexts, hentries]
  rfl

/-- **When no state is entered twice in a frame**: each state leads on at most once, or no two jumps lead to one state. -/
theorem nodup_entered (h : (∀ d ∈ c.states, (c.nexts d.name).length ≤ 1) ∨
    (c.states.flatMap fun d => c.nexts d.name).Nodup) (visible : Bool) (k : Nat) : (c.entered visible k).Nodup := by
  have hopening : (c.opening visible).length ≤ 1 := by
    unfold opening
    split
    · exact Nat.le_refl 1
    · split
      · exact Nat.le_refl 1
      · exact Nat.zero_le 1
  have hnodup : ∀ {names : List String}, names.length ≤ 1 → names.Nodup := fun {names} hle => by
    match names, hle with
    | [], _ => exact List.nodup_nil
    | [name], _ => exact List.nodup_singleton name
  rcases h with hone | hapart
  · -- at most one state is entered in a frame
    refine hnodup ?_
    induction k with
    | zero => exact hopening
    | succ k ih =>
      have hnexts : ∀ state, (c.nexts state).length ≤ 1 := fun state => by
        by_cases hd : ∃ d ∈ c.states, d.name = state
        · obtain ⟨d, hd, rfl⟩ := hd
          exact hone d hd
        · rw [nexts_eq_nil fun d hd' hname => hd ⟨d, hd', hname⟩]
          exact Nat.zero_le 1
      rw [entered]
      rcases hentered : c.entered visible k with _ | ⟨state, _ | ⟨other, names⟩⟩
      · exact Nat.zero_le 1
      · simpa using hnexts state
      · rw [hentered] at ih
        simp at ih
  · induction k with
    | zero => exact hnodup hopening
    | succ k ih =>
      obtain ⟨heach, hpairs⟩ := List.nodup_flatMap.1 hapart
      have : Std.Symm (Function.onFun List.Disjoint fun d : StateDecl => c.nexts d.name) := ⟨fun _ _ hd => hd.symm⟩
      refine List.nodup_flatMap.2 ⟨fun state _ => ?_, ih.imp fun {state other} hne name hname hother => ?_⟩
      · by_cases hd : ∃ d ∈ c.states, d.name = state
        · obtain ⟨d, hd, rfl⟩ := hd
          exact heach d hd
        · rw [nexts_eq_nil fun d hd' hname => hd ⟨d, hd', hname⟩]
          exact List.nodup_nil
      · have hdeclared : ∀ {state}, name ∈ c.nexts state → ∃ d ∈ c.states, d.name = state := fun {state} hmem => by
          by_contra hd
          rw [nexts_eq_nil fun d hd' hname => hd ⟨d, hd', hname⟩] at hmem
          cases hmem
        obtain ⟨d, hd, rfl⟩ := hdeclared hname
        obtain ⟨d', hd', rfl⟩ := hdeclared hother
        exact hpairs.forall hd hd' (fun heq => hne (congrArg StateDecl.name heq)) hname hother

end Machine

/-- **What waits after a frame.**  Where nothing happens but a start and frames, the calls that wait are the reactions to
the entry of the states that the last frame has entered, each as often as it has.  There are no more of them than
reactions to the entry in all, as long as no state is entered twice in one frame; so it is if each state leads on at most
once, or if no two of its jumps lead to one state. -/
theorem frames_run_what_was_entered {manners : Manners} (hreflexes : manners.reflexes = []) (name : String)
    (el : ElementId) (settings : Settings) (hooked : Bool) (declarations : List Declaration) (visible : Bool) (k : Nat) :
    let c := Machine.ofStates el settings hooked 0 (declarations.foldl declare [])
    ∃ s, Plays (.opened manners)
        (.build name el settings hooked declarations :: .start name visible :: List.replicate k .tick) s ∧
      s.frames.waiting = ((c.entered visible k).flatMap c.entries).map (.react 0) ∧
      ((c.entered visible k).Nodup → s.frames.waiting.length ≤ c.autostarts) ∧
      ((∀ d ∈ c.states, (c.nexts d.name).length ≤ 1) ∨ (c.states.flatMap fun d => c.nexts d.name).Nodup →
        (c.entered visible k).Nodup) := by
  intro c
  obtain ⟨s, hbuild, hname, hbuilt⟩ := Forward.built hreflexes name el settings hooked declarations
  obtain ⟨s', hstart, hstarted⟩ := hbuilt.start hname visible
  obtain ⟨s'', hticks, hend⟩ := hstarted.ticks k
  have hwaiting : s''.frames.waiting = ((c.entered visible k).flatMap c.entries).map (.react 0) := by
    have := hend.total
    rwa [List.flatMap_nil, List.map_nil, List.append_nil] at this
  refine ⟨s'', hbuild.append (hstart.append hticks), hwaiting, fun hnodup => ?_, fun h => c.nodup_entered h visible k⟩
  rw [hwaiting, List.length_map]
  exact Machine.length_entries_le (nodup_names_declared declarations) hnodup

/-- A lamp that goes on and off: after five frames it is dark, and the one reaction of that state waits. -/
theorem frames_run_what_was_entered_lamp :
    let declarations : List Declaration :=
      [.ready ⟨"default", [{ on := .entry, goto := some "dark" }, { on := .entry }], none⟩,
        .ready ⟨"dark", [{ on := .entry, goto := some "default" }], none⟩]
    ∃ s, Plays (.opened {}) (.build "lamp" ⟨1⟩ {} false declarations :: .start "lamp" true :: List.replicate 5 .tick) s ∧
      s.frames.waiting = [.react 0 ⟨"dark", 0⟩] ∧
      s.frames.waiting.length ≤ (Machine.ofStates ⟨1⟩ {} false 0 (declarations.foldl declare [])).autostarts := by
  intro declarations
  have hreflexes : ({} : Manners).reflexes = [] := rfl
  obtain ⟨s, hplays, hwaiting, hbound, hnodup⟩ :=
    frames_run_what_was_entered hreflexes "lamp" ⟨1⟩ {} false declarations true 5
  have hentered : ((Machine.ofStates ⟨1⟩ {} false 0 (declarations.foldl declare [])).entered true 5).flatMap
      (Machine.entries (.ofStates ⟨1⟩ {} false 0 (declarations.foldl declare []))) = [⟨"dark", 0⟩] := by
    decide +kernel
  rw [hentered] at hwaiting
  exact ⟨s, hplays, hwaiting, hbound (hnodup (.inl (by decide +kernel)))⟩

/-- A state that two of its reactions lead back to: after one frame four calls wait, and there are two reactions. -/
theorem frames_multiply_in_a_loop :
    let declarations : List Declaration := [.attributed "default" none [{ goto := some "default" }, { goto := some "default" }]]
    ∃ s, Plays (.opened {}) [.build "mirror" ⟨1⟩ {} false declarations, .start "mirror" false, .tick] s ∧
      (Machine.ofStates ⟨1⟩ {} false 0 (declarations.foldl declare [])).autostarts < s.frames.waiting.length := by
  intro declarations
  have hlast : (Plays.last 40 (.opened {}) [.build "mirror" ⟨1⟩ {} false declarations, .start "mirror" false, .tick]).any
      (fun s => (Machine.ofStates ⟨1⟩ {} false 0 (declarations.foldl declare [])).autostarts < s.frames.waiting.length) =
        true := by
    decide +kernel
  obtain ⟨s, hs, hless⟩ := (Option.any_eq_true _ _).1 hlast
  exact ⟨s, .of_last hs, by simpa using hless⟩

end Stagecraft
