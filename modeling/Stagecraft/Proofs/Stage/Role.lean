import Stagecraft.Proofs.Stage.Called
import Stagecraft.Proofs.Stage.Queue
/-!
# Roles

A machine, its queue and its element have a part of the stage to themselves, as long as no other machine shares any of
the three.  What is said here of a role is what there is of it on a stage, and that whatever another role does leaves it
as it is.
-/
namespace Stagecraft

/-- A machine under a name, with its queue and its element. -/
structure Role where
  name : String
  machine : Nat
  queue : Nat
  element : ElementId
  deriving DecidableEq

/-- The two have nothing in common. -/
structure Role.Apart (r r' : Role) : Prop where
  name : r.name ≠ r'.name
  machine : r.machine ≠ r'.machine
  queue : r.queue ≠ r'.queue
  element : r.element ≠ r'.element

theorem Role.Apart.symm {r r' : Role} (h : r.Apart r') : r'.Apart r :=
  ⟨h.name.symm, h.machine.symm, h.queue.symm, h.element.symm⟩

/-! ## What belongs to a role -/

def ListenerCall.isOf (r : Role) : ListenerCall → Bool
  | .react m _ => m = r.machine
  | _ => false

def OnceCall.isOf (r : Role) : OnceCall → Bool
  | .effectEnd el _ token => el = r.element && token.queue = r.queue
  | .outside .. => false

def FrameCall.isOf (r : Role) : FrameCall → Bool
  | .react m _ | .resume m _ => m = r.machine
  | .outside .. => false

def PageOp.element : PageOp → ElementId
  | .addClass el _ | .removeClass el _ | .flush el => el

def EffectPlan.isOf (r : Role) (p : EffectPlan) : Bool :=
  p.element = r.element && (p.lead ++ p.tail).all fun op => op.element = r.element

def Finish.isOf (r : Role) : Finish → Bool
  | .reaction m _ | .sequenceStep m .. => m = r.machine
  | .outside .. => false

def JobBody.isOf (r : Role) : JobBody → Bool
  | .effect p => p.isOf r
  | .outside .. => false

def Job.isOf (r : Role) (job : Job) : Bool := job.body.isOf r && job.finish.all (·.isOf r)

/-- The tasks of a role in which no id of a listener occurs. -/
def Task.isPlainFor (r : Role) : Task → Bool
  | .dispatch el _ => el = r.element
  | .callOnce c => c.isOf r
  | .callListener c => c.isOf r
  | .perform op => op.element = r.element
  | .await el _ c => el = r.element && c.isOf r
  | .callFrame c => c.isOf r
  | .enqueue q job => q = r.queue && job.isOf r
  | .run body token => token.queue = r.queue && body.isOf r
  | .complete token => token.queue = r.queue
  | .finish _ f => f.isOf r
  | .pump q | .jobOver q | .release (.queue q) => q = r.queue
  | .transition m _ | .arrive m .. | .bind m .. | .fire m .. | .hook m .. | .act m .. | .conclude m _ => m = r.machine
  | .stepOver m .. | .jump m _ | .start m _ | .appear m _ | .enterDefault m | .visibility m _ => m = r.machine
  | .release (.machine m) | .closed m => m = r.machine
  | _ => false

def Task.isMine (r : Role) : Task → Bool
  | .deliver once listeners _ => once.any (·.isOf r) || listeners.any (·.2.isOf r)
  | .detach el _ => el = r.element
  | .bound m .. => m = r.machine
  | t => t.isPlainFor r

/-- The tasks that do nothing to any role. -/
def Task.isIdle : Task → Bool
  | .reply _ | .frameOver .. | .lose _ | .release .host | .deliver [] [] _ | .frame [] => true
  | _ => false

/-- The parts of a stage that machines consist of. -/
def Part.isOfMachines : Part → Bool
  | .makes | .wiring | .lives | .steps | .visible | .pending => true
  | _ => false

/-- What a role finds on the stage. -/
structure Own where
  machine : Option Machine
  queue : Option JobQueue
  listeners : List (Listener ListenerCall)
  waiting : List (Waiting OnceCall)
  classes : List String
  frames : List FrameCall
  named : Option Nat

namespace Stage

def own (s : Stage) (r : Role) : Own where
  machine := s.machine? r.machine
  queue := s.queue? r.queue
  listeners := s.page.listenersOn r.element
  waiting := s.page.waiting.filter fun w => w.element = r.element
  classes := s.page.classesOf r.element
  frames := s.frames.waiting.filter fun c => c.isOf r
  named := s.cast.get? r.name

section
variable {s s' : Stage} {t : Task} {rest : List Task} {r r' : Role}

theorem own_of_undisturbed (h : Undisturbed s s') (r : Role) : s'.own r = s.own r := by
  simp only [own, h.machine?, h.queue?, h.page, h.frames, h.cast]

/-! ## What the tasks of another role do -/

theorem machine?_of_agree (h : ∀ part, part.isOfMachines = true → Agree s s' part) (n : Nat) :
    s'.machine? n = s.machine? n := by
  have hmap : ∀ {α : Type} (g : Machine → α), s'.machines.map g = s.machines.map g →
      (s'.machine? n).map g = (s.machine? n).map g := fun g hg => by
    have hn := congrArg (·[n]?) hg
    simp only [List.getElem?_map] at hn
    exact hn
  have hmade := hmap _ (h .makes rfl)
  have hwiring := hmap _ (h .wiring rfl)
  have hlives := hmap _ (h .lives rfl)
  have hsteps := hmap _ (h .steps rfl)
  have hvisible := hmap _ (h .visible rfl)
  have hpending := hmap _ (h .pending rfl)
  cases hc : s.machine? n with
  | none => rw [hc] at hmade; simpa using hmade
  | some c =>
    rw [hc] at hmade hwiring hlives hsteps hvisible hpending
    cases hc' : s'.machine? n with
    | none => rw [hc'] at hmade; cases hmade
    | some c' =>
      rw [hc'] at hmade hwiring hlives hsteps hvisible hpending
      obtain ⟨_, _, _, _, _, _, _, _, _, _, _, _⟩ := c
      obtain ⟨_, _, _, _, _, _, _, _, _, _, _, _⟩ := c'
      simp only [Option.map_some, Machine.made, Machine.wiring, Option.some.injEq, Machine.mk.injEq] at *
      simp_all

theorem machine?_act_ne {m n : Nat} (slot : Slot) (h : m ≠ n) : (s.act m slot).1.machine? n = s.machine? n := by
  unfold act
  split
  · rfl
  · rename_i c _
    split
    · rfl
    · rename_i r _
      split
      · rfl
      · split
        · have hjobs := (undisturbed_jobs c r.actions s).machine? n
          unfold runAll
          split
          · rename_i heq
            rw [heq] at hjobs
            exact hjobs
          · rename_i heq
            rw [heq] at hjobs
            exact hjobs
        · unfold runNext
          simp only
          split
          · rfl
          · split
            · exact (machine?_mapMachine_ne _ h.symm _).trans ((undisturbed_prepare ..).machine? n)
            · exact (machine?_mapMachine_ne _ h.symm _).trans ((undisturbed_prepare ..).machine? n)

/-- **A task works on no machine but its own.** -/
theorem machine?_elsewhere (s : Stage) (rest : List Task) {n : Nat} (hcue : t.kind ≠ .cue) (hm : t.machine? ≠ some n)
    (hrelease : t ≠ .release (.machine n)) (hclosed : t ≠ .closed n) :
    (t.carryOut s rest).1.machine? n = s.machine? n := by
  have hother : (∀ part ∈ t.touches, part.isOfMachines = false) → (t.carryOut s rest).1.machine? n = s.machine? n :=
    fun ht => machine?_of_agree (fun part hpart => (within_carryOut s rest t).touched.agree part fun hin => by
      rw [ht part hin] at hpart
      cases hpart) n
  have hne : ∀ {m}, t.machine? = some m → n ≠ m := fun heq hn => hm (hn ▸ heq)
  cases t with
  | cue => exact absurd rfl hcue
  | transition m state =>
    simp only [Task.carryOut, transition]
    split
    · rfl
    · split
      · rfl
      · exact machine?_mapMachine_ne s (hne rfl) _
  | arrive m state again =>
    simp only [Task.carryOut, arrive]
    split
    · exact machine?_mapMachine_ne s (hne rfl) _
    · split <;> exact machine?_mapMachine_ne s (hne rfl) _
  | bound m index id => exact machine?_mapMachine_ne s (hne rfl) _
  | watched m el id => exact machine?_mapMachine_ne s (hne rfl) _
  | jump m slot =>
    simp only [Task.carryOut, jump]
    split
    · rfl
    · split
      · rfl
      · split
        · rfl
        · split
          · exact machine?_mapMachine_ne s (hne rfl) _
          · rfl
  | act m slot anew => exact machine?_act_ne slot (hne rfl).symm
  | stepOver m slot step =>
    simp only [Task.carryOut, stepOver]
    split
    · rfl
    · split
      · rfl
      · exact machine?_mapMachine_ne s (hne rfl) _
  | start m visible =>
    simp only [Task.carryOut, start]
    split
    · rfl
    · exact machine?_mapMachine_ne s (hne rfl) _
  | appear m visible =>
    simp only [Task.carryOut, appear]
    split
    · rfl
    · split
      · exact machine?_mapMachine_ne s (hne rfl) _
      · rfl
  | visibility m visible =>
    simp only [Task.carryOut, visibility]
    split
    · rfl
    · split
      · exact machine?_mapMachine_ne s (hne rfl) _
      · rfl
  | closed m =>
    have hnm : n ≠ m := fun heq => hclosed (by rw [heq])
    simp only [Task.carryOut, closed]
    split
    · rfl
    · exact machine?_mapMachine_ne s hnm _
  | release hold =>
    cases hold with
    | machine m =>
      have hnm : n ≠ m := fun heq => hrelease (by rw [heq])
      simp only [Task.carryOut, release]
      split
      · rfl
      · split
        · exact machine?_mapMachine_ne s hnm _
        · rfl
    | queue q => exact hother (by simp [Task.touches, Part.isOfMachines])
    | host => rfl
  | _ => exact hother (by simp [Task.touches, Part.isOfMachines])

/-- **A task works on no queue but its own.** -/
theorem queue?_elsewhere (s : Stage) (rest : List Task) {q : Nat} (hcue : t.kind ≠ .cue) (hq : handles q t = false) :
    (t.carryOut s rest).1.queue? q = s.queue? q := by
  have hother : .queues ∉ t.touches → (t.carryOut s rest).1.queue? q = s.queue? q := fun ht => by
    rw [queue?, queue?, show _ = s.queues from (within_carryOut s rest t).touched.agree .queues ht]
  cases t with
  | cue => exact absurd rfl hcue
  | enqueue p job => exact queue?_mapQueue_ne _ (Ne.symm (of_decide_eq_false hq)) _
  | pump p =>
    simp only [Task.carryOut, pump]
    split
    · exact queue?_mapQueue_ne _ (Ne.symm (of_decide_eq_false hq)) _
    · rfl
  | complete token =>
    simp only [Task.carryOut, complete]
    split
    · split
      · exact queue?_mapQueue_ne _ (Ne.symm (of_decide_eq_false hq)) _
      · rfl
    · rfl
  | jobOver p => exact queue?_mapQueue_ne _ (Ne.symm (of_decide_eq_false hq)) _
  | release hold =>
    cases hold with
    | machine m => exact hother (by simp [Task.touches])
    | queue p =>
      simp only [Task.carryOut, release]
      split
      · rfl
      · exact queue?_mapQueue_ne _ (Ne.symm (of_decide_eq_false hq)) _
    | host => rfl
  | _ => exact hother (by simp [Task.touches])

/-! ## What the tasks of another role do to the page -/

theorem listenersOn_addListener_ne {el el' : ElementId} (h : el ≠ el') (event : String) (call : ListenerCall) :
    (s.page.addListener el' event call).listenersOn el = s.page.listenersOn el := by
  simp [Page.listenersOn, Page.addListener, h.symm]

theorem listenersOn_removeListener_ne {el el' : ElementId} (h : el ≠ el') (id : Nat) :
    (s.page.removeListener el' id).listenersOn el = s.page.listenersOn el := by
  rw [Page.listenersOn, Page.listenersOn, Page.removeListener, List.filter_filter]
  refine List.filter_congr fun l _ => ?_
  by_cases hl : l.element = el
  · simp [hl, h]
  · simp [hl]

theorem listenersOn_elsewhere (hapart : r.Apart r') (hmine : t.isMine r' = true)
    (hmachine : ∀ c, s.machine? r'.machine = some c → c.element = r'.element) :
    (t.carryOut s rest).1.page.listenersOn r.element = s.page.listenersOn r.element := by
  by_cases ht : .listeners ∈ t.touches
  · cases t with
    | cue | watch => cases hmine
    | detach el id =>
      obtain rfl : el = r'.element := of_decide_eq_true hmine
      exact listenersOn_removeListener_ne hapart.element id
    | bind m slot again =>
      obtain rfl : m = r'.machine := of_decide_eq_true hmine
      simp only [Task.carryOut, bind]
      split
      · rfl
      · rename_i c hc
        split
        · rfl
        · rfl
        · split
          · rfl
          · rw [hmachine c hc]
            exact listenersOn_addListener_ne hapart.element _ _
    | release hold => cases hold <;> simp [Task.touches] at ht
    | _ => simp [Task.touches] at ht
  · rw [Page.listenersOn, Page.listenersOn,
      show _ = s.page.listeners from ((within_carryOut s rest t).touched.agree .listeners ht).1]

theorem waitingOn_elsewhere (hapart : r.Apart r') (hmine : t.isMine r' = true) :
    ((t.carryOut s rest).1.page.waiting.filter fun w => w.element = r.element) =
      s.page.waiting.filter fun w => w.element = r.element := by
  by_cases ht : .waiting ∈ t.touches
  · cases t with
    | cue => cases hmine
    | dispatch el event =>
      obtain rfl : el = r'.element := of_decide_eq_true hmine
      simp only [Task.carryOut, dispatch, mapPage, Page.forget, List.filter_filter]
      refine List.filter_congr fun w _ => ?_
      by_cases hw : w.element = r.element
      · simp [Waiting.hears, hw, hapart.element]
      · simp [hw]
    | await el event call =>
      have hboth : (el = r'.element && call.isOf r') = true := hmine
      obtain rfl : el = r'.element := of_decide_eq_true (Bool.and_eq_true _ _ ▸ hboth).1
      simp [Task.carryOut, await, mapPage, Page.listenOnce, hapart.element.symm]
    | release hold => cases hold <;> simp [Task.touches] at ht
    | _ => simp [Task.touches] at ht
  · rw [show _ = s.page.waiting from (within_carryOut s rest t).touched.agree .waiting ht]

theorem classesOf_elsewhere (hapart : r.Apart r') (hmine : t.isMine r' = true) :
    (t.carryOut s rest).1.page.classesOf r.element = s.page.classesOf r.element := by
  by_cases ht : .classes ∈ t.touches
  · cases t with
    | cue => cases hmine
    | perform op =>
      have hop : op.element = r'.element := of_decide_eq_true hmine
      have hne : r.element ≠ op.element := hop ▸ hapart.element
      cases op with
      | addClass el names => exact Page.classesOf_setClasses_ne _ hne _
      | removeClass el names => exact Page.classesOf_setClasses_ne _ hne _
      | flush el =>
        simp only [Task.carryOut, perform]
        split <;> rfl
    | release hold => cases hold <;> simp [Task.touches] at ht
    | _ => simp [Task.touches] at ht
  · rw [Page.classesOf, Page.classesOf, show _ = s.page.classes from (within_carryOut s rest t).touched.agree .classes ht]

theorem framesOf_elsewhere (hapart : r.Apart r') (hmine : t.isMine r' = true) :
    ((t.carryOut s rest).1.frames.waiting.filter fun c => c.isOf r) = s.frames.waiting.filter fun c => c.isOf r := by
  by_cases ht : .frames ∈ t.touches
  · cases t with
    | cue | tick => cases hmine
    | bind m slot again =>
      obtain rfl : m = r'.machine := of_decide_eq_true hmine
      simp only [Task.carryOut, bind]
      split
      · rfl
      · split
        · rfl
        · simp [schedule, Frames.schedule, FrameCall.isOf, hapart.machine.symm]
        · split <;> rfl
    | stepOver m slot step =>
      obtain rfl : m = r'.machine := of_decide_eq_true hmine
      simp only [Task.carryOut, stepOver]
      split
      · rfl
      · split
        · simp [schedule, Frames.schedule, FrameCall.isOf, hapart.machine.symm]
        · rfl
    | release hold => cases hold <;> simp [Task.touches] at ht
    | _ => simp [Task.touches] at ht
  · rw [show _ = s.frames.waiting from (within_carryOut s rest t).touched.agree .frames ht]

/-- What a task of a role works on is not what another role has. -/
theorem spares_of_isMine (hapart : r.Apart r') (hmine : t.isMine r' = true) : t.kind ≠ .cue ∧
    t.machine? ≠ some r.machine ∧ t ≠ .release (.machine r.machine) ∧ t ≠ .closed r.machine ∧
      handles r.queue t = false := by
  have hm := hapart.machine.symm
  have hq := hapart.queue.symm
  cases t with
  | release hold => cases hold <;> simp_all [Task.isMine, Task.isPlainFor, Task.kind, Task.machine?, handles]
  | _ => simp_all [Task.isMine, Task.isPlainFor, Task.kind, Task.machine?, handles]

/-- **Another role leaves a role alone.** -/
theorem own_elsewhere (hapart : r.Apart r') (hmine : t.isMine r' = true)
    (hmachine : ∀ c, s.machine? r'.machine = some c → c.element = r'.element) :
    (t.carryOut s rest).1.own r = s.own r := by
  obtain ⟨hcue, hm, hrelease, hclosed, hq⟩ := spares_of_isMine hapart hmine
  have hcast : (t.carryOut s rest).1.cast = s.cast := by
    refine (within_carryOut s rest t).touched.agree .cast ?_
    cases t with
    | cue => cases hmine
    | release hold => cases hold <;> simp [Task.touches]
    | _ => simp [Task.touches]
  simp only [own, machine?_elsewhere s rest hcue hm hrelease hclosed, queue?_elsewhere s rest hcue hq,
    listenersOn_elsewhere hapart hmine hmachine, waitingOn_elsewhere hapart hmine, classesOf_elsewhere hapart hmine,
    framesOf_elsewhere hapart hmine, hcast]

theorem undisturbed_of_isIdle (s : Stage) (rest : List Task) (h : t.isIdle = true) :
    Undisturbed s (t.carryOut s rest).1 ∧ (t.carryOut s rest).2 = [] := by
  cases t with
  | reply a => exact ⟨undisturbed_reply s a, rfl⟩
  | frameOver index ran =>
    refine ⟨?_, rfl⟩
    simp only [Task.carryOut, frameOver]
    split
    · exact undisturbed_reply s _
    · exact (undisturbed_record s _).trans (undisturbed_reply _ _)
  | lose token =>
    refine ⟨?_, rfl⟩
    simp only [Task.carryOut, lose]
    split
    · exact undisturbed_record s _
    · exact .refl s
  | release hold =>
    cases hold with
    | host => exact ⟨.refl s, rfl⟩
    | _ => cases h
  | deliver once listeners ran =>
    cases once with
    | cons => cases h
    | nil =>
      cases listeners with
      | cons => cases h
      | nil => exact ⟨undisturbed_reply s _, rfl⟩
  | frame calls =>
    cases calls with
    | cons => cases h
    | nil => exact ⟨.refl s, rfl⟩
  | _ => cases h

end

end Stage
end Stagecraft
