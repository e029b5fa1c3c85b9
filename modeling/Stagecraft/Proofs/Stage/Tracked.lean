import Stagecraft.Proofs.Stage.Held
import Stagecraft.Proofs.Stage.Listeners
/-!
# Every listener is kept track of

A machine can remove a listener only by its id.  From the moment at which a listener is added, its id is kept: by the
task that will note it, then by the machine, and by a task that removes it in the end.  Whatever the host dispatches
from inside its calls, there is one way for an id to get lost: a machine notes a listener for a place that has one.
-/
namespace Stagecraft

namespace Machine

/-- What is written for a place takes the place of what was found there, and of nothing else. -/
theorem mem_setListener_of_mem {k id : Nat} (o : Option Nat) : ∀ {bs : List Binding},
    id ∈ bs.filterMap Binding.listener → id ∈ (setListener k o bs).filterMap Binding.listener ∨
      (bs.find? fun b => b.index = k).bind Binding.listener = some id
  | [], h => by cases h
  | b :: bs, h => by
    obtain ⟨b', hb', hid⟩ := List.mem_filterMap.1 h
    unfold setListener
    by_cases hk : b.index = k
    · rw [if_pos hk, List.find?_cons_of_pos (by simpa using hk)]
      rcases List.mem_cons.1 hb' with rfl | hb'
      · exact .inr hid
      · exact .inl (List.mem_filterMap.2 ⟨b', List.mem_cons_of_mem _ hb', hid⟩)
    · rw [if_neg hk, List.find?_cons_of_neg (by simpa using hk)]
      rcases List.mem_cons.1 hb' with rfl | hb'
      · exact .inl (List.mem_filterMap.2 ⟨b', List.mem_cons_self, hid⟩)
      · refine (mem_setListener_of_mem o (List.mem_filterMap.2 ⟨b', hb', hid⟩)).imp_left fun h => ?_
        obtain ⟨b'', hb'', hid⟩ := List.mem_filterMap.1 h
        exact List.mem_filterMap.2 ⟨b'', List.mem_cons_of_mem _ hb'', hid⟩

/-- To note a listener forgets at most the one that was noted for the same place. -/
theorem mem_bound_of_bind {c : Machine} {k id id' : Nat} (h : id ∈ c.bound) :
    id ∈ (c.bind k id').bound ∨ c.listenerOf? k = some id := by
  unfold Machine.bind
  split
  · exact mem_setListener_of_mem _ h
  · rw [bound, List.filterMap_append, List.mem_append]
    exact .inl (.inl h)

theorem mem_bound_self (c : Machine) (k id : Nat) : id ∈ (c.bind k id).bound := by
  have hset : ∀ {bs : List Binding}, (bs.any fun b => b.index = k) = true →
      id ∈ (setListener k (some id) bs).filterMap Binding.listener := by
    intro bs h
    induction bs with
    | nil => cases h
    | cons b bs ih =>
      unfold setListener
      split
      · exact List.mem_filterMap.2 ⟨_, List.mem_cons_self, rfl⟩
      · rename_i hb
        rw [List.any_cons, Bool.or_eq_true] at h
        obtain ⟨b', hb', hid⟩ := List.mem_filterMap.1 (ih (h.resolve_left (by simpa using hb)))
        exact List.mem_filterMap.2 ⟨b', List.mem_cons_of_mem _ hb', hid⟩
  unfold Machine.bind
  split
  · rename_i h
    exact hset h
  · rw [bound, List.filterMap_append]
    exact List.mem_append_right _ List.mem_cons_self

theorem mem_bound_of_unbind {c : Machine} {k id : Nat} (h : id ∈ c.bound) :
    id ∈ (c.unbind k).bound ∨ c.listenerOf? k = some id := mem_setListener_of_mem _ h

end Machine

/-- The tasks that know the id of a listener. -/
def Kind.knowsId : Kind → Bool
  | .bound | .watched | .detach => true
  | _ => false

/-- The machine that a call of a listener works on. -/
def ListenerCall.machine? : ListenerCall → Option Nat
  | .react m _ | .enter m _ => some m
  | .outside .. => none

/-- The next task notes a listener of the machine for a place for which the listener `id` is noted. -/
def Config.overwrites (m id : Nat) (b : Config) : Prop :=
  ∃ k id' rest, b.agenda = .bound m k id' :: rest ∧ (b.stage.machine? m).bind (·.listenerOf? k) = some id

namespace Stage

/-- What a task can do to how a machine is wired, with the tasks that it leaves then. -/
inductive Rewired (m : Nat) (c : Machine) : Task → Machine → List Task → Prop
  | kept {t : Task} {ts : List Task} : Rewired m c t c ts
  | leaves {state : String} : Rewired m c (.transition m state) { c with bindings := [] }
      (c.bound.map (.detach c.element) ++ [.arrive m state false])
  | arrives {state : String} {again : Bool} {ts : List Task} :
      Rewired m c (.arrive m state again) { c with current := if again then c.current else some state } ts
  | notes {k id : Nat} : Rewired m c (.bound m k id) (c.bind k id) []
  | forgets {slot : Slot} {id : Nat} {target : String} (h : c.listenerOf? slot.index = some id) :
      Rewired m c (.jump m slot) (c.unbind slot.index) [.detach c.element id, .transition m target]
  | watches {el : ElementId} {id : Nat} :
      Rewired m c (.watched m el id) { c with triggers := c.triggers ++ [(el, id)] } []
  | closes : Rewired m c (.release (.machine m)) { c with life := .closing, bindings := [], triggers := [] }
      (c.bound.map (.detach c.element) ++ c.triggers.map (fun (el, id) => .detach el id) ++ [.closed m])
  | closed {ts : List Task} : Rewired m c (.closed m) { c with life := .closed } ts

section
variable {s s' : Stage} {t : Task} {ts rest : List Task} {m : Nat} {c : Machine}

/-- A task that changes one machine. -/
theorem rewired_of_map {n : Nat} {f : Machine → Machine} (hc : s.machine? m = some c)
    (hmachines : s'.machines = (s.mapMachine n f).machines) (h : m = n → Rewired m c t (f c) ts) :
    ∃ c' d, s'.machine? m = some c' ∧ Rewired m c t d ts ∧ c'.wiring = d.wiring := by
  rw [machine?, hmachines, show (s.mapMachine n f).machines[m]? = (s.mapMachine n f).machine? m from rfl,
    machine?_mapMachine, hc]
  split
  · rename_i hn
    exact ⟨f c, f c, rfl, h hn, rfl⟩
  · exact ⟨c, c, rfl, .kept, rfl⟩

theorem rewired_release (hc : s.machine? m = some c) (hold : Hold) : ∃ c' d,
    (s.release rest hold).1.machine? m = some c' ∧ Rewired m c (.release hold) d (s.release rest hold).2 ∧
      c'.wiring = d.wiring := by
  cases hold with
  | machine n =>
    simp only [release]
    split
    · exact ⟨c, c, hc, .kept, rfl⟩
    · rename_i c' hc'
      split
      · refine rewired_of_map hc rfl ?_
        rintro rfl
        obtain rfl := Option.some.inj (hc.symm.trans hc')
        exact .closes
      · exact ⟨c, c, hc, .kept, rfl⟩
  | queue q =>
    simp only [release]
    split <;> exact ⟨c, c, hc, .kept, rfl⟩
  | host => exact ⟨c, c, hc, .kept, rfl⟩

theorem rewired_jump (hc : s.machine? m = some c) (n : Nat) (slot : Slot) : ∃ c' d,
    (s.jump n slot).1.machine? m = some c' ∧ Rewired m c (.jump n slot) d (s.jump n slot).2 ∧
      c'.wiring = d.wiring := by
  unfold jump
  split
  · exact ⟨c, c, hc, .kept, rfl⟩
  · rename_i c' hc'
    split
    · exact ⟨c, c, hc, .kept, rfl⟩
    · split
      · exact ⟨c, c, hc, .kept, rfl⟩
      · split
        · rename_i id hid
          refine rewired_of_map hc rfl ?_
          rintro rfl
          obtain rfl := Option.some.inj (hc.symm.trans hc')
          refine .forgets ?_
          split at hid
          · exact hid
          · cases hid
        · exact ⟨c, c, hc, .kept, rfl⟩

/-- **What a task does to how a machine is wired.**  Every machine is there after it, and every other task, and every
task on another machine, has left it wired as it was. -/
theorem rewired_carryOut (t : Task) (rest : List Task) (hc : s.machine? m = some c) :
    ∃ c' d, (t.carryOut s rest).1.machine? m = some c' ∧ Rewired m c t d (t.carryOut s rest).2 ∧
      c'.wiring = d.wiring := by
  by_cases hw : .wiring ∈ t.touches
  · cases t with
    | cue cue =>
      cases cue with
      | build name el settings hooked states =>
        refine ⟨c, c, ?_, .kept, rfl⟩
        simp only [Task.carryOut, follow, build]
        split
        · rw [← (undisturbed_declared el states s).machine? m] at hc
          exact machine?_append _ [JobQueue.empty] hc
        · exact hc
      | _ => simp [Task.touches, Cue.touches] at hw
    | transition n state =>
      simp only [Task.carryOut, transition]
      split
      · exact ⟨c, c, hc, .kept, rfl⟩
      · rename_i c' hc'
        split
        · exact ⟨c, c, hc, .kept, rfl⟩
        · refine rewired_of_map hc rfl ?_
          rintro rfl
          obtain rfl := Option.some.inj (hc.symm.trans hc')
          exact .leaves
    | arrive n state again =>
      have hmachines : (s.arrive n state again).1.machines =
          (s.mapMachine n fun c => { c with current := if again then c.current else some state }).machines := by
        simp only [arrive]
        split
        · rfl
        · split <;> rfl
      refine rewired_of_map hc hmachines ?_
      rintro rfl
      exact .arrives
    | bound n k id =>
      refine rewired_of_map hc rfl ?_
      rintro rfl
      exact .notes
    | jump n slot => exact rewired_jump hc n slot
    | watched n el id =>
      refine rewired_of_map hc rfl ?_
      rintro rfl
      exact .watches
    | closed n =>
      simp only [Task.carryOut, closed]
      split
      · exact ⟨c, c, hc, .kept, rfl⟩
      · refine rewired_of_map hc rfl ?_
        rintro rfl
        exact .closed
    | release hold => exact rewired_release hc hold
    | _ => simp [Task.touches] at hw
  · obtain ⟨c', hc', hwiring⟩ := exists_machine?_of_wiring ((within_carryOut s rest t).touched.agree .wiring hw) hc
    exact ⟨c', c, hc', .kept, hwiring⟩

end

/-- A listener is going to be removed before the machine is done. -/
def Detaching (m : Nat) (l : Listener ListenerCall) (agenda : List Task) : Prop :=
  ∃ before after, agenda = before ++ .detach l.element l.id :: after ∧
    (Task.closed m ∈ after ∨ ∃ t ∈ after, t.machine? = some m)

/-- Who knows the id of a listener that makes this call; `lost` says which ids machines have forgotten. -/
inductive Tracked (s : Stage) (agenda : List Task) (lost : Nat → Nat → Prop) (l : Listener ListenerCall) :
    ListenerCall → Prop
  | outside (label : String) (script : List Cue) : Tracked s agenda lost l (.outside label script)
  | lost {m : Nat} {slot : Slot} (h : lost m l.id) : Tracked s agenda lost l (.react m slot)
  | bound {m : Nat} {slot : Slot} {c : Machine} (hc : s.machine? m = some c) (hel : l.element = c.element)
      (h : l.id ∈ c.bound) : Tracked s agenda lost l (.react m slot)
  | binding {m : Nat} {slot : Slot} {c : Machine} (hc : s.machine? m = some c) (hel : l.element = c.element)
      (h : Task.bound m slot.index l.id ∈ agenda) : Tracked s agenda lost l (.react m slot)
  | unbinding {m : Nat} {slot : Slot} (h : Detaching m l agenda) : Tracked s agenda lost l (.react m slot)
  | triggered {m : Nat} {state : String} {c : Machine} (hc : s.machine? m = some c)
      (h : (l.element, l.id) ∈ c.triggers) : Tracked s agenda lost l (.enter m state)
  | watching {m : Nat} {state : String} {c : Machine} (hc : s.machine? m = some c)
      (h : Task.watched m l.element l.id ∈ agenda) : Tracked s agenda lost l (.enter m state)
  | unwatching {m : Nat} {state : String} (h : Detaching m l agenda) : Tracked s agenda lost l (.enter m state)

/-- When nothing is left to do, only machines know ids. -/
theorem Tracked.of_rest {s s' : Stage} {lost lost' : Nat → Nat → Prop} {l : Listener ListenerCall}
    {call : ListenerCall} (h : Tracked s [] lost l call) (hm : ∀ m, s'.machine? m = s.machine? m)
    (hlost : ∀ m id, lost m id → lost' m id) (agenda : List Task) : Tracked s' agenda lost' l call := by
  have hnone : ∀ {m}, ¬ Detaching m l [] := by
    rintro m ⟨before, after, heq, -⟩
    simp at heq
  cases h with
  | outside label script => exact .outside label script
  | lost h => exact .lost (hlost _ _ h)
  | bound hc hel h => exact .bound ((hm _).trans hc) hel h
  | binding _ _ h => cases h
  | unbinding h => exact absurd h hnone
  | triggered hc h => exact .triggered ((hm _).trans hc) h
  | watching _ h => cases h
  | unwatching h => exact absurd h hnone

theorem Detaching.of_mem {m : Nat} {l : Listener ListenerCall} {ds after : List Task}
    (h : Task.detach l.element l.id ∈ ds) (hafter : Task.closed m ∈ after ∨ ∃ t ∈ after, t.machine? = some m) :
    Detaching m l (ds ++ after) := by
  obtain ⟨before, between, rfl⟩ := List.append_of_mem h
  refine ⟨before, between ++ after, by rw [List.append_assoc, List.cons_append], ?_⟩
  exact hafter.imp (List.mem_append_right _) fun ⟨t, ht, hm⟩ => ⟨t, List.mem_append_right _ ht, hm⟩

/-- Another task may be done meanwhile, and leave what it likes. -/
theorem Detaching.after {m : Nat} {l : Listener ListenerCall} {t : Task} {rest : List Task}
    (h : Detaching m l (t :: rest)) (ht : t ≠ .detach l.element l.id) (ts : List Task) :
    Detaching m l (ts ++ rest) := by
  obtain ⟨before, after, heq, hafter⟩ := h
  cases before with
  | nil => exact absurd (List.cons.inj heq).1 ht
  | cons t' before =>
    refine ⟨ts ++ before, after, ?_, hafter⟩
    rw [List.append_assoc, (List.cons.inj heq).2]
    rfl

section
variable {s s' : Stage} {t : Task} {ts rest : List Task} {lost lost' : Nat → Nat → Prop} {l : Listener ListenerCall}

/-- What a task has to see to so that a listener stays tracked: what a machine no longer knows after it is lost, or is
going to be removed, and what the task itself knows is noted. -/
structure Carried (s s' : Stage) (t : Task) (ts rest : List Task) (lost lost' : Nat → Nat → Prop)
    (l : Listener ListenerCall) : Prop where
  lost : ∀ m id, lost m id → lost' m id
  machine : ∀ m c, s.machine? m = some c → ∃ c', s'.machine? m = some c' ∧ c'.element = c.element ∧
    (l.element = c.element → l.id ∈ c.bound → l.id ∈ c'.bound ∨ lost' m l.id ∨ Detaching m l (ts ++ rest)) ∧
    ((l.element, l.id) ∈ c.triggers → (l.element, l.id) ∈ c'.triggers ∨ Detaching m l (ts ++ rest))
  bound : ∀ m k, t = .bound m k l.id → ∀ c', s'.machine? m = some c' → l.id ∈ c'.bound
  watched : ∀ m, t = .watched m l.element l.id → ∀ c', s'.machine? m = some c' → (l.element, l.id) ∈ c'.triggers
  detach : t ≠ .detach l.element l.id

theorem Tracked.carry {call : ListenerCall} (h : Tracked s (t :: rest) lost l call)
    (hc : Carried s s' t ts rest lost lost' l) : Tracked s' (ts ++ rest) lost' l call := by
  have hlater : ∀ {t' : Task}, t' ∈ t :: rest → t = t' ∨ t' ∈ ts ++ rest := fun h =>
    (List.mem_cons.1 h).imp Eq.symm (List.mem_append_right _)
  cases h with
  | outside label script => exact .outside label script
  | lost h => exact .lost (hc.lost _ _ h)
  | bound hm hel h =>
    obtain ⟨c', hc', hel', hbound, -⟩ := hc.machine _ _ hm
    rcases hbound hel h with h | h | h
    · exact .bound hc' (hel.trans hel'.symm) h
    · exact .lost h
    · exact .unbinding h
  | binding hm hel h =>
    obtain ⟨c', hc', hel', -, -⟩ := hc.machine _ _ hm
    rcases hlater h with h | h
    · exact .bound hc' (hel.trans hel'.symm) (hc.bound _ _ h c' hc')
    · exact .binding hc' (hel.trans hel'.symm) h
  | unbinding h => exact .unbinding (h.after hc.detach ts)
  | triggered hm h =>
    obtain ⟨c', hc', -, -, htriggers⟩ := hc.machine _ _ hm
    rcases htriggers h with h | h
    · exact .triggered hc' h
    · exact .unwatching h
  | watching hm h =>
    obtain ⟨c', hc', -⟩ := hc.machine _ _ hm
    rcases hlater h with h | h
    · exact .triggered hc' (hc.watched _ h c' hc')
    · exact .watching hc' h
  | unwatching h => exact .unwatching (h.after hc.detach ts)

/-- A task that neither notes a listener nor removes one, and leaves the machines as they are wired. -/
theorem Carried.of_wiring (hlost : ∀ m id, lost m id → lost' m id) (hkind : t.kind.knowsId = false)
    (h : s'.machines.map Machine.wiring = s.machines.map Machine.wiring) :
    Carried s s' t ts rest lost lost' l where
  lost := hlost
  machine m c hc := by
    obtain ⟨c', hc', hw⟩ := exists_machine?_of_wiring h hc
    refine ⟨c', hc', (congrArg Machine.element hw :), fun _ hid => .inl ?_, fun hid => .inl ?_⟩
    · rwa [show c'.bound = c.bound from (congrArg Machine.bound hw :)]
    · rwa [show c'.triggers = c.triggers from (congrArg Machine.triggers hw :)]
  bound _ _ ht := by rw [ht] at hkind; cases hkind
  watched _ ht := by rw [ht] at hkind; cases hkind
  detach ht := by rw [ht] at hkind; cases hkind

/-! ## What each task sees to -/

/-- What a task does to a machine is no harm to a listener whose id the machine knows. -/
theorem Rewired.carried {m : Nat} {c d : Machine} (h : Rewired m c t d ts) (hc : s.machine? m = some c)
    (hover : ∀ id, Config.overwrites m id ⟨s, t :: rest⟩ → lost' m id) :
    (l.element = c.element → l.id ∈ c.bound → l.id ∈ d.bound ∨ lost' m l.id ∨ Detaching m l (ts ++ rest)) ∧
    ((l.element, l.id) ∈ c.triggers → (l.element, l.id) ∈ d.triggers ∨ Detaching m l (ts ++ rest)) := by
  cases h with
  | kept => exact ⟨fun _ => .inl, .inl⟩
  | leaves =>
    refine ⟨fun hel hid => .inr (.inr ?_), .inl⟩
    rw [List.append_assoc]
    exact .of_mem (hel ▸ List.mem_map_of_mem hid) (.inr ⟨_, List.mem_cons_self, rfl⟩)
  | arrives => exact ⟨fun _ => .inl, .inl⟩
  | notes =>
    refine ⟨fun _ hid => ?_, fun ht => .inl (by rw [c.bind_eq]; exact ht)⟩
    refine (Machine.mem_bound_of_bind hid).imp_right fun hid => .inl (hover _ ⟨_, _, rest, rfl, ?_⟩)
    rw [hc]
    exact hid
  | @forgets slot id target hid =>
    refine ⟨fun hel hl => (Machine.mem_bound_of_unbind hl).imp_right fun hl => .inr ?_, .inl⟩
    -- the listener that the machine forgets is the one that the jump removes
    obtain rfl : l.id = id := Option.some.inj (hl.symm.trans hid)
    exact show Detaching m l ([.detach c.element l.id] ++ .transition m target :: rest) from
      .of_mem (hel ▸ List.mem_cons_self) (.inr ⟨_, List.mem_cons_self, rfl⟩)
  | watches => exact ⟨fun _ => .inl, fun ht => .inl (List.mem_append_left _ ht)⟩
  | closes =>
    rw [List.append_assoc _ [Task.closed m] rest]
    refine ⟨fun hel hid => .inr (.inr (.of_mem ?_ (.inl List.mem_cons_self))),
      fun ht => .inr (.of_mem ?_ (.inl List.mem_cons_self))⟩
    · exact List.mem_append_left _ (hel ▸ List.mem_map_of_mem hid)
    · exact List.mem_append_right _ (List.mem_map.2 ⟨(l.element, l.id), ht, rfl⟩)
  | closed => exact ⟨fun _ => .inl, .inl⟩

theorem Rewired.element {m : Nat} {c d : Machine} (h : Rewired m c t d ts) : d.element = c.element := by
  cases h with
  | notes => rw [c.bind_eq]
  | _ => rfl

/-- **A task that adds and removes no listener sees to it that every listener stays tracked.** -/
theorem carried_carryOut (ht : .listeners ∉ t.touches) (hlost : ∀ m id, lost m id → lost' m id)
    (hover : ∀ m id, Config.overwrites m id ⟨s, t :: rest⟩ → lost' m id) :
    Carried s (t.carryOut s rest).1 t (t.carryOut s rest).2 rest lost lost' l where
  lost := hlost
  machine m c hc := by
    obtain ⟨c', d, hc', hd, hw⟩ := rewired_carryOut t rest hc
    have helement : c'.element = d.element := (congrArg Machine.element hw :)
    have hbound : c'.bound = d.bound := (congrArg Machine.bound hw :)
    have htriggers : c'.triggers = d.triggers := (congrArg Machine.triggers hw :)
    refine ⟨c', hc', helement.trans hd.element, ?_⟩
    rw [hbound, htriggers]
    exact hd.carried hc (hover m)
  bound m k := by
    rintro rfl c' hc'
    rw [Task.carryOut, Stage.bound, machine?_mapMachine_self] at hc'
    obtain ⟨c, -, rfl⟩ := Option.map_eq_some_iff.1 hc'
    exact c.mem_bound_self ..
  watched m := by
    rintro rfl c' hc'
    rw [Task.carryOut, Stage.watched, machine?_mapMachine_self] at hc'
    obtain ⟨c, -, rfl⟩ := Option.map_eq_some_iff.1 hc'
    exact List.mem_append_right _ List.mem_cons_self
  detach := by
    rintro rfl
    exact ht List.mem_cons_self

/-- A listener that is added is tracked if the task that is left with its id keeps it. -/
theorem tracked_attach {el : ElementId} {event : String} {call : ListenerCall} {next : Nat → Task}
    (h : ∀ l ∈ s.page.listeners, Tracked s (t :: rest) lost l l.call) (ht : t.kind.knowsId = false)
    (hlost : ∀ m id, lost m id → lost' m id)
    (hnext : ∀ agenda, next s.page.nextId ∈ agenda → Tracked (s.mapPage (·.addListener el event call)) agenda lost'
      ⟨s.page.nextId, el, event, call⟩ call) :
    ∀ l ∈ (s.attach el event call next).1.page.listeners,
      Tracked (s.attach el event call next).1 ((s.attach el event call next).2 ++ rest) lost' l l.call := by
  intro l hl
  rcases List.mem_append.1 hl with hl | hl
  · exact (h l hl).carry (.of_wiring hlost ht rfl)
  · obtain rfl := List.mem_singleton.1 hl
    exact hnext _ (List.mem_append_left _ (List.mem_append_right _ List.mem_cons_self))

theorem tracked_bind {m : Nat} {slot : Slot} {again : Bool}
    (h : ∀ l ∈ s.page.listeners, Tracked s (.bind m slot again :: rest) lost l l.call)
    (hlost : ∀ m id, lost m id → lost' m id) :
    ∀ l ∈ (s.bind m slot again).1.page.listeners,
      Tracked (s.bind m slot again).1 ((s.bind m slot again).2 ++ rest) lost' l l.call := by
  have hstay : ∀ l ∈ s.page.listeners, Tracked s ([] ++ rest) lost' l l.call := fun l hl =>
    (h l hl).carry (.of_wiring hlost rfl rfl)
  unfold bind
  split
  · exact hstay
  · rename_i c hc
    split
    · exact hstay
    · exact fun l hl => (h l hl).carry (.of_wiring hlost rfl rfl)
    · split
      · exact hstay
      · exact tracked_attach h rfl hlost fun agenda hmem => .binding hc rfl hmem

/-- What is removed by its id is gone. -/
theorem tracked_detach {el : ElementId} {id : Nat}
    (h : ∀ l ∈ s.page.listeners, Tracked s (.detach el id :: rest) lost l l.call)
    (hlost : ∀ m id, lost m id → lost' m id) :
    ∀ l ∈ (s.detach el id).1.page.listeners,
      Tracked (s.detach el id).1 ((s.detach el id).2 ++ rest) lost' l l.call := by
  intro l hl
  obtain ⟨hl, hne⟩ := List.mem_filter.1 hl
  refine (h l hl).carry ⟨hlost, fun m c hc => ⟨c, hc, rfl, fun _ => .inl, .inl⟩, ?_, ?_, ?_⟩
  · exact fun _ _ ht => by cases ht
  · exact fun _ ht => by cases ht
  · rintro ⟨⟩
    simp at hne

/-- The listeners that are on the page after a task were there before, or the task that added one has left another task
that knows its id; and what a task removes is gone. -/
theorem tracked_after (h : ∀ l ∈ s.page.listeners, Tracked s (t :: rest) lost l l.call)
    (hheld : Held ⟨s, t :: rest⟩) (hlost : ∀ m id, lost m id → lost' m id)
    (hover : ∀ m id, Config.overwrites m id ⟨s, t :: rest⟩ → lost' m id) :
    ∀ l ∈ (Config.after s t rest).stage.page.listeners,
      Tracked (Config.after s t rest).stage (Config.after s t rest).agenda lost' l l.call := by
  by_cases ht : .listeners ∈ t.touches
  · cases t with
    | cue c =>
      cases c with
      | addListener el event label script =>
        intro l hl
        rcases List.mem_append.1 hl with hl | hl
        · exact (h l hl).carry (.of_wiring hlost rfl rfl)
        · obtain rfl := List.mem_singleton.1 hl
          exact .outside label script
      | removeListener el id =>
        exact fun l hl => (h l (List.mem_filter.1 hl).1).carry (.of_wiring hlost rfl rfl)
      | _ => simp [Task.touches, Cue.touches] at ht
    | detach el id => exact tracked_detach h hlost
    | watch m el event state =>
      obtain ⟨c, hc⟩ := exists_machine?_of_isLive (isLive_of_held hheld rfl)
      exact tracked_attach h rfl hlost fun agenda hmem => .watching hc hmem
    | bind m slot again => exact tracked_bind h hlost
    | release hold => cases hold <;> simp [Task.touches] at ht
    | _ => simp [Task.touches] at ht
  · intro l hl
    rw [show (Config.after s t rest).stage.page.listeners = s.page.listeners from
      ((within_carryOut s rest t).touched.agree .listeners ht).1] at hl
    exact (h l hl).carry (carried_carryOut ht hlost hover)

end

end Stage

open Stage

/-- **Every listener by which a machine acts stays tracked**, whatever the host dispatches from inside its calls. -/
theorem Course.tracked {manners : Manners} {c : Config} {past : List Config} (h : Course manners (c :: past)) :
    ∀ l ∈ c.stage.page.listeners,
      Tracked c.stage c.agenda (fun m id => ∃ b ∈ past, b.overwrites m id) l l.call := by
  generalize hcs : c :: past = cs at h
  induction h generalizing c past with
  | opened =>
    cases hcs
    exact fun l hl => by cases hl
  | cleared h ih =>
    cases hcs
    refine fun l hl => Tracked.of_rest (ih rfl l hl) ?_ ?_ _
    · exact fun _ => rfl
    · exact fun m id ⟨b, hb, hover⟩ => ⟨b, List.mem_cons_of_mem _ hb, hover⟩
  | called cue h ih =>
    cases hcs
    refine fun l hl => Tracked.of_rest (ih rfl l hl) ?_ ?_ _
    · exact fun _ => rfl
    · exact fun m id ⟨b, hb, hover⟩ => ⟨b, List.mem_cons_of_mem _ hb, hover⟩
  | @stepped b _ past h hstep ih =>
    cases hcs
    obtain ⟨s, agenda⟩ := b
    cases agenda with
    | nil => cases hstep
    | cons t rest =>
      rw [Config.step?_cons, Option.some.injEq] at hstep
      rw [← hstep]
      exact tracked_after (ih rfl) h.held (fun m id ⟨b, hb, hover⟩ => ⟨b, List.mem_cons_of_mem _ hb, hover⟩)
        fun m id hover => ⟨_, List.mem_cons_self, hover⟩

end Stagecraft
