import Stagecraft.Proofs.Stage.Naming
import Stagecraft.Proofs.Stage.Offspring
/-!
# What a transition does

A transition moves a machine into a state, whichever state that is and from wherever the machine comes.  It exchanges
the listeners of the machine and leaves calls for the next frame, and there is nothing else on the stage that it
touches.
-/
namespace Stagecraft

/-! ## Noting listeners -/

namespace Machine

section
variable {k i : Nat}

theorem find?_setListener_self {o : Option Nat} : ∀ {bs : List Binding}, (bs.any fun b => b.index = k) = true →
    (setListener k o bs).find? (fun b => b.index = k) = some ⟨k, o⟩
  | [], h => by cases h
  | b :: bs, h => by
    unfold setListener
    split
    · rw [List.find?_cons_of_pos (by simp)]
    · rename_i hb
      rw [List.find?_cons_of_neg (by simpa using hb)]
      rw [List.any_cons, Bool.or_eq_true] at h
      exact find?_setListener_self (h.resolve_left (by simpa using hb))

theorem find?_setListener_ne (h : i ≠ k) (o : Option Nat) : ∀ bs : List Binding,
    (setListener k o bs).find? (fun b => b.index = i) = bs.find? fun b => b.index = i
  | [] => rfl
  | b :: bs => by
    unfold setListener
    split
    · rename_i hb
      rw [List.find?_cons_of_neg (by simpa using h.symm), List.find?_cons_of_neg (by simpa [hb] using h.symm)]
    · rw [List.find?_cons, List.find?_cons, find?_setListener_ne h o bs]

theorem any_setListener_ne (h : i ≠ k) (o : Option Nat) : ∀ bs : List Binding,
    ((setListener k o bs).any fun b => b.index = i && b.listener.isSome) =
      bs.any fun b => b.index = i && b.listener.isSome
  | [] => rfl
  | b :: bs => by
    unfold setListener
    split
    · rename_i hb
      simp [hb, h.symm]
    · rw [List.any_cons, List.any_cons, any_setListener_ne h o bs]

theorem listenerOf?_bind_self (c : Machine) (k id : Nat) : (c.bind k id).listenerOf? k = some id := by
  unfold listenerOf? Machine.bind
  split
  · rename_i hany
    rw [find?_setListener_self hany]
    rfl
  · rename_i hany
    have hnone : c.bindings.find? (fun b => b.index = k) = none := by
      rw [List.find?_eq_none]
      intro b hb hk
      exact hany (List.any_eq_true.2 ⟨b, hb, hk⟩)
    rw [List.find?_append, hnone]
    simp

theorem listenerOf?_bind_ne (c : Machine) (h : i ≠ k) (id : Nat) : (c.bind k id).listenerOf? i = c.listenerOf? i := by
  unfold listenerOf? Machine.bind
  split
  · rw [find?_setListener_ne h]
  · rw [List.find?_append]
    simp [h.symm]

theorem isAttached_bind_ne (c : Machine) (h : i ≠ k) (id : Nat) : (c.bind k id).isAttached i = c.isAttached i := by
  unfold isAttached Machine.bind
  split
  · exact any_setListener_ne h _ _
  · simp [List.any_append, h.symm]

theorem isAttached_of_listenerOf? {c : Machine} {id : Nat} (h : c.listenerOf? k = some id) :
    c.isAttached k = true := by
  obtain ⟨before, after, heq, -⟩ := exists_of_listenerOf? h
  rw [isAttached, heq]
  simp

end

/-- The machine once it has noted listeners for these events, with the ids from `id` on. -/
def noteAll (c : Machine) : Nat → List (Nat × String) → Machine
  | _, [] => c
  | id, e :: es => (c.bind e.1 id).noteAll (id + 1) es

/-- The listeners of the current state for these events, with the ids from `id` on. -/
def listenersFor (c : Machine) (m : Nat) : Nat → List (Nat × String) → List (Listener ListenerCall)
  | _, [] => []
  | id, e :: es => c.listenerFor m e id :: c.listenersFor m (id + 1) es

/-- The machine when it has come to a state and has bound nothing yet. -/
def inState (c : Machine) (state : String) : Machine :=
  { c with current := some state, bindings := if c.current = some state then c.bindings else [] }

/-- The events of a state for which a machine that comes there has no listener. -/
def missing (c : Machine) (state : String) : List (Nat × String) :=
  (c.inState state).hearing.filter fun e => !(c.inState state).isAttached e.1

/-- Noting listeners changes nothing but the bindings. -/
theorem noteAll_eq : ∀ (es : List (Nat × String)) (c : Machine) (id : Nat),
    c.noteAll id es = { c with bindings := (c.noteAll id es).bindings }
  | [], _, _ => rfl
  | e :: es, c, id => by
    rw [noteAll, noteAll_eq es, c.bind_eq]

theorem listenerOf?_noteAll_of_ne : ∀ {es : List (Nat × String)} {c : Machine} {id k : Nat}, (∀ e ∈ es, e.1 ≠ k) →
    (c.noteAll id es).listenerOf? k = c.listenerOf? k
  | [], _, _, _, _ => rfl
  | e :: es, c, id, k, h => by
    obtain ⟨he, hes⟩ := List.forall_mem_cons.1 h
    rw [noteAll, listenerOf?_noteAll_of_ne hes, listenerOf?_bind_ne c he.symm]

/-- Each of the new listeners is noted for the place of its reaction. -/
theorem listenerOf?_noteAll_of_mem : ∀ {es : List (Nat × String)} {c c' : Machine} {m id : Nat},
    (es.map Prod.fst).Nodup → ∀ {l : Listener ListenerCall}, l ∈ c'.listenersFor m id es → ∀ {n : Nat} {slot : Slot},
    l.call = .react n slot → (c.noteAll id es).listenerOf? slot.index = some l.id
  | [], _, _, _, _, _, _, hl, _, _, _ => by cases hl
  | e :: es, c, c', m, id, hnodup, l, hl, n, slot, hcall => by
    obtain ⟨hnot, hnodup⟩ := List.nodup_cons.1 hnodup
    rw [noteAll]
    rcases List.mem_cons.1 hl with rfl | hl
    · obtain ⟨-, rfl⟩ := ListenerCall.react.inj hcall
      rw [listenerOf?_noteAll_of_ne fun e' he' heq => hnot (List.mem_map.2 ⟨e', he', heq⟩)]
      exact listenerOf?_bind_self c e.1 id
    · exact listenerOf?_noteAll_of_mem hnodup hl hcall

theorem mem_listenersFor {c : Machine} {m : Nat} : ∀ {es : List (Nat × String)} {id : Nat} {l : Listener ListenerCall},
    l ∈ c.listenersFor m id es → l.element = c.element ∧ id ≤ l.id
  | [], _, _, hl => by cases hl
  | e :: es, id, l, hl => by
    rcases List.mem_cons.1 hl with rfl | hl
    · exact ⟨rfl, Nat.le_refl _⟩
    · obtain ⟨hel, hid⟩ := mem_listenersFor hl
      exact ⟨hel, Nat.le_of_succ_le hid⟩

theorem listenersFor_congr {c c' : Machine} (hel : c'.element = c.element) (hcur : c'.current = c.current) (m : Nat) :
    ∀ (id : Nat) (es : List (Nat × String)), c'.listenersFor m id es = c.listenersFor m id es
  | _, [] => rfl
  | id, e :: es => by
    rw [listenersFor, listenersFor, listenersFor_congr hel hcur m (id + 1) es, listenerFor, listenerFor, hel, hcur]

theorem nodup_hearing : ∀ (k : Nat) (rs : List Reaction), ((Reaction.hearing k rs).map Prod.fst).Nodup
  | _, [] => List.nodup_nil
  | k, r :: rs => by
    cases hr : r.on with
    | entry =>
      rw [Reaction.hearing_cons_of_entry hr]
      exact nodup_hearing (k + 1) rs
    | event name =>
      rw [Reaction.hearing_cons_of_event hr, List.map_cons, List.nodup_cons]
      refine ⟨fun hmem => ?_, nodup_hearing (k + 1) rs⟩
      obtain ⟨e, he, heq⟩ := List.mem_map.1 hmem
      have := (Reaction.le_of_mem_hearing he).1
      omega

theorem nodup_missing (c : Machine) (state : String) : ((c.missing state).map Prod.fst).Nodup := by
  refine List.Nodup.sublist (List.filter_sublist.map _) ?_
  unfold hearing
  split
  · exact nodup_hearing 0 _
  · exact List.nodup_nil

end Machine

namespace Stage

/-- The stage once a machine has bound the reactions to these events, and has left these reactions to the entry for the
next frame. -/
def equip (s : Stage) (m : Nat) (c : Machine) (heard : List (Nat × String)) (entered : List Slot) : Stage :=
  { s.mapMachine m fun _ => c.noteAll s.page.nextId heard with
    page := { s.page with
      lastId := s.page.lastId + heard.length
      listeners := s.page.listeners ++ c.listenersFor m s.page.nextId heard }
    frames := { s.frames with waiting := s.frames.waiting ++ entered.map (.react m) } }

section
variable {s : Stage} {m : Nat} {c : Machine} {state : String} {rest : List Task}

theorem mapMachine_eq_self (hc : s.machine? m = some c) : s.mapMachine m (fun _ => c) = s := by
  have hmachines : s.machines.modify m (fun _ => c) = s.machines := by
    refine List.ext_getElem? fun n => ?_
    rw [List.getElem?_modify]
    split
    · rename_i hn
      rw [← hn, show s.machines[m]? = some c from hc]
      rfl
    · simp
  rw [mapMachine, hmachines]

theorem mapMachine_eq_const (hc : s.machine? m = some c) (f : Machine → Machine) :
    s.mapMachine m f = s.mapMachine m fun _ => f c := by
  have hmachines : s.machines.modify m f = s.machines.modify m fun _ => f c := by
    refine List.ext_getElem? fun n => ?_
    rw [List.getElem?_modify, List.getElem?_modify]
    split
    · rename_i hn
      rw [← hn, show s.machines[m]? = some c from hc]
      rfl
    · rfl
  rw [mapMachine, mapMachine, hmachines]

theorem mapMachine_mapMachine (s : Stage) (m : Nat) (f g : Machine → Machine) :
    (s.mapMachine m f).mapMachine m g = s.mapMachine m (g ∘ f) := by
  rw [mapMachine, mapMachine, mapMachine, List.modify_modify_eq]

/-! ## Binding reactions -/

theorem equip_nil (hc : s.machine? m = some c) : s.equip m c [] [] = s := by
  simp only [equip, Machine.noteAll, mapMachine_eq_self hc, Machine.listenersFor, List.append_nil, List.map_nil,
    List.length_nil, Nat.add_zero]

theorem equip_schedule (slot : Slot) (heard : List (Nat × String)) (entered : List Slot) :
    (s.schedule (.react m slot)).equip m c heard entered = s.equip m c heard (slot :: entered) := by
  simp only [equip, schedule, Frames.schedule, List.map_cons, List.append_assoc, List.cons_append, List.nil_append]
  rfl

theorem equip_bind (hcur : c.current = some state) (k : Nat) (name : String) (heard : List (Nat × String))
    (entered : List Slot) :
    ((s.mapPage (·.addListener c.element name (.react m ⟨state, k⟩))).mapMachine m fun _ =>
        c.bind k s.page.nextId).equip m (c.bind k s.page.nextId) heard entered =
      s.equip m c ((k, name) :: heard) entered := by
  have hlistener : (⟨s.page.nextId, c.element, name, .react m ⟨state, k⟩⟩ : Listener ListenerCall) =
      c.listenerFor m (k, name) s.page.nextId := by
    rw [Machine.listenerFor, hcur]
    rfl
  have hlisteners : (c.bind k s.page.nextId).listenersFor m (s.page.nextId + 1) heard =
      c.listenersFor m (s.page.nextId + 1) heard :=
    Machine.listenersFor_congr (by rw [c.bind_eq]) (by rw [c.bind_eq]) m _ _
  have hlisteners' : s.page.listeners ++ [⟨s.page.nextId, c.element, name, .react m ⟨state, k⟩⟩] ++
      (c.bind k s.page.nextId).listenersFor m (s.page.nextId + 1) heard =
        s.page.listeners ++ c.listenersFor m s.page.nextId ((k, name) :: heard) := by
    rw [hlisteners, hlistener, List.append_assoc]
    rfl
  have hlast : s.page.nextId + heard.length = s.page.lastId + ((k, name) :: heard).length := by
    rw [Page.nextId, List.length_cons]
    omega
  simp only [equip, mapMachine_mapMachine]
  rw [← hlisteners', ← hlast]
  rfl

/-- The events among these reactions for which the machine has no listener yet. -/
def unheard (c : Machine) (again : Bool) (k : Nat) (rs : List Reaction) : List (Nat × String) :=
  (Reaction.hearing k rs).filter fun e => !(again && c.isAttached e.1)

/-- The reactions to the entry among the `n` from the place `k` on. -/
def entering (c : Machine) (state : String) (k n : Nat) : List Slot :=
  ((List.range' k n).map (Slot.mk state)).filter fun slot => (c.reaction? slot).any Reaction.isEntry

theorem unheard_of_entry {r : Reaction} (hr : r.on = .entry) (c : Machine) (again : Bool) (k : Nat)
    (rs : List Reaction) : unheard c again k (r :: rs) = unheard c again (k + 1) rs := by
  rw [unheard, Reaction.hearing_cons_of_entry hr, unheard]

theorem unheard_of_event {r : Reaction} {name : String} (hr : r.on = .event name) (c : Machine) (again : Bool)
    (k : Nat) (rs : List Reaction) : unheard c again k (r :: rs) =
      if again && c.isAttached k then unheard c again (k + 1) rs else (k, name) :: unheard c again (k + 1) rs := by
  rw [unheard, Reaction.hearing_cons_of_event hr, List.filter_cons, unheard]
  by_cases h : (again && c.isAttached k) = true
  · simp [h]
  · simp [h]

/-- A listener noted for one place is not missed at any later one. -/
theorem unheard_bind (c : Machine) (again : Bool) (k id : Nat) (rs : List Reaction) :
    unheard (c.bind k id) again (k + 1) rs = unheard c again (k + 1) rs := by
  refine List.filter_congr fun e he => ?_
  have hne : e.1 ≠ k := by
    have := (Reaction.le_of_mem_hearing he).1
    omega
  rw [c.isAttached_bind_ne hne]

theorem entering_succ (c : Machine) (state : String) (k n : Nat) : entering c state k (n + 1) =
    if (c.reaction? ⟨state, k⟩).any Reaction.isEntry then ⟨state, k⟩ :: entering c state (k + 1) n
    else entering c state (k + 1) n := by
  rw [entering, List.range'_succ, List.map_cons, List.filter_cons]
  rfl

theorem entering_bind (c : Machine) (k id : Nat) (state : String) (i n : Nat) :
    entering (c.bind k id) state i n = entering c state i n := by
  rw [c.bind_eq]
  rfl

/-- What it takes to bind one reaction: nothing more, or the listener that has been added is noted. -/
theorem run_bind {r : Reaction} {again : Bool} {k : Nat} (hs : s.manners.sparesListeners = true)
    (hc : s.machine? m = some c) (hr : c.reaction? ⟨state, k⟩ = some r) :
    ∃ n, Config.run n ⟨s, .bind m ⟨state, k⟩ again :: rest⟩ = ⟨match r.on with
      | .entry => s.schedule (.react m ⟨state, k⟩)
      | .event name =>
        if again && c.isAttached k then s
        else (s.mapPage (·.addListener c.element name (.react m ⟨state, k⟩))).mapMachine m fun _ =>
          c.bind k s.page.nextId, rest⟩ := by
  have hbind : Task.carryOut s rest (.bind m ⟨state, k⟩ again) = match r.on with
      | .entry => (s.schedule (.react m ⟨state, k⟩), [])
      | .event name =>
        if again && c.isAttached k then (s, [])
        else s.attach c.element name (.react m ⟨state, k⟩) (.bound m k) := by
    simp only [Task.carryOut, bind, hc, hr, Option.map_some]
    cases r.on <;> rfl
  cases hon : r.on with
  | entry =>
    rw [hon] at hbind
    refine ⟨1, ?_⟩
    rw [run_succ, Config.after, hbind]
    rfl
  | event name =>
    rw [hon] at hbind
    simp only at hbind ⊢
    by_cases hatt : (again && c.isAttached k) = true
    · rw [if_pos hatt] at hbind ⊢
      refine ⟨1, ?_⟩
      rw [run_succ, Config.after, hbind]
      rfl
    · rw [if_neg hatt] at hbind ⊢
      rw [attach, reflexes_addListener hs, List.nil_append] at hbind
      have hc' : (s.mapPage (·.addListener c.element name (.react m ⟨state, k⟩))).machine? m = some c := hc
      refine ⟨2, ?_⟩
      rw [run_succ, Config.after, hbind, ← mapMachine_eq_const hc' (·.bind k s.page.nextId)]
      rfl

/-- **The reactions of a state are bound one after another.** -/
theorem run_binds {d : StateDecl} {again : Bool} : ∀ {post pre : List Reaction} {s : Stage} {c : Machine},
    s.manners.sparesListeners = true → s.machine? m = some c → c.current = some state → c.state? state = some d →
    d.reactions = pre ++ post → ∃ n, Config.run n ⟨s, binds m state again pre.length post.length ++ rest⟩ =
      ⟨s.equip m c (unheard c again pre.length post) (entering c state pre.length post.length), rest⟩
  | [], pre, s, c, _, hc, _, _, _ => ⟨0, by
    rw [show unheard c again pre.length [] = [] from rfl,
      show entering c state pre.length ([] : List Reaction).length = [] from rfl, equip_nil hc]
    rfl⟩
  | r :: post, pre, s, c, hs, hc, hcur, hd, hr => by
    have hreaction := reaction?_of_split hd hr
    obtain ⟨k, hk⟩ : ∃ n, Config.run n ⟨s, .bind m ⟨state, pre.length⟩ again ::
        (binds m state again (pre.length + 1) post.length ++ rest)⟩ = _ := run_bind hs hc hreaction
    have hlength : (pre ++ [r]).length = pre.length + 1 := List.length_append
    have hr' : d.reactions = (pre ++ [r]) ++ post := by rw [hr, List.append_assoc]; rfl
    -- the stage after the first reaction, and the machine there
    have hrest : ∀ {s' : Stage} {c' : Machine}, Config.run k ⟨s, .bind m ⟨state, pre.length⟩ again ::
          (binds m state again (pre.length + 1) post.length ++ rest)⟩ =
        ⟨s', binds m state again (pre.length + 1) post.length ++ rest⟩ →
        s'.manners.sparesListeners = true → s'.machine? m = some c' → c'.current = some state →
        c'.state? state = some d →
        s'.equip m c' (unheard c' again (pre.length + 1) post) (entering c' state (pre.length + 1) post.length) =
          s.equip m c (unheard c again pre.length (r :: post)) (entering c state pre.length (post.length + 1)) →
        ∃ n, Config.run n ⟨s, binds m state again pre.length (r :: post).length ++ rest⟩ =
          ⟨s.equip m c (unheard c again pre.length (r :: post)) (entering c state pre.length (r :: post).length),
            rest⟩ := by
      intro s' c' hrun hs' hc' hcur' hd' heq
      obtain ⟨n, hn⟩ := run_binds hs' hc' hcur' hd' hr'
      rw [hlength] at hn
      refine ⟨k + n, ?_⟩
      rw [List.length_cons, binds_succ, List.cons_append, Config.run_add, hrun, hn, heq]
    cases hon : r.on with
    | entry =>
      rw [hon] at hk
      refine hrest hk hs hc hcur hd ?_
      rw [equip_schedule, unheard_of_entry hon, entering_succ, hreaction]
      simp [Reaction.isEntry, hon, Occasion.isEntry]
    | event name =>
      rw [hon] at hk
      have hentering : entering c state pre.length (post.length + 1) =
          entering c state (pre.length + 1) post.length := by
        rw [entering_succ, hreaction]
        simp [Reaction.isEntry, hon, Occasion.isEntry]
      simp only at hk
      by_cases hatt : (again && c.isAttached pre.length) = true
      · rw [if_pos hatt] at hk
        refine hrest hk hs hc hcur hd ?_
        rw [unheard_of_event hon, if_pos hatt, hentering]
      · rw [if_neg hatt] at hk
        have hc' : ((s.mapPage (·.addListener c.element name (.react m ⟨state, pre.length⟩))).mapMachine m fun _ =>
            c.bind pre.length s.page.nextId).machine? m = some (c.bind pre.length s.page.nextId) := by
          rw [machine?_mapMachine_self, show (s.mapPage _).machine? m = some c from hc]
          rfl
        refine hrest hk hs hc' (by rw [c.bind_eq]; exact hcur) (by rw [c.bind_eq]; exact hd) ?_
        rw [unheard_bind, entering_bind, equip_bind hcur, unheard_of_event hon, if_neg hatt, hentering]

/-! ## Leaving a state and arriving in one -/

/-- If the host spares listeners, those with given ids are taken off an element one after another. -/
theorem run_detaches (el : ElementId) : ∀ (ids : List Nat) (s : Stage), s.manners.sparesListeners = true →
    Config.run ids.length ⟨s, ids.map (.detach el) ++ rest⟩ = ⟨s.mapPage fun p => { p with
      listeners := p.listeners.filter fun l => !(l.element = el && ids.contains l.id) }, rest⟩
  | [], s, _ => by
    have hall : s.page.listeners.filter (fun l => !(decide (l.element = el) && [].contains l.id)) = s.page.listeners :=
      List.filter_eq_self.2 fun l _ => by simp
    rw [mapPage, hall]
    rfl
  | id :: ids, s, hs => by
    have hleft : (Task.carryOut s (ids.map (.detach el) ++ rest) (.detach el id)).2 = [] :=
      reflexes_removeListener hs _ _
    rw [List.map_cons, List.cons_append, List.length_cons, run_succ, Config.after, hleft, List.nil_append]
    rw [show (Task.carryOut s (ids.map (.detach el) ++ rest) (.detach el id)).1 =
      s.mapPage (·.removeListener el id) from rfl, run_detaches el ids (s.mapPage (·.removeListener el id)) hs]
    have hfilter : (s.page.removeListener el id).listeners.filter
        (fun l => !(decide (l.element = el) && ids.contains l.id)) =
          s.page.listeners.filter fun l => !(decide (l.element = el) && (id :: ids).contains l.id) := by
      rw [Page.removeListener, List.filter_filter]
      refine List.filter_congr fun l _ => ?_
      rw [List.contains_cons]
      by_cases hel : l.element = el <;> by_cases hid : l.id = id <;> simp [hel, hid]
    simp only [mapPage]
    rw [hfilter]
    rfl

/-- The listeners that a machine has no part in, or all of them if it is in the state already. -/
def keeping (s : Stage) (m : Nat) (c : Machine) (state : String) : List (Listener ListenerCall) :=
  if c.current = some state then s.page.listeners else s.page.listeners.filter fun l => !l.call.reacts m

/-- The stage when a machine has left its state, if it has to, and has not arrived yet. -/
def vacate (s : Stage) (m : Nat) (c : Machine) (state : String) : Stage :=
  { s.mapMachine m fun _ => { c with bindings := (c.inState state).bindings } with
    page := { s.page with listeners := s.keeping m c state } }

theorem vacate_of_current (hc : s.machine? m = some c) (hcur : c.current = some state) : s.vacate m c state = s := by
  have hbindings : { c with bindings := (c.inState state).bindings } = c := by
    rw [Machine.inState, if_pos hcur]
  rw [vacate, hbindings, mapMachine_eq_self hc, keeping, if_pos hcur]

/-- **A machine leaves its state before it comes to another**: its own listeners are removed, and nothing is added. -/
theorem run_transition (hs : s.manners.sparesListeners = true) (hc : s.machine? m = some c)
    (hids : ∀ l ∈ s.page.listeners, l.call.reacts m = true ↔ l.element = c.element ∧ l.id ∈ c.bound) :
    ∃ k, Config.run k ⟨s, .transition m state :: rest⟩ =
      ⟨s.vacate m c state, .arrive m state (c.current = some state) :: rest⟩ := by
  by_cases hcur : c.current = some state
  · have hcarry : Task.carryOut s rest (.transition m state) = (s, [.arrive m state true]) := by
      simp only [Task.carryOut, transition, hc, hcur, if_true]
    refine ⟨1, ?_⟩
    rw [run_succ, Config.after, hcarry, vacate_of_current hc hcur, decide_eq_true hcur]
    rfl
  · have hcarry : Task.carryOut s rest (.transition m state) =
        (s.mapMachine m fun _ => { c with bindings := [] },
          c.bound.map (.detach c.element) ++ [.arrive m state false]) := by
      rw [← mapMachine_eq_const hc fun c => { c with bindings := [] }]
      simp only [Task.carryOut, transition, hc, hcur, if_false]
    have hkept : s.page.listeners.filter (fun l => !(decide (l.element = c.element) && c.bound.contains l.id)) =
        s.keeping m c state := by
      rw [keeping, if_neg hcur]
      refine List.filter_congr fun l hl => ?_
      rw [Bool.not_inj_iff, Bool.eq_iff_iff, hids l hl]
      simp
    have hvacate : (s.mapMachine m fun _ => { c with bindings := [] }).mapPage (fun p => { p with
        listeners := p.listeners.filter fun l => !(decide (l.element = c.element) && c.bound.contains l.id) }) =
          s.vacate m c state := by
      rw [vacate, ← hkept, Machine.inState, if_neg hcur]
      rfl
    refine ⟨c.bound.length + 1, ?_⟩
    rw [run_succ, Config.after, hcarry, List.append_assoc, run_detaches c.element c.bound
      (s.mapMachine m fun _ => { c with bindings := [] }) hs, hvacate, decide_eq_false hcur]
    rfl

theorem missing_eq_unheard {d : StateDecl} (hd : c.state? state = some d) : c.missing state =
    unheard (c.inState state) (c.current = some state) 0 d.reactions := by
  have hhearing : (c.inState state).hearing = Reaction.hearing 0 d.reactions := by
    rw [hearing_of_current (show (c.inState state).current = some state from rfl),
      show (c.inState state).state? state = some d from hd]
  rw [Machine.missing, hhearing]
  refine List.filter_congr fun e _ => ?_
  by_cases hcur : c.current = some state
  · rw [decide_eq_true hcur, Bool.true_and]
  · have hnone : (c.inState state).isAttached e.1 = false := by
      rw [Machine.isAttached, Machine.inState, if_neg hcur]
      rfl
    rw [hnone, Bool.and_false]

theorem missing_of_unknown (hd : c.state? state = none) : c.missing state = [] := by
  rw [Machine.missing, hearing_of_current (show (c.inState state).current = some state from rfl),
    show (c.inState state).state? state = none from hd]
  rfl

theorem entries_eq_entering {d : StateDecl} (hd : c.state? state = some d) : c.entries state =
    entering (c.inState state) state 0 d.reactions.length := by
  rw [Machine.entries, hd, entering, List.range_eq_range']
  rfl

theorem entries_of_unknown (hd : c.state? state = none) : c.entries state = [] := by
  rw [Machine.entries, hd]
  rfl

/-- **A machine that arrives in a state binds what is missing there**, and leaves its reactions to the entry for the
next frame. -/
theorem run_arrive {again : Bool} (hs : s.manners.sparesListeners = true)
    (hc : s.machine? m = some { c with bindings := (c.inState state).bindings })
    (hagain : again = decide (c.current = some state)) : ∃ n notice, Config.run n ⟨s, .arrive m state again :: rest⟩ =
      ⟨((s.mapMachine m fun _ => c.inState state).notify notice).equip m (c.inState state) (c.missing state)
        (c.entries state), rest⟩ := by
  subst hagain
  have hstage : (s.mapMachine m fun c' =>
      { c' with current := if decide (c.current = some state) then c'.current else some state }) =
      s.mapMachine m fun _ => c.inState state := by
    rw [mapMachine_eq_const hc, Machine.inState]
    by_cases hcur : c.current = some state
    · simp [hcur]
    · simp [hcur]
  have hc' : (s.mapMachine m fun _ => c.inState state).machine? m = some (c.inState state) := by
    rw [machine?_mapMachine_self, hc]
    rfl
  have hstate : (c.inState state).state? state = c.state? state := rfl
  cases hd : c.state? state with
  | none =>
    have hcarry : Task.carryOut s rest (.arrive m state (c.current = some state)) =
        ((s.mapMachine m fun _ => c.inState state).notify (.stateUnknown c.element state), []) := by
      simp only [Task.carryOut, arrive, hstage, hc', hstate, hd]
      rfl
    refine ⟨1, .stateUnknown c.element state, ?_⟩
    rw [run_succ, Config.after, hcarry, missing_of_unknown hd, entries_of_unknown hd, equip_nil]
    · rfl
    · exact hc'
  | some d =>
    have hcarry : Task.carryOut s rest (.arrive m state (c.current = some state)) =
        ((s.mapMachine m fun _ => c.inState state).notify (.stateEntered c.element state (c.current = some state)),
          binds m state (c.current = some state) 0 d.reactions.length) := by
      rw [← binds_eq]
      simp only [Task.carryOut, arrive, hstage, hc', hstate, hd]
      rfl
    let entered := (s.mapMachine m fun _ => c.inState state).notify
      (.stateEntered c.element state (c.current = some state))
    have hs' : entered.manners.sparesListeners = true := hs
    have hentered : entered.machine? m = some (c.inState state) := hc'
    obtain ⟨n, hn⟩ : ∃ n, Config.run n ⟨entered, binds m state (c.current = some state) 0 d.reactions.length ++ rest⟩ =
        _ :=
      run_binds hs' hentered rfl hd (show d.reactions = [] ++ d.reactions from rfl)
    refine ⟨n + 1, .stateEntered c.element state (c.current = some state), ?_⟩
    rw [run_succ, Config.after, hcarry, hn, missing_eq_unheard hd, entries_eq_entering hd]
    rfl

end

end Stage
open Stage

/-- What a transition into a state has done to a stage with this machine on it, when it is over. -/
structure Moved (m : Nat) (c : Machine) (state : String) (s s' : Stage) : Prop where
  /-- The listeners for the events of the state that had none come behind the others. -/
  listeners : s'.page.listeners =
    s.keeping m c state ++ (c.inState state).listenersFor m s.page.nextId (c.missing state)
  /-- They are on the element of the machine, and their ids are new. -/
  fresh : ∀ l' ∈ (c.inState state).listenersFor m s.page.nextId (c.missing state), l'.element = c.element ∧
    ∀ l ∈ s.page.listeners, l.id < l'.id
  /-- Nothing is done to the listeners on any other element. -/
  others : ∀ el, el ≠ c.element → s'.page.listenersOn el = s.page.listenersOn el
  /-- Each reaction to the entry waits once for the next frame, behind what waits already. -/
  frames : s'.frames.waiting = s.frames.waiting ++ (c.entries state).map (.react m)
  /-- The machine is in the state.  It has noted the new listeners, and what it had noted there it has kept. -/
  machine : ∃ c', s'.machine? m = some c' ∧ c' = { c with current := some state, bindings := c'.bindings } ∧
    (∀ l ∈ (c.inState state).listenersFor m s.page.nextId (c.missing state), ∀ n slot, l.call = .react n slot →
      c'.listenerOf? slot.index = some l.id) ∧
    (c.current = some state → ∀ k id, c.listenerOf? k = some id → c'.listenerOf? k = some id)
  /-- Nothing else changes, and all that is written down is one notice. -/
  rest : ∃ c' notice, s' = { s with
    page := { s.page with lastId := s'.page.lastId, listeners := s'.page.listeners }
    frames := { s.frames with waiting := s'.frames.waiting }
    machines := s.machines.modify m fun _ => c'
    journal := .notice notice :: s.journal }

namespace Stage

section
variable {s : Stage} {m : Nat} {c : Machine} {state : String}

theorem machine?_vacate (hm : s.machine? m = some c) :
    (s.vacate m c state).machine? m = some { c with bindings := (c.inState state).bindings } := by
  have hself := machine?_mapMachine_self s m fun _ => { c with bindings := (c.inState state).bindings }
  rw [hm] at hself
  exact hself

theorem listenersOn_keeping (hids : ∀ l ∈ s.page.listeners, l.call.reacts m = true → l.element = c.element)
    {el : ElementId} (hel : el ≠ c.element) :
    (s.keeping m c state).filter (fun l => l.element = el) = s.page.listenersOn el := by
  unfold keeping
  split
  · rfl
  · rw [List.filter_filter, Page.listenersOn]
    refine List.filter_congr fun l hl => ?_
    by_cases hon : l.element = el
    · have hnot : l.call.reacts m = false :=
        Bool.not_eq_true _ ▸ fun hreacts => hel (hon.symm.trans (hids l hl hreacts))
      simp [hon, hnot]
    · simp [hon]

/-- What a machine has noted for the state that it is in is not missing there. -/
theorem listenerOf?_of_current (hcur : c.current = some state) (id : Nat) {k i : Nat} (h : c.listenerOf? k = some i) :
    ((c.inState state).noteAll id (c.missing state)).listenerOf? k = some i := by
  have hbindings : (c.inState state).bindings = c.bindings := if_pos hcur
  have hsame : (c.inState state).listenerOf? k = some i := by
    rw [Machine.listenerOf?, hbindings]
    exact h
  rw [Machine.listenerOf?_noteAll_of_ne fun e he hk => ?_, hsame]
  have hmissing := (List.mem_filter.1 he).2
  rw [hk, Machine.isAttached_of_listenerOf? hsame] at hmissing
  cases hmissing

/-- The stage to which a transition has led. -/
theorem moved_of_numbered (hs : Numbered s) (hm : s.machine? m = some c)
    (hids : ∀ l ∈ s.page.listeners, l.call.reacts m = true ↔ l.element = c.element ∧ l.id ∈ c.bound)
    (notice : Notice) : Moved m c state s
      ((((s.vacate m c state).mapMachine m fun _ => c.inState state).notify notice).equip m (c.inState state)
        (c.missing state) (c.entries state)) := by
  have hnew : ∀ l' ∈ (c.inState state).listenersFor m s.page.nextId (c.missing state), l'.element = c.element ∧
      ∀ l ∈ s.page.listeners, l.id < l'.id := by
    intro l' hl'
    obtain ⟨hel, hid⟩ := Machine.mem_listenersFor hl'
    exact ⟨hel, fun l hl => Nat.lt_of_le_of_lt (hs.bounded l hl) hid⟩
  have hmachines : ((((s.vacate m c state).mapMachine m fun _ => c.inState state).notify notice).equip m
      (c.inState state) (c.missing state) (c.entries state)).machines =
        (s.mapMachine m fun _ => (c.inState state).noteAll s.page.nextId (c.missing state)).machines := by
    have hvacate := congrArg Stage.machines (mapMachine_mapMachine s m
      (fun _ => { c with bindings := (c.inState state).bindings }) fun _ => c.inState state)
    have hequip := congrArg Stage.machines (mapMachine_mapMachine s m (fun _ => c.inState state)
      fun _ => (c.inState state).noteAll s.page.nextId (c.missing state))
    refine Eq.trans ?_ hequip
    exact congrArg (List.modify · m fun _ => (c.inState state).noteAll s.page.nextId (c.missing state)) hvacate
  refine ⟨rfl, hnew, fun el hel => ?_, rfl, ?_, ?_⟩
  · have hnone : ((c.inState state).listenersFor m s.page.nextId (c.missing state)).filter
        (fun l => l.element = el) = [] := by
      rw [List.filter_eq_nil_iff]
      intro l hl hon
      exact hel ((of_decide_eq_true hon).symm.trans (hnew l hl).1)
    refine (List.filter_append ..).trans ?_
    refine (congrArg (_ ++ ·) hnone).trans ?_
    rw [List.append_nil]
    exact listenersOn_keeping (fun l hl hreacts => ((hids l hl).1 hreacts).1) hel
  · refine ⟨(c.inState state).noteAll s.page.nextId (c.missing state), ?_, Machine.noteAll_eq _ _ _,
      fun l hl n slot hcall => ?_, fun hcur k id hid => listenerOf?_of_current hcur _ hid⟩
    · rw [machine?, hmachines]
      refine (machine?_mapMachine_self ..).trans ?_
      rw [hm]
      rfl
    · exact Machine.listenerOf?_noteAll_of_mem (c.nodup_missing state) hl hcall
  · refine ⟨(c.inState state).noteAll s.page.nextId (c.missing state), notice, ?_⟩
    rw [show s.machines.modify m _ = _ from hmachines.symm]
    rfl

end

end Stage

section
variable {manners : Manners} {s : Stage} {m : Nat} {c : Machine} {state : String} {rest : List Task}
  {past : List Config}

/-- When a transition is about to begin, the agenda holds no id. -/
theorem Course.quiet_of_transition (hs : manners.sparesListeners = true)
    (h : Course manners (⟨s, .transition m state :: rest⟩ :: past)) : Quiet (.transition m state :: rest) := by
  cases (h.unbroken hs).2.first with
  | calm hquiet => exact hquiet

/-- The listeners of a machine are those whose ids it has noted. -/
theorem Course.reacts_iff (hs : manners.sparesListeners = true) {c : Config} (h : Course manners (c :: past))
    (hquiet : ∀ t ∈ c.agenda, t.kind.knowsId = false) {machine : Machine} (hm : c.stage.machine? m = some machine)
    {l : Listener ListenerCall} (hl : l ∈ c.stage.page.listeners) :
    l.call.reacts m = true ↔ l.element = machine.element ∧ l.id ∈ machine.bound := by
  constructor
  · intro hreacts
    cases hcall : l.call with
    | react n slot =>
      rw [hcall] at hreacts
      obtain rfl : n = m := of_decide_eq_true hreacts
      obtain ⟨machine', hm', hel, hid⟩ := h.bound_of_quiet hs hquiet hl hcall
      obtain rfl := Option.some.inj (hm.symm.trans hm')
      exact ⟨hel, hid⟩
    | _ => rw [hcall] at hreacts; cases hreacts
  · intro hnoted
    exact (h.naming.bound m machine hm l.id hnoted.2).2 l hl rfl

/-- A transition begun in a course empties the state that is left, and then sets up the state that is entered. -/
theorem Course.moved (hs : manners.sparesListeners = true)
    (h : Course manners (⟨s, .transition m state :: rest⟩ :: past)) (hm : s.machine? m = some c) :
    ∃ k n s', Config.run k ⟨s, .transition m state :: rest⟩ =
        ⟨s.vacate m c state, .arrive m state (c.current = some state) :: rest⟩ ∧
      Config.run n ⟨s.vacate m c state, .arrive m state (c.current = some state) :: rest⟩ = ⟨s', rest⟩ ∧
        Moved m c state s s' := by
  have hspares : s.manners.sparesListeners = true := h.manners_eq.symm ▸ hs
  have hquiet : ∀ t ∈ Task.transition m state :: rest, t.kind.knowsId = false := fun t ht =>
    knowsId_of_isInner (h.quiet_of_transition hs t ht)
  have hids : ∀ l ∈ s.page.listeners, l.call.reacts m = true ↔ l.element = c.element ∧ l.id ∈ c.bound := fun l hl =>
    h.reacts_iff hs hquiet hm hl
  obtain ⟨k, hk⟩ : ∃ k, Config.run k ⟨s, .transition m state :: rest⟩ = _ := run_transition hspares hm hids
  obtain ⟨n, notice, hn⟩ : ∃ n notice, Config.run n
      ⟨s.vacate m c state, .arrive m state (c.current = some state) :: rest⟩ = _ :=
    run_arrive hspares (machine?_vacate hm) rfl
  exact ⟨k, n, _, hk, hn, moved_of_numbered h.gathered.1 hm hids notice⟩

/-- **A transition exchanges the listeners of a machine and calls for the next frame, and does nothing else.**  This is
so from wherever a transition begins, also inside calls, on a host that dispatches nothing from inside the calls by
which listeners come and go.  A machine that leaves a state has none of its listeners left before the first of the new
ones is added; one that stays keeps those that it has. -/
theorem transitions_only_rewire (hs : manners.sparesListeners = true)
    (h : Course manners (⟨s, .transition m state :: rest⟩ :: past)) (hm : s.machine? m = some c) :
    ∃ k n s₁ s', Config.run k ⟨s, .transition m state :: rest⟩ =
        ⟨s₁, .arrive m state (c.current = some state) :: rest⟩ ∧
      s₁.page.listeners = s.keeping m c state ∧ s₁.page.lastId = s.page.lastId ∧
      Config.run n ⟨s₁, .arrive m state (c.current = some state) :: rest⟩ = ⟨s', rest⟩ ∧ Moved m c state s s' := by
  obtain ⟨k, n, s', hk, hn, hmoved⟩ := h.moved hs hm
  exact ⟨k, n, s.vacate m c state, s', hk, rfl, rfl, hn, hmoved⟩

end

/-- A machine that waits in its only state for two events, and enters the state again at the first of them. -/
def revolving : Cue :=
  .build "m" ⟨1⟩ {} false [.ready ⟨"stage", [{ on := .event "click", goto := some "stage" }, { on := .event "key" },
    { on := .entry }], none⟩]

/-- The machine has been clicked, and is about to enter the state that it is in. -/
def revolved : List Config :=
  Course.play 9 ([revolving, .transition "m" "stage"].foldl (Course.play 40) [⟨.opened {}, []⟩])
    (.dispatch ⟨1⟩ "click")

/-- The machine listens for the click again, under a new id, keeps the listener that it has, and runs its reaction to
the entry once more in the next frame. -/
theorem transitions_only_rewire_revolved : ∃ s c rest past k n s₁ s',
    revolved = ⟨s, .transition 0 "stage" :: rest⟩ :: past ∧ s.machine? 0 = some c ∧
      c.missing "stage" = [(0, "click")] ∧ c.entries "stage" = [⟨"stage", 2⟩] ∧
      s.page.listeners.map Listener.id = [2] ∧
      Config.run k ⟨s, .transition 0 "stage" :: rest⟩ = ⟨s₁, .arrive 0 "stage" true :: rest⟩ ∧
      Config.run n ⟨s₁, .arrive 0 "stage" true :: rest⟩ = ⟨s', rest⟩ ∧ Moved 0 c "stage" s s' := by
  obtain ⟨s, c, rest, past, heq, hm, hcur, hmissing, hentries, hids⟩ : ∃ s c rest past,
      revolved = ⟨s, .transition 0 "stage" :: rest⟩ :: past ∧ s.machine? 0 = some c ∧ c.current = some "stage" ∧
        c.missing "stage" = [(0, "click")] ∧ c.entries "stage" = [⟨"stage", 2⟩] ∧
        s.page.listeners.map Listener.id = [2] :=
    ⟨_, _, _, _, rfl, rfl, rfl, by decide, by decide, by decide⟩
  have hcourse : Course {} (⟨s, .transition 0 "stage" :: rest⟩ :: past) :=
    heq ▸ Course.play_course 9 (Course.plays {} 40 _ .opened) (.dispatch ⟨1⟩ "click")
  obtain ⟨k, n, s₁, s', hk, -, -, hn, hmoved⟩ := transitions_only_rewire rfl hcourse hm
  rw [decide_eq_true hcur] at hk hn
  exact ⟨s, c, rest, past, k, n, s₁, s', heq, hm, hmissing, hentries, hids, hk, hn, hmoved⟩

end Stagecraft
