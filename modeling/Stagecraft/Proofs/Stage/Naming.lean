import Stagecraft.Proofs.Stage.Called
/-!
# What the ids stand for

The ids that a machine has noted are those of listeners for its own reactions and triggers, and so are those that tasks
are about to note or to remove.  An id is given out once, so it never comes to stand for anything else, whatever the
host dispatches from inside its calls and whichever listeners are removed from outside.
-/
namespace Stagecraft

/-- Whether a call is that of a trigger of the machine. -/
def ListenerCall.enters (m : Nat) : ListenerCall → Bool
  | .enter n _ => n = m
  | _ => false

namespace Stage

/-- The id has been given out, and no listener goes by it but one with such a call. -/
def Names (s : Stage) (p : ListenerCall → Bool) (id : Nat) : Prop :=
  id ≤ s.page.lastId ∧ ∀ l ∈ s.page.listeners, l.id = id → p l.call = true

/-- Whether the listener with this call may be removed by a machine: that of a trigger only once its machine is let
go. -/
def removes (s : Stage) : ListenerCall → Bool
  | .react .. => true
  | .enter m _ => (s.machine? m).any fun c => c.life ≠ .live
  | .outside .. => false

/-- What is known of the ids that machines have noted and that are on the agenda. -/
structure Naming (c : Config) : Prop where
  bound : ∀ m mc, c.stage.machine? m = some mc → ∀ id ∈ mc.bound, c.stage.Names (ListenerCall.reacts m) id
  binding : ∀ m k id, Task.bound m k id ∈ c.agenda → c.stage.Names (ListenerCall.reacts m) id
  triggers : ∀ m mc, c.stage.machine? m = some mc → ∀ e ∈ mc.triggers, c.stage.Names (ListenerCall.enters m) e.2
  watched : ∀ m el id, Task.watched m el id ∈ c.agenda → c.stage.Names (ListenerCall.enters m) id
  detach : ∀ el id, Task.detach el id ∈ c.agenda → c.stage.Names c.stage.removes id

section
variable {s s' : Stage} {t : Task} {rest : List Task} {p p' : ListenerCall → Bool} {m id : Nat}

theorem Names.imp (h : s.Names p id) (hp : ∀ call, p call = true → p' call = true) : s.Names p' id :=
  ⟨h.1, fun l hl hid => hp l.call (h.2 l hl hid)⟩

theorem Names.relisted (h : s.Names p id) (hlist : Relisted s s') : s'.Names p id :=
  ⟨Nat.le_trans h.1 hlist.lastId, fun l hl hid => h.2 l (hlist.mem hl (hid ▸ h.1)) hid⟩

/-- The id of a listener that has just been added names it alone. -/
theorem names_nextId (hs : Numbered s) (el : ElementId) (event : String) {call : ListenerCall} (hp : p call = true) :
    (s.mapPage (·.addListener el event call)).Names p s.page.nextId := by
  refine ⟨Nat.le_refl _, fun l hl hid => ?_⟩
  rcases List.mem_append.1 hl with hl | hl
  · have := hs.bounded l hl
    simp only [Page.nextId] at hid
    omega
  · rw [List.mem_singleton.1 hl]
    exact hp

/-! ## Where tasks with an id come from -/

theorem bind_of_mem_bound {k : Nat} (h : Task.bound m k id ∈ (t.carryOut s rest).2) : ∃ slot again c name,
    t = .bind m slot again ∧ s.machine? m = some c ∧ id = s.page.nextId ∧
      (t.carryOut s rest).1 = s.mapPage (·.addListener c.element name (.react m slot)) := by
  have hkind := (within_carryOut s rest t).kinds _ h
  cases t with
  | bind n slot again =>
    simp only [Task.carryOut, bind] at h ⊢
    cases hc : s.machine? n with
    | none => simp [hc] at h
    | some c =>
      simp only [hc] at h ⊢
      cases hr : (c.reaction? slot).map Reaction.on with
      | none => simp [hr] at h
      | some on =>
        cases on with
        | entry => simp [hr] at h
        | event name =>
          simp only [hr] at h ⊢
          split at h
          · cases h
          · rename_i hatt
            rw [if_neg hatt]
            have hnot : Task.bound m k id ∉ s.reflexes .addListener name c.element := fun hmem => by
              cases kind_reflexes s .addListener name c.element _ hmem
            simp only [attach, List.mem_append, hnot, List.mem_singleton, Task.bound.injEq, false_or] at h
            obtain ⟨rfl, -, rfl⟩ := h
            exact ⟨slot, again, c, name, rfl, hc, rfl, rfl⟩
  | cue c => cases c <;> simp [Task.leaves, Cue.leaves, Task.kind] at hkind
  | release hold => cases hold <;> simp [Task.leaves, Task.kind] at hkind
  | _ => simp [Task.leaves, Task.kind] at hkind

theorem watch_of_mem_watched {el : ElementId} (h : Task.watched m el id ∈ (t.carryOut s rest).2) : ∃ event state,
    t = .watch m el event state ∧ id = s.page.nextId ∧
      (t.carryOut s rest).1 = s.mapPage (·.addListener el event (.enter m state)) := by
  have hkind := (within_carryOut s rest t).kinds _ h
  cases t with
  | watch n el' event state =>
    have hnot : Task.watched m el id ∉ s.reflexes .addListener event el' := fun hmem => by
      cases kind_reflexes s .addListener event el' _ hmem
    simp only [Task.carryOut, watch, attach, List.mem_append, hnot, List.mem_singleton, Task.watched.injEq,
      false_or] at h
    obtain ⟨rfl, rfl, rfl⟩ := h
    exact ⟨event, state, rfl, rfl, rfl⟩
  | cue c => cases c <;> simp [Task.leaves, Cue.leaves, Task.kind] at hkind
  | release hold => cases hold <;> simp [Task.leaves, Task.kind] at hkind
  | _ => simp [Task.leaves, Task.kind] at hkind

/-- What a machine removes it had noted: for a reaction, or for a trigger, and then it is let go. -/
theorem noted_of_mem_detach {el : ElementId} (h : Task.detach el id ∈ (t.carryOut s rest).2) : ∃ n c,
    s.machine? n = some c ∧ (id ∈ c.bound ∨ ((el, id) ∈ c.triggers ∧
      ∃ c', (t.carryOut s rest).1.machine? n = some c' ∧ c'.life ≠ .live)) := by
  have hkind := (within_carryOut s rest t).kinds _ h
  cases t with
  | transition n state =>
    simp only [Task.carryOut, transition] at h
    cases hc : s.machine? n with
    | none => simp [hc] at h
    | some c =>
      simp only [hc] at h
      split at h
      · simp at h
      · simp only [List.mem_append, List.mem_map, Task.detach.injEq, List.mem_singleton, reduceCtorEq, or_false] at h
        obtain ⟨id', hid, -, rfl⟩ := h
        exact ⟨n, c, hc, .inl hid⟩
  | jump n slot =>
    simp only [Task.carryOut, jump] at h
    cases hc : s.machine? n with
    | none => simp [hc] at h
    | some c =>
      simp only [hc] at h
      split at h
      · cases h
      · split at h
        · cases h
        · split at h
          · rename_i id' hid
            simp only [List.mem_cons, Task.detach.injEq, reduceCtorEq, List.not_mem_nil, or_false] at h
            obtain ⟨-, rfl⟩ := h
            refine ⟨n, c, hc, .inl ?_⟩
            split at hid
            · obtain ⟨before, after, heq, -⟩ := Machine.exists_of_listenerOf? hid
              rw [Machine.bound, heq, List.filterMap_append]
              exact List.mem_append_right _ List.mem_cons_self
            · cases hid
          · simp at h
  | release hold =>
    cases hold with
    | machine n =>
      simp only [Task.carryOut, release] at h ⊢
      cases hc : s.machine? n with
      | none => simp [hc] at h
      | some c =>
        simp only [hc] at h ⊢
        split at h
        · rename_i hlet
          rw [if_pos hlet]
          simp only [List.mem_append, List.mem_map, Task.detach.injEq, List.mem_singleton, reduceCtorEq,
            or_false] at h
          rcases h with ⟨id', hid, -, rfl⟩ | ⟨⟨el', id'⟩, hmem, rfl, rfl⟩
          · exact ⟨n, c, hc, .inl hid⟩
          · refine ⟨n, c, hc, .inr ⟨hmem, { c with life := .closing, bindings := [], triggers := [] }, ?_, by simp⟩⟩
            rw [machine?_mapMachine_self, hc]
            rfl
        · cases h
    | _ => simp [Task.leaves, Task.kind] at hkind
  | cue c => cases c <;> simp [Task.leaves, Cue.leaves, Task.kind] at hkind
  | _ => simp [Task.leaves, Task.kind] at hkind

/-! ## Every task -/

/-- A machine that is let go is never taken up again. -/
theorem removes_carryOut {call : ListenerCall} (h : s.removes call = true) :
    (t.carryOut s rest).1.removes call = true := by
  cases call with
  | react => rfl
  | outside => cases h
  | enter n state =>
    obtain ⟨c, hc, hlife⟩ := (Option.any_eq_true _ _).1 h
    obtain ⟨c', d, hc', hd, hw⟩ := rewired_carryOut t rest hc
    have hlife' : c'.life = d.life := (congrArg Machine.life hw :)
    simp only [removes, hc', Option.any_some, hlife']
    generalize (t.carryOut s rest).2 = ts at hd
    cases hd with
    | notes => rw [c.bind_eq]; exact hlife
    | closes => rfl
    | closed => rfl
    | _ => exact hlife

/-- A task that has an id on the agenda names by it what it named before. -/
theorem Naming.tail (h : Naming ⟨s, t :: rest⟩) (hlist : Relisted s (t.carryOut s rest).1) :
    (∀ m k id, Task.bound m k id ∈ rest → (t.carryOut s rest).1.Names (ListenerCall.reacts m) id) ∧
    (∀ m el id, Task.watched m el id ∈ rest → (t.carryOut s rest).1.Names (ListenerCall.enters m) id) ∧
    ∀ el id, Task.detach el id ∈ rest → (t.carryOut s rest).1.Names (t.carryOut s rest).1.removes id :=
  ⟨fun m k id hmem => (h.binding m k id (List.mem_cons_of_mem _ hmem)).relisted hlist,
    fun m el id hmem => (h.watched m el id (List.mem_cons_of_mem _ hmem)).relisted hlist,
    fun el id hmem => ((h.detach el id (List.mem_cons_of_mem _ hmem)).imp fun _ => removes_carryOut).relisted hlist⟩

/-- A machine has noted what it had noted before, or what a task was about to note. -/
theorem noted_carryOut {c c' : Machine} (hc : s.machine? m = some c)
    (hc' : (t.carryOut s rest).1.machine? m = some c') :
    (∀ id ∈ c'.bound, id ∈ c.bound ∨ ∃ k, t = .bound m k id) ∧
    ∀ e ∈ c'.triggers, e ∈ c.triggers ∨ t = .watched m e.1 e.2 := by
  obtain ⟨c'', d, hc'', hd, hw⟩ := rewired_carryOut t rest hc
  obtain rfl := Option.some.inj (hc'.symm.trans hc'')
  have hbound : c'.bound = d.bound := (congrArg Machine.bound hw :)
  have htriggers : c'.triggers = d.triggers := (congrArg Machine.triggers hw :)
  rw [hbound, htriggers]
  generalize (t.carryOut s rest).2 = ts at hd
  cases hd with
  | kept | arrives | closed => exact ⟨fun _ => .inl, fun _ => .inl⟩
  | leaves => exact ⟨List.forall_mem_nil _, fun _ => .inl⟩
  | closes => exact ⟨List.forall_mem_nil _, List.forall_mem_nil _⟩
  | @notes k id =>
    rw [show (c.bind k id).triggers = c.triggers by rw [c.bind_eq]]
    refine ⟨fun id' hid' => (Machine.mem_bound_bind hid').imp_right ?_, fun _ => .inl⟩
    rintro rfl
    exact ⟨k, rfl⟩
  | forgets => exact ⟨fun _ hid => .inl (Machine.mem_bound_unbind hid), fun _ => .inl⟩
  | watches =>
    refine ⟨fun _ => .inl, fun e he => (List.mem_append.1 he).imp_right fun he => ?_⟩
    rw [List.mem_singleton.1 he]

/-- A machine that was not there before has just been built. -/
theorem build_of_machine? {c : Machine} (hnone : s.machine? m = none)
    (hc : (t.carryOut s rest).1.machine? m = some c) : ∃ name el settings hooked ds,
      t = .cue (.build name el settings hooked ds) ∧ s.hosted = true ∧ m = s.machines.length ∧
      c = .ofStates el settings hooked s.queues.length (ds.foldl declare []) := by
  have hother : .makes ∉ t.touches → False := fun ht => by
    have hmade := congrArg (·[m]?) ((within_carryOut s rest t).touched.agree .makes ht)
    simp only [List.getElem?_map] at hmade
    rw [show (t.carryOut s rest).1.machines[m]? = some c from hc, show s.machines[m]? = none from hnone] at hmade
    cases hmade
  cases t with
  | cue cue =>
    cases cue with
    | build name el settings hooked ds =>
      refine ⟨name, el, settings, hooked, ds, rfl, ?_⟩
      have h := undisturbed_declared el ds s
      simp only [Task.carryOut, follow, build] at hc
      split at hc
      · rename_i hhosted
        simp only [castAs, addMachine, machine?] at hc
        rw [h.machines, h.queues] at hc
        rw [List.getElem?_append_right (List.getElem?_eq_none_iff.1 hnone), List.getElem?_singleton] at hc
        have hle := List.getElem?_eq_none_iff.1 hnone
        split at hc
        · exact ⟨hhosted, by omega, (Option.some.inj hc).symm⟩
        · cases hc
      · cases hnone.symm.trans hc
    | _ => exact (hother (by simp [Task.touches, Cue.touches])).elim
  | release hold => exact (hother (by cases hold <;> simp [Task.touches])).elim
  | _ => exact (hother (by simp [Task.touches])).elim

/-- **The ids that are noted or about to be stand for the same listeners as ever.** -/
theorem naming_after (hs : Numbered s) (h : Naming ⟨s, t :: rest⟩) : Naming (.after s t rest) := by
  have hlist := relisted_carryOut s t rest
  obtain ⟨hbinding, hwatched, hdetach⟩ := h.tail hlist
  refine ⟨fun m c' hc' => ?_, fun m k id hmem => ?_, fun m c' hc' => ?_, fun m el id hmem => ?_,
    fun el id hmem => ?_⟩
  · cases hc : s.machine? m with
    | none =>
      obtain ⟨_, _, _, _, _, -, -, -, rfl⟩ := build_of_machine? hc hc'
      exact List.forall_mem_nil _
    | some c =>
      intro id hid
      rcases (noted_carryOut hc hc').1 id hid with hid | ⟨k, rfl⟩
      · exact (h.bound m c hc id hid).relisted hlist
      · exact (h.binding m k id List.mem_cons_self).relisted hlist
  · rcases List.mem_append.1 hmem with hmem | hmem
    · obtain ⟨slot, again, c, name, rfl, hc, rfl, hstage⟩ := bind_of_mem_bound hmem
      rw [Config.after, hstage]
      exact names_nextId hs _ _ (decide_eq_true rfl)
    · exact hbinding m k id hmem
  · cases hc : s.machine? m with
    | none =>
      obtain ⟨_, _, _, _, _, -, -, -, rfl⟩ := build_of_machine? hc hc'
      exact List.forall_mem_nil _
    | some c =>
      intro e he
      rcases (noted_carryOut hc hc').2 e he with he | rfl
      · exact (h.triggers m c hc e he).relisted hlist
      · exact (h.watched m e.1 e.2 List.mem_cons_self).relisted hlist
  · rcases List.mem_append.1 hmem with hmem | hmem
    · obtain ⟨event, state, rfl, rfl, hstage⟩ := watch_of_mem_watched hmem
      rw [Config.after, hstage]
      exact names_nextId hs _ _ (decide_eq_true rfl)
    · exact hwatched m el id hmem
  · rcases List.mem_append.1 hmem with hmem | hmem
    · obtain ⟨n, c, hc, hid | ⟨hid, c', hc', hlife⟩⟩ := noted_of_mem_detach hmem
      · refine ((h.bound n c hc id hid).imp fun call hcall => ?_).relisted hlist
        cases call with
        | react => rfl
        | _ => cases hcall
      · refine ((h.triggers n c hc _ hid).relisted hlist).imp fun call hcall => ?_
        cases call with
        | enter n' state =>
          obtain rfl : n' = n := of_decide_eq_true hcall
          simp [removes, Config.after, hc', hlife]
        | _ => cases hcall
    · exact hdetach el id hmem

end

end Stage
open Stage

theorem Course.naming {manners : Manners} {c : Config} {past : List Config} (h : Course manners (c :: past)) :
    Naming c := by
  -- between two runs only machines know ids
  have hbetween : ∀ {s : Stage} {agenda : List Task}, Naming ⟨s, []⟩ → (∀ t ∈ agenda, t.kind.knowsId = false) →
      Naming ⟨s, agenda⟩ := by
    intro s agenda h hfree
    refine ⟨h.bound, fun m k id hmem => ?_, h.triggers, fun m el id hmem => ?_, fun el id hmem => ?_⟩
    · cases hfree _ hmem
    · cases hfree _ hmem
    · cases hfree _ hmem
  refine Course.invariant (I := Naming) (P := fun _ => True) ?_ (fun s hs => ?_) (fun s cue hs => ?_)
    (fun s t rest past h _ hc => naming_after h.gathered.1 hc) h fun _ _ => trivial
  · have hnone : ∀ m mc, (Stage.opened manners).machine? m ≠ some mc := fun m mc hmc => by
      simp [Stage.opened, machine?] at hmc
    refine ⟨fun m mc hmc => absurd hmc (hnone m mc), fun m k id hmem => ?_, fun m mc hmc => absurd hmc (hnone m mc),
      fun m el id hmem => ?_, fun el id hmem => ?_⟩
    · cases hmem
    · cases hmem
    · cases hmem
  · exact hbetween ⟨hs.bound, hs.binding, hs.triggers, hs.watched, hs.detach⟩ (List.forall_mem_nil _)
  · exact hbetween hs (List.forall_mem_singleton.2 rfl)

end Stagecraft
