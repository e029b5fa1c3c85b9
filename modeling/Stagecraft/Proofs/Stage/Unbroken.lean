import Stagecraft.Proofs.Stage.Phase
import Stagecraft.Proofs.Stage.Tracked
/-!
# Unbroken runs of inner tasks

A host that dispatches nothing from inside the calls by which listeners come and go lets a machine leave a state, arrive
in the next and bind its reactions in one go.  Then no place has a listener yet when one is noted for it, so no id is
ever lost.  Nothing is asked of the other calls of the host, and listeners may be removed from outside at will.
-/
namespace Stagecraft

/-- Nothing is dispatched from inside the calls by which listeners come and go. -/
def Manners.sparesListeners (manners : Manners) : Bool :=
  manners.reflexes.all fun r => r.call ≠ .addListener && r.call ≠ .removeListener

namespace Machine

theorem listenerOf?_eq_none_of_isAttached {c : Machine} {k : Nat} (h : c.isAttached k = false) :
    c.listenerOf? k = none := by
  refine Option.eq_none_iff_forall_ne_some.2 fun id hid => ?_
  obtain ⟨before, after, heq, -⟩ := exists_of_listenerOf? hid
  have := List.any_eq_false.1 h ⟨k, some id⟩ (by rw [heq]; simp)
  simp at this

theorem listenerOf?_eq_none_of_lt {c : Machine} {k : Nat} (h : ∀ b ∈ c.bindings, b.index < k) :
    c.listenerOf? k = none := by
  refine Option.eq_none_iff_forall_ne_some.2 fun id hid => ?_
  obtain ⟨before, after, heq, -⟩ := exists_of_listenerOf? hid
  have := h ⟨k, some id⟩ (by rw [heq]; simp)
  simp at this

theorem index_of_mem_setListener {k : Nat} {o : Option Nat} : ∀ {bs : List Binding} {b : Binding},
    b ∈ setListener k o bs → b.index = k ∨ b ∈ bs
  | [], _, h => by cases h
  | b' :: bs, b, h => by
    unfold setListener at h
    split at h
    · rcases List.mem_cons.1 h with rfl | h
      · exact .inl rfl
      · exact .inr (List.mem_cons_of_mem _ h)
    · rcases List.mem_cons.1 h with rfl | h
      · exact .inr List.mem_cons_self
      · exact (index_of_mem_setListener h).imp_right (List.mem_cons_of_mem _)

theorem index_of_mem_bind {c : Machine} {k id : Nat} {b : Binding} (h : b ∈ (c.bind k id).bindings) :
    b.index = k ∨ b ∈ c.bindings := by
  unfold Machine.bind at h
  split at h
  · exact index_of_mem_setListener h
  · rcases List.mem_append.1 h with h | h
    · exact .inr h
    · rw [List.mem_singleton.1 h]
      exact .inl rfl

end Machine

namespace Stage

theorem reflexes_addListener {s : Stage} (h : s.manners.sparesListeners = true) (argument : String) (el : ElementId) :
    s.reflexes .addListener argument el = [] := by
  rw [reflexes, List.map_eq_nil_iff, List.filter_eq_nil_iff]
  intro r hr
  have := List.all_eq_true.1 h r hr
  simp only [ne_eq, decide_not, Bool.and_eq_true, Bool.not_eq_true', decide_eq_false_iff_not] at this
  simp [this.1]

theorem reflexes_removeListener {s : Stage} (h : s.manners.sparesListeners = true) (argument : String)
    (el : ElementId) : s.reflexes .removeListener argument el = [] := by
  rw [reflexes, List.map_eq_nil_iff, List.filter_eq_nil_iff]
  intro r hr
  have := List.all_eq_true.1 h r hr
  simp only [ne_eq, decide_not, Bool.and_eq_true, Bool.not_eq_true', decide_eq_false_iff_not] at this
  simp [this.2]

/-- How far the work on the listeners of a machine has come, by what comes first on the agenda. -/
inductive Unbroken (s : Stage) : List Task → Prop
  /-- Nothing is going on; at most, listeners are removed. -/
  | calm {ds rest : List Task} (hds : ∀ d ∈ ds, ∃ el id, d = Task.detach el id) (hrest : Quiet rest) :
      Unbroken s (ds ++ rest)
  | watched {m : Nat} {el : ElementId} {id : Nat} {rest : List Task} (hrest : Quiet rest) :
      Unbroken s (.watched m el id :: rest)
  | leaving {m : Nat} {c : Machine} {ds : List Task} {state : String} {rest : List Task}
      (hds : ∀ d ∈ ds, ∃ el id, d = Task.detach el id) (hc : s.machine? m = some c) (hb : c.bindings = [])
      (hrest : Quiet rest) : Unbroken s (ds ++ .arrive m state false :: rest)
  | staying {m : Nat} {c : Machine} {state : String} {rest : List Task} (hc : s.machine? m = some c)
      (hcur : c.current = some state) (hrest : Quiet rest) : Unbroken s (.arrive m state true :: rest)
  /-- The reactions from the place `k` on are yet to be bound. -/
  | filling {m : Nat} {c : Machine} {state : String} {again : Bool} {k n : Nat} {rest : List Task}
      (hc : s.machine? m = some c) (hcur : c.current = some state)
      (hfree : again = false → ∀ b ∈ c.bindings, b.index < k) (hrest : Quiet rest) :
      Unbroken s (binds m state again k n ++ rest)
  /-- A listener has been added for the place `k` and is not yet noted. -/
  | noting {m : Nat} {c : Machine} {state : String} {again : Bool} {k n id : Nat} {rest : List Task}
      (hc : s.machine? m = some c) (hcur : c.current = some state)
      (hfree : again = false → ∀ b ∈ c.bindings, b.index < k) (hnone : c.listenerOf? k = none) (hrest : Quiet rest) :
      Unbroken s (.bound m k id :: (binds m state again (k + 1) n ++ rest))

section
variable {s : Stage} {m : Nat} {c : Machine} {rest : List Task}

theorem Unbroken.of_quiet {agenda : List Task} (h : Quiet agenda) : Unbroken s agenda :=
  @Unbroken.calm s [] agenda (fun _ hd => by cases hd) h

/-- What stands first on the agenda, and how far the work has come there. -/
inductive First (s : Stage) : Task → List Task → Prop
  | calm {t : Task} {rest : List Task} (h : Quiet (t :: rest)) : First s t rest
  | detach {el : ElementId} {id : Nat} {rest : List Task} : First s (.detach el id) rest
  | watched {m : Nat} {el : ElementId} {id : Nat} {rest : List Task} (hrest : Quiet rest) :
      First s (.watched m el id) rest
  | leaving {m : Nat} {c : Machine} {state : String} {rest : List Task} (hc : s.machine? m = some c)
      (hb : c.bindings = []) (hrest : Quiet rest) : First s (.arrive m state false) rest
  | staying {m : Nat} {c : Machine} {state : String} {rest : List Task} (hc : s.machine? m = some c)
      (hcur : c.current = some state) (hrest : Quiet rest) : First s (.arrive m state true) rest
  | filling {m : Nat} {c : Machine} {slot : Slot} {again : Bool} {rest : List Task} (hc : s.machine? m = some c)
      (hcur : c.current = some slot.state) : First s (.bind m slot again) rest
  | noting {m : Nat} {c : Machine} {k id : Nat} {rest : List Task} (hc : s.machine? m = some c)
      (hnone : c.listenerOf? k = none) : First s (.bound m k id) rest

theorem Unbroken.first {t : Task} (h : Unbroken s (t :: rest)) : First s t rest := by
  generalize hagenda : t :: rest = agenda at h
  cases h with
  | @calm ds rest' hds hrest =>
    cases ds with
    | nil =>
      obtain rfl : t :: rest = rest' := hagenda
      exact .calm hrest
    | cons d ds =>
      obtain ⟨rfl, rfl⟩ := List.cons.inj hagenda
      obtain ⟨el, id, rfl⟩ := hds t List.mem_cons_self
      exact .detach
  | watched hrest =>
    obtain ⟨rfl, rfl⟩ := List.cons.inj hagenda
    exact .watched hrest
  | @leaving m c ds state rest' hds hc hb hrest =>
    cases ds with
    | nil =>
      obtain ⟨rfl, rfl⟩ := List.cons.inj hagenda
      exact .leaving hc hb hrest
    | cons d ds =>
      obtain ⟨rfl, rfl⟩ := List.cons.inj hagenda
      obtain ⟨el, id, rfl⟩ := hds t List.mem_cons_self
      exact .detach
  | staying hc hcur hrest =>
    obtain ⟨rfl, rfl⟩ := List.cons.inj hagenda
    exact .staying hc hcur hrest
  | @filling m c state again k n rest' hc hcur hfree hrest =>
    cases n with
    | zero =>
      obtain rfl : t :: rest = rest' := hagenda
      exact .calm hrest
    | succ n =>
      rw [binds_succ] at hagenda
      obtain ⟨rfl, rfl⟩ := List.cons.inj hagenda
      exact .filling hc hcur
  | noting hc hcur hfree hnone hrest =>
    obtain ⟨rfl, rfl⟩ := List.cons.inj hagenda
    exact .noting hc hnone

/-- What a machine forgets when it notes a listener is nothing. -/
theorem Unbroken.not_overwrites {agenda : List Task} (h : Unbroken s agenda) (m id : Nat) :
    ¬ Config.overwrites m id ⟨s, agenda⟩ := by
  rintro ⟨k, id', rest', hagenda, hid⟩
  obtain rfl : agenda = .bound m k id' :: rest' := hagenda
  cases h.first with
  | calm hquiet => cases hquiet _ List.mem_cons_self
  | noting hc hnone =>
    rw [show (Config.mk s _).stage.machine? m = _ from hc, Option.bind_some, hnone] at hid
    cases hid

/-! ## Every step -/

theorem unbroken_transition {state : String} (hrest : Quiet rest) :
    Unbroken (s.transition m state).1 ((s.transition m state).2 ++ rest) := by
  unfold transition
  cases hc : s.machine? m with
  | none => exact .of_quiet hrest
  | some c =>
    simp only
    split
    · rename_i hcur
      exact .staying hc hcur hrest
    · rw [List.append_assoc]
      refine .leaving (m := m) (c := { c with bindings := [] }) (fun d hd => ?_) ?_ rfl hrest
      · obtain ⟨id, -, rfl⟩ := List.mem_map.1 hd
        exact ⟨_, _, rfl⟩
      · rw [machine?_mapMachine_self, hc]
        rfl

theorem unbroken_arrive {state : String} (again : Bool) (hc : s.machine? m = some c)
    (hagain : if again then c.current = some state else c.bindings = []) (hrest : Quiet rest) :
    Unbroken (s.arrive m state again).1 ((s.arrive m state again).2 ++ rest) := by
  let f : Machine → Machine := fun c => { c with current := if again then c.current else some state }
  have hc' : (s.mapMachine m f).machine? m = some (f c) := by
    rw [machine?_mapMachine_self, hc]
    rfl
  have hcur : (f c).current = some state := by
    cases again with
    | true => exact hagain
    | false => rfl
  have hfree : again = false → ∀ b ∈ (f c).bindings, b.index < 0 := by
    rintro rfl b hb
    rw [show (f c).bindings = [] from hagain] at hb
    cases hb
  simp only [arrive]
  rw [show (s.mapMachine m fun c => { c with current := if again = true then c.current else some state }).machine? m =
    some (f c) from hc']
  simp only
  split
  · exact .of_quiet hrest
  · rw [binds_eq]
    exact .filling (c := f c) hc' hcur hfree hrest

theorem unbroken_bind {state : String} {again : Bool} {k n : Nat} (hs : s.manners.sparesListeners = true)
    (hc : s.machine? m = some c) (hcur : c.current = some state)
    (hfree : again = false → ∀ b ∈ c.bindings, b.index < k) (hrest : Quiet rest) :
    Unbroken (s.bind m ⟨state, k⟩ again).1
      ((s.bind m ⟨state, k⟩ again).2 ++ (binds m state again (k + 1) n ++ rest)) := by
  have hfree' : again = false → ∀ b ∈ c.bindings, b.index < k + 1 := fun h b hb => Nat.lt_succ_of_lt (hfree h b hb)
  simp only [bind, hc]
  split
  · exact .filling hc hcur hfree' hrest
  · exact .filling (s := s.schedule _) hc hcur hfree' hrest
  · split
    · exact .filling hc hcur hfree' hrest
    · rename_i hatt
      simp only [attach, reflexes_addListener hs, List.nil_append]
      refine .noting (s := s.mapPage _) hc hcur hfree ?_ hrest
      cases again with
      | true => exact Machine.listenerOf?_eq_none_of_isAttached (by simpa using hatt)
      | false => exact Machine.listenerOf?_eq_none_of_lt (hfree rfl)

theorem unbroken_bound {state : String} {again : Bool} {k n id : Nat} (hc : s.machine? m = some c)
    (hcur : c.current = some state) (hfree : again = false → ∀ b ∈ c.bindings, b.index < k) (hrest : Quiet rest) :
    Unbroken (s.bound m k id).1 ((s.bound m k id).2 ++ (binds m state again (k + 1) n ++ rest)) := by
  refine .filling (c := c.bind k id) ?_ (by rw [c.bind_eq]; exact hcur) (fun h b hb => ?_) hrest
  · rw [bound, machine?_mapMachine_self, hc]
    rfl
  · rcases Machine.index_of_mem_bind hb with hk | hb
    · exact hk ▸ Nat.lt_succ_self _
    · exact Nat.lt_succ_of_lt (hfree h b hb)

/-- A task that is not inner, with no inner tasks behind it. -/
theorem unbroken_of_quiet {t : Task} (hs : s.manners.sparesListeners = true) (hq : Quiet (t :: rest)) :
    Unbroken (Config.after s t rest).stage (Config.after s t rest).agenda := by
  have hrest := hq.tail
  have hleft : (∀ t' ∈ (t.carryOut s rest).2, t'.isInner = false) →
      Unbroken (Config.after s t rest).stage (Config.after s t rest).agenda := fun h => .of_quiet (hrest.append h)
  have hkinds : (∀ kind ∈ t.leaves, kind.isInner = false) →
      Unbroken (Config.after s t rest).stage (Config.after s t rest).agenda := fun h =>
    hleft fun t' ht' => h _ ((within_carryOut s rest t).kinds t' ht')
  have hinner := hq t List.mem_cons_self
  cases t with
  | transition m state => exact unbroken_transition hrest
  | jump m slot =>
    simp only [Config.after, Task.carryOut, jump]
    split
    · exact .of_quiet hrest
    · split
      · exact .of_quiet hrest
      · split
        · exact .of_quiet hrest
        · split
          · refine @Unbroken.calm _ [_] (_ :: rest) (fun d hd => ⟨_, _, List.mem_singleton.1 hd⟩)
              (.cons rfl hrest)
          · exact .of_quiet (.cons rfl hrest)
  | watch m el event state =>
    simp only [Config.after, Task.carryOut, watch, attach, reflexes_addListener hs, List.nil_append]
    exact .watched hrest
  | release hold =>
    cases hold with
    | machine m =>
      simp only [Config.after, Task.carryOut, release]
      split
      · exact .of_quiet hrest
      · split
        · rw [List.append_assoc _ [Task.closed m] rest]
          refine .calm (fun d hd => ?_) (.cons rfl hrest)
          rcases List.mem_append.1 hd with hd | hd
          · obtain ⟨_, -, rfl⟩ := List.mem_map.1 hd
            exact ⟨_, _, rfl⟩
          · obtain ⟨_, -, rfl⟩ := List.mem_map.1 hd
            exact ⟨_, _, rfl⟩
        · exact .of_quiet hrest
    | queue q => exact hkinds (isInner_of_mem_leaves rfl)
    | host => exact hkinds (isInner_of_mem_leaves rfl)
  | cue c => exact hkinds (by cases c <;> simp [Task.leaves, Cue.leaves, Kind.isInner])
  | closed m => exact hkinds (by simp [Task.leaves, Kind.isInner])
  | detach | arrive | bind | bound | watched => cases hinner
  | _ => exact hkinds (isInner_of_mem_leaves rfl)

/-- **Runs of inner tasks are not broken** if the host spares the calls by which listeners come and go. -/
theorem unbroken_after {t : Task} (hs : s.manners.sparesListeners = true) (h : Unbroken s (t :: rest)) :
    Unbroken (Config.after s t rest).stage (Config.after s t rest).agenda := by
  have hdetach : ∀ el id rest', (Config.after s (.detach el id) rest').agenda = rest' := fun el id rest' => by
    simp only [Config.after, Task.carryOut, detach, reflexes_removeListener hs, List.nil_append]
  generalize hagenda : t :: rest = agenda at h
  cases h with
  | @calm ds rest' hds hrest =>
    cases ds with
    | nil =>
      rw [List.nil_append] at hagenda
      subst hagenda
      exact unbroken_of_quiet hs hrest
    | cons d ds =>
      obtain ⟨rfl, rfl⟩ := List.cons.inj hagenda
      obtain ⟨el, id, rfl⟩ := hds t List.mem_cons_self
      rw [hdetach]
      exact .calm (fun d hd => hds d (List.mem_cons_of_mem _ hd)) hrest
  | watched hrest =>
    obtain ⟨rfl, rfl⟩ := List.cons.inj hagenda
    exact .of_quiet hrest
  | @leaving m c ds state rest' hds hc hb hrest =>
    cases ds with
    | nil =>
      obtain ⟨rfl, rfl⟩ := List.cons.inj hagenda
      exact unbroken_arrive false hc hb hrest
    | cons d ds =>
      obtain ⟨rfl, rfl⟩ := List.cons.inj hagenda
      obtain ⟨el, id, rfl⟩ := hds t List.mem_cons_self
      rw [hdetach]
      exact .leaving (s := s.mapPage (·.removeListener el id)) (fun d hd => hds d (List.mem_cons_of_mem _ hd)) hc hb
        hrest
  | staying hc hcur hrest =>
    obtain ⟨rfl, rfl⟩ := List.cons.inj hagenda
    exact unbroken_arrive true hc hcur hrest
  | @filling m c state again k n rest' hc hcur hfree hrest =>
    cases n with
    | zero =>
      obtain rfl : t :: rest = rest' := hagenda
      exact unbroken_of_quiet hs hrest
    | succ n =>
      rw [binds_succ] at hagenda
      obtain ⟨rfl, rfl⟩ := List.cons.inj hagenda
      exact unbroken_bind hs hc hcur hfree hrest
  | noting hc hcur hfree hnone hrest =>
    obtain ⟨rfl, rfl⟩ := List.cons.inj hagenda
    exact unbroken_bound hc hcur hfree hrest

end

end Stage

open Stage

theorem Course.unbroken {manners : Manners} (hs : manners.sparesListeners = true) {c : Config} {past : List Config}
    (h : Course manners (c :: past)) : c.stage.manners = manners ∧ Unbroken c.stage c.agenda := by
  refine Course.invariant (I := fun c => c.stage.manners = manners ∧ Unbroken c.stage c.agenda) (P := fun _ => True)
    ⟨rfl, .of_quiet fun t ht => by cases ht⟩ ?_ ?_ ?_ h fun _ _ => trivial
  · exact fun s ⟨hm, _⟩ => ⟨hm, .of_quiet fun t ht => by cases ht⟩
  · exact fun s c ⟨hm, _⟩ => ⟨hm, .of_quiet fun t ht => by rw [List.mem_singleton.1 ht]; rfl⟩
  · rintro s t rest past - - ⟨hm, hu⟩
    have hm : s.manners = manners := hm
    exact ⟨(within_carryOut s rest t).touched.manners.trans hm, unbroken_after (hm ▸ hs) hu⟩

end Stagecraft
