import Stagecraft.Machine.Basic
/-!
# What a machine listens for

The bindings of a machine against the reactions of its state: which events the state waits for, and what each change of
a binding does to the listeners that are noted.
-/
namespace Stagecraft

/-- An event that a state waits for, with the place of its reaction, and the listener noted for it. -/
abbrev Ear := (Nat × String) × Option Nat

/-- The events that reactions wait for, each with its place; the first reaction has the place `k`. -/
def Reaction.hearing : Nat → List Reaction → List (Nat × String)
  | _, [] => []
  | k, r :: rs =>
    match r.on with
    | .event name => (k, name) :: hearing (k + 1) rs
    | .entry => hearing (k + 1) rs

/-- The events that the current state waits for; none before the first state, and none in a state no one declared. -/
def Machine.hearing (c : Machine) : List (Nat × String) :=
  match c.current.bind c.state? with
  | some d => Reaction.hearing 0 d.reactions
  | none => []

def Ear.binding (e : Ear) : Binding := ⟨e.1.1, e.2⟩

theorem Ear.exists_of_isSome : ∀ {ears : List Ear}, (∀ e ∈ ears, e.2.isSome = true) →
    ∃ heard : List ((Nat × String) × Nat), ears = heard.map fun e => (e.1, some e.2)
  | [], _ => ⟨[], rfl⟩
  | e :: ears, h => by
    obtain ⟨heard, rfl⟩ := exists_of_isSome fun e he => h e (List.mem_cons_of_mem _ he)
    obtain ⟨id, hid⟩ := Option.isSome_iff_exists.1 (h e List.mem_cons_self)
    exact ⟨(e.1, id) :: heard, by rw [List.map_cons, ← hid]⟩

namespace Reaction

theorem hearing_append : ∀ (k : Nat) (pre post : List Reaction),
    hearing k (pre ++ post) = hearing k pre ++ hearing (k + pre.length) post
  | _, [], _ => rfl
  | k, r :: pre, post => by
    have h := hearing_append (k + 1) pre post
    rw [Nat.add_right_comm k 1, Nat.add_assoc] at h
    cases hr : r.on with
    | event name => simp only [List.cons_append, hearing, hr, h, List.length_cons]
    | entry => simp only [List.cons_append, hearing, hr, h, List.length_cons]

theorem le_of_mem_hearing : ∀ {k : Nat} {rs : List Reaction} {h : Nat × String}, h ∈ hearing k rs →
    k ≤ h.1 ∧ h.1 < k + rs.length
  | _, [], _, hmem => by cases hmem
  | k, r :: rs, h, hmem => by
    rw [List.length_cons]
    cases hr : r.on with
    | event name =>
      simp only [hearing, hr, List.mem_cons] at hmem
      rcases hmem with rfl | hmem
      · exact ⟨Nat.le_refl k, by omega⟩
      · have := le_of_mem_hearing hmem
        omega
    | entry =>
      simp only [hearing, hr] at hmem
      have := le_of_mem_hearing hmem
      omega

theorem hearing_cons_of_event {r : Reaction} {name : String} (h : r.on = .event name) (k : Nat) (rs : List Reaction) :
    hearing k (r :: rs) = (k, name) :: hearing (k + 1) rs := by
  rw [hearing, h]

theorem hearing_cons_of_entry {r : Reaction} (h : r.on = .entry) (k : Nat) (rs : List Reaction) :
    hearing k (r :: rs) = hearing (k + 1) rs := by
  rw [hearing, h]

end Reaction

namespace Machine

/-- Writing a listener for a reaction that has a place writes it there. -/
theorem setListener_append {k : Nat} {o o' : Option Nat} : ∀ {before : List Binding}, (∀ b ∈ before, b.index ≠ k) →
    ∀ after : List Binding, setListener k o' (before ++ ⟨k, o⟩ :: after) = before ++ ⟨k, o'⟩ :: after
  | [], _, after => by rw [List.nil_append, List.nil_append, setListener, if_pos rfl]
  | b :: before, h, after => by
    rw [List.cons_append, List.cons_append, setListener, if_neg (h b List.mem_cons_self),
      setListener_append fun b' hb' => h b' (List.mem_cons_of_mem _ hb')]

theorem mem_setListener {k id : Nat} {o : Option Nat} : ∀ {bs : List Binding},
    id ∈ (setListener k o bs).filterMap Binding.listener → id ∈ bs.filterMap Binding.listener ∨ o = some id
  | [], h => by cases h
  | b :: bs, h => by
    rw [List.mem_filterMap] at h
    obtain ⟨b', hb', hid⟩ := h
    unfold setListener at hb'
    split at hb'
    · rcases List.mem_cons.1 hb' with rfl | hb'
      · exact .inr hid
      · exact .inl (List.mem_filterMap.2 ⟨b', List.mem_cons_of_mem _ hb', hid⟩)
    · rcases List.mem_cons.1 hb' with rfl | hb'
      · exact .inl (List.mem_filterMap.2 ⟨b', List.mem_cons_self, hid⟩)
      · rcases mem_setListener (List.mem_filterMap.2 ⟨b', hb', hid⟩) with h | h
        · obtain ⟨b'', hb'', hid⟩ := List.mem_filterMap.1 h
          exact .inl (List.mem_filterMap.2 ⟨b'', List.mem_cons_of_mem _ hb'', hid⟩)
        · exact .inr h

theorem mem_bound_unbind {c : Machine} {k id : Nat} (h : id ∈ (c.unbind k).bound) : id ∈ c.bound :=
  (mem_setListener h).resolve_right fun h => by cases h

theorem mem_bound_bind {c : Machine} {k id id' : Nat} (h : id' ∈ (c.bind k id).bound) : id' ∈ c.bound ∨ id' = id := by
  unfold Machine.bind at h
  split at h
  · exact (mem_setListener h).imp_right fun h => (Option.some.inj h).symm
  · rw [bound, List.filterMap_append, List.mem_append] at h
    exact h.imp_right List.mem_singleton.1

/-- Noting a listener changes nothing but the bindings. -/
theorem bind_eq (c : Machine) (k id : Nat) : c.bind k id = { c with bindings := (c.bind k id).bindings } := by
  unfold Machine.bind
  split <;> rfl

/-- The first binding of a place, if the place has a listener. -/
theorem exists_of_listenerOf? {c : Machine} {k id : Nat} (h : c.listenerOf? k = some id) :
    ∃ before after, c.bindings = before ++ ⟨k, some id⟩ :: after ∧ ∀ b ∈ before, b.index ≠ k := by
  unfold listenerOf? at h
  obtain ⟨b, hfind, hb⟩ := Option.bind_eq_some_iff.1 h
  obtain ⟨hk, before, after, heq, hbefore⟩ := List.find?_eq_some_iff_append.1 hfind
  obtain ⟨index, listener⟩ := b
  obtain rfl : index = k := by simpa using hk
  obtain rfl : listener = some id := hb
  exact ⟨before, after, heq, fun b hb => by simpa using hbefore b hb⟩

/-- What a machine has noted for the events of `ears`. -/
def Notes (c : Machine) (ears : List Ear) : Prop := c.bindings = ears.map Ear.binding

theorem Notes.bound {c : Machine} {ears : List Ear} (h : c.Notes ears) : c.bound = ears.filterMap Prod.snd := by
  rw [Machine.bound, h, List.filterMap_map]
  rfl

theorem Notes.any_index {c : Machine} {ears : List Ear} (h : c.Notes ears) (k : Nat) :
    (c.bindings.any fun b => b.index = k) = ears.any fun e => e.1.1 = k := by
  rw [h, List.any_map]
  rfl

theorem Notes.isAttached {c : Machine} {ears : List Ear} (h : c.Notes ears) (k : Nat) :
    c.isAttached k = ears.any fun e => e.1.1 = k && e.2.isSome := by
  rw [Machine.isAttached, h, List.any_map]
  rfl

/-- Whether a place has a listener, when there is just one such place. -/
theorem Notes.isAttached_of_place {c : Machine} {before after : List Ear} {k : Nat} {name : String} {o : Option Nat}
    (h : c.Notes (before ++ ((k, name), o) :: after)) (hbefore : ∀ e ∈ before, e.1.1 ≠ k)
    (hafter : ∀ e ∈ after, e.1.1 ≠ k) : c.isAttached k = o.isSome := by
  have hno : ∀ es : List Ear, (∀ e ∈ es, e.1.1 ≠ k) → (es.any fun e => e.1.1 = k && e.2.isSome) = false := by
    intro es hes
    rw [List.any_eq_false]
    exact fun e he => by simp [hes e he]
  rw [h.isAttached, List.any_append, List.any_cons, hno before hbefore, hno after hafter]
  simp

/-- A listener noted for an event whose place is there already. -/
theorem Notes.bind_of_mem {c : Machine} {before after : List Ear} {k : Nat} {name : String} {o : Option Nat}
    (h : c.Notes (before ++ ((k, name), o) :: after)) (hbefore : ∀ e ∈ before, e.1.1 ≠ k) (id : Nat) :
    (c.bind k id).Notes (before ++ ((k, name), some id) :: after) := by
  have hany : (c.bindings.any fun b => b.index = k) = true := by
    rw [h.any_index]
    simp
  unfold Machine.bind
  rw [if_pos hany]
  unfold Notes at h ⊢
  simp only [h, List.map_append, List.map_cons]
  refine setListener_append (fun b hb => ?_) _
  obtain ⟨e, he, rfl⟩ := List.mem_map.1 hb
  exact hbefore e he

/-- A listener noted for an event that has no place yet. -/
theorem Notes.bind_of_not_mem {c : Machine} {ears : List Ear} {k : Nat} (h : c.Notes ears)
    (hk : ∀ e ∈ ears, e.1.1 ≠ k) (name : String) (id : Nat) :
    (c.bind k id).Notes (ears ++ [((k, name), some id)]) := by
  have hany : (c.bindings.any fun b => b.index = k) = false := by
    rw [h.any_index, List.any_eq_false]
    exact fun e he => by simpa using hk e he
  unfold Machine.bind
  rw [if_neg (by simp [hany])]
  unfold Notes at h ⊢
  rw [List.map_append, ← h]
  rfl

/-- A listener that is found can be forgotten, and leaves its place. -/
theorem Notes.unbind {c : Machine} {ears : List Ear} {k id : Nat} (h : c.Notes ears) (hid : c.listenerOf? k = some id) :
    ∃ before after name, ears = before ++ ((k, name), some id) :: after ∧
      (c.unbind k).Notes (before ++ ((k, name), none) :: after) := by
  obtain ⟨before, after, heq, hbefore⟩ := exists_of_listenerOf? hid
  obtain ⟨before', rest, rfl, hb, hrest⟩ := List.map_eq_append_iff.1 (h.symm.trans heq)
  obtain ⟨⟨⟨k', name⟩, o⟩, after', rfl, he, ha⟩ := List.map_eq_cons_iff.1 hrest
  obtain ⟨rfl, rfl⟩ : k' = k ∧ o = some id := by simpa [Ear.binding] using he
  refine ⟨before', after', name, rfl, ?_⟩
  unfold Notes Machine.unbind
  rw [heq, setListener_append hbefore, List.map_append, List.map_cons, hb, ha]
  rfl

end Machine
end Stagecraft
