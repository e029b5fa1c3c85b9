import Stagecraft.Proofs.Stage.Wiring
/-!
# The listeners of a machine

When the listeners on the page that run the reactions of a machine are those that its state asks for, and what it takes
to say so of one machine while another one changes its own.
-/
namespace Stagecraft

/-- Whether a call runs a reaction of the machine. -/
def ListenerCall.reacts (m : Nat) : ListenerCall → Bool
  | .react n _ => n = m
  | _ => false

def ListenerCall.isReaction : ListenerCall → Bool
  | .react .. => true
  | _ => false

theorem ListenerCall.isReaction_of_reacts {m : Nat} {call : ListenerCall} (h : call.reacts m = true) :
    call.isReaction = true := by
  cases call with
  | react => rfl
  | enter => cases h
  | outside => cases h

/-- The listener that a machine in its state has for an event. -/
def Machine.listenerFor (c : Machine) (m : Nat) (h : Nat × String) (id : Nat) : Listener ListenerCall :=
  ⟨id, c.element, h.2, .react m ⟨c.current.getD "", h.1⟩⟩

def Ear.listener? (c : Machine) (m : Nat) (e : Ear) : Option (Listener ListenerCall) := e.2.map (c.listenerFor m e.1)

namespace Stage

/-- The listeners that run reactions of a machine. -/
def reactors (s : Stage) (m : Nat) : List (Listener ListenerCall) := s.page.listeners.filter fun l => l.call.reacts m

/-- The id has been given out, and no reaction of the machine goes by it. -/
def Stranger (s : Stage) (n id : Nat) : Prop :=
  id ≤ s.page.lastId ∧ ∀ l ∈ s.page.listeners, l.id = id → l.call.reacts n = false

/-- The machine has noted a listener for some of these events, and just these listeners are on the page. -/
structure Tuned (s : Stage) (m : Nat) (c : Machine) (ears : List Ear) : Prop where
  notes : c.Notes ears
  perm : (s.reactors m).Perm (ears.filterMap (Ear.listener? c m))

/-- The listeners of a machine that is in use are those that its state asks for. -/
def Settled (s : Stage) (m : Nat) : Prop :=
  ∀ c, s.machine? m = some c → c.life = .live →
    ∃ ears : List Ear, ears.map Prod.fst = c.hearing ∧ (∀ e ∈ ears, e.2.isSome = true) ∧ Tuned s m c ears

/-- Ids name one listener each and are given out in order, and what machines have noted is nobody else's. -/
structure Sound (s : Stage) : Prop where
  nodup : (s.page.listeners.map Listener.id).Nodup
  bounded : ∀ l ∈ s.page.listeners, l.id ≤ s.page.lastId
  built : ∀ l ∈ s.page.listeners, ∀ m, l.call.reacts m = true → m < s.machines.length
  own : ∀ m c, s.machine? m = some c → ∀ id ∈ c.bound, ∀ n, n ≠ m → s.Stranger n id
  foreign : ∀ m c, s.machine? m = some c → ∀ t ∈ c.triggers, ∀ n, s.Stranger n t.2

/-! ## What the page does to the listeners of a machine -/

theorem reactors_addListener (s : Stage) (el : ElementId) (event : String) (call : ListenerCall) (m : Nat) :
    (s.mapPage (·.addListener el event call)).reactors m =
      s.reactors m ++ if call.reacts m then [⟨s.page.nextId, el, event, call⟩] else [] := by
  unfold reactors mapPage Page.addListener
  rw [List.filter_append]
  congr 1
  rw [List.filter_cons, List.filter_nil]

theorem reactors_removeListener (s : Stage) (el : ElementId) (id m : Nat) :
    (s.mapPage (·.removeListener el id)).reactors m =
      (s.reactors m).filter fun l => !(l.element = el && l.id = id) := by
  unfold reactors mapPage Page.removeListener
  simp only [List.filter_filter]
  congr 1
  funext l
  rw [Bool.and_comm]

theorem reactors_removeListener_of_stranger {s : Stage} {n id : Nat} (h : s.Stranger n id) (el : ElementId) :
    (s.mapPage (·.removeListener el id)).reactors n = s.reactors n := by
  rw [reactors_removeListener, List.filter_eq_self]
  intro l hl
  obtain ⟨hl, hn⟩ := List.mem_filter.1 hl
  by_cases hid : l.id = id
  · rw [h.2 l hl hid] at hn
    cases hn
  · simp [hid]

theorem Stranger.addListener {s : Stage} {n id : Nat} (h : s.Stranger n id) (el : ElementId) (event : String)
    (call : ListenerCall) : (s.mapPage (·.addListener el event call)).Stranger n id := by
  refine ⟨Nat.le_succ_of_le h.1, fun l hl hid => ?_⟩
  rcases List.mem_append.1 hl with hl | hl
  · exact h.2 l hl hid
  · rw [List.mem_singleton.1 hl] at hid
    have := h.1
    simp only [Page.nextId] at hid
    omega

theorem Stranger.removeListener {s : Stage} {n id : Nat} (h : s.Stranger n id) (el : ElementId) (id' : Nat) :
    (s.mapPage (·.removeListener el id')).Stranger n id :=
  ⟨h.1, fun l hl hid => h.2 l (List.mem_filter.1 hl).1 hid⟩

/-- The id that a listener gets is nobody's but that of the one who asked for it. -/
theorem Sound.stranger_nextId {s : Stage} (hs : Sound s) (el : ElementId) (event : String) {call : ListenerCall}
    {n : Nat} (hn : call.reacts n = false) :
    (s.mapPage (·.addListener el event call)).Stranger n s.page.nextId := by
  refine ⟨Nat.le_refl _, fun l hl hid => ?_⟩
  rcases List.mem_append.1 hl with hl | hl
  · have := hs.bounded l hl
    simp only [Page.nextId] at hid
    omega
  · rw [List.mem_singleton.1 hl]
    exact hn

theorem Sound.addListener {s : Stage} (hs : Sound s) (el : ElementId) (event : String) {call : ListenerCall}
    (hcall : ∀ m, call.reacts m = true → m < s.machines.length) :
    Sound (s.mapPage (·.addListener el event call)) where
  nodup := by
    simp only [mapPage, Page.addListener, List.map_append, List.map_cons, List.map_nil]
    rw [List.nodup_append]
    refine ⟨hs.nodup, List.nodup_cons.2 ⟨List.not_mem_nil, List.nodup_nil⟩, fun a ha b hb => ?_⟩
    obtain ⟨l, hl, rfl⟩ := List.mem_map.1 ha
    rw [List.mem_singleton.1 hb]
    have := hs.bounded l hl
    simp only [Page.nextId]
    omega
  bounded l hl := by
    rcases List.mem_append.1 hl with hl | hl
    · exact Nat.le_succ_of_le (hs.bounded l hl)
    · rw [List.mem_singleton.1 hl]
      exact Nat.le_refl _
  built l hl m hm := by
    rcases List.mem_append.1 hl with hl | hl
    · exact hs.built l hl m hm
    · rw [List.mem_singleton.1 hl] at hm
      exact hcall m hm
  own m c hc id hid n hn := (hs.own m c hc id hid n hn).addListener el event call
  foreign m c hc t ht n := (hs.foreign m c hc t ht n).addListener el event call

theorem Sound.removeListener {s : Stage} (hs : Sound s) (el : ElementId) (id : Nat) :
    Sound (s.mapPage (·.removeListener el id)) where
  nodup := hs.nodup.sublist (List.filter_sublist.map _)
  bounded l hl := hs.bounded l (List.mem_filter.1 hl).1
  built l hl m hm := hs.built l (List.mem_filter.1 hl).1 m hm
  own m c hc id' hid n hn := (hs.own m c hc id' hid n hn).removeListener el id
  foreign m c hc t ht n := (hs.foreign m c hc t ht n).removeListener el id

/-! ## What a change of one machine does -/

theorem machine?_mapMachine (s : Stage) (m n : Nat) (f : Machine → Machine) :
    (s.mapMachine m f).machine? n = if n = m then (s.machine? n).map f else s.machine? n := by
  split
  · rename_i h
    rw [h, machine?_mapMachine_self]
  · rename_i h
    rw [machine?_mapMachine_ne s h]

/-- A machine may note what is nobody else's. -/
theorem Sound.mapMachine {s : Stage} (hs : Sound s) {m : Nat} {f : Machine → Machine}
    (hbound : ∀ c, s.machine? m = some c → ∀ id ∈ (f c).bound, id ∈ c.bound ∨ ∀ n, n ≠ m → s.Stranger n id)
    (htriggers : ∀ c, s.machine? m = some c → ∀ t ∈ (f c).triggers, t ∈ c.triggers ∨ ∀ n, s.Stranger n t.2) :
    Sound (s.mapMachine m f) where
  nodup := hs.nodup
  bounded := hs.bounded
  built l hl n hn := by
    rw [Stage.mapMachine, List.length_modify]
    exact hs.built l hl n hn
  own n c hc id hid k hk := by
    rw [machine?_mapMachine] at hc
    split at hc
    · rename_i h
      subst h
      obtain ⟨c, hc', rfl⟩ := Option.map_eq_some_iff.1 hc
      rcases hbound c hc' id hid with hid | hid
      · exact hs.own n c hc' id hid k hk
      · exact hid k hk
    · exact hs.own n c hc id hid k hk
  foreign n c hc t ht k := by
    rw [machine?_mapMachine] at hc
    split at hc
    · rename_i h
      subst h
      obtain ⟨c, hc', rfl⟩ := Option.map_eq_some_iff.1 hc
      rcases htriggers c hc' t ht with ht | ht
      · exact hs.foreign n c hc' t ht k
      · exact ht k
    · exact hs.foreign n c hc t ht k

/-! ## What leaves a machine settled -/

theorem Settled.congr {s s' : Stage} {n : Nat} (h : Settled s n) (hm : s'.machine? n = s.machine? n)
    (hr : s'.reactors n = s.reactors n) : Settled s' n := by
  intro c hc hlive
  rw [hm] at hc
  obtain ⟨ears, hears, hsome, ht⟩ := h c hc hlive
  exact ⟨ears, hears, hsome, ht.notes, by rw [hr]; exact ht.perm⟩

theorem Settled.addListener {s : Stage} {n : Nat} (h : Settled s n) (el : ElementId) (event : String)
    {call : ListenerCall} (hn : call.reacts n = false) : Settled (s.mapPage (·.addListener el event call)) n :=
  h.congr rfl (by rw [reactors_addListener, hn]; exact List.append_nil _)

theorem Settled.removeListener {s : Stage} {n id : Nat} (h : Settled s n) (hn : s.Stranger n id) (el : ElementId) :
    Settled (s.mapPage (·.removeListener el id)) n :=
  h.congr rfl (reactors_removeListener_of_stranger hn el)

theorem Settled.mapMachine {s : Stage} {m n : Nat} (h : Settled s n) (hn : n ≠ m) (f : Machine → Machine) :
    Settled (s.mapMachine m f) n :=
  h.congr (machine?_mapMachine_ne s hn f) rfl

theorem Settled.of_isLive_eq_false {s : Stage} {n : Nat} (h : s.isLive n = false) : Settled s n := by
  intro c hc hlive
  rw [isLive, hc] at h
  simp [hlive] at h

/-! ## The same wiring -/

theorem SameWiring.reactors {s s' : Stage} (h : SameWiring s s') (n : Nat) : s'.reactors n = s.reactors n := by
  rw [Stage.reactors, Stage.reactors, h.listeners]

theorem SameWiring.stranger {s s' : Stage} (h : SameWiring s s') {n id : Nat} (hn : s.Stranger n id) :
    s'.Stranger n id := by
  refine ⟨by rw [h.lastId]; exact hn.1, ?_⟩
  rw [h.listeners]
  exact hn.2

theorem SameWiring.settled {s s' : Stage} (h : SameWiring s s') {n : Nat} (hn : Settled s n) : Settled s' n := by
  intro c' hc' hlive
  obtain ⟨c, hc, hw⟩ := h.machine hc'
  have hlive' : c.life = .live := (congrArg Machine.life hw).symm.trans hlive
  obtain ⟨ears, hears, hsome, ht⟩ := hn c hc hlive'
  have hlistener : Ear.listener? c' n = Ear.listener? c n := by
    change Ear.listener? c'.wiring n = Ear.listener? c.wiring n
    rw [hw]
  refine ⟨ears, hears.trans (congrArg Machine.hearing hw).symm, hsome,
    (congrArg Machine.bindings hw).trans ht.notes, ?_⟩
  rw [h.reactors, hlistener]
  exact ht.perm

theorem SameWiring.sound {s s' : Stage} (h : SameWiring s s') (hs : Sound s) : Sound s' where
  nodup := by rw [h.listeners]; exact hs.nodup
  bounded := by rw [h.listeners, h.lastId]; exact hs.bounded
  built := by rw [h.listeners, h.length]; exact hs.built
  own m c' hc' id hid n hn := by
    obtain ⟨c, hc, hw⟩ := h.machine hc'
    change id ∈ c'.wiring.bound at hid
    rw [hw] at hid
    exact h.stranger (hs.own m c hc id hid n hn)
  foreign m c' hc' t ht n := by
    obtain ⟨c, hc, hw⟩ := h.machine hc'
    change t ∈ c'.wiring.triggers at ht
    rw [hw] at ht
    exact h.stranger (hs.foreign m c hc t ht n)

end Stage
end Stagecraft
