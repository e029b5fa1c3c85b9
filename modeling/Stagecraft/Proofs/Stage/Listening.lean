import Stagecraft.Proofs.Stage.Phase
/-!
# Listening for just what the state asks

Every task on a host without manners of its own goes from phase to phase, so outside of its transitions a machine has
just the listeners that its state asks for.
-/
namespace Stagecraft
namespace Stage

/-! ## Jumps, triggers and machines that are let go -/

theorem Settled.tuned {s : Stage} {m : Nat} (h : Settled s m) {c : Machine} (hc : s.machine? m = some c)
    (hlive : c.life = .live) : ∃ ears : List Ear, ears.map Prod.fst = c.hearing ∧ Tuned s m c ears := by
  obtain ⟨ears, hears, -, ht⟩ := h c hc hlive
  exact ⟨ears, hears, ht⟩

theorem listening_of_plain {s : Stage} {t : Task} {rest : List Task} (hs : Sound s) (hall : ∀ n, Settled s n)
    (hrest : Quiet rest) (ht : t.isPlain = true) : Listening (.after s t rest) := by
  obtain ⟨hw, hinner⟩ := plain_carryOut s rest ht
  exact ⟨hw.sound hs, .of_quiet (fun n => hw.settled (hall n)) (.append hinner hrest)⟩

theorem listening_jump {s : Stage} {m : Nat} {slot : Slot} {rest : List Task} (hs : Sound s) (hall : ∀ n, Settled s n)
    (hrest : Quiet rest) : Listening (.after s (.jump m slot) rest) := by
  have hstay : Listening ⟨s, rest⟩ := ⟨hs, .of_quiet hall hrest⟩
  simp only [Config.after, Task.carryOut, jump]
  cases hc : s.machine? m with
  | none => exact hstay
  | some c =>
    simp only
    cases c.reaction? slot with
    | none => exact hstay
    | some r =>
      simp only
      cases r.goto with
      | none => exact hstay
      | some target =>
        simp only
        split
        · rename_i id hid
          replace hid : c.listenerOf? slot.index = some id := by
            split at hid
            · exact hid
            · cases hid
          obtain ⟨before, after, hbindings, -⟩ := Machine.exists_of_listenerOf? hid
          have hmem : id ∈ c.bound := by
            rw [Machine.bound, hbindings, List.filterMap_append, List.filterMap_cons]
            exact List.mem_append_right _ List.mem_cons_self
          have hc' : (s.mapMachine m (·.unbind slot.index)).machine? m = some (c.unbind slot.index) := by
            rw [machine?_mapMachine_self, hc]
            rfl
          refine ⟨hs.mapMachine (fun c' _ id' hid' => .inl (Machine.mem_bound_unbind hid'))
            fun c' _ t ht => .inl ht, ?_⟩
          refine @Phase.unbinding _ m (c.unbind slot.index) id target rest ((Apart.of_all hall hrest).mapMachine _) hc'
            (fun n hn => hs.own m c hc id hmem n hn) fun hlive => ?_
          obtain ⟨ears, hfst, ht⟩ := (hall m).tuned hc hlive
          obtain ⟨before, after, name, rfl, hn⟩ := ht.notes.unbind hid
          refine ⟨before ++ ((slot.index, name), none) :: after, c.listenerFor m (slot.index, name) id,
            ?_, hn, rfl, rfl, ?_⟩
          · rw [List.map_append, List.map_cons] at hfst ⊢
            exact hfst
          · rw [@listener?_congr c (c.unbind slot.index) rfl rfl m]
            refine ht.perm.trans ?_
            rw [List.filterMap_append, List.filterMap_append, List.filterMap_cons, List.filterMap_cons]
            exact List.perm_middle
        · exact ⟨hs, .jumping (.of_all hall hrest) hc fun hlive => (hall m).tuned hc hlive⟩

theorem listening_unbinding {s : Stage} {m : Nat} {c : Machine} {id : Nat} {target : String} {rest : List Task}
    (hs : Sound s) (hr : s.manners.reflexes = []) (h : Apart s m rest) (hc : s.machine? m = some c)
    (hid : ∀ n, n ≠ m → s.Stranger n id)
    (hears : c.life = .live → ∃ (ears : List Ear) (l : Listener ListenerCall), ears.map Prod.fst = c.hearing ∧
      c.Notes ears ∧ l.element = c.element ∧ l.id = id ∧
      (s.reactors m).Perm (l :: ears.filterMap (Ear.listener? c m))) :
    Listening (.after s (.detach c.element id) (.transition m target :: rest)) := by
  simp only [Config.after, Task.carryOut, detach, reflexes, hr, List.filter_nil, List.map_nil, List.nil_append]
  refine ⟨hs.removeListener _ _, .jumping ⟨fun n hn => (h.others n hn).removeListener (hid n hn) _, h.quiet⟩ hc
    fun hlive => ?_⟩
  obtain ⟨ears, l, hfst, hn, hel, hlid, hperm⟩ := hears hlive
  refine ⟨ears, hfst, hn, ?_⟩
  rw [reactors_removeListener]
  -- no other listener of the machine has the id that is removed
  have hnodup : ((l :: ears.filterMap (Ear.listener? c m)).map Listener.id).Nodup :=
    (hperm.map _).nodup_iff.1 (hs.nodup.sublist (List.filter_sublist.map _))
  rw [List.map_cons, List.nodup_cons] at hnodup
  refine (hperm.filter _).trans ?_
  rw [List.filter_cons_of_neg (by simp [hel, hlid]), List.filter_eq_self.2]
  intro x hx
  have hne : x.id ≠ id := fun heq => hnodup.1 (hlid ▸ heq ▸ List.mem_map_of_mem hx)
  simp [hne]

theorem listening_watch {s : Stage} {m : Nat} {el : ElementId} {event state : String} {rest : List Task} (hs : Sound s)
    (hr : s.manners.reflexes = []) (hall : ∀ n, Settled s n) (hrest : Quiet rest) :
    Listening (.after s (.watch m el event state) rest) := by
  simp only [Config.after, Task.carryOut, watch, attach, reflexes, hr, List.filter_nil, List.map_nil, List.nil_append]
  exact ⟨hs.addListener _ _ fun _ h => (by cases h), .watched (fun n => (hall n).addListener _ _ rfl)
    (fun n => hs.stranger_nextId _ _ rfl) hrest⟩

theorem listening_watched {s : Stage} {m : Nat} {el : ElementId} {id : Nat} {rest : List Task} (hs : Sound s)
    (hall : ∀ n, Settled s n) (hid : ∀ n, s.Stranger n id) (hrest : Quiet rest) :
    Listening (.after s (.watched m el id) rest) := by
  simp only [Config.after, Task.carryOut, watched, List.nil_append]
  refine ⟨hs.mapMachine (fun _ _ _ h => .inl h) fun c _ t ht => ?_, .of_quiet (fun n => ?_) hrest⟩
  · rcases List.mem_append.1 ht with ht | ht
    · exact .inl ht
    · rw [List.mem_singleton.1 ht]
      exact .inr hid
  · by_cases hn : n = m
    · subst hn
      intro c hc hlive
      rw [machine?_mapMachine_self] at hc
      obtain ⟨c, hc', rfl⟩ := Option.map_eq_some_iff.1 hc
      obtain ⟨ears, hfst, hsome, ht⟩ := hall n c hc' hlive
      exact ⟨ears, hfst, hsome, ht.notes, ht.perm⟩
    · exact (hall n).mapMachine hn _

/-- A machine that is not in use is settled whatever has become of it. -/
theorem settled_mapMachine_of_life {s : Stage} (hall : ∀ n, Settled s n) (m : Nat) {f : Machine → Machine}
    (hf : ∀ c, (f c).life ≠ .live) (n : Nat) : Settled (s.mapMachine m f) n := by
  by_cases hn : n = m
  · subst hn
    intro c hc hlive
    rw [machine?_mapMachine_self] at hc
    obtain ⟨c, -, rfl⟩ := Option.map_eq_some_iff.1 hc
    exact absurd hlive (hf c)
  · exact (hall n).mapMachine hn _

theorem listening_release {s : Stage} {m : Nat} {rest : List Task} (hs : Sound s) (hall : ∀ n, Settled s n)
    (hrest : Quiet rest) : Listening (.after s (.release (.machine m)) rest) := by
  have hstay : Listening ⟨s, rest⟩ := ⟨hs, .of_quiet hall hrest⟩
  simp only [Config.after, Task.carryOut, release]
  cases hc : s.machine? m with
  | none => exact hstay
  | some c =>
    simp only
    split
    · refine ⟨hs.mapMachine (fun _ _ _ h => by cases h) (fun _ _ _ h => by cases h), ?_⟩
      rw [List.append_assoc _ [Task.closed m] rest]
      refine .calm (settled_mapMachine_of_life hall m fun c h => by cases h) (fun d hd => ?_)
        (.append (by simp [Task.isInner, Task.kind, Kind.isInner]) hrest)
      have hne : ∀ n,
          (s.mapMachine m fun c => { c with life := .closing, bindings := [], triggers := [] }).isLive n = true →
          n ≠ m := by
        rintro n hn rfl
        rw [isLive, machine?_mapMachine_self, hc] at hn
        cases hn
      rcases List.mem_append.1 hd with hd | hd
      · obtain ⟨id, hid, rfl⟩ := List.mem_map.1 hd
        exact ⟨c.element, id, rfl, fun n hn => hs.own m c hc id hid n (hne n hn)⟩
      · obtain ⟨⟨el, id⟩, ht, rfl⟩ := List.mem_map.1 hd
        exact ⟨el, id, rfl, fun n _ => hs.foreign m c hc (el, id) ht n⟩
    · exact hstay

theorem listening_closed {s : Stage} {m : Nat} {rest : List Task} (hs : Sound s) (hall : ∀ n, Settled s n)
    (hrest : Quiet rest) : Listening (.after s (.closed m) rest) := by
  simp only [Config.after, Task.carryOut, closed]
  cases hc : s.machine? m with
  | none => exact ⟨hs, .of_quiet hall hrest⟩
  | some c =>
    exact ⟨hs.mapMachine (fun _ _ _ h => .inl h) fun _ _ _ h => .inl h,
      .of_quiet (settled_mapMachine_of_life hall m fun c h => by cases h)
        (.append (by simp [Task.isInner, Task.kind, Kind.isInner]) hrest)⟩

/-! ## What is done from outside -/

theorem listening_addListener {s : Stage} {el : ElementId} {event label : String} {script : List Cue}
    {rest : List Task} (hs : Sound s) (hall : ∀ n, Settled s n) (hrest : Quiet rest) :
    Listening (.after s (.cue (.addListener el event label script)) rest) := by
  have hw : SameWiring (s.mapPage (·.addListener el event (.outside label script)))
      ((s.mapPage (·.addListener el event (.outside label script))).reply (.count s.page.nextId)) :=
    ⟨rfl, rfl, rfl⟩
  have hs' := @Sound.addListener s hs el event (.outside label script) fun m hm => by cases hm
  exact ⟨hw.sound hs', .of_quiet (fun n => hw.settled ((hall n).addListener el event rfl)) hrest⟩

theorem listening_removeListener {s : Stage} {el : ElementId} {id : Nat} {rest : List Task} (hs : Sound s)
    (hall : ∀ n, Settled s n) (hrest : Quiet rest)
    (hid : ∀ l ∈ s.page.listeners, l.element = el → l.id = id → ∀ m, l.call.reacts m = false) :
    Listening (.after s (.cue (.removeListener el id)) rest) := by
  have hw : SameWiring (s.mapPage (·.removeListener el id))
      ((s.mapPage (·.removeListener el id)).reply .nothing) := ⟨rfl, rfl, rfl⟩
  refine ⟨hw.sound (hs.removeListener el id), .of_quiet (fun n => hw.settled ((hall n).congr rfl ?_)) hrest⟩
  rw [reactors_removeListener, List.filter_eq_self]
  intro l hl
  obtain ⟨hl, hn⟩ := List.mem_filter.1 hl
  by_cases h : l.element = el ∧ l.id = id
  · rw [hid l hl h.1 h.2 n] at hn
    cases hn
  · simp only [Bool.not_eq_true', Bool.and_eq_false_iff, decide_eq_false_iff_not]
    exact Decidable.not_and_iff_or_not.1 h

theorem machine?_addMachine (s : Stage) (el : ElementId) (settings : Settings) (hooked : Bool)
    (states : List StateDecl) (n : Nat) :
    (s.addMachine el settings hooked states).machine? n =
      if n = s.machines.length then some (.ofStates el settings hooked s.queues.length states) else s.machine? n := by
  unfold addMachine machine?
  simp only [List.getElem?_append]
  split
  · rename_i h
    rw [if_neg (by omega)]
  · split
    · rename_i h
      rw [h, Nat.sub_self]
      rfl
    · rename_i h h'
      rw [List.getElem?_eq_none (by simp only [List.length_singleton]; omega), List.getElem?_eq_none (by omega)]

theorem sound_addMachine {s : Stage} (hs : Sound s) (el : ElementId) (settings : Settings) (hooked : Bool)
    (states : List StateDecl) : Sound (s.addMachine el settings hooked states) where
  nodup := hs.nodup
  bounded := hs.bounded
  built l hl m hm := by
    have := hs.built l hl m hm
    rw [addMachine, List.length_append]
    omega
  own m c hc id hid n hn := by
    rw [machine?_addMachine] at hc
    split at hc
    · cases hc
      cases hid
    · exact hs.own m c hc id hid n hn
  foreign m c hc t ht n := by
    rw [machine?_addMachine] at hc
    split at hc
    · cases hc
      cases ht
    · exact hs.foreign m c hc t ht n

/-- No listener is there for a machine before it is built. -/
theorem settled_addMachine {s : Stage} (hs : Sound s) (hall : ∀ n, Settled s n) (el : ElementId) (settings : Settings)
    (hooked : Bool) (states : List StateDecl) (n : Nat) : Settled (s.addMachine el settings hooked states) n := by
  by_cases hn : n = s.machines.length
  · refine settled_of_machine? (by rw [machine?_addMachine, if_pos hn])
      fun _ => ⟨[], rfl, fun e he => (by cases he), ?_, ?_⟩
    · rfl
    have hnone : s.reactors n = [] := by
      refine List.filter_eq_nil_iff.2 fun l hl h => ?_
      have := hs.built l hl n h
      omega
    rw [show (s.addMachine el settings hooked states).reactors n = s.reactors n from rfl, hnone]
    exact .refl _
  · exact (hall n).congr (by rw [machine?_addMachine, if_neg hn]) rfl

theorem listening_build {s : Stage} {name : String} {el : ElementId} {settings : Settings} {hooked : Bool}
    {states : List Declaration} {rest : List Task} (hs : Sound s) (hall : ∀ n, Settled s n) (hrest : Quiet rest) :
    Listening (.after s (.cue (.build name el settings hooked states)) rest) := by
  simp only [Config.after, Task.carryOut, follow, build]
  split
  · have hw := (undisturbed_declared el states s).sameWiring
    generalize states.foldl (fun s d => s.notifyAll (d.notices el)) s = s' at hw
    have hs' := sound_addMachine (hw.sound hs) el settings hooked (states.foldl declare [])
    have hall' := settled_addMachine (hw.sound hs) (fun n => hw.settled (hall n)) el settings hooked
        (states.foldl declare [])
    have hw' : SameWiring (s'.addMachine el settings hooked (states.foldl declare []))
        ((s'.addMachine el settings hooked (states.foldl declare [])).castAs name s'.machines.length).1 :=
      ⟨rfl, rfl, rfl⟩
    refine ⟨hw'.sound hs', .of_quiet (fun n => hw'.settled (hall' n)) (.append (fun t ht => ?_) hrest)⟩
    simp only [castAs, List.mem_append, List.mem_map, List.mem_singleton] at ht
    rcases ht with ⟨_, -, rfl⟩ | rfl <;> rfl
  · exact ⟨(show SameWiring s (s.complain .noHost) from ⟨rfl, rfl, rfl⟩).sound hs,
      .of_quiet (fun n => (show SameWiring s (s.complain .noHost) from ⟨rfl, rfl, rfl⟩).settled (hall n)) hrest⟩

/-! ## Every step -/

/-- Whether a task takes away from outside a listener by which a machine runs a reaction. -/
def trespasses (s : Stage) : Task → Bool
  | .cue (.removeListener el id) => s.page.listeners.any fun l => l.element = el && l.id = id && l.call.isReaction
  | _ => false

theorem listening_of_calm {s : Stage} {t : Task} {rest : List Task} (hs : Sound s) (hr : s.manners.reflexes = [])
    (hall : ∀ n, Settled s n) (hq : Quiet (t :: rest)) (ht : trespasses s t = false) : Listening (.after s t rest) := by
  have hrest := hq.tail
  by_cases hp : t.isPlain = true
  · exact listening_of_plain hs hall hrest hp
  · have hinner : t.isInner = false := hq t List.mem_cons_self
    cases t with
    | cue c =>
      cases c with
      | addListener el event label script => exact listening_addListener hs hall hrest
      | removeListener el id =>
        refine listening_removeListener hs hall hrest fun l hl hel hid m => Bool.eq_false_iff.2 fun h => ?_
        have := List.any_eq_false.1 ht l hl
        simp [hel, hid, ListenerCall.isReaction_of_reacts h] at this
      | build name el settings hooked states => exact listening_build hs hall hrest
      | _ => exact absurd rfl hp
    | transition m state =>
      exact listening_transition hs (.of_all hall hrest) fun c hc hlive => (hall m).tuned hc hlive
    | jump m slot => exact listening_jump hs hall hrest
    | watch m el event state => exact listening_watch hs hr hall hrest
    | release hold =>
      cases hold with
      | machine m => exact listening_release hs hall hrest
      | queue q => exact absurd rfl hp
      | host => exact absurd rfl hp
    | closed m => exact listening_closed hs hall hrest
    | detach => cases hinner
    | arrive => cases hinner
    | bind => cases hinner
    | bound => cases hinner
    | watched => cases hinner
    | _ => exact absurd rfl hp

theorem listening_of_strays {s : Stage} {el : ElementId} {id : Nat} {ds rest : List Task} (hs : Sound s)
    (hr : s.manners.reflexes = []) (hall : ∀ n, Settled s n) (hid : ∀ n, s.isLive n = true → s.Stranger n id)
    (hds : ∀ d ∈ ds, ∃ el id, d = Task.detach el id ∧ ∀ n, s.isLive n = true → s.Stranger n id)
    (hrest : Quiet rest) : Listening (.after s (.detach el id) (ds ++ rest)) := by
  simp only [Config.after, Task.carryOut, detach, reflexes, hr, List.filter_nil, List.map_nil, List.nil_append]
  refine ⟨hs.removeListener el id, .calm (fun n => ?_) (fun d hd => ?_) hrest⟩
  · cases hn : s.isLive n with
    | true => exact (hall n).removeListener (hid n hn) el
    | false => exact .of_isLive_eq_false hn
  · obtain ⟨el', id', rfl, hid'⟩ := hds d hd
    exact ⟨el', id', rfl, fun n hn => (hid' n hn).removeListener el id⟩

/-- **Every task keeps all machines listening for just what they should**, but for a task that takes the listeners of
a machine away from outside. -/
theorem listening_step {s : Stage} {t : Task} {rest : List Task} (hr : s.manners.reflexes = [])
    (ht : trespasses s t = false) (h : Listening ⟨s, t :: rest⟩) : Listening (.after s t rest) := by
  obtain ⟨hs, hphase⟩ := h
  simp only at hs hphase
  generalize hagenda : t :: rest = agenda at hphase
  cases hphase with
  | @calm ds rest' hall hds hrest =>
    cases ds with
    | nil =>
      rw [List.nil_append] at hagenda
      subst hagenda
      exact listening_of_calm hs hr hall hrest ht
    | cons d ds =>
      obtain ⟨rfl, rfl⟩ := List.cons.inj hagenda
      obtain ⟨el, id, rfl, hid⟩ := hds t List.mem_cons_self
      exact listening_of_strays hs hr hall hid (fun d hd => hds d (List.mem_cons_of_mem _ hd)) hrest
  | watched hall hid hrest =>
    obtain ⟨rfl, rfl⟩ := List.cons.inj hagenda
    exact listening_watched hs hall hid hrest
  | @leaving m c ids state rest' h hc hb hids hears =>
    cases ids with
    | nil =>
      obtain ⟨rfl, rfl⟩ := List.cons.inj hagenda
      refine listening_arrive hs h hc (fun h => by cases h) fun hlive => ⟨[], rfl, hb, ?_⟩
      have hnone : s.reactors m = [] := List.eq_nil_iff_forall_not_mem.2 fun l hl => by cases (hears hlive l hl).2
      rw [hnone]
      exact .refl _
    | cons id ids =>
      obtain ⟨rfl, rfl⟩ := List.cons.inj hagenda
      exact listening_leaving hs hr h hc hb hids hears
  | unbinding h hc hid hears =>
    obtain ⟨rfl, rfl⟩ := List.cons.inj hagenda
    exact listening_unbinding hs hr h hc hid hears
  | @jumping m c target rest' h hc hears =>
    obtain ⟨rfl, rfl⟩ := List.cons.inj hagenda
    refine listening_transition hs h fun c' hc' hlive => ?_
    obtain rfl : c = c' := Option.some.inj (hc.symm.trans hc')
    exact hears hlive
  | arriving h hc hagain hears =>
    obtain ⟨rfl, rfl⟩ := List.cons.inj hagenda
    exact listening_arrive hs h hc hagain hears
  | @filling m c state d pre post again rest' h hc hcur hd hreac hears =>
    cases post with
    | nil =>
      have hrest : t :: rest = rest' := hagenda
      subst hrest
      exact listening_of_calm hs hr (h.all (settled_of_filled hc hcur hd (by rw [hreac, List.append_nil]) hears))
        h.quiet ht
    | cons r post =>
      rw [List.length_cons, binds_succ] at hagenda
      obtain ⟨rfl, rfl⟩ := List.cons.inj hagenda
      exact listening_bind hs hr h hc hcur hd hreac hears
  | noting h hc hcur hd hreac hon hid hears =>
    obtain ⟨rfl, rfl⟩ := List.cons.inj hagenda
    exact listening_bound hs h hc hcur hd hreac hon hid hears

/-! ## Outside of a transition -/

/-- Whether control is inside a transition of the machine: it leaves a state, arrives in one or binds reactions. -/
def turning (m : Nat) : List Task → Bool
  | .detach .. :: rest => turning m rest
  | .transition n _ :: _ => n = m
  | .arrive n .. :: _ => n = m
  | .bind n .. :: _ => n = m
  | .bound n .. :: _ => n = m
  | _ => false

theorem turning_detach (m : Nat) (el : ElementId) (agenda : List Task) : ∀ ids : List Nat,
    turning m (ids.map (.detach el) ++ agenda) = turning m agenda
  | [] => rfl
  | _ :: ids => turning_detach m el agenda ids

theorem Apart.settled {s : Stage} {m n : Nat} {rest : List Task} (h : Apart s m rest) (hn : decide (m = n) = false) :
    Settled s n := h.others n fun heq => by simp [heq] at hn

theorem Phase.settled {s : Stage} {agenda : List Task} (h : Phase s agenda) {m : Nat}
    (hm : turning m agenda = false) : Settled s m := by
  cases h with
  | calm hall hds hrest => exact hall m
  | watched hall hid hrest => exact hall m
  | leaving h hc hb hids hears =>
    rw [turning_detach] at hm
    exact h.settled hm
  | unbinding h hc hid hears => exact h.settled hm
  | jumping h hc hears => exact h.settled hm
  | arriving h hc hagain hears => exact h.settled hm
  | @filling n c state d pre post again rest h hc hcur hd hr hears =>
    cases post with
    | nil => exact h.all (settled_of_filled hc hcur hd (by rw [hr, List.append_nil]) hears) m
    | cons r post => exact h.settled hm
  | noting h hc hcur hd hr hon hid hears => exact h.settled hm

theorem listening_opened (manners : Manners) : Listening ⟨opened manners, []⟩ := by
  have hnone : ∀ m c, (opened manners).machine? m ≠ some c := fun m c h => by simp [opened, machine?] at h
  refine ⟨⟨List.nodup_nil, fun l hl => (by cases hl), fun l hl => (by cases hl),
    fun m c hc => absurd hc (hnone m c), fun m c hc => absurd hc (hnone m c)⟩, ?_⟩
  exact .of_quiet (fun m c hc => absurd hc (hnone m c)) fun t ht => by cases ht

theorem Listening.all {s : Stage} (h : Listening ⟨s, []⟩) (n : Nat) : Settled s n := h.phase.settled rfl

end Stage

open Stage

/-- Whether the next task takes away from outside a listener by which a machine runs a reaction. -/
def Config.trespasses (c : Config) : Bool :=
  match c.agenda with
  | [] => false
  | t :: _ => Stage.trespasses c.stage t

theorem Course.listening {manners : Manners} (hr : manners.reflexes = []) {c : Config} {past : List Config}
    (h : Course manners (c :: past)) (hpast : ∀ b ∈ past, b.trespasses = false) :
    c.stage.manners = manners ∧ Listening c := by
  refine Course.invariant (I := fun c => c.stage.manners = manners ∧ Listening c)
    (P := fun b => b.trespasses = false) ⟨rfl, listening_opened manners⟩ ?_ ?_ ?_ h hpast
  · rintro s ⟨hm, h⟩
    have hw : SameWiring s s.cleared := ⟨rfl, rfl, rfl⟩
    exact ⟨hm, hw.sound h.sound, .of_quiet (fun n => hw.settled (h.all n)) fun t ht => by cases ht⟩
  · rintro s cue ⟨hm, h⟩
    exact ⟨hm, h.sound, .of_quiet h.all (by simp [Quiet, Task.isInner, Task.kind, Kind.isInner])⟩
  · rintro s t rest past - ht ⟨hm, h⟩
    have hm : s.manners = manners := hm
    exact ⟨(within_carryOut s rest t).touched.manners.trans hm, listening_step (by rw [hm, hr]) ht h⟩

/-- **Outside of its transitions a machine listens for just what its state asks.**  On a host that never dispatches from
inside its own calls, whatever is done to the stage and in whatever order: the listeners that run reactions of a machine
in use are on its own element and are one for each event that its current state waits for, and the machine has noted
each under the place of the event, and no others. -/
theorem listeners_fit_state {manners : Manners} (hr : manners.reflexes = []) {c : Config} {past : List Config}
    (h : Course manners (c :: past)) (hpast : ∀ b ∈ past, b.trespasses = false)
    {m : Nat} {machine : Machine} (hm : c.stage.machine? m = some machine) (hlive : machine.life = .live)
    (hturn : turning m c.agenda = false) :
    ∃ heard : List ((Nat × String) × Nat), heard.map Prod.fst = machine.hearing ∧ (heard.map Prod.snd).Nodup ∧
      machine.bindings = heard.map (fun e => ⟨e.1.1, some e.2⟩) ∧
      (c.stage.reactors m).Perm (heard.map fun e =>
        ⟨e.2, machine.element, e.1.2, .react m ⟨machine.current.getD "", e.1.1⟩⟩) ∧
      machine.bound.length = machine.hearing.length := by
  obtain ⟨-, hs, hphase⟩ := Course.listening hr h hpast
  obtain ⟨ears, hfst, hsome, ht⟩ := hphase.settled hturn machine hm hlive
  obtain ⟨heard, rfl⟩ := Ear.exists_of_isSome hsome
  have hfst : heard.map Prod.fst = machine.hearing := by
    rw [← hfst, List.map_map]
    rfl
  have hperm : (c.stage.reactors m).Perm (heard.map fun e => machine.listenerFor m e.1 e.2) := by
    have := ht.perm
    rwa [List.filterMap_map, show Ear.listener? machine m ∘ (fun e => (e.1, some e.2)) =
      some ∘ fun e : (Nat × String) × Nat => machine.listenerFor m e.1 e.2 from rfl, List.filterMap_eq_map] at this
  refine ⟨heard, hfst, ?_, ?_, hperm, ?_⟩
  · have hnodup := (hperm.map Listener.id).nodup_iff.1 (hs.nodup.sublist (List.filter_sublist.map _))
    rwa [List.map_map] at hnodup
  · rw [ht.notes, List.map_map]
    rfl
  · rw [ht.notes.bound, ← hfst, List.filterMap_map]
    simp

/-- A machine that waits for a click in its only state, and enters the state anew on each. -/
def doorbell : Cue :=
  .build "m" ⟨1⟩ {} true [.ready ⟨"quiet", [{ on := .event "click", goto := some "quiet" }], none⟩]

/-- After a click the machine waits for the next one. -/
theorem listeners_fit_state_doorbell : ∃ heard : List ((Nat × String) × Nat), heard.map Prod.fst = [(0, "click")] ∧
    ∃ c past, [doorbell, .transition "m" "quiet", .dispatch ⟨1⟩ "click"].foldl (Course.play 40) [⟨.opened {}, []⟩] =
        c :: past ∧
      (c.stage.reactors 0).Perm (heard.map fun e => ⟨e.2, ⟨1⟩, e.1.2, .react 0 ⟨"quiet", e.1.1⟩⟩) := by
  obtain ⟨heard, hfst, -, -, hperm, -⟩ := listeners_fit_state (c := _) (m := 0) rfl
    (Course.plays {} 40 [doorbell, .transition "m" "quiet", .dispatch ⟨1⟩ "click"] .opened) (by decide) rfl rfl rfl
  exact ⟨heard, hfst, _, _, rfl, hperm⟩

end Stagecraft
