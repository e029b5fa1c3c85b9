import Stagecraft.Proofs.Stage.Course
import Stagecraft.Proofs.Stage.Listeners
/-!
# The phases of a transition

A machine changes its listeners in short runs of tasks: it leaves a state, arrives in one, and binds the reactions there
one after another.  On a host without manners of its own nothing comes between these tasks.  `Phase` says what is true
of all machines at each of them.
-/
namespace Stagecraft
namespace Stage

/-- Nothing by which listeners come and go is waiting. -/
def Quiet (agenda : List Task) : Prop := ∀ t ∈ agenda, t.isInner = false

/-- The tasks that bind `n` reactions of a state, from the place `k` on. -/
def binds (m : Nat) (state : String) (again : Bool) (k n : Nat) : List Task :=
  (List.range' k n).map fun i => .bind m ⟨state, i⟩ again

/-- All is well but for one machine, whose tasks come first. -/
structure Apart (s : Stage) (m : Nat) (rest : List Task) : Prop where
  others : ∀ n, n ≠ m → Settled s n
  quiet : Quiet rest

/-- Where the work on listeners is, by what comes first on the agenda. -/
inductive Phase (s : Stage) : List Task → Prop
  /-- Nothing is going on; at most, listeners of a machine that is let go are removed. -/
  | calm {ds rest : List Task} (hall : ∀ n, Settled s n)
      (hds : ∀ d ∈ ds, ∃ el id, d = Task.detach el id ∧ ∀ n, s.isLive n = true → s.Stranger n id)
      (hrest : Quiet rest) : Phase s (ds ++ rest)
  | watched {m : Nat} {el : ElementId} {id : Nat} {rest : List Task} (hall : ∀ n, Settled s n)
      (hid : ∀ n, s.Stranger n id) (hrest : Quiet rest) : Phase s (.watched m el id :: rest)
  | leaving {m : Nat} {c : Machine} {ids : List Nat} {state : String} {rest : List Task} (h : Apart s m rest)
      (hc : s.machine? m = some c) (hb : c.bindings = []) (hids : ∀ id ∈ ids, ∀ n, n ≠ m → s.Stranger n id)
      (hears : c.life = .live → ∀ l ∈ s.reactors m, l.element = c.element ∧ l.id ∈ ids) :
      Phase s (ids.map (.detach c.element) ++ .arrive m state false :: rest)
  /-- A jump detaches the listener of its reaction before it leads anywhere. -/
  | unbinding {m : Nat} {c : Machine} {id : Nat} {target : String} {rest : List Task} (h : Apart s m rest)
      (hc : s.machine? m = some c) (hid : ∀ n, n ≠ m → s.Stranger n id)
      (hears : c.life = .live → ∃ (ears : List Ear) (l : Listener ListenerCall), ears.map Prod.fst = c.hearing ∧
        c.Notes ears ∧ l.element = c.element ∧ l.id = id ∧
        (s.reactors m).Perm (l :: ears.filterMap (Ear.listener? c m))) :
      Phase s (.detach c.element id :: .transition m target :: rest)
  | jumping {m : Nat} {c : Machine} {target : String} {rest : List Task} (h : Apart s m rest)
      (hc : s.machine? m = some c)
      (hears : c.life = .live → ∃ ears : List Ear, ears.map Prod.fst = c.hearing ∧ Tuned s m c ears) :
      Phase s (.transition m target :: rest)
  | arriving {m : Nat} {c : Machine} {state : String} {again : Bool} {rest : List Task} (h : Apart s m rest)
      (hc : s.machine? m = some c) (hagain : again = true → c.current = some state)
      (hears : c.life = .live →
        ∃ ears : List Ear, ears.map Prod.fst = (if again then c.hearing else []) ∧ Tuned s m c ears) :
      Phase s (.arrive m state again :: rest)
  /-- The reactions of `pre` are bound, those of `post` are not; when a state is entered again they have places. -/
  | filling {m : Nat} {c : Machine} {state : String} {d : StateDecl} {pre post : List Reaction} {again : Bool}
      {rest : List Task} (h : Apart s m rest) (hc : s.machine? m = some c) (hcur : c.current = some state)
      (hd : c.state? state = some d) (hr : d.reactions = pre ++ post)
      (hears : c.life = .live → ∃ done todo : List Ear, done.map Prod.fst = Reaction.hearing 0 pre ∧
        (∀ e ∈ done, e.2.isSome = true) ∧
        todo.map Prod.fst = (if again then Reaction.hearing pre.length post else []) ∧ Tuned s m c (done ++ todo)) :
      Phase s (binds m state again pre.length post.length ++ rest)
  /-- A listener has been added and is not yet noted. -/
  | noting {m : Nat} {c : Machine} {state name : String} {d : StateDecl} {pre post : List Reaction} {r : Reaction}
      {again : Bool} {id : Nat} {rest : List Task} (h : Apart s m rest) (hc : s.machine? m = some c)
      (hcur : c.current = some state) (hd : c.state? state = some d) (hr : d.reactions = pre ++ r :: post)
      (hon : r.on = .event name) (hid : ∀ n, n ≠ m → s.Stranger n id)
      (hears : c.life = .live → ∃ done todo : List Ear, done.map Prod.fst = Reaction.hearing 0 pre ∧
        (∀ e ∈ done, e.2.isSome = true) ∧
        todo.map Prod.fst = (if again then Reaction.hearing (pre.length + 1) post else []) ∧
        c.Notes (done ++ ((if again then [((pre.length, name), none)] else []) ++ todo)) ∧
        (s.reactors m).Perm
          ((done ++ todo).filterMap (Ear.listener? c m) ++ [c.listenerFor m (pre.length, name) id])) :
      Phase s (.bound m pre.length id :: (binds m state again (pre.length + 1) post.length ++ rest))

/-- What is always the case on a host without manners of its own. -/
structure Listening (c : Config) : Prop where
  sound : Sound c.stage
  phase : Phase c.stage c.agenda

theorem Phase.of_quiet {s : Stage} {agenda : List Task} (hall : ∀ n, Settled s n) (h : Quiet agenda) :
    Phase s agenda :=
  @Phase.calm s [] agenda hall (fun _ hd => by cases hd) h

theorem Quiet.tail {t : Task} {rest : List Task} (h : Quiet (t :: rest)) : Quiet rest :=
  fun t' ht => h t' (List.mem_cons_of_mem _ ht)

theorem Quiet.cons {t : Task} {rest : List Task} (h : t.isInner = false) (hrest : Quiet rest) : Quiet (t :: rest) :=
  List.forall_mem_cons.2 ⟨h, hrest⟩

theorem Quiet.append {ts rest : List Task} (h : ∀ t ∈ ts, t.isInner = false) (hrest : Quiet rest) :
    Quiet (ts ++ rest) := fun t ht => (List.mem_append.1 ht).elim (h t) (hrest t)

theorem Apart.mapMachine {s : Stage} {m : Nat} {rest : List Task} (h : Apart s m rest) (f : Machine → Machine) :
    Apart (s.mapMachine m f) m rest := ⟨fun n hn => (h.others n hn).mapMachine hn f, h.quiet⟩

theorem Apart.all {s : Stage} {m : Nat} {rest : List Task} (h : Apart s m rest) (hm : Settled s m) :
    ∀ n, Settled s n := fun n => by
  by_cases hn : n = m
  · rw [hn]
    exact hm
  · exact h.others n hn

theorem Apart.of_all {s : Stage} {m : Nat} {rest : List Task} (h : ∀ n, Settled s n) (hq : Quiet rest) :
    Apart s m rest := ⟨fun n _ => h n, hq⟩

theorem settled_of_machine? {s : Stage} {m : Nat} {c : Machine} (hc : s.machine? m = some c)
    (h : c.life = .live → ∃ ears : List Ear, ears.map Prod.fst = c.hearing ∧ (∀ e ∈ ears, e.2.isSome = true) ∧
      Tuned s m c ears) : Settled s m := by
  intro c' hc'
  rw [hc, Option.some.injEq] at hc'
  rw [← hc']
  exact h

/-! ## Entering a state -/

theorem mem_reactors_of_tuned {s : Stage} {m : Nat} {c : Machine} {ears : List Ear} (h : Tuned s m c ears)
    {l : Listener ListenerCall} (hl : l ∈ s.reactors m) : l.element = c.element ∧ l.id ∈ c.bound := by
  obtain ⟨e, he, hl⟩ := List.mem_filterMap.1 (h.perm.mem_iff.1 hl)
  obtain ⟨id, hid, rfl⟩ := Option.map_eq_some_iff.1 hl
  refine ⟨rfl, ?_⟩
  rw [h.notes.bound]
  exact List.mem_filterMap.2 ⟨e, he, hid⟩

theorem listening_transition {s : Stage} {m : Nat} {target : String} {rest : List Task} (hs : Sound s)
    (h : Apart s m rest)
    (hears : ∀ c, s.machine? m = some c → c.life = .live →
      ∃ ears : List Ear, ears.map Prod.fst = c.hearing ∧ Tuned s m c ears) :
    Listening (.after s (.transition m target) rest) := by
  simp only [Config.after, Task.carryOut, transition]
  cases hc : s.machine? m with
  | none => exact ⟨hs, .of_quiet (h.all fun c' hc' => by rw [hc] at hc'; cases hc') h.quiet⟩
  | some c =>
    simp only
    split
    · rename_i hcur
      exact ⟨hs, .arriving h hc (fun _ => hcur) (hears c hc)⟩
    · have hc' : (s.mapMachine m fun c => { c with bindings := [] }).machine? m = some { c with bindings := [] } := by
        rw [machine?_mapMachine_self, hc]
        rfl
      refine ⟨hs.mapMachine (fun _ _ _ hid => by cases hid) (fun _ _ _ ht => .inl ht), ?_⟩
      rw [List.append_assoc]
      refine @Phase.leaving _ m { c with bindings := [] } c.bound target rest (h.mapMachine _) hc' rfl
        (fun id hid => hs.own m c hc id hid) fun hlive l hl => ?_
      obtain ⟨ears, -, ht⟩ := hears c hc hlive
      exact mem_reactors_of_tuned ht hl

theorem listening_leaving {s : Stage} {m : Nat} {c : Machine} {id : Nat} {ids : List Nat} {state : String}
    {rest : List Task} (hs : Sound s) (hr : s.manners.reflexes = []) (h : Apart s m rest)
    (hc : s.machine? m = some c) (hb : c.bindings = []) (hids : ∀ i ∈ id :: ids, ∀ n, n ≠ m → s.Stranger n i)
    (hears : c.life = .live → ∀ l ∈ s.reactors m, l.element = c.element ∧ l.id ∈ id :: ids) :
    Listening (.after s (.detach c.element id) (ids.map (.detach c.element) ++ .arrive m state false :: rest)) := by
  have hid := hids id List.mem_cons_self
  simp only [Config.after, Task.carryOut, detach, reflexes, hr, List.filter_nil, List.map_nil, List.nil_append]
  refine ⟨hs.removeListener _ _, .leaving ⟨fun n hn => (h.others n hn).removeListener (hid n hn) _, h.quiet⟩ hc hb
    (fun i hi n hn => (hids i (List.mem_cons_of_mem _ hi) n hn).removeListener _ _) fun hlive l hl => ?_⟩
  rw [reactors_removeListener] at hl
  obtain ⟨hl, hne⟩ := List.mem_filter.1 hl
  obtain ⟨hel, hmem⟩ := hears hlive l hl
  refine ⟨hel, (List.mem_cons.1 hmem).resolve_left fun heq => ?_⟩
  simp [hel, heq] at hne

theorem binds_eq (m : Nat) (state : String) (again : Bool) (n : Nat) :
    (List.range n).map (fun i => Task.bind m ⟨state, i⟩ again) = binds m state again 0 n := by
  rw [binds, List.range_eq_range']

theorem binds_succ (m : Nat) (state : String) (again : Bool) (k n : Nat) :
    binds m state again k (n + 1) = .bind m ⟨state, k⟩ again :: binds m state again (k + 1) n := rfl

theorem hearing_of_current {c : Machine} {state : String} (h : c.current = some state) :
    c.hearing = match c.state? state with
      | some d => Reaction.hearing 0 d.reactions
      | none => [] := by
  rw [Machine.hearing, h]
  rfl

theorem listening_arrive {s : Stage} {m : Nat} {c : Machine} {state : String} {again : Bool} {rest : List Task}
    (hs : Sound s) (h : Apart s m rest) (hc : s.machine? m = some c) (hagain : again = true → c.current = some state)
    (hears : c.life = .live →
      ∃ ears : List Ear, ears.map Prod.fst = (if again then c.hearing else []) ∧ Tuned s m c ears) :
    Listening (.after s (.arrive m state again) rest) := by
  -- the machine once it is in the state
  let f : Machine → Machine := fun c => { c with current := if again then c.current else some state }
  have hc' : (s.mapMachine m f).machine? m = some (f c) := by
    rw [machine?_mapMachine_self, hc]
    rfl
  have hs' : Sound (s.mapMachine m f) := hs.mapMachine (fun _ _ _ hid => .inl hid) (fun _ _ _ ht => .inl ht)
  have hcur : (f c).current = some state := by
    cases again with
    | true => exact hagain rfl
    | false => rfl
  have hears' : c.life = .live → ∃ ears : List Ear,
      ears.map Prod.fst = (if again then (f c).hearing else []) ∧ Tuned (s.mapMachine m f) m (f c) ears := by
    intro hlive
    obtain ⟨ears, hfst, ht⟩ := hears hlive
    refine ⟨ears, ?_, ht.notes, ?_⟩
    · cases again with
      | true => exact hfst
      | false => exact hfst
    · cases again with
      | true => exact ht.perm
      | false =>
        obtain rfl : ears = [] := List.map_eq_nil_iff.1 hfst
        exact ht.perm
  simp only [Config.after, Task.carryOut, arrive]
  rw [show (s.mapMachine m fun c => { c with current := if again = true then c.current else some state }).machine? m =
    some (f c) from hc']
  have hstate : (f c).state? state = c.state? state := rfl
  simp only [hstate]
  cases hd : c.state? state with
  | none =>
    have hw : SameWiring (s.mapMachine m f) ((s.mapMachine m f).notify (.stateUnknown (f c).element state)) :=
      (undisturbed_record ..).sameWiring
    refine ⟨hw.sound hs', .of_quiet (fun n => hw.settled ((h.mapMachine f).all ?_ n)) h.quiet⟩
    refine settled_of_machine? hc' fun hlive => ?_
    obtain ⟨ears, hfst, ht⟩ := hears' hlive
    have hnone : (f c).hearing = [] := by rw [hearing_of_current hcur, hstate, hd]
    obtain rfl : ears = [] := by
      rw [hnone, ite_self] at hfst
      exact List.map_eq_nil_iff.1 hfst
    exact ⟨[], hnone.symm, (fun _ he => by cases he), ht⟩
  | some d =>
    have hw : SameWiring (s.mapMachine m f) ((s.mapMachine m f).notify (.stateEntered (f c).element state again)) :=
      (undisturbed_record ..).sameWiring
    refine ⟨hw.sound hs', ?_⟩
    simp only
    rw [binds_eq]
    refine @Phase.filling _ m (f c) state d [] d.reactions again rest
      ⟨fun n hn => hw.settled ((h.mapMachine f).others n hn), h.quiet⟩ hc' hcur hd rfl fun hlive => ?_
    obtain ⟨ears, hfst, ht⟩ := hears' hlive
    refine ⟨[], ears, rfl, (fun _ he => by cases he), ?_, ht.notes, ht.perm⟩
    rw [hfst, hearing_of_current hcur, hstate, hd]
    rfl

/-! ## Binding the reactions of a state -/

theorem listener?_congr {c c' : Machine} (hel : c'.element = c.element) (hcur : c'.current = c.current) (m : Nat) :
    Ear.listener? c' m = Ear.listener? c m := by
  funext e
  rw [Ear.listener?, Ear.listener?]
  unfold Machine.listenerFor
  rw [hel, hcur]

theorem reaction?_of_split {c : Machine} {state : String} {d : StateDecl} {pre post : List Reaction} {r : Reaction}
    (hd : c.state? state = some d) (hr : d.reactions = pre ++ r :: post) :
    c.reaction? ⟨state, pre.length⟩ = some r := by
  rw [Machine.reaction?, hd, Option.bind_some, hr, List.getElem?_append_right (Nat.le_refl _), Nat.sub_self]
  rfl

theorem index_ne_of_done {done : List Ear} {pre : List Reaction} (h : done.map Prod.fst = Reaction.hearing 0 pre) :
    ∀ e ∈ done, e.1.1 ≠ pre.length := by
  intro e he
  have := Reaction.le_of_mem_hearing (h ▸ List.mem_map_of_mem he : e.1 ∈ Reaction.hearing 0 pre)
  omega

theorem index_ne_of_todo {todo : List Ear} {k : Nat} {post : List Reaction}
    (h : todo.map Prod.fst = Reaction.hearing (k + 1) post) : ∀ e ∈ todo, e.1.1 ≠ k := by
  intro e he
  have := Reaction.le_of_mem_hearing (h ▸ List.mem_map_of_mem he : e.1 ∈ Reaction.hearing (k + 1) post)
  omega

section
variable {s : Stage} {m : Nat} {c : Machine} {state name : String} {d : StateDecl} {pre post : List Reaction}
  {r : Reaction} {again : Bool} {rest : List Task}

/-- One more reaction is bound. -/
theorem Phase.filling_succ (h : Apart s m rest) (hc : s.machine? m = some c) (hcur : c.current = some state)
    (hd : c.state? state = some d) (hr : d.reactions = pre ++ r :: post)
    (hears : c.life = .live → ∃ done todo : List Ear, done.map Prod.fst = Reaction.hearing 0 (pre ++ [r]) ∧
      (∀ e ∈ done, e.2.isSome = true) ∧
      todo.map Prod.fst = (if again then Reaction.hearing (pre.length + 1) post else []) ∧
      Tuned s m c (done ++ todo)) :
    Phase s (binds m state again (pre.length + 1) post.length ++ rest) := by
  have hlen : (pre ++ [r]).length = pre.length + 1 := List.length_append
  rw [← hlen] at hears ⊢
  exact .filling h hc hcur hd (by rw [hr, List.append_assoc]; rfl) hears

/-- The listener of a reaction that is about to be bound, if the machine is in use and all before it are bound. -/
theorem exists_ear_of_todo {done todo : List Ear} (hon : r.on = .event name)
    (hdone : done.map Prod.fst = Reaction.hearing 0 pre)
    (htodo : todo.map Prod.fst = Reaction.hearing pre.length (r :: post)) (hn : c.Notes (done ++ todo)) :
    ∃ (o : Option Nat) (todo' : List Ear), todo = ((pre.length, name), o) :: todo' ∧
      todo'.map Prod.fst = Reaction.hearing (pre.length + 1) post ∧ c.isAttached pre.length = o.isSome := by
  rw [Reaction.hearing_cons_of_event hon] at htodo
  obtain ⟨⟨h, o⟩, todo', rfl, hh, htodo'⟩ := List.map_eq_cons_iff.1 htodo
  obtain rfl : h = (pre.length, name) := hh
  exact ⟨o, todo', rfl, htodo', hn.isAttached_of_place (index_ne_of_done hdone) (index_ne_of_todo htodo')⟩

theorem hearing_concat_of_event (hon : r.on = .event name) :
    Reaction.hearing 0 (pre ++ [r]) = Reaction.hearing 0 pre ++ [(pre.length, name)] := by
  rw [Reaction.hearing_append, Nat.zero_add, Reaction.hearing_cons_of_event hon]
  rfl

theorem hearing_concat_of_entry (hon : r.on = .entry) :
    Reaction.hearing 0 (pre ++ [r]) = Reaction.hearing 0 pre := by
  rw [Reaction.hearing_append, Nat.zero_add, Reaction.hearing_cons_of_entry hon]
  exact List.append_nil _

theorem listening_bind (hs : Sound s) (hrefl : s.manners.reflexes = []) (h : Apart s m rest)
    (hc : s.machine? m = some c) (hcur : c.current = some state) (hd : c.state? state = some d)
    (hr : d.reactions = pre ++ r :: post)
    (hears : c.life = .live → ∃ done todo : List Ear, done.map Prod.fst = Reaction.hearing 0 pre ∧
      (∀ e ∈ done, e.2.isSome = true) ∧
      todo.map Prod.fst = (if again then Reaction.hearing pre.length (r :: post) else []) ∧
      Tuned s m c (done ++ todo)) :
    Listening (.after s (.bind m ⟨state, pre.length⟩ again)
      (binds m state again (pre.length + 1) post.length ++ rest)) := by
  simp only [Config.after, Task.carryOut, bind, hc, reaction?_of_split hd hr, Option.map_some]
  cases hon : r.on with
  | entry =>
    have hw : SameWiring s (s.schedule (.react m ⟨state, pre.length⟩)) := ⟨rfl, rfl, rfl⟩
    refine ⟨hw.sound hs, .filling_succ ⟨fun n hn => hw.settled (h.others n hn), h.quiet⟩ hc hcur hd hr fun hlive => ?_⟩
    obtain ⟨done, todo, hdone, hsome, htodo, ht⟩ := hears hlive
    rw [Reaction.hearing_cons_of_entry hon] at htodo
    exact ⟨done, todo, by rw [hearing_concat_of_entry hon, hdone], hsome, htodo, ht.notes, ht.perm⟩
  | event name =>
    simp only
    by_cases hatt : (again && c.isAttached pre.length) = true
    · -- the listener is there
      rw [if_pos hatt]
      refine ⟨hs, .filling_succ h hc hcur hd hr fun hlive => ?_⟩
      obtain ⟨done, todo, hdone, hsome, htodo, ht⟩ := hears hlive
      obtain ⟨rfl, hatt⟩ := Bool.and_eq_true_iff.1 hatt
      rw [if_pos rfl] at htodo
      obtain ⟨o, todo', rfl, htodo', ho⟩ := exists_ear_of_todo hon hdone htodo ht.notes
      refine ⟨done ++ [((pre.length, name), o)], todo', ?_, ?_, htodo', ?_⟩
      · rw [hearing_concat_of_event hon, List.map_append, hdone]
        rfl
      · intro e he
        rcases List.mem_append.1 he with he | he
        · exact hsome e he
        · rw [List.mem_singleton.1 he]
          exact ho.symm.trans hatt
      · rw [List.append_assoc]
        exact ht
    · rw [if_neg hatt]
      have hother : ∀ n, n ≠ m → (ListenerCall.react m ⟨state, pre.length⟩).reacts n = false := by
        intro n hn
        simp [ListenerCall.reacts, hn.symm]
      have hlt : m < s.machines.length := (List.getElem?_eq_some_iff.1 hc).1
      simp only [attach, reflexes, hrefl, List.filter_nil, List.map_nil, List.nil_append, List.cons_append]
      refine ⟨hs.addListener _ _ fun n hn => ?_,
        .noting ⟨fun n hn => (h.others n hn).addListener _ _ (hother n hn), h.quiet⟩
        hc hcur hd hr hon (fun n hn => hs.stranger_nextId _ _ (hother n hn)) fun hlive => ?_⟩
      · by_cases hnm : n = m
        · rw [hnm]
          exact hlt
        · rw [hother n hnm] at hn
          cases hn
      · obtain ⟨done, todo, hdone, hsome, htodo, ht⟩ := hears hlive
        have hme : (ListenerCall.react m ⟨state, pre.length⟩).reacts m = true := by simp [ListenerCall.reacts]
        have hnew : (⟨s.page.nextId, c.element, name, .react m ⟨state, pre.length⟩⟩ : Listener ListenerCall) =
            c.listenerFor m (pre.length, name) s.page.nextId := by
          rw [Machine.listenerFor, hcur]
          rfl
        rw [reactors_addListener, if_pos hme, hnew]
        cases again with
        | false =>
          obtain rfl : todo = [] := List.map_eq_nil_iff.1 htodo
          exact ⟨done, [], hdone, hsome, rfl, ht.notes, ht.perm.append_right _⟩
        | true =>
          obtain ⟨o, todo', rfl, htodo', ho⟩ := exists_ear_of_todo hon hdone htodo ht.notes
          obtain rfl : o = none := by
            rw [ho] at hatt
            simpa using hatt
          refine ⟨done, todo', hdone, hsome, htodo', ht.notes, ?_⟩
          refine List.Perm.append_right _ ?_
          have hperm := ht.perm
          rw [List.filterMap_append, List.filterMap_cons] at hperm
          rw [List.filterMap_append]
          exact hperm

theorem listening_bound {id : Nat} (hs : Sound s) (h : Apart s m rest) (hc : s.machine? m = some c)
    (hcur : c.current = some state) (hd : c.state? state = some d) (hr : d.reactions = pre ++ r :: post)
    (hon : r.on = .event name) (hid : ∀ n, n ≠ m → s.Stranger n id)
    (hears : c.life = .live → ∃ done todo : List Ear, done.map Prod.fst = Reaction.hearing 0 pre ∧
      (∀ e ∈ done, e.2.isSome = true) ∧
      todo.map Prod.fst = (if again then Reaction.hearing (pre.length + 1) post else []) ∧
      c.Notes (done ++ ((if again then [((pre.length, name), none)] else []) ++ todo)) ∧
      (s.reactors m).Perm
        ((done ++ todo).filterMap (Ear.listener? c m) ++ [c.listenerFor m (pre.length, name) id])) :
    Listening (.after s (.bound m pre.length id) (binds m state again (pre.length + 1) post.length ++ rest)) := by
  have hc' : (s.mapMachine m (·.bind pre.length id)).machine? m = some (c.bind pre.length id) := by
    rw [machine?_mapMachine_self, hc]
    rfl
  have hbind := c.bind_eq pre.length id
  simp only [Config.after, Task.carryOut, bound, List.nil_append]
  refine ⟨hs.mapMachine (fun c' _ id' hid' => ?_) (fun c' _ t ht => ?_), ?_⟩
  · refine (Machine.mem_bound_bind hid').imp_right ?_
    rintro rfl
    exact hid
  · rw [c'.bind_eq] at ht
    exact .inl ht
  · refine .filling_succ (h.mapMachine _) hc' (by rw [hbind]; exact hcur) (by rw [hbind]; exact hd) hr fun hlive => ?_
    rw [hbind] at hlive
    obtain ⟨done, todo, hdone, hsome, htodo, hn, hperm⟩ := hears hlive
    have hplace := index_ne_of_done hdone
    refine ⟨done ++ [((pre.length, name), some id)], todo, ?_, ?_, htodo, ?_, ?_⟩
    · rw [hearing_concat_of_event hon, List.map_append, hdone]
      rfl
    · intro e he
      rcases List.mem_append.1 he with he | he
      · exact hsome e he
      · rw [List.mem_singleton.1 he]
        rfl
    · cases again with
      | true =>
        rw [List.append_assoc]
        exact hn.bind_of_mem hplace id
      | false =>
        obtain rfl : todo = [] := List.map_eq_nil_iff.1 htodo
        rw [List.append_nil]
        simp only [Bool.false_eq_true, if_false, List.append_nil] at hn
        exact hn.bind_of_not_mem hplace name id
    · rw [listener?_congr (by rw [hbind]) (by rw [hbind])]
      refine hperm.trans ?_
      rw [List.append_assoc, List.filterMap_append, List.filterMap_append, List.filterMap_append, List.append_assoc]
      exact List.Perm.append_left _ List.perm_append_comm

/-- A machine that has bound all its reactions is settled. -/
theorem settled_of_filled (hc : s.machine? m = some c) (hcur : c.current = some state) (hd : c.state? state = some d)
    (hr : d.reactions = pre)
    (hears : c.life = .live → ∃ done todo : List Ear, done.map Prod.fst = Reaction.hearing 0 pre ∧
      (∀ e ∈ done, e.2.isSome = true) ∧ todo.map Prod.fst = (if again then Reaction.hearing pre.length [] else []) ∧
      Tuned s m c (done ++ todo)) : Settled s m := by
  refine settled_of_machine? hc fun hlive => ?_
  obtain ⟨done, todo, hdone, hsome, htodo, ht⟩ := hears hlive
  obtain rfl : todo = [] := by
    rw [Reaction.hearing, ite_self] at htodo
    exact List.map_eq_nil_iff.1 htodo
  rw [List.append_nil] at ht
  refine ⟨done, ?_, hsome, ht⟩
  rw [hdone, hearing_of_current hcur, hd]
  simp only [hr]

end

end Stage
end Stagecraft
