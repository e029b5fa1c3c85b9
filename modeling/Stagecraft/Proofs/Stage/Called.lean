import Mathlib.Data.List.Nodup
import Stagecraft.Proofs.Stage.Dropped
/-!
# Who is called by a dispatch

A dispatch gathers the listeners for its event when it begins, and calls each of them only if it is still registered
then.  Ids are never given out twice, so the listener that is called is the one that was gathered; and as long as a
listener by which a machine runs a reaction is registered, the machine is in the state of the reaction.
-/
namespace Stagecraft
namespace Stage

/-! ## Ids are given out once -/

/-- Each listener has an id of its own, and all ids have been given out. -/
structure Numbered (s : Stage) : Prop where
  nodup : (s.page.listeners.map Listener.id).Nodup
  bounded : ∀ l ∈ s.page.listeners, l.id ≤ s.page.lastId

/-- How the listeners on the page may change by one task. -/
inductive Relisted (s s' : Stage) : Prop
  | fewer (h : s'.page.listeners.Sublist s.page.listeners) (hid : s'.page.lastId = s.page.lastId)
  | more (el : ElementId) (event : String) (call : ListenerCall)
      (h : s'.page.listeners = s.page.listeners ++ [⟨s.page.nextId, el, event, call⟩])
      (hid : s'.page.lastId = s.page.nextId)

section
variable {s s' : Stage} {t : Task} {rest : List Task}

theorem Relisted.numbered (h : Relisted s s') (hs : Numbered s) : Numbered s' := by
  cases h with
  | fewer h hid =>
    exact ⟨hs.nodup.sublist (h.map _), fun l hl => hid ▸ hs.bounded l (h.subset hl)⟩
  | more el event call h hid =>
    refine ⟨?_, fun l hl => ?_⟩
    · rw [h, List.map_append, List.nodup_append]
      refine ⟨hs.nodup, List.nodup_cons.2 ⟨List.not_mem_nil, List.nodup_nil⟩, fun a ha b hb => ?_⟩
      obtain ⟨l, hl, rfl⟩ := List.mem_map.1 ha
      rw [List.mem_singleton.1 hb]
      exact Nat.ne_of_lt (Nat.lt_succ_of_le (hs.bounded l hl))
    · rw [h] at hl
      rw [hid]
      rcases List.mem_append.1 hl with hl | hl
      · exact Nat.le_succ_of_le (hs.bounded l hl)
      · exact Nat.le_of_eq (congrArg Listener.id (List.mem_singleton.1 hl))

theorem Relisted.lastId (h : Relisted s s') : s.page.lastId ≤ s'.page.lastId := by
  cases h with
  | fewer h hid => exact Nat.le_of_eq hid.symm
  | more el event call h hid => exact hid ▸ Nat.le_succ _

/-- A listener with an id that was given out before was there before. -/
theorem Relisted.mem (h : Relisted s s') {l : Listener ListenerCall} (hl : l ∈ s'.page.listeners)
    (hid : l.id ≤ s.page.lastId) : l ∈ s.page.listeners := by
  cases h with
  | fewer h _ => exact h.subset hl
  | more el event call h _ =>
    rw [h] at hl
    refine (List.mem_append.1 hl).resolve_right fun hl => ?_
    rw [List.mem_singleton.1 hl] at hid
    exact Nat.not_succ_le_self _ hid

theorem relisted_bind (s : Stage) (m : Nat) (slot : Slot) (again : Bool) : Relisted s (s.bind m slot again).1 := by
  unfold bind
  split
  · exact .fewer (List.Sublist.refl _) rfl
  · split
    · exact .fewer (List.Sublist.refl _) rfl
    · exact .fewer (List.Sublist.refl _) rfl
    · split
      · exact .fewer (List.Sublist.refl _) rfl
      · exact .more _ _ _ rfl rfl

/-- **Listeners are removed, or one is added under the next id.** -/
theorem relisted_carryOut (s : Stage) (t : Task) (rest : List Task) : Relisted s (t.carryOut s rest).1 := by
  by_cases ht : .listeners ∈ t.touches
  · cases t with
    | cue c =>
      cases c with
      | addListener el event label script => exact .more el event _ rfl rfl
      | removeListener el id => exact .fewer List.filter_sublist rfl
      | _ => simp [Task.touches, Cue.touches] at ht
    | detach el id => exact .fewer List.filter_sublist rfl
    | watch m el event state => exact .more el event _ rfl rfl
    | bind m slot again => exact relisted_bind s m slot again
    | release hold => cases hold <;> simp [Task.touches] at ht
    | _ => simp [Task.touches] at ht
  · obtain ⟨hl, hid⟩ := (within_carryOut s rest t).touched.agree .listeners ht
    exact .fewer (hl ▸ List.Sublist.refl _) hid

theorem Numbered.eq_of_id (hs : Numbered s) {l l' : Listener ListenerCall} (hl : l ∈ s.page.listeners)
    (hl' : l' ∈ s.page.listeners) (h : l.id = l'.id) : l = l' :=
  List.inj_on_of_nodup_map hs.nodup hl hl' h

end

/-! ## What a dispatch has gathered -/

/-- The agenda holds what dispatches have gathered: each listener with its own call, and the one that is called next is
still on the page. -/
structure Gathered (c : Config) : Prop where
  faithful : ∀ once ls ran, Task.deliver once ls ran ∈ c.agenda → ∀ e ∈ ls,
    e.1 ≤ c.stage.page.lastId ∧ ∀ l ∈ c.stage.page.listeners, l.id = e.1 → l.call = e.2
  first : ∀ call, Task.callListener call ∉ c.agenda.tail
  registered : ∀ call rest, c.agenda = .callListener call :: rest → ∃ l ∈ c.stage.page.listeners, l.call = call

theorem exists_of_isRegistered {p : Page ListenerCall OnceCall} {id : Nat} (h : p.isRegistered id = true) :
    ∃ l ∈ p.listeners, l.id = id := by
  obtain ⟨l, hl, hid⟩ := List.any_eq_true.1 h
  exact ⟨l, hl, of_decide_eq_true hid⟩

section
variable {s : Stage} {t : Task} {rest : List Task}

/-- Only a delivery leaves the call of a listener, and that of one that is still registered. -/
theorem deliver_of_mem {call : ListenerCall} (h : Task.callListener call ∈ (t.carryOut s rest).2) :
    ∃ id ls ran, t = .deliver [] ((id, call) :: ls) ran ∧ s.page.isRegistered id = true ∧
      (t.carryOut s rest).2 = [.callListener call, .deliver [] ls (ran + 1)] := by
  have hkind := (within_carryOut s rest t).kinds _ h
  cases t with
  | deliver once ls ran =>
    cases once with
    | cons o once =>
      simp only [Task.carryOut, deliver, List.mem_cons, List.not_mem_nil, or_false] at h
      rcases h with h | h <;> cases h
    | nil =>
      cases ls with
      | nil => cases h
      | cons e ls =>
        simp only [Task.carryOut, deliver] at h ⊢
        split at h
        · rename_i hreg
          simp only [List.mem_cons, List.not_mem_nil, or_false] at h
          rcases h with h | h
          · cases h
            exact ⟨_, ls, ran, rfl, hreg, by rw [if_pos hreg]⟩
          · cases h
        · simp only [List.mem_cons, List.not_mem_nil, or_false] at h
          cases h
  | cue c => cases c <;> simp [Task.leaves, Cue.leaves, Task.kind] at hkind
  | release hold => cases hold <;> simp [Task.leaves, Task.kind] at hkind
  | _ => simp [Task.leaves, Task.kind] at hkind

/-- What is left of a delivery was there before, or has been gathered by a dispatch that just began. -/
theorem faithful_carryOut (hs : Numbered s) (h : Gathered ⟨s, t :: rest⟩) {once : List OnceCall}
    {ls : List (Nat × ListenerCall)} {ran : Nat} (hmem : Task.deliver once ls ran ∈ (t.carryOut s rest).2) :
    ∀ e ∈ ls, e.1 ≤ s.page.lastId ∧ ∀ l ∈ s.page.listeners, l.id = e.1 → l.call = e.2 := by
  have hkind := (within_carryOut s rest t).kinds _ hmem
  cases t with
  | dispatch el event =>
    simp only [Task.carryOut, dispatch, List.mem_singleton, Task.deliver.injEq] at hmem
    obtain ⟨-, rfl, -⟩ := hmem
    intro e he
    obtain ⟨l, hl, rfl⟩ := List.mem_map.1 he
    have hl := (List.mem_filter.1 hl).1
    exact ⟨hs.bounded l hl, fun l' hl' hid => congrArg Listener.call (hs.eq_of_id hl' hl hid)⟩
  | deliver once' ls' ran' =>
    have hls' := h.faithful once' ls' ran' List.mem_cons_self
    cases once' with
    | cons o once' =>
      simp only [Task.carryOut, deliver, List.mem_cons, List.not_mem_nil, or_false] at hmem
      rcases hmem with hmem | hmem
      · cases hmem
      · cases hmem
        exact hls'
    | nil =>
      cases ls' with
      | nil => cases hmem
      | cons e ls' =>
        have hls' := fun e' he' => hls' e' (List.mem_cons_of_mem _ he')
        simp only [Task.carryOut, deliver] at hmem
        split at hmem
        · simp only [List.mem_cons, List.not_mem_nil, or_false] at hmem
          rcases hmem with hmem | hmem
          · cases hmem
          · cases hmem
            exact hls'
        · simp only [List.mem_cons, List.not_mem_nil, or_false] at hmem
          cases hmem
          exact hls'
  | cue c => cases c <;> simp [Task.leaves, Cue.leaves, Task.kind] at hkind
  | release hold => cases hold <;> simp [Task.leaves, Task.kind] at hkind
  | _ => simp [Task.leaves, Task.kind] at hkind

theorem gathered_after (hs : Numbered s) (h : Gathered ⟨s, t :: rest⟩) : Gathered (.after s t rest) where
  faithful once ls ran hmem e he := by
    have hre := relisted_carryOut s t rest
    have hold : e.1 ≤ s.page.lastId ∧ ∀ l ∈ s.page.listeners, l.id = e.1 → l.call = e.2 := by
      rcases List.mem_append.1 hmem with hmem | hmem
      · exact faithful_carryOut hs h hmem e he
      · exact h.faithful once ls ran (List.mem_cons_of_mem _ hmem) e he
    refine ⟨Nat.le_trans hold.1 hre.lastId, fun l hl hid => hold.2 l (hre.mem hl ?_) hid⟩
    rw [hid]
    exact hold.1
  first call hmem := by
    simp only [Config.after] at hmem
    cases hts : (t.carryOut s rest).2 with
    | nil =>
      rw [hts, List.nil_append] at hmem
      exact h.first call (List.mem_of_mem_tail hmem)
    | cons t' ts =>
      rw [hts, List.cons_append, List.tail_cons, List.mem_append] at hmem
      rcases hmem with hmem | hmem
      · have hmade : .callListener call ∈ (t.carryOut s rest).2 := hts ▸ List.mem_cons_of_mem _ hmem
        obtain ⟨id, ls, ran, -, -, heq⟩ := deliver_of_mem hmade
        rw [hts] at heq
        obtain ⟨-, rfl⟩ := List.cons.inj heq
        cases List.mem_singleton.1 hmem
      · exact h.first call hmem
  registered call rest' heq := by
    simp only [Config.after] at heq ⊢
    cases hts : (t.carryOut s rest).2 with
    | nil =>
      rw [hts, List.nil_append] at heq
      exact absurd (heq ▸ List.mem_cons_self) (h.first call)
    | cons t' ts =>
      rw [hts, List.cons_append] at heq
      obtain ⟨rfl, -⟩ := List.cons.inj heq
      have hmade : .callListener call ∈ (t.carryOut s rest).2 := hts ▸ List.mem_cons_self
      obtain ⟨id, ls, ran, rfl, hreg, -⟩ := deliver_of_mem hmade
      obtain ⟨l, hl, hid⟩ := exists_of_isRegistered hreg
      have hcall := (h.faithful _ _ _ List.mem_cons_self (id, call) List.mem_cons_self).2 l hl hid
      have hstage : (Task.carryOut s rest (.deliver [] ((id, call) :: ls) ran)).1 = s := by
        simp only [Task.carryOut, deliver, hreg, if_true]
      refine ⟨l, ?_, hcall⟩
      rw [hstage]
      exact hl

end

end Stage

open Stage

theorem Course.gathered {manners : Manners} {c : Config} {past : List Config} (h : Course manners (c :: past)) :
    Numbered c.stage ∧ Gathered c := by
  refine Course.invariant (I := fun c => Numbered c.stage ∧ Gathered c) (P := fun _ => True) ?_ ?_ ?_ ?_ h
    fun _ _ => trivial
  · exact ⟨⟨List.nodup_nil, fun l hl => by cases hl⟩, ⟨nofun, nofun, nofun⟩⟩
  · exact fun s ⟨hs, hg⟩ => ⟨⟨hs.nodup, hs.bounded⟩, ⟨nofun, nofun, nofun⟩⟩
  · exact fun s cue ⟨hs, hg⟩ => ⟨hs, ⟨nofun, nofun, nofun⟩⟩
  · exact fun s t rest past _ _ ⟨hs, hg⟩ => ⟨(relisted_carryOut s t rest).numbered hs, gathered_after hs hg⟩

/-! ## A machine is in the state of its listeners -/

namespace Stage

/-- The state of a machine is that of every reaction that a listener runs on it. -/
def Placed (s : Stage) : Prop :=
  ∀ l ∈ s.page.listeners, ∀ m slot, l.call = .react m slot → ∃ c, s.machine? m = some c ∧ c.current = some slot.state

end Stage

section
variable {manners : Manners} {s : Stage} {t : Task} {rest : List Task} {past : List Config}

/-- While no task that knows an id is waiting, a machine itself knows the ids of all listeners that run its
reactions, and they are on its own element. -/
theorem Course.bound_of_quiet (hs : manners.sparesListeners = true) {c : Config} (h : Course manners (c :: past))
    (hquiet : ∀ t ∈ c.agenda, t.kind.knowsId = false) {l : Listener ListenerCall} (hl : l ∈ c.stage.page.listeners)
    {m : Nat} {slot : Slot} (hcall : l.call = .react m slot) :
    ∃ machine, c.stage.machine? m = some machine ∧ l.element = machine.element ∧ l.id ∈ machine.bound := by
  have htracked := h.tracked l hl
  rw [hcall] at htracked
  cases htracked with
  | lost hlost =>
    obtain ⟨b, hb, hover⟩ := hlost
    obtain ⟨later, past', rfl⟩ := List.append_of_mem hb
    exact absurd hover ((Course.unbroken hs (Course.drop (c :: later) h)).2.not_overwrites m l.id)
  | bound hc hel hid => exact ⟨_, hc, hel, hid⟩
  | binding hc hel hmem => cases hquiet _ hmem
  | unbinding hd =>
    obtain ⟨before, after, heq, -⟩ := hd
    cases hquiet (.detach l.element l.id) (heq ▸ List.mem_append_right _ List.mem_cons_self)

theorem knowsId_of_isInner {t : Task} (h : t.isInner = false) : t.kind.knowsId = false := by
  cases t <;> first | rfl | cases h

/-- A machine that arrives in another state has no listeners for its reactions. -/
theorem Course.call_ne_react_of_arrive (hs : manners.sparesListeners = true) {m : Nat} {state : String}
    (h : Course manners (⟨s, .arrive m state false :: rest⟩ :: past)) {l : Listener ListenerCall}
    (hl : l ∈ s.page.listeners) (slot : Slot) : l.call ≠ .react m slot := by
  intro hcall
  obtain ⟨c, hc, hb, hrest⟩ : ∃ c, s.machine? m = some c ∧ c.bindings = [] ∧ Quiet rest := by
    cases (h.unbroken hs).2.first with
    | calm hquiet => cases hquiet _ List.mem_cons_self
    | leaving hc hb hrest => exact ⟨_, hc, hb, hrest⟩
  have hquiet : ∀ t ∈ Task.arrive m state false :: rest, t.kind.knowsId = false :=
    List.forall_mem_cons.2 ⟨rfl, fun t ht => knowsId_of_isInner (hrest t ht)⟩
  obtain ⟨c', hc', -, hid⟩ := h.bound_of_quiet hs hquiet hl hcall
  obtain rfl := Option.some.inj (hc.symm.trans hc')
  rw [Machine.bound, hb] at hid
  cases hid

namespace Stage

/-- Only an arrival in another state changes where a machine is. -/
theorem current_carryOut {m : Nat} (ht : ∀ state, t ≠ .arrive m state false) {c : Machine}
    (hc : s.machine? m = some c) : ∃ c', (t.carryOut s rest).1.machine? m = some c' ∧ c'.current = c.current := by
  obtain ⟨c', d, hc', hd, hw⟩ := rewired_carryOut t rest hc
  refine ⟨c', hc', (congrArg Machine.current hw :).trans ?_⟩
  generalize (t.carryOut s rest).2 = ts at hd
  cases hd with
  | @arrives state again =>
    cases again with
    | false => exact absurd rfl (ht state)
    | true => rfl
  | notes =>
    rw [c.bind_eq]
    rfl
  | _ => rfl

/-- A listener that runs a reaction was there before, or the reaction has just been bound. -/
theorem bind_of_mem {l : Listener ListenerCall} (hl : l ∈ (t.carryOut s rest).1.page.listeners) {m : Nat} {slot : Slot}
    (hcall : l.call = .react m slot) : l ∈ s.page.listeners ∨ ∃ again, t = .bind m slot again := by
  by_cases ht : .listeners ∈ t.touches
  · cases t with
    | cue c =>
      cases c with
      | addListener el event label script =>
        refine .inl ((List.mem_append.1 hl).resolve_right fun hl => ?_)
        rw [List.mem_singleton.1 hl] at hcall
        cases hcall
      | removeListener el id => exact .inl (List.mem_filter.1 hl).1
      | _ => simp [Task.touches, Cue.touches] at ht
    | detach el id => exact .inl (List.mem_filter.1 hl).1
    | watch n el event state =>
      refine .inl ((List.mem_append.1 hl).resolve_right fun hl => ?_)
      rw [List.mem_singleton.1 hl] at hcall
      cases hcall
    | bind n slot' again =>
      simp only [Task.carryOut, bind] at hl
      split at hl
      · exact .inl hl
      · split at hl
        · exact .inl hl
        · exact .inl hl
        · split at hl
          · exact .inl hl
          · rcases List.mem_append.1 hl with hl | hl
            · exact .inl hl
            · rw [List.mem_singleton.1 hl] at hcall
              cases hcall
              exact .inr ⟨again, rfl⟩
    | release hold => cases hold <;> simp [Task.touches] at ht
    | _ => simp [Task.touches] at ht
  · rw [((within_carryOut s rest t).touched.agree .listeners ht).1] at hl
    exact .inl hl

end Stage

theorem Course.placed_after (hs : manners.sparesListeners = true) (h : Course manners (⟨s, t :: rest⟩ :: past))
    (hp : Placed s) : Placed (t.carryOut s rest).1 := by
  intro l hl m slot hcall
  rcases bind_of_mem hl hcall with hold | ⟨again, rfl⟩
  · obtain ⟨c, hc, hcur⟩ := hp l hold m slot hcall
    have harrive : ∀ state, t ≠ .arrive m state false := by
      rintro state rfl
      exact h.call_ne_react_of_arrive hs hold slot hcall
    obtain ⟨c', hc', hcur'⟩ : ∃ c', (t.carryOut s rest).1.machine? m = some c' ∧ _ := current_carryOut harrive hc
    exact ⟨c', hc', hcur'.trans hcur⟩
  · have hfirst := (h.unbroken hs).2.first
    obtain ⟨c, hc, hcur⟩ : ∃ c, s.machine? m = some c ∧ c.current = some slot.state := by
      cases hfirst with
      | calm hquiet => cases hquiet _ List.mem_cons_self
      | filling hc hcur => exact ⟨_, hc, hcur⟩
    have hbind : ∀ state, Task.bind m slot again ≠ .arrive m state false := nofun
    obtain ⟨c', hc', hcur'⟩ :
      ∃ c', ((Task.bind m slot again).carryOut s rest).1.machine? m = some c' ∧ _ := current_carryOut hbind hc
    exact ⟨c', hc', hcur'.trans hcur⟩

theorem Course.placed (hs : manners.sparesListeners = true) {c : Config} (h : Course manners (c :: past)) :
    Placed c.stage := by
  refine Course.invariant (I := fun c => Placed c.stage) (P := fun _ => True) nofun (fun s hp => hp)
    (fun s cue hp => hp) (fun s t rest past h _ hp => h.placed_after hs hp) h fun _ _ => trivial

end

/-! ## Inside a dispatch -/

/-- What was on the agenda when a dispatch began, behind the dispatch, still waits for the dispatch to end. -/
def Config.awaits (outer : List Task) (d : Config) : Prop := ∃ t ts, d.agenda = t :: ts ++ outer

section
variable {manners : Manners} {c b : Config} {later earlier : List Config} {outer : List Task} {el : ElementId}
  {event : String}

theorem Course.relisted {c c' : Config} {past : List Config} (h : Course manners (c' :: c :: past)) :
    Relisted c.stage c'.stage := by
  cases h with
  | cleared => exact .fewer (List.Sublist.refl _) rfl
  | called => exact .fewer (List.Sublist.refl _) rfl
  | stepped h hstep =>
    obtain ⟨s, agenda⟩ := c
    cases agenda with
    | nil => cases hstep
    | cons t rest =>
      rw [Config.step?_cons, Option.some.injEq] at hstep
      rw [← hstep]
      exact relisted_carryOut s t rest

/-- A listener with an id that was given out at some time has been there ever since. -/
theorem Course.mem_listeners {l : Listener ListenerCall} (hid : l.id ≤ b.stage.page.lastId) :
    ∀ {c : Config} {later : List Config}, Course manners (c :: (later ++ b :: earlier)) →
      b.stage.page.lastId ≤ c.stage.page.lastId ∧
        (l ∈ c.stage.page.listeners → ∀ d ∈ later ++ [b], l ∈ d.stage.page.listeners)
  | c, [], h => by
    refine ⟨h.relisted.lastId, fun hl d hd => ?_⟩
    rw [List.mem_singleton.1 hd]
    exact h.relisted.mem hl hid
  | c, d :: later, h => by
    have htail : Course manners (d :: (later ++ b :: earlier)) := h.tail
    obtain ⟨hlast, hmem⟩ := mem_listeners hid htail
    refine ⟨Nat.le_trans hlast h.relisted.lastId, fun hl => List.forall_mem_cons.2 ?_⟩
    have hd := h.relisted.mem hl (Nat.le_trans hid hlast)
    exact ⟨hd, hmem hd⟩

theorem Course.stepped_of_awaits {c d : Config} {past : List Config} (h : Course manners (c :: d :: past)) {t : Task}
    {rest : List Task} (hd : d.agenda = t :: rest) : c = .after d.stage t rest := by
  obtain ⟨s, agenda⟩ := d
  obtain rfl : agenda = t :: rest := hd
  cases h with
  | stepped h hstep =>
    rw [Config.step?_cons, Option.some.injEq] at hstep
    exact hstep.symm

/-- While a dispatch goes on, its delivery stands right before what waits for it to end, and what it has still to
deliver was gathered when it began. -/
theorem Course.delivery (hb : b.agenda = .dispatch el event :: outer) :
    ∀ {c : Config} {later : List Config}, Course manners (c :: (later ++ b :: earlier)) →
      (∀ d ∈ c :: later, d.awaits outer) → ∃ ts once ls ran, c.agenda = ts ++ .deliver once ls ran :: outer ∧
        ∀ e ∈ ls, ∃ l ∈ b.stage.page.listening el event, e = (l.id, l.call)
  | c, [], h, _ => by
    rw [h.stepped_of_awaits hb]
    refine ⟨[], _, _, _, rfl, fun e he => ?_⟩
    obtain ⟨l, hl, rfl⟩ := List.mem_map.1 he
    exact ⟨l, hl, rfl⟩
  | c, d :: later, h, hover => by
    obtain ⟨ts, once, ls, ran, hagenda, hls⟩ := delivery hb h.tail fun d hd => hover d (List.mem_cons_of_mem _ hd)
    cases ts with
    | cons t ts =>
      rw [h.stepped_of_awaits hagenda]
      exact ⟨_, once, ls, ran, (List.append_assoc ..).symm, hls⟩
    | nil =>
      have hc := h.stepped_of_awaits hagenda
      cases once with
      | cons o once => exact ⟨[.callOnce o], once, ls, ran + 1, by rw [hc]; rfl, hls⟩
      | nil =>
        cases ls with
        | nil =>
          -- the delivery is over
          obtain ⟨t, ts, hawaits⟩ := hover c List.mem_cons_self
          rw [hc] at hawaits
          have := congrArg List.length hawaits
          simp only [Config.after, Task.carryOut, deliver, List.nil_append, List.length_append,
            List.length_cons] at this
          omega
        | cons e ls =>
          have hls := fun e' he' => hls e' (List.mem_cons_of_mem _ he')
          rw [hc]
          simp only [Config.after, Task.carryOut, deliver]
          split
          · exact ⟨[.callListener e.2], [], ls, ran + 1, rfl, hls⟩
          · exact ⟨[], [], ls, ran, rfl, hls⟩

/-- **A dispatch calls only listeners that it has gathered**, and one that it calls has been on the page ever since the
dispatch began. -/
theorem Course.gathered_of_call {call : ListenerCall} {ls : List (Nat × ListenerCall)} {ran : Nat}
    (hb : b.agenda = .dispatch el event :: outer) (h : Course manners (c :: (later ++ b :: earlier)))
    (hover : ∀ d ∈ later, d.awaits outer) (hcall : c.agenda = .callListener call :: .deliver [] ls ran :: outer) :
    ∃ l ∈ b.stage.page.listening el event, l.call = call ∧
      ∀ d ∈ c :: (later ++ [b]), l ∈ d.stage.page.listeners := by
  cases later with
  | nil =>
    rw [h.stepped_of_awaits hb] at hcall
    cases hcall
  | cons d later =>
    obtain ⟨ts, once, ls', ran', hagenda, hls⟩ := h.tail.delivery hb hover
    obtain ⟨t, rest, hd⟩ : ∃ t rest, d.agenda = t :: rest := by
      obtain ⟨t, ts, hd⟩ := hover d List.mem_cons_self
      exact ⟨t, ts ++ outer, hd⟩
    have hc := h.stepped_of_awaits hd
    -- the call comes from a delivery, which is the one that stands before what waits for the dispatch
    have hmem : Task.callListener call ∈ (t.carryOut d.stage rest).2 := by
      cases hts : (t.carryOut d.stage rest).2 with
      | nil =>
        have hfirst := h.tail.gathered.2.first call
        rw [hc, Config.after, hts, List.nil_append] at hcall
        rw [hd, List.tail_cons, show rest = _ from hcall] at hfirst
        exact absurd List.mem_cons_self hfirst
      | cons t' ts' =>
        rw [hc, Config.after, hts, List.cons_append] at hcall
        rw [(List.cons.inj hcall).1]
        exact List.mem_cons_self
    obtain ⟨id, ls'', ran'', rfl, hreg, hleft⟩ := deliver_of_mem hmem
    rw [hc, Config.after, hleft] at hcall
    obtain rfl : rest = outer := by simpa using congrArg (List.drop 2) hcall
    have hown := hd.symm.trans hagenda
    obtain rfl : ts = [] := by
      have := congrArg List.length hown
      simp only [List.length_cons, List.length_append] at this
      exact List.length_eq_zero_iff.1 (by omega)
    cases hown
    obtain ⟨l, hl, he⟩ := hls _ List.mem_cons_self
    obtain ⟨rfl, rfl⟩ := Prod.mk.inj he
    -- the listener that is registered now is the one that was there when the dispatch began
    have hb' : Course manners (b :: earlier) := Course.drop (c :: d :: later) h
    have hlb := (List.mem_filter.1 hl).1
    obtain ⟨l', hl', hid⟩ := exists_of_isRegistered hreg
    have hsince := (h.tail.mem_listeners (hid ▸ hb'.gathered.1.bounded l hlb)).2 hl'
    obtain rfl : l' = l := hb'.gathered.1.eq_of_id (hsince b (List.mem_append_right _ List.mem_cons_self)) hlb hid
    have hlc : l' ∈ c.stage.page.listeners := by
      rw [hc]
      simp only [Config.after, Task.carryOut, deliver, hreg, if_true]
      exact hl'
    exact ⟨l', hl, rfl, List.forall_mem_cons.2 ⟨hlc, List.forall_mem_cons.2 ⟨hl', hsince⟩⟩⟩

/-- **A machine is called by a listener only in the state for which the listener was bound**, and it is in use then.
Moreover a dispatch calls only listeners that were there when it began, and a machine that a dispatch calls has not left
its state since then: all the time the listener was on the page and the machine was in the state of the reaction. -/
theorem reactions_called_in_their_state (hs : manners.sparesListeners = true) {past : List Config}
    (h : Course manners (c :: past)) {m : Nat} {slot : Slot} {tasks : List Task}
    (hcall : c.agenda = .callListener (.react m slot) :: tasks) :
    (∃ machine, c.stage.machine? m = some machine ∧ machine.life = .live ∧ machine.current = some slot.state) ∧
    ∀ later b earlier el event outer ls ran, past = later ++ b :: earlier → b.agenda = .dispatch el event :: outer →
      (∀ d ∈ later, d.awaits outer) → tasks = .deliver [] ls ran :: outer →
      ∃ l ∈ b.stage.page.listening el event, l.call = .react m slot ∧
        ∀ d ∈ c :: (later ++ [b]), l ∈ d.stage.page.listeners ∧
          (∃ machine, d.stage.machine? m = some machine ∧ machine.current = some slot.state) ∧
          ∀ state rest, d.agenda ≠ .arrive m state false :: rest := by
  refine ⟨?_, ?_⟩
  · obtain ⟨l, hl, hlcall⟩ := h.gathered.2.registered _ _ hcall
    obtain ⟨machine, hm, hcur⟩ := h.placed hs l hl m slot hlcall
    have hquiet : ∀ t ∈ c.agenda, t.kind.knowsId = false := by
      cases (hcall ▸ (h.unbroken hs).2).first with
      | calm hquiet => exact fun t ht => knowsId_of_isInner (hquiet t (hcall ▸ ht))
    obtain ⟨machine', hm', -, hid⟩ := h.bound_of_quiet hs hquiet hl hlcall
    obtain rfl := Option.some.inj (hm.symm.trans hm')
    refine ⟨machine, hm, Decidable.byContradiction fun hlife => ?_, hcur⟩
    rw [Machine.bound, (h.tended.unbound m machine hm hlife).1] at hid
    cases hid
  · rintro later b earlier el event outer ls ran rfl hb hover rfl
    obtain ⟨l, hl, hlcall, hevery⟩ := h.gathered_of_call hb hover hcall
    refine ⟨l, hl, hlcall, fun d hd => ⟨hevery d hd, ?_⟩⟩
    obtain ⟨before, past, hpast⟩ : ∃ before past, c :: (later ++ b :: earlier) = before ++ d :: past := by
      refine List.append_of_mem ?_
      have hsub : [b].Sublist (b :: earlier) := (List.nil_sublist earlier).cons_cons b
      exact ((hsub.append_left later).cons_cons c).subset hd
    have hcourse : Course manners (d :: past) := Course.drop before (hpast ▸ h)
    refine ⟨hcourse.placed hs l (hevery d hd) m slot hlcall, fun state tasks hagenda => ?_⟩
    obtain ⟨s, agenda⟩ := d
    obtain rfl : agenda = .arrive m state false :: tasks := hagenda
    exact hcourse.call_ne_react_of_arrive hs (hevery _ hd) slot hlcall

end

/-- Two clicks are awaited in the first state; the first of their reactions leads to the second state, which also awaits
a click. -/
def crossroads : Cue :=
  .build "m" ⟨1⟩ {} false [.ready ⟨"a", [{ on := .event "click", goto := some "b" }, { on := .event "click" }], none⟩,
    .ready ⟨"b", [{ on := .event "click" }], none⟩]

/-- A click comes in the first state, and the first listener is called. -/
def crossing : List Config :=
  Course.play 3 ([crossroads, .transition "m" "a"].foldl (Course.play 40) [⟨.opened {}, []⟩]) (.dispatch ⟨1⟩ "click")

/-- The listener that is called has been there since the click. -/
theorem reactions_called_in_their_state_crossing : ∃ c d b past, crossing = c :: d :: b :: past ∧
    (∃ machine, c.stage.machine? 0 = some machine ∧ machine.life = .live ∧ machine.current = some "a") ∧
    ∃ l ∈ b.stage.page.listening ⟨1⟩ "click", l.call = .react 0 ⟨"a", 0⟩ ∧ l ∈ c.stage.page.listeners := by
  obtain ⟨c, d, b, past, e, ls, heq, hcall, hd, hb⟩ : ∃ c d b past e ls, crossing = c :: d :: b :: past ∧
      c.agenda = [.callListener (.react 0 ⟨"a", 0⟩), .deliver [] ls 1] ∧ d.agenda = [.deliver [] (e :: ls) 0] ∧
      b.agenda = [.dispatch ⟨1⟩ "click"] := ⟨_, _, _, _, _, _, rfl, rfl, rfl, rfl⟩
  have hcourse : Course {} (c :: d :: b :: past) :=
    heq ▸ Course.play_course 3 (Course.plays {} 40 _ .opened) (.dispatch ⟨1⟩ "click")
  obtain ⟨hstate, hsince⟩ := reactions_called_in_their_state rfl hcourse hcall
  obtain ⟨l, hl, hlcall, hevery⟩ := hsince [d] b past ⟨1⟩ "click" [] ls 1 rfl hb
    (fun e he => by rw [List.mem_singleton.1 he]; exact ⟨_, [], hd⟩) rfl
  exact ⟨c, d, b, past, heq, hstate, l, hl, hlcall, (hevery c List.mem_cons_self).1⟩

end Stagecraft
