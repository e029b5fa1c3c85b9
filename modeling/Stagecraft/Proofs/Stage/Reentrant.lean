import Stagecraft.Proofs.Stage.Delivered
import Stagecraft.Proofs.Stage.Ledger
/-!
# Dispatching inside a dispatch

Whatever the calls of a dispatch do, a call that waits for an event is made once, by the next dispatch of the event that
begins; a listener is called by each dispatch that finds it registered, first when it begins and again when the turn of
the listener comes; and no id of a listener is ever given out again.
-/
namespace Stagecraft

open Stage Dispatch

/-! ## Calls that wait for an event -/

/-- The call that a task leaves waiting for the event. -/
def Task.asks? (el : ElementId) (event : String) : Task → Option OnceCall
  | .await el' event' call => if el' = el ∧ event' = event then some call else none
  | .cue (.listenOnce el' event' label cues) => if el' = el ∧ event' = event then some (.outside label cues) else none
  | _ => none

namespace Dispatch

section
variable (el : ElementId) (event : String)

def asks (c : Config) : List OnceCall := (c.agenda.head?.bind (Task.asks? el event)).toList

/-- The calls that a dispatch of the event takes off the page. -/
def takes (c : Config) : List OnceCall :=
  match c.agenda with
  | .dispatch el' event' :: _ =>
    if el' = el ∧ event' = event then (c.stage.page.awaiting el event).map Waiting.call else []
  | _ => []

/-- The calls that wait for the event. -/
def pool : Pool OnceCall (OnceCall ⊕ ListenerCall) where
  waiting s := (s.page.awaiting el event).map Waiting.call
  puts := asks el event
  takes := takes el event
  start := .dispatch el event
  depth := 1
  made := Task.called?
  call := .inl

end

/-- What a dispatch has done that began with `b` and is over with `c`. -/
structure Returned (el : ElementId) (event : String) (outer : List Task) (b : Config) (later : List Config) (c : Config) :
    Prop where
  /-- Each listener that was registered when the dispatch began has had its turn. -/
  turns : (Dispatch.turns outer later).map Prod.fst = (b.stage.page.listening el event).map fun l => (l.id, l.call)
  /-- It was heard if it was still registered then. -/
  heard : ∀ l ∈ b.stage.page.listening el event, ∀ s, ((l.id, l.call), s) ∈ Dispatch.turns outer later →
    (isHeard ((l.id, l.call), s) = true ↔ l ∈ s.page.listeners)
  calls : calls outer later = (b.stage.page.awaiting el event).map (fun w => .inl w.call) ++
    ((Dispatch.turns outer later).filter isHeard).map fun turn => .inr turn.1.2
  answer : c.stage.answer = .count (Dispatch.calls outer later).length

end Dispatch

section
variable {manners : Manners} {s : Stage} {t : Task} {rest outer : List Task} {b c : Config}
  {later earlier past : List Config} {el : ElementId} {event : String}

theorem takes_append_awaiting (s : Stage) (t : Task) (rest : List Task) :
    takes el event ⟨s, t :: rest⟩ ++ ((t.carryOut s rest).1.page.awaiting el event).map Waiting.call =
      (s.page.awaiting el event).map Waiting.call ++ asks el event ⟨s, t :: rest⟩ := by
  have hlisten : ∀ (p : Page ListenerCall OnceCall) el' event' call,
      ((p.listenOnce el' event' call).awaiting el event).map Waiting.call = (p.awaiting el event).map Waiting.call ++
        (if el' = el ∧ event' = event then some call else none).toList := by
    intro p el' event' call
    rw [Page.listenOnce, Page.awaiting, List.filter_append, List.map_append, ← Page.awaiting, List.filter_singleton]
    by_cases hkey : el' = el ∧ event' = event
    · simp [Waiting.hears, hkey]
    · have hdeaf : (⟨el', event', call⟩ : Waiting OnceCall).hears el event = false := by
        simpa [Waiting.hears] using fun h => not_and.1 hkey h
      rw [if_neg hkey, hdeaf]
      rfl
  by_cases ht : .waiting ∈ t.touches
  · cases t with
    | dispatch el' event' =>
      change (if el' = el ∧ event' = event then _ else []) ++ _ = _ ++ []
      by_cases hkey : el' = el ∧ event' = event
      · -- nothing is left waiting for the event
        obtain ⟨rfl, rfl⟩ := hkey
        have hnone : (s.page.forget el' event').awaiting el' event' = [] := by
          simp [Page.awaiting, Page.forget, List.filter_filter]
        rw [if_pos ⟨rfl, rfl⟩]
        exact congrArg (fun ws => _ ++ List.map Waiting.call ws) hnone
      · have hsame : (s.page.forget el' event').awaiting el event = s.page.awaiting el event := by
          rw [Page.awaiting, Page.forget, List.filter_filter, Page.awaiting]
          refine List.filter_congr fun w _ => ?_
          by_cases hw : w.hears el event = true
          · have hdeaf : w.hears el' event' = false := by
              obtain ⟨rfl, rfl⟩ : w.element = el ∧ w.event = event := by simpa [Waiting.hears] using hw
              by_contra hboth
              obtain ⟨hel, hevent⟩ : w.element = el' ∧ w.event = event' := by simpa [Waiting.hears] using hboth
              exact hkey ⟨hel.symm, hevent.symm⟩
            rw [hdeaf, Bool.not_false, Bool.and_true]
          · simp [hw]
        rw [if_neg hkey, List.nil_append, List.append_nil]
        exact congrArg (List.map Waiting.call) hsame
    | await el' event' call => exact hlisten s.page el' event' call
    | cue c =>
      cases c with
      | listenOnce el' event' label script => exact hlisten s.page el' event' (.outside label script)
      | _ => simp [Task.touches, Cue.touches] at ht
    | release hold => cases hold <;> simp [Task.touches] at ht
    | _ => simp [Task.touches] at ht
  · have hsame : (t.carryOut s rest).1.page.waiting = s.page.waiting :=
      (within_carryOut s rest t).touched.agree .waiting ht
    rw [Page.awaiting, hsame, ← Page.awaiting]
    have hnone : takes el event ⟨s, t :: rest⟩ = [] ∧ asks el event ⟨s, t :: rest⟩ = [] := by
      cases t with
      | dispatch | await => exact absurd List.mem_cons_self ht
      | cue c =>
        cases c with
        | listenOnce => exact absurd List.mem_cons_self ht
        | _ => exact ⟨rfl, rfl⟩
      | _ => exact ⟨rfl, rfl⟩
    rw [hnone.1, hnone.2, List.append_nil, List.nil_append]

theorem Dispatch.sound_pool (el : ElementId) (event : String) : (pool el event).Sound where
  opened _ := rfl
  cleared _ := rfl
  idle _ := ⟨rfl, rfl⟩
  step := takes_append_awaiting
  start _ _ := if_pos ⟨rfl, rfl⟩

/-- Only a delivery leaves a call that was waiting for an event. -/
theorem deliver_of_callOnce {call : OnceCall} {pre post : List Task}
    (h : (t.carryOut s rest).2 = pre ++ .callOnce call :: post) : ∃ once ls ran, post = [.deliver once ls ran] := by
  have hmem : Task.callOnce call ∈ (t.carryOut s rest).2 := h ▸ List.mem_append_right _ List.mem_cons_self
  have hkind := (within_carryOut s rest t).kinds _ hmem
  cases t with
  | deliver once ls ran =>
    cases once with
    | cons o once =>
      simp only [Task.carryOut, deliver] at h
      cases pre with
      | nil => exact ⟨once, ls, ran + 1, ((List.cons.inj h).2).symm⟩
      | cons t pre =>
        have hlast : Task.callOnce call ∈ [Task.deliver once ls (ran + 1)] :=
          (List.cons.inj h).2 ▸ List.mem_append_right pre List.mem_cons_self
        cases List.mem_singleton.1 hlast
    | nil =>
      cases ls with
      | nil => cases hmem
      | cons e ls =>
        simp only [Task.carryOut, deliver] at hmem
        split at hmem
        · rcases List.mem_cons.1 hmem with hmem | hmem
          · cases hmem
          · cases List.mem_singleton.1 hmem
        · cases List.mem_singleton.1 hmem
  | cue c => cases c <;> simp [Task.leaves, Cue.leaves, Task.kind] at hkind
  | release hold => cases hold <;> simp [Task.leaves, Task.kind] at hkind
  | _ => simp [Task.leaves, Task.kind] at hkind

/-- A delivery was left by a dispatch, or goes on with another one. -/
theorem dispatch_or_deliver {u : Task} {pre post : List Task} (h : (t.carryOut s rest).2 = pre ++ u :: post)
    (hu : u.kind = .deliver) : (t.kind = .dispatch ∨ t.kind = .deliver) ∧ post = [] := by
  have hmem : u ∈ (t.carryOut s rest).2 := h ▸ List.mem_append_right _ List.mem_cons_self
  have hkind := (within_carryOut s rest t).kinds _ hmem
  rw [hu] at hkind
  have hlast : ∀ {ts : List Task}, (t.carryOut s rest).2 = ts → (∀ v ∈ ts.dropLast, v.kind ≠ .deliver) → post = [] := by
    rintro _ rfl hts
    rcases List.eq_nil_or_concat post with hnil | ⟨post, v, rfl⟩
    · exact hnil
    · refine absurd hu (hts u ?_)
      rw [h, List.concat_eq_append, ← List.cons_append, ← List.append_assoc, List.dropLast_concat]
      exact List.mem_append_right _ List.mem_cons_self
  cases t with
  | dispatch el event => exact ⟨.inl rfl, hlast rfl (List.forall_mem_nil _)⟩
  | deliver once ls ran =>
    refine ⟨.inr rfl, ?_⟩
    cases once with
    | cons o once => exact hlast rfl (List.forall_mem_singleton.2 Kind.noConfusion)
    | nil =>
      cases ls with
      | nil => exact hlast rfl (List.forall_mem_nil _)
      | cons e ls =>
        by_cases hheard : s.page.isRegistered e.1 = true
        · have hleft : ((Task.deliver [] (e :: ls) ran).carryOut s rest).2 =
              [.callListener e.2, .deliver [] ls (ran + 1)] := by
            simp only [Task.carryOut, deliver, hheard, if_true]
          exact hlast hleft (List.forall_mem_singleton.2 Kind.noConfusion)
        · have hleft : ((Task.deliver [] (e :: ls) ran).carryOut s rest).2 = [.deliver [] ls ran] := by
            simp only [Task.carryOut, deliver, hheard]
            rfl
          exact hlast hleft (List.forall_mem_nil _)
  | cue c => cases c <;> simp [Task.leaves, Cue.leaves] at hkind
  | release hold => cases hold <;> simp [Task.leaves] at hkind
  | _ => simp [Task.leaves] at hkind

/-- **A call that was waiting for an event is made in a dispatch.** -/
theorem Course.dispatch_of_callOnce {call : OnceCall} (h : Course manners (c :: past))
    (hc : c.agenda = .callOnce call :: rest) : ∃ later b earlier el event outer once ls ran, past = later ++ b :: earlier ∧
      b.agenda = .dispatch el event :: outer ∧ (∀ d ∈ later, d.awaits outer) ∧
      rest = .deliver once ls ran :: outer := by
  obtain ⟨once, ls, ran, outer, hrest⟩ : ∃ once ls ran outer, rest = .deliver once ls ran :: outer := by
    rcases h.left_by [] hc with ⟨cue, heq, -⟩ | ⟨later, s, t, rest', earlier, pre, post, -, hleft, hrest, -⟩
    · cases heq
    · obtain ⟨once, ls, ran, rfl⟩ := deliver_of_callOnce hleft
      exact ⟨once, ls, ran, rest', hrest⟩
  rw [hrest] at hc
  obtain ⟨later, b, earlier, t, u, pre, post, rest', hpast, hb, hstart, hleft, houter, hu, hover⟩ :=
    Course.begun_by (P := fun u => u.kind = .deliver) (Q := fun u => u.kind = .dispatch) (fun _ => Kind.noConfusion)
      (fun _ _ _ _ _ _ hleft hu => (dispatch_or_deliver hleft hu).1.imp_right
        fun ht => ⟨ht, (dispatch_or_deliver hleft hu).2⟩) [.callOnce call] h hc rfl
  obtain rfl := (dispatch_or_deliver hleft hu).2
  cases t with
  | dispatch el event =>
    rw [houter] at hover hrest
    exact ⟨later, b, earlier, el, event, rest', once, ls, ran, hpast, hb, hover, hrest⟩
  | _ => cases hstart

/-- **Whenever a call is made that was waiting for an event, a dispatch of the event makes it**, and the call was waiting
already when the dispatch began. -/
theorem Course.exists_serves {call : OnceCall} (h : Course manners (c :: past)) (hc : c.agenda = .callOnce call :: rest) :
    ∃ el event k, (pool el event).Serves k call (c :: past) := by
  obtain ⟨later, b, earlier, el, event, outer, once, ls, ran, rfl, hb, hover, rfl⟩ := h.dispatch_of_callOnce hc
  obtain ⟨gone, left, ls, htally, -⟩ := h.delivering hb hover
  have hfirst : c.first? (fun _ t => t.called?) (outer.length + 1) = some (.inl call) :=
    first?_of_agenda hc (List.length_cons ..)
  exact ⟨el, event, (Dispatch.sound_pool el event).serves h hb hover hfirst (htally.next_once hfirst)⟩

/-! ## The turns of listeners -/

theorem exists_of_mem_turns {e : Nat × ListenerCall} (h : (e, s) ∈ Dispatch.turns outer later) : ∃ d ∈ later, d.stage = s := by
  obtain ⟨d, hd, hturn⟩ := List.mem_filterMap.1 h
  refine ⟨d, List.mem_reverse.1 hd, ?_⟩
  unfold Config.first? at hturn
  split at hturn
  · split at hturn
    · obtain ⟨e', -, heq⟩ := Option.map_eq_some_iff.1 hturn
      exact (Prod.mk.inj heq).2
    · cases hturn
  · cases hturn

/-- An id that was given out is registered as long as its listener is. -/
theorem Course.isRegistered_iff {d : Config} (h : Course manners (d :: (later ++ b :: earlier)))
    {l : Listener ListenerCall} (hl : l ∈ b.stage.page.listeners) :
    d.stage.page.isRegistered l.id = true ↔ l ∈ d.stage.page.listeners := by
  have hb : Course manners (b :: earlier) := Course.drop (d :: later) h
  constructor
  · intro hreg
    obtain ⟨l', hl', hid⟩ := exists_of_isRegistered hreg
    have hsince := (h.mem_listeners (hid ▸ hb.gathered.1.bounded l hl)).2 hl'
    obtain rfl : l' = l := hb.gathered.1.eq_of_id (hsince b (List.mem_append_right _ List.mem_cons_self)) hl hid
    exact hl'
  · exact fun hmem => List.any_eq_true.2 ⟨l, hmem, decide_eq_true rfl⟩

/-- **A dispatch that is over has made all the calls that it had to make, and no others.** -/
theorem Course.returned (h : Course manners (c :: (later ++ b :: earlier))) (hb : b.agenda = .dispatch el event :: outer)
    (hover : ∀ d ∈ later, d.awaits outer) (hc : c.agenda = outer) : Returned el event outer b later c := by
  obtain ⟨gone, left, ls, htally, hstands⟩ := h.delivering hb hover
  have hlast : calls outer (c :: later) = calls outer later := by
    rw [calls_cons, first?_of_length (by rw [hc]; omega)]
    exact List.append_nil _
  obtain ⟨rfl, rfl, hanswer⟩ : left = [] ∧ ls = [] ∧ c.stage.answer = .count (calls outer (c :: later)).length := by
    cases hstands with
    | calling t call ht heq =>
      have := congrArg List.length (hc.symm.trans heq)
      simp only [List.length_cons] at this
      omega
    | inside hinside =>
      rcases hinside with heq | ⟨ts, u, -, heq⟩
      · have := congrArg List.length (hc.symm.trans heq)
        simp at this
      · have := congrArg List.length (hc.symm.trans heq)
        simp only [List.length_append, List.length_cons] at this
        omega
    | ended hleft hls _ hanswer => exact ⟨hleft, hls, hanswer⟩
  have honce := htally.once
  have hmade := htally.made
  have hturns := htally.listeners
  rw [List.append_nil] at honce hturns
  rw [hlast] at hmade hanswer
  refine ⟨hturns.symm, fun l hl s hmem => ?_, ?_, hanswer⟩
  · obtain ⟨d, hd, rfl⟩ := exists_of_mem_turns hmem
    obtain ⟨since, before, rfl⟩ := List.append_of_mem hd
    have hturn : Course manners (d :: (before ++ b :: earlier)) := by
      refine Course.drop (c :: since) ?_
      simpa using h
    exact hturn.isRegistered_iff (List.mem_filter.1 hl).1
  · rw [hmade, ← honce, List.map_map]
    rfl

/-! ## The ids of listeners -/

/-- The listener that the next task registers. -/
def Dispatch.adds (c : Config) : List (Listener ListenerCall) :=
  match c.agenda with
  | t :: rest => (t.carryOut c.stage rest).1.page.listeners.drop c.stage.page.listeners.length
  | [] => []

/-- All listeners that were ever registered, in this order. -/
def Dispatch.added (past : List Config) : List (Listener ListenerCall) := history adds past

/-- **The listeners get the numbers from 1 on as their ids**, and those that are registered stand in the order in which
they were. -/
theorem Course.ids_added (h : Course manners (c :: past)) :
    (added past).map Listener.id = List.range' 1 c.stage.page.lastId ∧ c.stage.page.listeners.Sublist (added past) := by
  induction past generalizing c with
  | nil =>
    cases h with
    | opened => exact ⟨rfl, List.Sublist.refl _⟩
  | cons d past ih =>
    obtain ⟨hids, hsub⟩ := ih h.tail
    rw [Dispatch.added, history_cons, ← Dispatch.added]
    have hidle : ∀ {s : Stage}, d = ⟨s, []⟩ → c.stage.page = s.page →
        (Dispatch.added past ++ adds d).map Listener.id = List.range' 1 c.stage.page.lastId ∧
          c.stage.page.listeners.Sublist (Dispatch.added past ++ adds d) := by
      rintro s rfl hpage
      rw [hpage, show adds ⟨s, []⟩ = [] from rfl, List.append_nil]
      exact ⟨hids, hsub⟩
    cases h with
    | cleared h => exact hidle rfl rfl
    | called cue h => exact hidle rfl rfl
    | stepped h hstep =>
      obtain ⟨s, agenda⟩ := d
      cases agenda with
      | nil => cases hstep
      | cons t rest =>
        rw [Config.step?_cons, Option.some.injEq] at hstep
        rw [← hstep]
        have hadds : adds ⟨s, t :: rest⟩ = (t.carryOut s rest).1.page.listeners.drop s.page.listeners.length := rfl
        cases relisted_carryOut s t rest with
        | fewer hfewer hid =>
          rw [hadds, List.drop_eq_nil_of_le hfewer.length_le, List.append_nil]
          exact ⟨hids.trans (congrArg (List.range' 1) hid.symm), hfewer.trans hsub⟩
        | more el event call hmore hid =>
          rw [hadds, hmore, List.drop_left, List.map_append, hids]
          refine ⟨?_, ?_⟩
          · simp only [Config.after, hid, Page.nextId, List.range'_concat, List.map_cons, List.map_nil, Nat.one_mul]
            rw [Nat.add_comm]
          · simp only [Config.after, hmore]
            exact hsub.append (List.Sublist.refl _)

/-- A listener that was registered once and is gone stays gone. -/
theorem Course.stays_gone (h : Course manners (c :: (later ++ b :: earlier))) {l : Listener ListenerCall}
    (hl : l ∈ added earlier) (hgone : l ∉ b.stage.page.listeners) : l ∉ c.stage.page.listeners := by
  intro hmem
  have hb : Course manners (b :: earlier) := Course.drop (c :: later) h
  have hid : l.id ∈ List.range' 1 b.stage.page.lastId := hb.ids_added.1 ▸ List.mem_map_of_mem hl
  have hle : l.id ≤ b.stage.page.lastId := by
    have := List.mem_range'_1.1 hid
    omega
  exact hgone ((h.mem_listeners hle).2 hmem b (List.mem_append_right _ List.mem_cons_self))

/-- **Removing a listener that is not there changes nothing**, whether its id is unknown, or that of a listener on
another element, or of one that has been removed. -/
theorem Course.removeListener_eq (h : Course manners (c :: past)) {id : Nat}
    (hnone : ∀ l ∈ added past, l.id = id → l.element = el → l ∉ c.stage.page.listeners) :
    c.stage.page.removeListener el id = c.stage.page := by
  have hfilter : c.stage.page.listeners.filter (fun l => !(l.element = el && l.id = id)) = c.stage.page.listeners := by
    rw [List.filter_eq_self]
    intro l hl
    by_contra hthere
    obtain ⟨hel, hid⟩ : l.element = el ∧ l.id = id := by simpa using hthere
    exact hnone l (h.ids_added.2.subset hl) hid hel hl
  rw [Page.removeListener, hfilter]

end

/-- **Dispatching is safe at any depth.**  Whatever the calls of a dispatch do to the page, and however often they
dispatch again:
- A dispatch that is over has made each of the calls that waited for its event when it began, and then has called each
  of the listeners that were registered then, in their order, unless it was gone when its turn came; it has made no other
  call itself, and answers the number of those that it made.
- Each time a call is made that waited for an event, a dispatch of the event makes it that began when the call was
  waiting; no call is made twice; and each that was ever left waiting has been taken by a dispatch or still waits.
- The listeners get the ids 1, 2 and so on.  One that is gone stays gone, and to remove what is not there changes
  nothing. -/
theorem dispatches_nest {manners : Manners} {c : Config} {past : List Config} (h : Course manners (c :: past)) :
    (∀ later b earlier el event outer, past = later ++ b :: earlier → b.agenda = .dispatch el event :: outer →
      (∀ d ∈ later, d.awaits outer) → c.agenda = outer → Returned el event outer b later c) ∧
    (∀ call rest, c.agenda = .callOnce call :: rest → ∃ el event k, (pool el event).Serves k call (c :: past)) ∧
    (∀ el event, (∀ k call call' cs cs', cs <:+ c :: past → cs' <:+ c :: past → (pool el event).Serves k call cs →
        (pool el event).Serves k call' cs' → cs = cs') ∧
      (pool el event).entered past = (pool el event).drawn past ++ (c.stage.page.awaiting el event).map Waiting.call) ∧
    (added past).map Listener.id = List.range' 1 c.stage.page.lastId ∧ c.stage.page.listeners.Sublist (added past) ∧
    (∀ later b earlier, past = later ++ b :: earlier → ∀ l ∈ added earlier, l ∉ b.stage.page.listeners →
      l ∉ c.stage.page.listeners) ∧
    ∀ el id, (∀ l ∈ added past, l.id = id → l.element = el → l ∉ c.stage.page.listeners) →
      c.stage.page.removeListener el id = c.stage.page := by
  refine ⟨?_, fun call rest hc => h.exists_serves hc, fun el event => ⟨?_, (Dispatch.sound_pool el event).entered_eq h⟩,
    h.ids_added.1, h.ids_added.2, ?_, fun el id hnone => h.removeListener_eq hnone⟩
  · rintro later b earlier el event outer rfl hb hover hc
    exact h.returned hb hover hc
  · exact fun k call call' cs cs' hcs hcs' => (Dispatch.sound_pool el event).serves_once h hcs hcs'
  · rintro later b earlier rfl l hl hgone
    exact h.stays_gone hl hgone

/-- A call waits for a click, and when it is made it leaves another one waiting and clicks again.  Of two listeners for
the click the first removes the second.  The click comes. -/
def entangled : List Config :=
  Course.play 1 ([.listenOnce ⟨1⟩ "click" "a" [.listenOnce ⟨1⟩ "click" "b" [], .dispatch ⟨1⟩ "click"],
    .addListener ⟨1⟩ "click" "x" [.removeListener ⟨1⟩ 2], .addListener ⟨1⟩ "click" "y" []].foldl (Course.play 40)
    [⟨.opened {}, []⟩]) (.dispatch ⟨1⟩ "click")

/-- Of the four calls that were registered the click makes two itself, and the click inside it makes two. -/
theorem dispatches_nest_entangled : ∃ c later b earlier, Course.passed 60 b ++ entangled = c :: (later ++ b :: earlier) ∧
    c.agenda = [] ∧ Returned ⟨1⟩ "click" [] b later c ∧ c.stage.answer = .count 2 := by
  obtain ⟨c, later, b, earlier, hb, hpassed, hagenda, hc, hover, htwo⟩ : ∃ c later b earlier, entangled = b :: earlier ∧
      Course.passed 60 b = c :: later ∧ b.agenda = [.dispatch ⟨1⟩ "click"] ∧ c.agenda = [] ∧
      later.all (fun d => !d.agenda.isEmpty) = true ∧ (calls [] later).length = 2 :=
    ⟨_, _, _, _, rfl, rfl, rfl, rfl, rfl, rfl⟩
  have hbcourse : Course {} (b :: earlier) := hb ▸ Course.play_course 1 (Course.plays {} 40 _ .opened) _
  have hcourse : Course {} (c :: (later ++ b :: earlier)) := by
    have := hbcourse.run 60
    rwa [hpassed] at this
  have hreturned := (dispatches_nest hcourse).1 later b earlier ⟨1⟩ "click" [] rfl hagenda (Config.awaits_nil hover) hc
  exact ⟨c, later, b, earlier, by rw [hpassed, hb]; rfl, hc, hreturned, htwo ▸ hreturned.answer⟩

end Stagecraft
