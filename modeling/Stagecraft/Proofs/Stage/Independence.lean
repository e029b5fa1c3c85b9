import Stagecraft.Proofs.Stage.Troupe
/-!
# Elements are independent

Two machines on different elements share a page, the frames and a stylesheet.  Whatever is done with one of them and
its element, the other one and its element look as if it had not been done.
-/
namespace Stagecraft

open Stage

/-- What a machine without triggers is built from, and the name it gets. -/
structure Performer where
  name : String
  element : ElementId
  settings : Settings := {}
  hooked : Bool := false
  declarations : List Declaration
  untriggered : ∀ d ∈ declarations, d.state.trigger = none

namespace Performer

def build (p : Performer) : Cue := .build p.name p.element p.settings p.hooked p.declarations

/-- The machine that is built, with a queue at this place. -/
def machine (p : Performer) (queue : Nat) : Machine :=
  .ofStates p.element p.settings p.hooked queue (p.declarations.foldl declare [])

/-- The role of the machine that is built at this place. -/
def role (p : Performer) (n : Nat) : Role := ⟨p.name, n, n, p.element⟩

end Performer

/-- Whether a cue is meant for a machine of this name or for its element. -/
def Cue.concerns (name : String) (el : ElementId) : Cue → Bool
  | .start n _ | .transition n _ | .visibility n _ | .drop n => n = name
  | .dispatch e _ => e = el
  | _ => false

/-- What a machine tells about itself. -/
structure Report where
  current : Option String
  bound : Nat
  busy : Bool
  queued : Nat
  position : Slot → Option Nat

/-- What can be seen of a machine, if it is still there, and of its element. -/
structure Glance where
  machine : Option Report
  classes : List String
  listening : String → Nat
  awaiting : String → Nat

namespace Stage

def report? (s : Stage) (name : String) : Option Report :=
  ((s.cast.get? name).bind s.machine?).bind fun c => (s.queue? c.queue).map fun q =>
    { current := c.current, bound := c.bound.length, busy := q.isRunning, queued := q.waiting.length,
      position := c.position? }

def glance (s : Stage) (name : String) (el : ElementId) : Glance where
  machine := s.report? name
  classes := s.page.classesOf el
  listening event := (s.page.listening el event).length
  awaiting event := (s.page.awaiting el event).length

end Stage

section
variable {s s' s₁ s₁' : Stage} {r r' : Role} {ids : List (Nat × Nat)} {known : List Nat} {c : Cue}

/-! ## What a role shows -/

theorem Secluded.machine_of_named (h : Secluded r known s) {m : Nat} (hm : s.cast.get? r.name = some m) :
    m = r.machine := by
  obtain ⟨e, he, rfl⟩ := Option.map_eq_some_iff.1 hm
  exact (h.cast e (List.mem_of_find?_eq_some he)).2 (by simpa using List.find?_some he)

theorem report?_mirrors (h : Mirrors r ids s s') : s'.report? r.name = s.report? r.name := by
  obtain ⟨c, bs, hc, hc', hbs, hfits⟩ := h.machines
  obtain ⟨jq, hq, hq', -⟩ := h.queue?
  rw [← hfits.queue] at hq hq'
  have hnamed : s'.cast.get? r.name = s.cast.get? r.name := h.own.named
  have hposition : Machine.position? { c with bindings := bs } = c.position? := rfl
  have hbound : (Machine.bound { c with bindings := bs }).length = c.bound.length := (bound_mirrors hbs).length_eq.symm
  simp only [Stage.report?, hnamed]
  cases hget : s.cast.get? r.name with
  | none => rfl
  | some m =>
    obtain rfl := h.left.machine_of_named hget
    simp only [Option.bind_some, hc, hc', hq, hq', Option.map_some, hposition, hbound]

/-- **What is seen of a role is the same on two stages** on which it is in the same condition. -/
theorem glance_of_mirrors (h : Mirrors r ids s s') : s'.glance r.name r.element = s.glance r.name r.element := by
  have hclasses : s'.page.classesOf r.element = s.page.classesOf r.element := h.own.classes
  have hlistening : ∀ event, (s'.page.listening r.element event).length = (s.page.listening r.element event).length :=
    fun event => (listening_mirrors h event).length_eq.symm
  have hawaiting : ∀ event, s'.page.awaiting r.element event = s.page.awaiting r.element event := fun event => by
    rw [awaiting_eq, awaiting_eq, h.own.waiting]
  simp only [Stage.glance, report?_mirrors h, hclasses, hlistening, hawaiting]

/-! ## Cues for a role -/

theorem Mirrors.undisturbed (h : Mirrors r ids s s') (hs : Undisturbed s s₁) (hs' : Undisturbed s' s₁') :
    Mirrors r ids s₁ s₁' :=
  ⟨h.left.undisturbed hs, h.right.undisturbed hs', h.own.undisturbed hs hs', h.ids⟩

theorem undisturbed_direct (s : Stage) (name : String) (f : Nat → Task) : Undisturbed s (s.direct name f).1 := by
  unfold direct withMachine
  split
  · exact undisturbed_reply ..
  · split
    · exact undisturbed_reply ..
    · exact .refl s

theorem mirrored_direct (h : Mirrors r ids s s') {f : Nat → Task} (hf : (f r.machine).isPlainFor r = true) :
    Mirrors r ids (s.direct r.name f).1 (s'.direct r.name f).1 ∧
      List.Forall₂ (Task.Mirrors r ids) (s.direct r.name f).2 (s'.direct r.name f).2 := by
  refine ⟨h.undisturbed (undisturbed_direct ..) (undisturbed_direct ..), ?_⟩
  obtain ⟨c, bs, hc, hc', -, -⟩ := h.machines
  have hnamed : s'.cast.get? r.name = s.cast.get? r.name := h.own.named
  simp only [direct, withMachine, hnamed]
  cases hget : s.cast.get? r.name with
  | none => exact .nil
  | some m =>
    obtain rfl := h.left.machine_of_named hget
    simp only [hc, hc']
    exact .cons (.plain hf) (.cons (.plain (by simp [Task.isPlainFor])) (.cons (.idle rfl) .nil))

/-- The stage without a name. -/
def Stage.uncast (s : Stage) (name : String) : Stage := { s with cast := s.cast.erase name }

theorem Secluded.uncast (h : Secluded r known s) (name : String) : Secluded r known (s.uncast name) :=
  { h with cast := fun e he => h.cast e (List.mem_filter.1 he).1 }

theorem mirrored_drop (h : Mirrors r ids s s') :
    Mirrors r ids (s.follow (.drop r.name)).1 (s'.follow (.drop r.name)).1 ∧
      List.Forall₂ (Task.Mirrors r ids) (s.follow (.drop r.name)).2 (s'.follow (.drop r.name)).2 := by
  have hnamed : s'.cast.get? r.name = s.cast.get? r.name := h.own.named
  simp only [follow, hnamed]
  cases hget : s.cast.get? r.name with
  | none => exact ⟨h.undisturbed (undisturbed_reply ..) (undisturbed_reply ..), .nil⟩
  | some m =>
    obtain rfl := h.left.machine_of_named hget
    refine ⟨⟨h.left.uncast r.name, h.right.uncast r.name, { h.own with named := ?_ }, h.ids⟩, ?_⟩
    · exact (Registry.get?_erase_self ..).trans (Registry.get?_erase_self ..).symm
    · exact .cons (.plain (by simp [Task.isPlainFor])) (.cons (.idle rfl) .nil)

/-- **A cue for a role does the same on two stages** on which the role is in the same condition. -/
theorem mirrored_follow (h : Mirrors r ids s s') (hc : c.concerns r.name r.element = true) :
    Mirrors r ids (s.follow c).1 (s'.follow c).1 ∧
      List.Forall₂ (Task.Mirrors r ids) (s.follow c).2 (s'.follow c).2 := by
  cases c with
  | start n visible =>
    obtain rfl : n = r.name := of_decide_eq_true hc
    exact mirrored_direct h (by simp [Task.isPlainFor])
  | transition n state =>
    obtain rfl : n = r.name := of_decide_eq_true hc
    exact mirrored_direct h (by simp [Task.isPlainFor])
  | visibility n visible =>
    obtain rfl : n = r.name := of_decide_eq_true hc
    exact mirrored_direct h (by simp [Task.isPlainFor])
  | drop n =>
    obtain rfl : n = r.name := of_decide_eq_true hc
    exact mirrored_drop h
  | dispatch el event => exact ⟨h, .cons (.plain hc) .nil⟩
  | _ => cases hc

/-- What becomes of the stage when a cue for a role is given: nothing yet, but that the name may be taken away. -/
theorem follow_of_concerns {name : String} {el : ElementId} (hc : c.concerns name el = true) :
    Undisturbed s (s.follow c).1 ∨ Undisturbed (s.uncast name) (s.follow c).1 := by
  cases c with
  | start n visible => exact .inl (undisturbed_direct ..)
  | transition n state => exact .inl (undisturbed_direct ..)
  | visibility n visible => exact .inl (undisturbed_direct ..)
  | dispatch e event => exact .inl (.refl s)
  | drop n =>
    obtain rfl : n = name := of_decide_eq_true hc
    simp only [follow]
    split
    · exact .inr (.refl _)
    · exact .inl (undisturbed_reply ..)
  | _ => cases hc

theorem own_uncast (hname : r.name ≠ r'.name) : (s.uncast r'.name).own r = s.own r :=
  congrArg ({ s.own r with named := · }) (Registry.get?_erase_ne _ hname)

/-- A cue for another role does nothing to a role. -/
theorem spares_of_concerns (hapart : r.Apart r') (hother : Mirrors r' ids s s)
    (hc : c.concerns r'.name r'.element = true) : Spares r s (.cue c) [] := by
  obtain ⟨-, htasks⟩ := mirrored_follow hother hc
  refine ⟨?_, List.flatMap_eq_nil_iff.2 (forall_of_forall₂ htasks fun _ _ ht => ht.mine_eq_nil hapart), fun h => ?_⟩
  · rcases follow_of_concerns (s := s) hc with hs | hs
    · exact own_of_undisturbed hs r
    · exact (own_of_undisturbed hs r).trans (own_uncast hapart.name)
  · rcases follow_of_concerns (s := s) hc with hs | hs
    · exact h.undisturbed hs
    · exact (h.uncast _).undisturbed hs

/-! ## Two plays -/

/-- The role is in the same condition on two stages on which nothing is left to do. -/
structure InStep (r r' : Role) (s s' : Stage) : Prop where
  left : Troupe r r' ⟨s, []⟩
  right : Troupe r r' ⟨s', []⟩
  alike : ∃ ids, Alike r ids ⟨s, []⟩ ⟨s', []⟩

theorem in_step_at_end (hapart : r.Apart r') {d d' : Config} (hd : Troupe r r' d) (hd' : Troupe r r' d')
    (h : Alike r ids d d') : ∃ n n' t t', Config.run n d = ⟨t, []⟩ ∧ Config.run n' d' = ⟨t', []⟩ ∧ InStep r r' t t' := by
  obtain ⟨n, t, hn, htroupe⟩ := hd.scriptless.ends (fun _ _ _ h => troupe_after hapart h) hd
  obtain ⟨n', t', hn', htroupe'⟩ := hd'.scriptless.ends (fun _ _ _ h => troupe_after hapart h) hd'
  refine ⟨n, n', t, t', hn, hn', htroupe, htroupe', ?_⟩
  have halike := alike_at_end hapart n n' hd hd' h (by rw [hn]) (by rw [hn'])
  rwa [hn, hn'] at halike

theorem Plays.one {n : Nat} {t : Stage} (h : Config.run n (.after s (.cue c) []) = ⟨t, []⟩) : Plays s [c] t :=
  .cons (n + 1) h (.nil t)

theorem isScriptless_of_concerns {name : String} {el : ElementId} (hc : c.concerns name el = true) :
    c.isScriptless = true := by
  cases c with
  | start | transition | visibility | drop | dispatch => rfl
  | _ => cases hc

theorem Troupe.given (hapart : r.Apart r') (h : Troupe r r' ⟨s, []⟩) (hc : c.concerns r.name r.element = true) :
    Troupe r r' (.after s (.cue c) []) := by
  obtain ⟨ids, hfirst⟩ := h.first
  obtain ⟨hstage, htasks⟩ := mirrored_follow hfirst.stage hc
  have hscriptless : Scriptless ⟨s, [.cue c]⟩ := { h.scriptless with
    agenda := List.forall_mem_cons.2 ⟨isScriptless_of_concerns hc, List.forall_mem_nil _⟩ }
  have hframes : (s.follow c).1.frames = s.frames := by
    rcases follow_of_concerns (s := s) hc with hs | hs
    · exact hs.frames
    · exact hs.frames
  obtain ⟨ids', hsecond⟩ := h.second
  have hspared : ∃ ids, Alike r' ids (.after s (.cue c) []) (.after s (.cue c) []) :=
    Alike.self ⟨ids', hsecond.stage, hsecond.agenda⟩ (spares_of_concerns hapart.symm hfirst.stage hc)
  refine ⟨scriptless_after hscriptless, ?_, fun t ht => ?_, ⟨ids, hstage, ?_⟩, hspared⟩
  · exact hframes ▸ h.frames
  · rcases List.mem_append.1 ht with ht | ht
    · exact forall_of_forall₂ htasks (fun _ _ ht => ht.isShared) t ht
    · cases ht
  · exact (shares_of_forall₂ htasks).append hfirst.agenda

theorem InStep.own (hapart : r.Apart r') (h : InStep r r' s s') (hc : c.concerns r.name r.element = true) :
    ∃ t t', Plays s [c] t ∧ Plays s' [c] t' ∧ InStep r r' t t' := by
  obtain ⟨ids, halike⟩ := h.alike
  obtain ⟨hstage, htasks⟩ := mirrored_follow halike.stage hc
  have hgiven : Alike r ids (.after s (.cue c) []) (.after s' (.cue c) []) :=
    ⟨hstage, (shares_of_forall₂ htasks).append halike.agenda⟩
  obtain ⟨n, n', t, t', hn, hn', hend⟩ :=
    in_step_at_end hapart (h.left.given hapart hc) (h.right.given hapart hc) hgiven
  exact ⟨t, t', .one hn, .one hn', hend⟩

theorem InStep.other (hapart : r.Apart r') (h : InStep r r' s s') (hc : c.concerns r'.name r'.element = true) :
    ∃ t, Plays s [c] t ∧ InStep r r' t s' := by
  obtain ⟨ids, halike⟩ := h.alike
  obtain ⟨ids', hsecond⟩ := h.left.second
  have hgiven : Alike r ids (.after s (.cue c) []) ⟨s', []⟩ :=
    Alike.left ⟨halike.stage, halike.agenda⟩ (spares_of_concerns hapart hsecond.stage hc)
  obtain ⟨n, n', t, t', hn, hn', hend⟩ :=
    in_step_at_end hapart (h.left.symm.given hapart.symm hc).symm h.right hgiven
  -- the second stage has nothing to do and stays as it is
  rw [Config.run_of_agenda_eq_nil rfl] at hn'
  cases hn'
  exact ⟨t, .one hn, hend⟩

/-- What there is to do when a frame begins. -/
def Stage.ticked (s : Stage) : Config :=
  ⟨{ s with frames := s.frames.begin }, [.frame s.frames.waiting, .frameOver s.frames.index s.frames.waiting.length]⟩

theorem Alike.ticked (h : Alike r ids ⟨s, []⟩ ⟨s', []⟩) : Alike r ids s.ticked s'.ticked := by
  have hframes : s'.frames.waiting.filter (fun f => f.isOf r) = s.frames.waiting.filter fun f => f.isOf r :=
    h.stage.own.frames
  have hcalls : List.Forall₂ (Task.Mirrors r ids) (Task.mine r (.frame s.frames.waiting))
      (Task.mine r (.frame s'.frames.waiting)) := by
    simp only [Task.mine, hframes]
    refine same_tasks fun t ht => ?_
    obtain ⟨f, hf, rfl⟩ := List.mem_map.1 ht
    exact (List.mem_filter.1 hf).2
  exact ⟨⟨{ h.stage.left with }, { h.stage.right with }, { h.stage.own with frames := rfl }, h.stage.ids⟩,
    List.rel_append hcalls .nil⟩

theorem Troupe.ticked (h : Troupe r r' ⟨s, []⟩) : Troupe r r' s.ticked := by
  have hscriptless : Scriptless ⟨s, [.cue .tick]⟩ := { h.scriptless with
    agenda := List.forall_mem_cons.2 ⟨rfl, List.forall_mem_nil _⟩ }
  obtain ⟨ids, hfirst⟩ := h.first
  obtain ⟨ids', hsecond⟩ := h.second
  refine ⟨scriptless_after (scriptless_after hscriptless), List.forall_mem_nil _, ?_, ⟨ids, hfirst.ticked⟩,
    ⟨ids', hsecond.ticked⟩⟩
  refine List.forall_mem_cons.2 ⟨?_, List.forall_mem_cons.2 ⟨rfl, List.forall_mem_nil _⟩⟩
  exact List.all_eq_true.2 fun f hf => Bool.or_eq_true_iff.2 (h.frames f hf)

theorem InStep.tick (hapart : r.Apart r') (h : InStep r r' s s') :
    ∃ t t', Plays s [.tick] t ∧ Plays s' [.tick] t' ∧ InStep r r' t t' := by
  obtain ⟨ids, halike⟩ := h.alike
  obtain ⟨n, n', t, t', hn, hn', hend⟩ := in_step_at_end hapart h.left.ticked h.right.ticked halike.ticked
  exact ⟨t, t', .cons (n + 2) hn (.nil t), .cons (n' + 2) hn' (.nil t'), hend⟩

/-- **What is done for one role does nothing to the other**, in a play of any length. -/
theorem plays_in_step (hapart : r.Apart r') : ∀ (cues : List Cue) {s s' : Stage}, InStep r r' s s' →
    (∀ c ∈ cues, c.concerns r.name r.element = true ∨ c.concerns r'.name r'.element = true ∨ c = .tick) →
      ∃ t t', Plays s cues t ∧ Plays s' (cues.filter fun c => !c.concerns r'.name r'.element) t' ∧ InStep r r' t t'
  | [], s, s', h, _ => ⟨s, s', .nil s, .nil s', h⟩
  | c :: cues, s, s', h, hcues => by
    obtain ⟨hc, hcues⟩ := List.forall_mem_cons.1 hcues
    by_cases hother : c.concerns r'.name r'.element = true
    · obtain ⟨u, hu, hstep⟩ := h.other hapart hother
      obtain ⟨t, t', ht, ht', hend⟩ := plays_in_step hapart cues hstep hcues
      refine ⟨t, t', hu.append ht, ?_, hend⟩
      rwa [List.filter_cons_of_neg (by simp [hother])]
    · have hboth : ∃ u u', Plays s [c] u ∧ Plays s' [c] u' ∧ InStep r r' u u' := by
        rcases hc with hc | hc | rfl
        · exact h.own hapart hc
        · exact absurd hc hother
        · exact h.tick hapart
      obtain ⟨u, u', hu, hu', hstep⟩ := hboth
      obtain ⟨t, t', ht, ht', hend⟩ := plays_in_step hapart cues hstep hcues
      refine ⟨t, t', hu.append ht, ?_, hend⟩
      rw [List.filter_cons_of_pos (by simp [hother])]
      exact hu'.append ht'

end

/-! ## The opening -/

section
variable {p q : Performer}

theorem untriggered_declared {declarations : List Declaration} (h : ∀ d ∈ declarations, d.state.trigger = none) :
    ∀ st ∈ declarations.foldl declare [], st.trigger = none := by
  suffices hall : ∀ states : List StateDecl, (∀ st ∈ states, st.trigger = none) →
      ∀ st ∈ declarations.foldl declare states, st.trigger = none from hall [] (List.forall_mem_nil _)
  induction declarations with
  | nil => exact fun _ hstates => hstates
  | cons d ds ih =>
    obtain ⟨hd, hds⟩ := List.forall_mem_cons.1 h
    intro states hstates
    refine ih hds (declare states d) fun st hst => ?_
    rcases List.mem_append.1 hst with hst | hst
    · exact hstates st (List.mem_filter.1 hst).1
    · rw [List.mem_singleton.1 hst]
      exact hd

theorem Performer.fits (p : Performer) (n : Nat) : (p.machine n).Fits (p.role n) where
  element := rfl
  queue := rfl
  pending := by
    refine List.filterMap_eq_nil_iff.2 fun st hst => ?_
    rw [untriggered_declared p.untriggered st hst]
    rfl
  triggers := rfl

/-- A stage on which two machines have been built. -/
def Stage.opening (p q : Performer) : Stage where
  machines := [p.machine 0, q.machine 1]
  cast := ⟨[(p.name, 0), (q.name, 1)]⟩
  queues := [.empty, .empty]

theorem plays_opening (hnames : p.name ≠ q.name) :
    ∃ s, Plays (.opened {}) [p.build, q.build] s ∧ Undisturbed (.opening p q) s := by
  obtain ⟨s, hp, hs⟩ := @Plays.build (.opened {}) rfl p.name rfl p.element p.settings p.hooked p.declarations
  have hcast : s.cast = ⟨[(p.name, 0)]⟩ := hs.cast
  have hfree : s.cast.get? q.name = none := by simp [hcast, Registry.get?, hnames]
  obtain ⟨s', hq, hs'⟩ := Plays.build hs.hosted hfree q.element q.settings q.hooked q.declarations
  refine ⟨s', hp.append hq, hs'.page.trans hs.page, hs'.frames.trans hs.frames, hs'.hooks.trans hs.hooks,
    hs'.manners.trans hs.manners, hs'.hosted.trans hs.hosted, ?_, ?_, ?_, hs'.queueNames.trans hs.queueNames,
    hs'.tokens.trans hs.tokens⟩
  · rw [hs'.machines, Stage.built, addMachine, hs.machines, hs.queues]
    rfl
  · rw [hs'.cast, Stage.built, hs.machines, hcast]
    simp [Registry.put, Registry.erase, Stage.opening, hnames, Stage.built, addMachine, opened]
  · rw [hs'.queues, Stage.built, addMachine, hs.queues]
    rfl

theorem queue_opening {k : Nat} {c : Machine} (hc : (Stage.opening p q).machine? k = some c) : c.queue = k := by
  match k, hc with
  | 0, hc => exact Option.some.inj hc ▸ rfl
  | 1, hc => exact Option.some.inj hc ▸ rfl

theorem mirrors_opening {x : Performer} {n : Nat} (hmachine : (Stage.opening p q).machine? n = some (x.machine n))
    (hqueue : (Stage.opening p q).queue? n = some .empty)
    (hcast : ∀ e ∈ (Stage.opening p q).cast.entries, e.2 = n ↔ e.1 = x.name) :
    Mirrors (x.role n) [] (.opening p q) (.opening p q) := by
  have hsecluded : Secluded (x.role n) [] (.opening p q) :=
    ⟨rfl, rfl, rfl, rfl, fun k c hc hk => (queue_opening hc).symm.trans hk, hcast, List.forall_mem_nil _,
      List.forall_mem_nil _, List.forall_mem_nil _⟩
  refine ⟨hsecluded, hsecluded, ⟨⟨_, _, hmachine, hmachine, .mk .nil (x.fits n)⟩, ⟨.empty, hqueue, hqueue, rfl⟩,
    .nil, rfl, List.forall_mem_nil _, rfl, rfl, rfl⟩, .nil⟩

theorem in_step_opening (hnames : p.name ≠ q.name) {s : Stage} (hs : Undisturbed (.opening p q) s) :
    InStep (p.role 0) (q.role 1) s s := by
  have hscriptless : Scriptless ⟨.opening p q, []⟩ :=
    ⟨rfl, rfl, List.forall_mem_nil _, List.forall_mem_nil _, List.forall_mem_nil _, by simp [Stage.opening]; rfl,
      List.forall_mem_nil _⟩
  have hp : Mirrors (p.role 0) [] (.opening p q) (.opening p q) :=
    mirrors_opening rfl rfl (by simp [Stage.opening, hnames.symm])
  have hq : Mirrors (q.role 1) [] (.opening p q) (.opening p q) :=
    mirrors_opening rfl rfl (by simp [Stage.opening, hnames])
  have hfirst : Alike (p.role 0) [] ⟨s, []⟩ ⟨s, []⟩ := ⟨hp.undisturbed hs hs, .nil⟩
  have hsecond : Alike (q.role 1) [] ⟨s, []⟩ ⟨s, []⟩ := ⟨hq.undisturbed hs hs, .nil⟩
  have hframes : s.frames.waiting = [] := congrArg Frames.waiting hs.frames
  have htroupe : Troupe (p.role 0) (q.role 1) ⟨s, []⟩ :=
    ⟨hscriptless.undisturbed hs, by simp [hframes], List.forall_mem_nil _, ⟨[], hfirst⟩, ⟨[], hsecond⟩⟩
  exact ⟨htroupe, htroupe, ⟨[], hfirst⟩⟩

theorem InStep.symm {r r' : Role} {s : Stage} (h : InStep r r' s s) : InStep r' r s s :=
  ⟨h.left.symm, h.right.symm, h.left.second⟩

/-- However the two machines are built, each has a role of its own. -/
theorem exists_in_step (hnames : p.name ≠ q.name) (helements : p.element ≠ q.element) {builds : List Cue}
    (hbuilds : builds = [p.build, q.build] ∨ builds = [q.build, p.build]) : ∃ n k s,
      (p.role n).Apart (q.role k) ∧ Plays (.opened {}) builds s ∧ InStep (p.role n) (q.role k) s s := by
  rcases hbuilds with rfl | rfl
  · obtain ⟨s, hplays, hs⟩ := plays_opening hnames
    exact ⟨0, 1, s, ⟨hnames, Nat.zero_ne_one, Nat.zero_ne_one, helements⟩, hplays, in_step_opening hnames hs⟩
  · obtain ⟨s, hplays, hs⟩ := plays_opening hnames.symm
    exact ⟨1, 0, s, ⟨hnames, Nat.one_ne_zero, Nat.one_ne_zero, helements⟩, hplays, (in_step_opening hnames.symm hs).symm⟩

end

/-- **Elements are independent.**  Two machines on different elements share a page, the frames and a stylesheet, and
there are no hooks and no triggers.  Whatever is done with the machines and their elements, with frames in between:
without all that was meant for one of them, the other one and its element look the same in the end.  This is so after
each of the cues that remain, since what comes before one of them is a list of such cues itself. -/
theorem elements_are_independent {p q : Performer} (hnames : p.name ≠ q.name) (helements : p.element ≠ q.element)
    {builds : List Cue} (hbuilds : builds = [p.build, q.build] ∨ builds = [q.build, p.build]) (cues : List Cue)
    (hcues : ∀ c ∈ cues, c.concerns p.name p.element = true ∨ c.concerns q.name q.element = true ∨ c = .tick) :
    ∃ s s', Plays (.opened {}) (builds ++ cues) s ∧
      Plays (.opened {}) (builds ++ cues.filter fun c => !c.concerns q.name q.element) s' ∧
      s'.glance p.name p.element = s.glance p.name p.element := by
  obtain ⟨n, k, s, hapart, hplays, hstep⟩ := exists_in_step hnames helements hbuilds
  obtain ⟨t, t', ht, ht', hend⟩ := plays_in_step hapart cues hstep hcues
  obtain ⟨ids, halike⟩ := hend.alike
  exact ⟨t, t', hplays.append ht, hplays.append ht', glance_of_mirrors halike.stage⟩

/-- A lamp is switched on, and beside it a bell rings and is taken away. -/
theorem elements_are_independent_lamp :
    let lamp : Performer :=
      { name := "lamp", element := ⟨1⟩, untriggered := by simp [Declaration.state],
        declarations := [.ready ⟨"default", [{ on := .event "click", goto := some "on" }], none⟩, .ready ⟨"on", [], none⟩] }
    let bell : Performer :=
      { name := "bell", element := ⟨2⟩, untriggered := by simp [Declaration.state],
        declarations := [.ready ⟨"default", [{ on := .entry }, { on := .event "click" }], none⟩] }
    ∃ s s', Plays (.opened {}) [lamp.build, bell.build, .start "lamp" false, .start "bell" false, .dispatch ⟨2⟩ "click",
        .dispatch ⟨1⟩ "click", .tick, .drop "bell"] s ∧
      Plays (.opened {}) [lamp.build, bell.build, .start "lamp" false, .dispatch ⟨1⟩ "click", .tick] s' ∧
      s'.glance "lamp" ⟨1⟩ = s.glance "lamp" ⟨1⟩ ∧ (s.report? "lamp").map Report.current = some (some "on") := by
  intro lamp bell
  let cues : List Cue := [.start "lamp" false, .start "bell" false, .dispatch ⟨2⟩ "click", .dispatch ⟨1⟩ "click", .tick,
    .drop "bell"]
  have hlast : (Plays.last 60 (.opened {}) ([lamp.build, bell.build] ++ cues)).any
      (fun s => (s.report? "lamp").map Report.current = some (some "on")) = true := by
    decide +kernel
  obtain ⟨s, hs, hon⟩ := (Option.any_eq_true _ _).1 hlast
  obtain ⟨t, t', ht, ht', hglance⟩ := elements_are_independent (p := lamp) (q := bell) (by decide) (by decide) (.inl rfl)
    cues (by simp [cues, lamp, bell, Cue.concerns])
  obtain rfl := (Plays.of_last hs).unique ht
  exact ⟨s, t', ht, ht', hglance, by simpa using hon⟩

end Stagecraft
