import Mathlib.Data.List.Forall2
import Stagecraft.Proofs.Stage.Played
import Stagecraft.Proofs.Stage.Role
/-!
# The same role on two stages

On two stages a role is in the same condition if all that it finds there is the same, but for the ids of its listeners:
ids are given out to everybody from one row, so they depend on what the others do.  A task of the role does the same on
both stages, and leaves the role in the same condition, with tasks that are the same up to ids.
-/
namespace Stagecraft

/-! ## Ids that stand for each other -/

/-- Ids of one stage with ids of the other, in the order in which they were given out. -/
def Paired (ids : List (Nat × Nat)) : Prop := ids.Pairwise fun p p' => p.1 < p'.1 ∧ p.2 < p'.2

theorem Paired.eq_iff {ids : List (Nat × Nat)} (h : Paired ids) {p p' : Nat × Nat} (hp : p ∈ ids) (hp' : p' ∈ ids) :
    p.1 = p'.1 ↔ p.2 = p'.2 := by
  induction ids with
  | nil => cases hp
  | cons q ids ih =>
    obtain ⟨hq, hids⟩ := List.pairwise_cons.1 h
    rcases List.mem_cons.1 hp with hpq | hp
    · rcases List.mem_cons.1 hp' with hpq' | hp'
      · rw [hpq, hpq']
        exact ⟨fun _ => rfl, fun _ => rfl⟩
      · have := hq p' hp'
        rw [hpq]
        omega
    · rcases List.mem_cons.1 hp' with hpq' | hp'
      · have := hq p hp
        rw [hpq']
        omega
      · exact ih hids hp hp'

/-- What has been noted for a reaction on the two stages. -/
def SameBinding (ids : List (Nat × Nat)) (b b' : Binding) : Prop :=
  b'.index = b.index ∧ Option.Rel (fun i i' => (i, i') ∈ ids) b.listener b'.listener

/-- Two listeners for the same event that run the same reaction. -/
structure SameListener (r : Role) (ids : List (Nat × Nat)) (l l' : Listener ListenerCall) : Prop where
  id : (l.id, l'.id) ∈ ids
  event : l'.event = l.event
  call : l'.call = l.call
  ours : l.call.isOf r = true

/-- Two calls that a dispatch has gathered. -/
structure SameCall (r : Role) (ids : List (Nat × Nat)) (p p' : Nat × ListenerCall) : Prop where
  id : (p.1, p'.1) ∈ ids
  call : p'.2 = p.2
  ours : p.2.isOf r = true

/-- A machine with the queue and the element of the role, and without triggers. -/
structure Machine.Fits (r : Role) (c : Machine) : Prop where
  element : c.element = r.element
  queue : c.queue = r.queue
  pending : c.pending = []
  triggers : c.triggers = []

def JobQueue.isOf (r : Role) (c : JobQueue) : Bool :=
  c.waiting.all (·.isOf r) && (c.running.bind Running.finish).all (·.isOf r)

/-- The machine on two stages. -/
inductive Machine.Mirrors (r : Role) (ids : List (Nat × Nat)) : Machine → Machine → Prop
  | mk {c : Machine} {bs : List Binding} (bindings : List.Forall₂ (SameBinding ids) c.bindings bs) (fits : c.Fits r) :
      Mirrors r ids c { c with bindings := bs }

/-- The role finds the same on two stages. -/
structure Own.Mirrors (r : Role) (ids : List (Nat × Nat)) (a b : Own) : Prop where
  machine : ∃ c c', a.machine = some c ∧ b.machine = some c' ∧ c.Mirrors r ids c'
  queue : ∃ jq, a.queue = some jq ∧ b.queue = some jq ∧ jq.isOf r = true
  listeners : List.Forall₂ (SameListener r ids) a.listeners b.listeners
  waiting : b.waiting = a.waiting
  ours : ∀ w ∈ a.waiting, w.call.isOf r = true
  classes : b.classes = a.classes
  frames : b.frames = a.frames
  named : b.named = a.named

/-- Two tasks that are the same for the role. -/
inductive Task.Mirrors (r : Role) (ids : List (Nat × Nat)) : Task → Task → Prop
  | idle {t : Task} (h : t.isIdle = true) : Mirrors r ids t t
  | plain {t : Task} (h : t.isPlainFor r = true) : Mirrors r ids t t
  | detach {i i' : Nat} (h : (i, i') ∈ ids) : Mirrors r ids (.detach r.element i) (.detach r.element i')
  | bound {i i' : Nat} (index : Nat) (h : (i, i') ∈ ids) :
      Mirrors r ids (.bound r.machine index i) (.bound r.machine index i')
  | deliver {once : List OnceCall} {ls ls' : List (Nat × ListenerCall)} (ran : Nat)
      (honce : ∀ c ∈ once, c.isOf r = true) (hls : List.Forall₂ (SameCall r ids) ls ls') :
      Mirrors r ids (.deliver once ls ran) (.deliver once ls' ran)

/-- What an operation makes of the classes of its element. -/
def PageOp.on : PageOp → List String → List String
  | .addClass _ names, cs => (Text.wordsOf names).foldl (fun cs n => Page.insertClass n cs) cs
  | .removeClass _ names, cs => cs.filter fun c => !(Text.wordsOf names).contains c
  | .flush _, cs => cs

/-- What belongs to a role of what a task does. -/
def Task.mine (r : Role) : Task → List Task
  | .frame calls => (calls.filter fun c => c.isOf r).map .callFrame
  | t => if t.isMine r then [t] else []

/-- What belongs to the role is the same on two agendas. -/
def Shares (r : Role) (ids : List (Nat × Nat)) (ts ts' : List Task) : Prop :=
  List.Forall₂ (Task.Mirrors r ids) (ts.flatMap (Task.mine r)) (ts'.flatMap (Task.mine r))

/-- A stage on which no other machine has the queue or the name of the role, and no other listener an id that the role
knows; without hooks, without named queues, and with a host that makes no events. -/
structure Secluded (r : Role) (known : List Nat) (s : Stage) : Prop where
  quiet : s.manners.reflexes = []
  hooks : s.hooks.values = []
  hosted : s.hosted = true
  unnamed : s.queueNames.values = []
  alone : ∀ n c, s.machine? n = some c → c.queue = r.queue → n = r.machine
  cast : ∀ e ∈ s.cast.entries, e.2 = r.machine ↔ e.1 = r.name
  bounded : ∀ l ∈ s.page.listeners, l.id ≤ s.page.lastId
  given : ∀ i ∈ known, i ≤ s.page.lastId
  strangers : ∀ l ∈ s.page.listeners, l.id ∈ known → l.element = r.element

/-- The role is in the same condition on two stages. -/
structure Mirrors (r : Role) (ids : List (Nat × Nat)) (s s' : Stage) : Prop where
  left : Secluded r (ids.map Prod.fst) s
  right : Secluded r (ids.map Prod.snd) s'
  own : Own.Mirrors r ids (s.own r) (s'.own r)
  ids : Paired ids

open Stage

section
variable {s s' : Stage} {t t' : Task} {rest rest' : List Task} {r : Role} {ids ids' : List (Nat × Nat)} {known : List Nat}

/-! ## What stays as it is around a role -/

theorem secluded_carryOut (h : Secluded r known s) (hcue : t.kind ≠ .cue) : Secluded r known (t.carryOut s rest).1 := by
  have htouches : ∀ part ∈ [Part.hooks, .hosted, .queueNames, .makes, .cast], part ∉ t.touches := by
    intro part hpart
    cases t with
    | cue => exact absurd rfl hcue
    | release hold =>
      cases hold <;> simp only [Task.touches] <;> revert part <;> decide
    | _ => simp only [Task.touches]; revert part; decide
  have hagree := fun part hpart => (within_carryOut s rest t).touched.agree part (htouches part hpart)
  have hrelisted := relisted_carryOut s t rest
  -- new ids are greater than all that were given out, so what has a known one was there before
  have hold : ∀ l ∈ (t.carryOut s rest).1.page.listeners, l.id ∈ known → l ∈ s.page.listeners := fun l hl hid =>
    hrelisted.mem hl (h.given _ hid)
  refine ⟨?_, ?_, ?_, ?_, fun n c hc hqueue => ?_, ?_, ?_, ?_, fun l hl hid => h.strangers l (hold l hl hid) hid⟩
  · rw [(within_carryOut s rest t).touched.manners]
    exact h.quiet
  · rw [show _ = s.hooks from hagree .hooks (by decide)]
    exact h.hooks
  · rw [show _ = s.hosted from hagree .hosted (by decide)]
    exact h.hosted
  · rw [show _ = s.queueNames from hagree .queueNames (by decide)]
    exact h.unnamed
  · obtain ⟨c', hc', hmade⟩ := exists_machine?_of_made (hagree .makes (by decide)) hc
    exact h.alone n c' hc' ((congrArg Machine.queue hmade :).symm.trans hqueue)
  · rw [show _ = s.cast from hagree .cast (by decide)]
    exact h.cast
  · intro l hl
    cases hrelisted with
    | fewer hlisteners hid =>
      rw [hid]
      exact h.bounded l (hlisteners.subset hl)
    | more el event call hlisteners hid =>
      rw [hlisteners] at hl
      rw [hid]
      rcases List.mem_append.1 hl with hl | hl
      · exact Nat.le_succ_of_le (h.bounded l hl)
      · rw [List.mem_singleton.1 hl]
  · exact fun i hi => Nat.le_trans (h.given i hi) hrelisted.lastId

theorem Secluded.undisturbed (h : Secluded r known s) (hs : Undisturbed s s') : Secluded r known s' where
  quiet := hs.manners ▸ h.quiet
  hooks := hs.hooks ▸ h.hooks
  hosted := hs.hosted ▸ h.hosted
  unnamed := hs.queueNames ▸ h.unnamed
  alone n c hc := h.alone n c ((hs.machine? n).symm.trans hc)
  cast := hs.cast ▸ h.cast
  bounded := hs.page ▸ h.bounded
  given := hs.page ▸ h.given
  strangers := hs.page ▸ h.strangers

/-! ## Bindings

What a machine answers does not depend on the ids of its listeners. -/

theorem Machine.reaction?_bindings (c : Machine) (bs : List Binding) (slot : Slot) :
    Machine.reaction? { c with bindings := bs } slot = c.reaction? slot := rfl

theorem Machine.hasState_bindings (c : Machine) (bs : List Binding) (name : String) :
    Machine.hasState { c with bindings := bs } name = c.hasState name := rfl

theorem Machine.tracksVisibility_bindings (c : Machine) (bs : List Binding) :
    Machine.tracksVisibility { c with bindings := bs } = c.tracksVisibility := rfl

theorem Machine.step?_bindings (c : Machine) (bs : List Binding) (slot : Slot) :
    Machine.step? { c with bindings := bs } slot = c.step? slot := rfl

theorem bound_mirrors {bs bs' : List Binding} (h : List.Forall₂ (SameBinding ids) bs bs') :
    List.Forall₂ (fun i i' => (i, i') ∈ ids) (bs.filterMap Binding.listener) (bs'.filterMap Binding.listener) :=
  List.rel_filterMap (fun _ _ hb => hb.2) h

theorem any_of_forall₂ {α β : Type} {R : α → β → Prop} {as : List α} {bs : List β} (h : List.Forall₂ R as bs)
    {p : α → Bool} {q : β → Bool} (hpq : ∀ a b, R a b → q b = p a) : bs.any q = as.any p := by
  induction h with
  | nil => rfl
  | cons hab _ ih => rw [List.any_cons, List.any_cons, ih, hpq _ _ hab]

theorem forall_of_forall₂ {α β : Type} {R : α → β → Prop} {p : α → Prop} {as : List α} {bs : List β}
    (h : List.Forall₂ R as bs) (hp : ∀ a b, R a b → p a) : ∀ a ∈ as, p a :=
  ((List.forall₂_and_left as bs).1 (h.imp fun a b hab => ⟨hp a b hab, hab⟩)).1

theorem isAttached_mirrors {c : Machine} {bs : List Binding} (h : List.Forall₂ (SameBinding ids) c.bindings bs)
    (index : Nat) : { c with bindings := bs }.isAttached index = c.isAttached index := by
  refine any_of_forall₂ h fun b b' hb => ?_
  obtain ⟨index, listener⟩ := b
  obtain ⟨index', listener'⟩ := b'
  obtain ⟨rfl, hlistener⟩ := hb
  cases hlistener <;> rfl

theorem listenerOf?_mirrors {bs bs' : List Binding} (h : List.Forall₂ (SameBinding ids) bs bs') (index : Nat) :
    Option.Rel (fun i i' => (i, i') ∈ ids) ((bs.find? fun b => b.index = index).bind Binding.listener)
      ((bs'.find? fun b => b.index = index).bind Binding.listener) := by
  induction h with
  | nil => exact .none
  | @cons b b' bs bs' hb _ ih =>
    by_cases hindex : b.index = index
    · simpa [hindex, hb.1] using hb.2
    · simpa [hindex, hb.1] using ih

theorem setListener_mirrors {bs bs' : List Binding} (h : List.Forall₂ (SameBinding ids) bs bs') (index : Nat)
    {l l' : Option Nat} (hl : Option.Rel (fun i i' => (i, i') ∈ ids) l l') :
    List.Forall₂ (SameBinding ids) (Machine.setListener index l bs) (Machine.setListener index l' bs') := by
  induction h with
  | nil => exact .nil
  | @cons b b' bs bs' hb htail ih =>
    simp only [Machine.setListener, hb.1]
    split
    · exact .cons ⟨rfl, hl⟩ htail
    · exact .cons hb ih

theorem bind_mirrors {c c' : Machine} (h : c.Mirrors r ids c') (index : Nat) {i i' : Nat} (hi : (i, i') ∈ ids) :
    (c.bind index i).Mirrors r ids (c'.bind index i') := by
  cases h with
  | @mk bs hbs hfits =>
    have hany : bs.any (fun b => b.index = index) = c.bindings.any fun b => b.index = index :=
      any_of_forall₂ hbs fun b b' hb => by rw [hb.1]
    simp only [Machine.bind, hany]
    split
    · exact @Machine.Mirrors.mk r ids { c with bindings := _ } _ (setListener_mirrors hbs index (.some hi))
        ⟨hfits.element, hfits.queue, hfits.pending, hfits.triggers⟩
    · exact @Machine.Mirrors.mk r ids { c with bindings := _ } _
        (List.rel_append hbs (.cons ⟨rfl, .some hi⟩ .nil)) ⟨hfits.element, hfits.queue, hfits.pending, hfits.triggers⟩

/-! ## More ids -/

theorem SameBinding.mono (hids : ids ⊆ ids') {b b' : Binding} (h : SameBinding ids b b') : SameBinding ids' b b' := by
  obtain ⟨index, listener⟩ := b
  obtain ⟨index', listener'⟩ := b'
  refine ⟨h.1, ?_⟩
  cases h.2 with
  | some hi => exact .some (hids hi)
  | none => exact .none

theorem Machine.Mirrors.mono (hids : ids ⊆ ids') {c c' : Machine} (h : c.Mirrors r ids c') : c.Mirrors r ids' c' := by
  cases h with
  | mk hbs hfits => exact .mk (hbs.imp fun _ _ => SameBinding.mono hids) hfits

theorem Own.Mirrors.mono (hids : ids ⊆ ids') {a b : Own} (h : a.Mirrors r ids b) : a.Mirrors r ids' b :=
  { h with
    machine := by
      obtain ⟨c, c', hc, hc', hcc⟩ := h.machine
      exact ⟨c, c', hc, hc', hcc.mono hids⟩
    listeners := h.listeners.imp fun _ _ hl => { hl with id := hids hl.id } }

theorem Task.Mirrors.mono (hids : ids ⊆ ids') (h : Task.Mirrors r ids t t') : Task.Mirrors r ids' t t' := by
  cases h with
  | idle h => exact .idle h
  | plain h => exact .plain h
  | detach h => exact .detach (hids h)
  | bound index h => exact .bound index (hids h)
  | deliver ran honce hls => exact .deliver ran honce (hls.imp fun _ _ hl => { hl with id := hids hl.id })

/-! ## What a role finds once something has been done -/

variable {f f' : Machine → Machine}

theorem Own.Mirrors.mapMachine (h : (s.own r).Mirrors r ids (s'.own r))
    (hf : ∀ c c', s.machine? r.machine = some c → c.Mirrors r ids c' → (f c).Mirrors r ids (f' c')) :
    ((s.mapMachine r.machine f).own r).Mirrors r ids ((s'.mapMachine r.machine f').own r) :=
  { h with
    machine := by
      obtain ⟨c, c', hc, hc', hcc⟩ := h.machine
      refine ⟨f c, f' c', ?_, ?_, hf c c' hc hcc⟩
      · exact (machine?_mapMachine_self ..).trans (congrArg _ hc)
      · exact (machine?_mapMachine_self ..).trans (congrArg _ hc') }

theorem Own.Mirrors.mapQueue (h : (s.own r).Mirrors r ids (s'.own r)) {f f' : JobQueue → JobQueue}
    (hf : ∀ c, s.queue? r.queue = some c → c.isOf r = true → f' c = f c ∧ (f c).isOf r = true) :
    ((s.mapQueue r.queue f).own r).Mirrors r ids ((s'.mapQueue r.queue f').own r) :=
  { h with
    queue := by
      obtain ⟨c, hc, hc', hours⟩ := h.queue
      obtain ⟨heq, hours'⟩ := hf c hc hours
      refine ⟨f c, ?_, ?_, hours'⟩
      · exact (queue?_mapQueue_self ..).trans (congrArg _ hc)
      · exact ((queue?_mapQueue_self ..).trans (congrArg _ hc')).trans (congrArg some heq) }

theorem Own.Mirrors.schedule (h : (s.own r).Mirrors r ids (s'.own r)) {c : FrameCall} (hc : c.isOf r = true) :
    ((s.schedule c).own r).Mirrors r ids ((s'.schedule c).own r) :=
  { h with
    frames := by
      have hframes : s'.frames.waiting.filter (fun c => c.isOf r) = s.frames.waiting.filter fun c => c.isOf r := h.frames
      simp [own, Stage.schedule, Frames.schedule, hframes, hc] }

theorem Own.Mirrors.forget (h : (s.own r).Mirrors r ids (s'.own r)) (event : String) :
    ((s.mapPage (·.forget r.element event)).own r).Mirrors r ids ((s'.mapPage (·.forget r.element event)).own r) := by
  have hforget : ∀ s : Stage, ((s.mapPage (·.forget r.element event)).own r).waiting =
      (s.own r).waiting.filter fun w => !w.hears r.element event := fun s => by
    simp only [own, mapPage, Page.forget, List.filter_filter, Bool.and_comm]
  refine { h with waiting := ?_, ours := ?_ }
  · rw [hforget, hforget, h.waiting]
  · rw [hforget]
    exact fun w hw => h.ours w (List.mem_filter.1 hw).1

theorem Own.Mirrors.listenOnce (h : (s.own r).Mirrors r ids (s'.own r)) (event : String) {call : OnceCall}
    (hcall : call.isOf r = true) : ((s.mapPage (·.listenOnce r.element event call)).own r).Mirrors r ids
      ((s'.mapPage (·.listenOnce r.element event call)).own r) := by
  have hmore : ∀ s : Stage, ((s.mapPage (·.listenOnce r.element event call)).own r).waiting =
      (s.own r).waiting ++ [⟨r.element, event, call⟩] := fun s => by
    simp [own, mapPage, Page.listenOnce]
  refine { h with waiting := ?_, ours := ?_ }
  · rw [hmore, hmore, h.waiting]
  · rw [hmore]
    intro w hw
    rcases List.mem_append.1 hw with hw | hw
    · exact h.ours w hw
    · rw [List.mem_singleton.1 hw]
      exact hcall

theorem Own.Mirrors.perform (h : (s.own r).Mirrors r ids (s'.own r)) {op : PageOp} (hop : op.element = r.element) :
    ((s.mapPage (·.perform op)).own r).Mirrors r ids ((s'.mapPage (·.perform op)).own r) := by
  have hon : ∀ s : Stage, ((s.mapPage (·.perform op)).own r) = { s.own r with classes := op.on (s.own r).classes } := by
    intro s
    cases op with
    | flush el => rfl
    | addClass el names =>
      obtain rfl : el = r.element := hop
      exact congrArg ({ s.own r with classes := · }) (Page.classesOf_setClasses_self ..)
    | removeClass el names =>
      obtain rfl : el = r.element := hop
      exact congrArg ({ s.own r with classes := · }) (Page.classesOf_setClasses_self ..)
  rw [hon, hon]
  exact { h with classes := congrArg op.on h.classes }

theorem Own.Mirrors.removeListener (h : (s.own r).Mirrors r ids (s'.own r)) (hids : Paired ids) {i i' : Nat}
    (hi : (i, i') ∈ ids) : ((s.mapPage (·.removeListener r.element i)).own r).Mirrors r ids
      ((s'.mapPage (·.removeListener r.element i')).own r) := by
  have hremove : ∀ (s : Stage) (i : Nat), ((s.mapPage (·.removeListener r.element i)).own r).listeners =
      (s.own r).listeners.filter fun l => l.id ≠ i := fun s i => by
    simp only [own, mapPage, Page.listenersOn, Page.removeListener, List.filter_filter]
    refine List.filter_congr fun l _ => ?_
    by_cases hl : l.element = r.element <;> simp [hl]
  refine { h with listeners := ?_ }
  rw [hremove, hremove]
  -- ids are paired one to one, so both stages lose the same listener
  refine List.rel_filter (fun l l' hl => ?_) h.listeners
  simpa using not_congr (hids.eq_iff hl.id hi)

theorem Own.Mirrors.addListener (h : (s.own r).Mirrors r ids (s'.own r)) (event : String) {call : ListenerCall}
    (hcall : call.isOf r = true) (hi : (s.page.nextId, s'.page.nextId) ∈ ids) :
    ((s.mapPage (·.addListener r.element event call)).own r).Mirrors r ids
      ((s'.mapPage (·.addListener r.element event call)).own r) := by
  have hmore : ∀ s : Stage, ((s.mapPage (·.addListener r.element event call)).own r).listeners =
      (s.own r).listeners ++ [⟨s.page.nextId, r.element, event, call⟩] := fun s => by
    simp [own, mapPage, Page.addListener, Page.listenersOn]
  refine { h with listeners := ?_ }
  rw [hmore, hmore]
  exact List.rel_append h.listeners (.cons ⟨hi, rfl, rfl, hcall⟩ .nil)

end

end Stagecraft
