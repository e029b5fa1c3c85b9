import Stagecraft.Proofs.Stage.Firing
import Stagecraft.Proofs.Stage.Mirror
/-!
# In step

A task of a role does the same on two stages on which the role is in the same condition.  There is one lemma for each
kind of task, and `mirrored_carryOut` puts them together.
-/
namespace Stagecraft

open Stage

/-- What is found after a task and what the task leaves, on two stages. -/
structure SameOutcome (r : Role) (ids : List (Nat × Nat)) (o o' : Outcome) : Prop where
  own : Own.Mirrors r ids (o.1.own r) (o'.1.own r)
  tasks : List.Forall₂ (Task.Mirrors r ids) o.2 o'.2

section
variable {s s' s₁ s₁' : Stage} {r : Role} {ids : List (Nat × Nat)} {rest rest' ts : List Task}

theorem Own.Mirrors.undisturbed (h : (s.own r).Mirrors r ids (s'.own r)) (hs : Undisturbed s s₁)
    (hs' : Undisturbed s' s₁') : (s₁.own r).Mirrors r ids (s₁'.own r) := by
  rw [own_of_undisturbed hs, own_of_undisturbed hs']
  exact h

theorem same_tasks (h : ∀ t ∈ ts, t.isPlainFor r = true) : List.Forall₂ (Task.Mirrors r ids) ts ts :=
  List.forall₂_same.2 fun t ht => .plain (h t ht)

theorem detaches_mirror {is is' : List Nat} (h : List.Forall₂ (fun i i' => (i, i') ∈ ids) is is') :
    List.Forall₂ (Task.Mirrors r ids) (is.map (.detach r.element)) (is'.map (.detach r.element)) :=
  List.rel_map (fun _ _ hi => .detach hi) h

theorem Mirrors.machines (h : Mirrors r ids s s') : ∃ c bs, s.machine? r.machine = some c ∧
    s'.machine? r.machine = some { c with bindings := bs } ∧ List.Forall₂ (SameBinding ids) c.bindings bs ∧
      c.Fits r := by
  obtain ⟨c, c', hc, hc', hcc⟩ := h.own.machine
  cases hcc with
  | @mk bs hbs hfits => exact ⟨c, bs, hc, hc', hbs, hfits⟩

theorem Mirrors.isLive (h : Mirrors r ids s s') : s'.isLive r.machine = s.isLive r.machine := by
  obtain ⟨c, bs, hc, hc', -, -⟩ := h.machines
  rw [Stage.isLive, Stage.isLive, hc, hc']

/-! ## Entering a state -/

theorem same_transition (h : Mirrors r ids s s') (state : String) :
    SameOutcome r ids (s.transition r.machine state) (s'.transition r.machine state) := by
  obtain ⟨c, bs, hc, hc', hbs, hfits⟩ := h.machines
  simp only [transition, hc, hc', hfits.element]
  split
  · exact ⟨h.own, same_tasks (by simp [Task.isPlainFor])⟩
  · refine ⟨h.own.mapMachine fun c c' _ hcc => ?_, ?_⟩
    · cases hcc with
      | mk _ hfits => exact .mk .nil { hfits with }
    · exact List.rel_append (detaches_mirror (bound_mirrors hbs)) (same_tasks (by simp [Task.isPlainFor]))

theorem same_arrive (h : Mirrors r ids s s') (state : String) (again : Bool) :
    SameOutcome r ids (s.arrive r.machine state again) (s'.arrive r.machine state again) := by
  have hown : Own.Mirrors r ids
      ((s.mapMachine r.machine fun c => { c with current := if again then c.current else some state }).own r)
      ((s'.mapMachine r.machine fun c => { c with current := if again then c.current else some state }).own r) :=
    h.own.mapMachine fun c c' _ hcc => by
      cases hcc with
      | mk hbs hfits => exact .mk hbs { hfits with }
  obtain ⟨c, bs, hc, hc', -, -⟩ := h.machines
  simp only [arrive, machine?_mapMachine_self, hc, hc', Option.map_some, Machine.state?]
  split
  · exact ⟨hown, .nil⟩
  · exact ⟨hown, same_tasks (by simp [Task.isPlainFor])⟩

theorem same_bound (h : Mirrors r ids s s') (index : Nat) {i i' : Nat} (hi : (i, i') ∈ ids) :
    SameOutcome r ids (s.bound r.machine index i) (s'.bound r.machine index i') :=
  ⟨h.own.mapMachine fun _ _ _ hcc => bind_mirrors hcc index hi, .nil⟩

/-! ## Running a reaction -/

theorem same_fire (h : Mirrors r ids s s') (slot : Slot) (anew : Bool) :
    SameOutcome r ids (s.fire r.machine slot anew) (s'.fire r.machine slot anew) := by
  obtain ⟨c, bs, hc, hc', -, -⟩ := h.machines
  simp only [fire, hc, hc', Machine.reaction?, Machine.state?]
  split
  · exact ⟨h.own, .nil⟩
  · exact ⟨h.own, same_tasks (by simp [Task.isPlainFor])⟩

theorem hook_of_unhooked {known : List Nat} (h : Secluded r known s) (m : Nat) (name : Option String) (state : String) :
    Undisturbed s (s.hook m name state).1 ∧ (s.hook m name state).2 = [] := by
  have hnone : ∀ name, s.hooks.get? name = none := fun name => by
    cases hget : s.hooks.get? name with
    | none => rfl
    | some script =>
      have hmem := Registry.mem_values_of_get? hget
      rw [h.hooks] at hmem
      cases hmem
  simp only [hook, hnone, ite_self]
  split
  · exact ⟨undisturbed_record .., rfl⟩
  · exact ⟨.refl s, rfl⟩

theorem same_hook (h : Mirrors r ids s s') (name : Option String) (state : String) :
    SameOutcome r ids (s.hook r.machine name state) (s'.hook r.machine name state) := by
  obtain ⟨hs, htasks⟩ := hook_of_unhooked h.left r.machine name state
  obtain ⟨hs', htasks'⟩ := hook_of_unhooked h.right r.machine name state
  refine ⟨h.own.undisturbed hs hs', ?_⟩
  rw [htasks, htasks']
  exact .nil

theorem isOf_plan? {settings : Settings} {el : ElementId} {e : Effect} {p : EffectPlan}
    (h : plan? settings el e = some p) (hel : el = r.element) : p.isOf r = true := by
  subst hel
  unfold plan? at h
  split at h
  · obtain rfl := Option.some.inj h
    simp [EffectPlan.isOf, enterPlan, PageOp.element]
  · obtain rfl := Option.some.inj h
    simp [EffectPlan.isOf, transformPlan, PageOp.element]
  · obtain ⟨name, -, rfl⟩ := Option.map_eq_some_iff.1 h
    simp [EffectPlan.isOf, animatePlan, PageOp.element]

/-- What the machine of a role sends to its queue is the role's own. -/
theorem isOf_of_mem_sent {c : Machine} (hc : s.machine? r.machine = some c) (hfits : c.Fits r) {slot : Slot} {q : Nat}
    {job : Job} (h : .enqueue q job ∈ (s.act r.machine slot).2) : q = r.queue ∧ job.isOf r = true := by
  obtain ⟨c', hc', hq, hsends⟩ := sends_act h
  obtain rfl : c = c' := Option.some.inj (hc.symm.trans hc')
  obtain ⟨e, p, hp, -, hbody⟩ := hsends.effect
  have hfinish : job.finish.all (·.isOf r) = true := by
    cases hf : job.finish with
    | none => rfl
    | some f => rcases finish_of_mem_sent h f hf with rfl | ⟨k, rfl⟩ <;> simp [Finish.isOf]
  refine ⟨hq.trans hfits.queue, ?_⟩
  rw [Job.isOf, hbody, hfinish, Bool.and_true]
  exact isOf_plan? hp hfits.element

theorem undisturbed_runAll (s : Stage) (c : Machine) (m : Nat) (slot : Slot) (reaction : Reaction) :
    Undisturbed s (s.runAll c m slot reaction).1 := by
  have hjobs := undisturbed_jobs c reaction.actions s
  unfold runAll
  split
  · rename_i heq
    rw [heq] at hjobs
    exact hjobs.trans (undisturbed_record ..)
  · rename_i heq
    rw [heq] at hjobs
    exact hjobs

theorem setStep_mirrors {c c' : Machine} (h : c.Mirrors r ids c') (slot : Slot) (step : Option Nat) :
    (c.setStep slot step).Mirrors r ids (c'.setStep slot step) := by
  cases h with
  | mk hbs hfits => exact .mk hbs { hfits with }

theorem same_runAll (h : Mirrors r ids s s') {c : Machine} {bs : List Binding} {slot : Slot} {reaction : Reaction}
    (hc : s.machine? r.machine = some c) (hc' : s'.machine? r.machine = some { c with bindings := bs })
    (hfits : c.Fits r) (hr : c.reaction? slot = some reaction) (hact : reaction.hasAction = true)
    (hseveral : reaction.encoding = .several) :
    SameOutcome r ids (s.act r.machine slot) (s'.act r.machine slot) := by
  have hplain : ∀ t ∈ (s.act r.machine slot).2, t.isPlainFor r = true := by
    intro t ht
    have hsent := ht
    rw [act_several hc hr hseveral hact] at ht
    split at ht
    · rw [List.mem_singleton.1 ht]
      simp [Task.isPlainFor]
    · obtain ⟨job, -, rfl⟩ := List.mem_map.1 ht
      simpa [Task.isPlainFor] using isOf_of_mem_sent hc hfits hsent
  have htasks : (s'.act r.machine slot).2 = (s.act r.machine slot).2 :=
    (act_several hc' hr hseveral hact).trans (act_several hc hr hseveral hact).symm
  have hown : ∀ (s : Stage) (c : Machine), s.machine? r.machine = some c → c.reaction? slot = some reaction →
      (s.act r.machine slot).1 = (s.runAll c r.machine slot reaction).1 := fun s c hc hr => by
    simp only [act, hc, hr, hact, hseveral, Bool.not_true, Bool.false_eq_true, if_false]
  refine ⟨?_, ?_⟩
  · rw [hown s c hc hr, hown s' _ hc' hr]
    exact h.own.undisturbed (undisturbed_runAll ..) (undisturbed_runAll ..)
  · rw [htasks]
    exact same_tasks hplain

theorem same_runNext (h : Mirrors r ids s s') {c : Machine} {bs : List Binding} {slot : Slot} {reaction : Reaction}
    {kind : EffectKind} (hc : s.machine? r.machine = some c)
    (hc' : s'.machine? r.machine = some { c with bindings := bs }) (hfits : c.Fits r)
    (hr : c.reaction? slot = some reaction) (hact : reaction.hasAction = true)
    (hsequence : reaction.encoding = .sequence kind) :
    SameOutcome r ids (s.act r.machine slot) (s'.act r.machine slot) := by
  have hsent : ∀ q job, .enqueue q job ∈ (s.act r.machine slot).2 → q = r.queue ∧ job.isOf r = true :=
    fun _ _ => isOf_of_mem_sent hc hfits
  simp only [act, hc, hc', Machine.reaction?_bindings, hr, hact, hsequence, Bool.not_true, Bool.false_eq_true, if_false, runNext,
    Machine.step?_bindings] at hsent ⊢
  cases hnext : reaction.steps[((c.step? slot).map (· + 1)).getD 0]? with
  | none => exact ⟨h.own, .nil⟩
  | some step =>
    simp only [hnext] at hsent ⊢
    have hprepared := h.own.undisturbed (undisturbed_prepare s c.settings (.step kind step))
      (undisturbed_prepare s' c.settings (.step kind step))
    cases hjob : job? c.settings c.element (.step kind step) with
    | none => exact ⟨hprepared.mapMachine fun _ _ _ hcc => setStep_mirrors hcc slot _, .nil⟩
    | some job =>
      simp only [hjob] at hsent ⊢
      refine ⟨hprepared.mapMachine fun _ _ _ hcc => setStep_mirrors hcc slot _, same_tasks fun t ht => ?_⟩
      rw [List.mem_singleton.1 ht]
      simpa [Task.isPlainFor] using hsent _ _ List.mem_cons_self

theorem same_act (h : Mirrors r ids s s') (slot : Slot) :
    SameOutcome r ids (s.act r.machine slot) (s'.act r.machine slot) := by
  obtain ⟨c, bs, hc, hc', -, hfits⟩ := h.machines
  cases hr : c.reaction? slot with
  | none =>
    simp only [act, hc, hc', Machine.reaction?_bindings, hr]
    exact ⟨h.own, .nil⟩
  | some reaction =>
    by_cases hact : reaction.hasAction = true
    · cases henc : reaction.encoding with
      | several => exact same_runAll h hc hc' hfits hr hact henc
      | sequence kind => exact same_runNext h hc hc' hfits hr hact henc
    · simp only [act, hc, hc', Machine.reaction?_bindings, hr, hact, Bool.not_false, if_true]
      exact ⟨h.own, same_tasks (by simp [Task.isPlainFor])⟩

/-! ## After a reaction -/

theorem Mirrors.reaction? (h : Mirrors r ids s s') (slot : Slot) :
    (s'.machine? r.machine).bind (·.reaction? slot) = (s.machine? r.machine).bind (·.reaction? slot) := by
  obtain ⟨c, bs, hc, hc', -, -⟩ := h.machines
  rw [hc, hc']
  rfl

theorem same_conclude (h : Mirrors r ids s s') (slot : Slot) :
    SameOutcome r ids (s.conclude r.machine slot) (s'.conclude r.machine slot) := by
  simp only [conclude, h.reaction?]
  refine ⟨h.own, same_tasks ?_⟩
  split <;> simp [Task.isPlainFor]

theorem same_stepOver (h : Mirrors r ids s s') (slot : Slot) (step : Nat) :
    SameOutcome r ids (s.stepOver r.machine slot step) (s'.stepOver r.machine slot step) := by
  simp only [stepOver, h.reaction?]
  split
  · exact ⟨h.own, .nil⟩
  · split
    · exact ⟨h.own.schedule (by simp [FrameCall.isOf]), .nil⟩
    · exact ⟨h.own.mapMachine fun _ _ _ hcc => setStep_mirrors hcc slot _, same_tasks (by simp [Task.isPlainFor])⟩

theorem same_jump (h : Mirrors r ids s s') (slot : Slot) :
    SameOutcome r ids (s.jump r.machine slot) (s'.jump r.machine slot) := by
  obtain ⟨c, bs, hc, hc', hbs, hfits⟩ := h.machines
  cases hr : c.reaction? slot with
  | none =>
    simp only [jump, hc, hc', Machine.reaction?_bindings, hr]
    exact ⟨h.own, .nil⟩
  | some reaction =>
    cases hgoto : reaction.goto with
    | none =>
      simp only [jump, hc, hc', Machine.reaction?_bindings, hr, hgoto]
      exact ⟨h.own, .nil⟩
    | some target =>
      have hplain : List.Forall₂ (Task.Mirrors r ids) [.transition r.machine target] [.transition r.machine target] :=
        same_tasks (by simp [Task.isPlainFor])
      by_cases hhome : (!reaction.on.isEntry && c.current = some slot.state) = true
      · have hlistener : Option.Rel (fun i i' => (i, i') ∈ ids) (c.listenerOf? slot.index)
            (Machine.listenerOf? { c with bindings := bs } slot.index) := listenerOf?_mirrors hbs slot.index
        simp only [jump, hc, hc', Machine.reaction?_bindings, hr, hgoto, hhome, if_true]
        generalize c.listenerOf? slot.index = l at hlistener
        generalize Machine.listenerOf? { c with bindings := bs } slot.index = l' at hlistener
        cases hlistener with
        | none => exact ⟨h.own, hplain⟩
        | some hi =>
          simp only [hfits.element]
          refine ⟨h.own.mapMachine fun c c' _ hcc => ?_, .cons (.detach hi) hplain⟩
          cases hcc with
          | mk hbs hfits => exact .mk (setListener_mirrors hbs slot.index .none) { hfits with }
      · simp only [jump, hc, hc', Machine.reaction?_bindings, hr, hgoto, hhome]
        exact ⟨h.own, hplain⟩

/-! ## Coming and going -/

theorem same_start (h : Mirrors r ids s s') (visible : Bool) :
    SameOutcome r ids (s.start r.machine visible) (s'.start r.machine visible) := by
  obtain ⟨c, bs, hc, hc', -, hfits⟩ := h.machines
  simp only [start, hc, hc', hfits.pending]
  refine ⟨h.own.mapMachine fun c c' _ hcc => ?_, same_tasks (by simp [Task.isPlainFor])⟩
  cases hcc with
  | mk hbs hfits => exact .mk hbs { hfits with pending := rfl }

theorem Own.Mirrors.see (h : (s.own r).Mirrors r ids (s'.own r)) (visible : Bool) :
    ((s.mapMachine r.machine fun c => { c with visible := some visible }).own r).Mirrors r ids
      ((s'.mapMachine r.machine fun c => { c with visible := some visible }).own r) :=
  h.mapMachine fun c c' _ hcc => by
    cases hcc with
    | mk hbs hfits => exact .mk hbs { hfits with }

theorem same_appear (h : Mirrors r ids s s') (visible : Bool) :
    SameOutcome r ids (s.appear r.machine visible) (s'.appear r.machine visible) := by
  obtain ⟨c, bs, hc, hc', -, -⟩ := h.machines
  simp only [appear, hc, hc', Machine.tracksVisibility_bindings, Machine.hasState_bindings]
  by_cases htracked : c.tracksVisibility = true
  · simp only [htracked, if_true]
    refine ⟨h.own.see visible, same_tasks ?_⟩
    by_cases henter : (visible && !c.hasState "default") = true <;> simp [henter, Task.isPlainFor]
  · simp only [htracked]
    exact ⟨h.own, same_tasks (by simp [Task.isPlainFor])⟩

theorem same_enterDefault (h : Mirrors r ids s s') :
    SameOutcome r ids (s.enterDefault r.machine) (s'.enterDefault r.machine) := by
  obtain ⟨c, bs, hc, hc', -, -⟩ := h.machines
  simp only [enterDefault, hc, hc', Machine.hasState_bindings]
  refine ⟨h.own, same_tasks ?_⟩
  by_cases hdefault : c.hasState "default" = true <;> simp [hdefault, Task.isPlainFor]

theorem same_visibility (h : Mirrors r ids s s') (visible : Bool) :
    SameOutcome r ids (s.visibility r.machine visible) (s'.visibility r.machine visible) := by
  obtain ⟨c, bs, hc, hc', -, -⟩ := h.machines
  simp only [Stage.visibility, hc, hc', Machine.tracksVisibility_bindings]
  by_cases hnews : (c.tracksVisibility && c.visible ≠ some visible) = true
  · simp only [hnews, if_true]
    exact ⟨h.own.see visible, same_tasks (by simp [Task.isPlainFor])⟩
  · simp only [hnews]
    exact ⟨h.own, .nil⟩

/-! ## Letting go -/

theorem holds_append (hold : Hold) (ts ts' : List Task) :
    Task.holds hold (ts ++ ts') = (Task.holds hold ts || Task.holds hold ts') := by
  simp [Task.holds]

/-- What holds the machine or the queue of a role is the role's own. -/
theorem holds_mine {hold : Hold} (hhold : (Task.release hold).isMine r = true) :
    ∀ ts : List Task, Task.holds hold (ts.flatMap (Task.mine r)) = Task.holds hold ts
  | [] => rfl
  | t :: ts => by
    have hhead : Task.holds hold (t.mine r) = Task.holds hold [t] := by
      cases t with
      | frame calls => simp [Task.mine, Task.holds]
      | release hold' =>
        by_cases hmine : (Task.release hold').isMine r = true
        · simp only [Task.mine, hmine, if_true]
        · have hne : hold' ≠ hold := fun heq => hmine (heq ▸ hhold)
          simp [Task.mine, hmine, Task.holds, hne]
      | _ =>
        simp only [Task.mine]
        split <;> simp [Task.holds]
    rw [List.flatMap_cons, holds_append, hhead, holds_mine hhold ts, ← holds_append, List.singleton_append]

theorem holds_of_shares {hold : Hold} (hhold : (Task.release hold).isMine r = true) (h : Shares r ids rest rest') :
    Task.holds hold rest' = Task.holds hold rest := by
  rw [← holds_mine hhold rest, ← holds_mine hhold rest']
  unfold Shares at h
  generalize rest.flatMap (Task.mine r) = ts at h
  generalize rest'.flatMap (Task.mine r) = ts' at h
  induction h with
  | nil => rfl
  | @cons t t' ts ts' ht _ ih =>
    have hhead : Task.holds hold [t'] = Task.holds hold [t] := by cases ht <;> rfl
    rw [← List.singleton_append, holds_append, hhead, ih, ← holds_append, List.singleton_append]

theorem Secluded.contains_cast {known : List Nat} (h : Secluded r known s) :
    s.cast.values.contains r.machine = (s.cast.get? r.name).isSome := by
  rw [Bool.eq_iff_iff, List.contains_iff_mem, Option.isSome_iff_exists]
  constructor
  · intro hmem
    obtain ⟨e, he, heq⟩ := List.mem_map.1 hmem
    cases hget : s.cast.get? r.name with
    | some m => exact ⟨m, rfl⟩
    | none =>
      rw [Registry.get?, Option.map_eq_none_iff, List.find?_eq_none] at hget
      exact absurd (decide_eq_true ((h.cast e he).1 heq)) (hget e he)
  · rintro ⟨m, hm⟩
    obtain ⟨e, he, rfl⟩ := Option.map_eq_some_iff.1 hm
    have hname : e.1 = r.name := by simpa using List.find?_some he
    have hmem := List.mem_of_find?_eq_some he
    rw [← (h.cast e hmem).2 hname]
    exact List.mem_map_of_mem hmem

theorem holdsMachine_mirrors (h : Mirrors r ids s s') (hrest : Shares r ids rest rest') :
    s'.holdsMachine rest' r.machine = s.holdsMachine rest r.machine := by
  have hnamed : s'.cast.get? r.name = s.cast.get? r.name := h.own.named
  rw [holdsMachine, holdsMachine, h.left.contains_cast, h.right.contains_cast, hnamed,
    holds_of_shares (by simp [Task.isMine, Task.isPlainFor]) hrest]

theorem Secluded.holdsQueue {known : List Nat} (h : Secluded r known s) {c : Machine}
    (hc : s.machine? r.machine = some c) (hfits : c.Fits r) :
    s.holdsQueue rest r.queue = (c.life != .closed || Task.holds (.queue r.queue) rest) := by
  have hmachines : s.machines.any (fun c => c.queue = r.queue && c.life != .closed) = (c.life != .closed) := by
    rw [Bool.eq_iff_iff, List.any_eq_true]
    constructor
    · rintro ⟨c', hmem, hboth⟩
      obtain ⟨n, hn⟩ := List.mem_iff_getElem?.1 hmem
      obtain ⟨hqueue, hlife⟩ := Bool.and_eq_true_iff.1 hboth
      rw [h.alone n c' hn (of_decide_eq_true hqueue)] at hn
      obtain rfl : c' = c := Option.some.inj (hn.symm.trans hc)
      exact hlife
    · intro hlife
      exact ⟨c, List.mem_of_getElem? hc, by simp [hfits.queue, hlife]⟩
  simp [Stage.holdsQueue, h.unnamed, hmachines]

theorem same_releaseMachine (h : Mirrors r ids s s') (hrest : Shares r ids rest rest') :
    SameOutcome r ids (s.release rest (.machine r.machine)) (s'.release rest' (.machine r.machine)) := by
  obtain ⟨c, bs, hc, hc', hbs, hfits⟩ := h.machines
  simp only [release, hc, hc', holdsMachine_mirrors h hrest, hfits.element, hfits.triggers]
  split
  · refine ⟨h.own.mapMachine fun c c' _ hcc => ?_, ?_⟩
    · cases hcc with
      | mk _ hfits => exact .mk .nil { hfits with triggers := rfl }
    · exact List.rel_append (List.rel_append (detaches_mirror (bound_mirrors hbs)) .nil)
        (same_tasks (by simp [Task.isPlainFor]))
  · exact ⟨h.own, .nil⟩

theorem isOf_close (c : JobQueue) (h : c.isOf r = true) : c.close.isOf r = true := by
  simp_all [JobQueue.isOf, JobQueue.close]

theorem same_releaseQueue (h : Mirrors r ids s s') (hrest : Shares r ids rest rest') :
    SameOutcome r ids (s.release rest (.queue r.queue)) (s'.release rest' (.queue r.queue)) := by
  obtain ⟨c, bs, hc, hc', hbs, hfits⟩ := h.machines
  have hmine : (Task.release (.queue r.queue)).isMine r = true := by simp [Task.isMine, Task.isPlainFor]
  have hholds := holds_of_shares hmine hrest
  simp only [release, h.left.holdsQueue hc hfits, h.right.holdsQueue hc' { hfits with }, hholds]
  split
  · exact ⟨h.own, .nil⟩
  · exact ⟨h.own.mapQueue fun c _ hc => ⟨rfl, isOf_close c hc⟩, .nil⟩

theorem same_closed (h : Mirrors r ids s s') :
    SameOutcome r ids (s.closed r.machine) (s'.closed r.machine) := by
  obtain ⟨c, bs, hc, hc', -, hfits⟩ := h.machines
  simp only [closed, hc, hc', hfits.queue]
  refine ⟨h.own.mapMachine fun c c' _ hcc => ?_, same_tasks (by simp [Task.isPlainFor])⟩
  cases hcc with
  | mk hbs hfits => exact .mk hbs { hfits with }

/-! ## Events and frames -/

theorem awaiting_eq (s : Stage) (r : Role) (event : String) :
    s.page.awaiting r.element event = (s.own r).waiting.filter fun w => w.event = event := by
  rw [Page.awaiting, own, List.filter_filter]
  refine List.filter_congr fun w _ => ?_
  by_cases hw : w.element = r.element <;> simp [Waiting.hears, hw]

theorem listening_eq (s : Stage) (r : Role) (event : String) :
    s.page.listening r.element event = (s.own r).listeners.filter fun l => l.event = event := by
  rw [Page.listening, own, Page.listenersOn, List.filter_filter]
  refine List.filter_congr fun l _ => ?_
  by_cases hl : l.element = r.element <;> simp [Listener.hears, hl]

theorem listening_mirrors (h : Mirrors r ids s s') (event : String) :
    List.Forall₂ (SameListener r ids) (s.page.listening r.element event) (s'.page.listening r.element event) := by
  rw [listening_eq, listening_eq]
  exact List.rel_filter (fun l l' hl => by simp [hl.event]) h.own.listeners

theorem same_dispatch (h : Mirrors r ids s s') (event : String) :
    SameOutcome r ids (s.dispatch r.element event) (s'.dispatch r.element event) := by
  refine ⟨h.own.forget event, .cons ?_ .nil⟩
  rw [awaiting_eq, awaiting_eq, h.own.waiting]
  refine .deliver 0 (fun c hc => ?_) (List.rel_map (fun l l' hl => ⟨hl.id, hl.call, hl.ours⟩) (listening_mirrors h event))
  obtain ⟨w, hw, rfl⟩ := List.mem_map.1 hc
  exact h.own.ours w (List.mem_filter.1 hw).1

theorem isRegistered_mirrors (h : Mirrors r ids s s') {i i' : Nat} (hi : (i, i') ∈ ids) :
    s'.page.isRegistered i' = s.page.isRegistered i := by
  have hown : ∀ {known : List Nat} {s : Stage} {i : Nat}, Secluded r known s → i ∈ known →
      s.page.isRegistered i = (s.own r).listeners.any fun l => l.id = i := fun {known s i} hs hi => by
    rw [Page.isRegistered, own, Page.listenersOn, List.any_filter, Bool.eq_iff_iff, List.any_eq_true, List.any_eq_true]
    refine exists_congr fun l => and_congr_right fun hl => ?_
    by_cases hid : l.id = i
    · simp [hid, hs.strangers l hl (hid ▸ hi)]
    · simp [hid]
  -- no stranger has an id that the role knows, so the listeners of its element decide
  rw [hown h.left (List.mem_map_of_mem hi), hown h.right (List.mem_map_of_mem hi)]
  refine any_of_forall₂ h.own.listeners fun l l' hl => ?_
  simpa using (h.ids.eq_iff hl.id hi).symm

theorem same_deliver (h : Mirrors r ids s s') {once : List OnceCall} {ls ls' : List (Nat × ListenerCall)} (ran : Nat)
    (honce : ∀ c ∈ once, c.isOf r = true) (hls : List.Forall₂ (SameCall r ids) ls ls') :
    SameOutcome r ids (s.deliver once ls ran) (s'.deliver once ls' ran) := by
  cases once with
  | cons c cs =>
    obtain ⟨hc, hcs⟩ := List.forall_mem_cons.1 honce
    exact ⟨h.own, .cons (.plain hc) (.cons (.deliver _ hcs hls) .nil)⟩
  | nil =>
    cases hls with
    | nil => exact ⟨h.own, .nil⟩
    | @cons p p' ls ls' hp hls =>
      obtain ⟨i, c⟩ := p
      obtain ⟨i', c'⟩ := p'
      obtain ⟨hi, rfl, hc⟩ := hp
      simp only [deliver, isRegistered_mirrors h hi]
      split
      · exact ⟨h.own, .cons (.plain hc) (.cons (.deliver _ honce hls) .nil)⟩
      · exact ⟨h.own, .cons (.deliver _ honce hls) .nil⟩

theorem same_onMachine (h : Mirrors r ids s s') {ts : List Task} (hts : ∀ t ∈ ts, t.isPlainFor r = true) :
    SameOutcome r ids (s.onMachine r.machine ts) (s'.onMachine r.machine ts) := by
  simp only [onMachine, h.isLive]
  refine ⟨h.own, same_tasks ?_⟩
  split
  · simpa [or_imp, forall_and, Task.isPlainFor] using hts
  · exact List.forall_mem_nil _

theorem same_callListener (h : Mirrors r ids s s') {c : ListenerCall} (hc : c.isOf r = true) :
    SameOutcome r ids (s.callListener c) (s'.callListener c) := by
  cases c with
  | react m slot =>
    obtain rfl : m = r.machine := of_decide_eq_true hc
    exact same_onMachine h (by simp [Task.isPlainFor])
  | _ => cases hc

theorem same_callFrame (h : Mirrors r ids s s') {c : FrameCall} (hc : c.isOf r = true) :
    SameOutcome r ids (s.callFrame c) (s'.callFrame c) := by
  cases c with
  | outside => cases hc
  | react m slot =>
    obtain rfl : m = r.machine := of_decide_eq_true hc
    exact same_onMachine h (by simp [Task.isPlainFor])
  | resume m slot =>
    obtain rfl : m = r.machine := of_decide_eq_true hc
    exact same_onMachine h (by simp [Task.isPlainFor])

theorem same_callOnce (h : Mirrors r ids s s') {c : OnceCall} (hc : c.isOf r = true) :
    SameOutcome r ids (s.callOnce rest c) (s'.callOnce rest' c) := by
  cases c with
  | outside => cases hc
  | effectEnd el classes token =>
    obtain ⟨hel, hqueue⟩ := Bool.and_eq_true_iff.1 hc
    simp only [callOnce, hasHost, h.left.hosted, h.right.hosted, Bool.true_or, if_true]
    refine ⟨h.own, List.rel_append (same_tasks fun t ht => ?_) (.cons (.idle rfl) (.cons (.plain hqueue) .nil))⟩
    obtain ⟨name, -, rfl⟩ := List.mem_map.1 ht
    exact hel

/-! ## The host -/

theorem same_perform (h : Mirrors r ids s s') {op : PageOp} (hop : op.element = r.element) :
    SameOutcome r ids (Stage.perform s op) (Stage.perform s' op) := by
  cases op with
  | addClass el names =>
    simp only [perform, reflexes_eq_nil h.left.quiet, reflexes_eq_nil h.right.quiet]
    exact ⟨h.own.perform hop, .nil⟩
  | removeClass el names =>
    simp only [perform, reflexes_eq_nil h.left.quiet, reflexes_eq_nil h.right.quiet]
    exact ⟨h.own.perform hop, .nil⟩
  | flush el =>
    have hflush : ∀ {known : List Nat} {s : Stage}, Secluded r known s →
        Undisturbed s (Stage.perform s (.flush el)).1 ∧ (Stage.perform s (.flush el)).2 = [] := fun {_ s} hs => by
      simp only [perform, reflexes_eq_nil hs.quiet]
      split
      · exact ⟨.refl s, rfl⟩
      · exact ⟨undisturbed_record .., rfl⟩
    obtain ⟨hs, htasks⟩ := hflush h.left
    obtain ⟨hs', htasks'⟩ := hflush h.right
    exact ⟨h.own.undisturbed hs hs', by rw [htasks, htasks']; exact .nil⟩

theorem same_await (h : Mirrors r ids s s') (event : String) {call : OnceCall} (hcall : call.isOf r = true) :
    SameOutcome r ids (s.await r.element event call) (s'.await r.element event call) := by
  simp only [await, reflexes_eq_nil h.left.quiet, reflexes_eq_nil h.right.quiet]
  exact ⟨h.own.listenOnce event hcall, .nil⟩

theorem same_detach (h : Mirrors r ids s s') {i i' : Nat} (hi : (i, i') ∈ ids) :
    SameOutcome r ids (s.detach r.element i) (s'.detach r.element i') := by
  simp only [detach, reflexes_eq_nil h.left.quiet, reflexes_eq_nil h.right.quiet]
  exact ⟨h.own.removeListener h.ids hi, .nil⟩

/-! ## The work of the queue -/

theorem Mirrors.queue? (h : Mirrors r ids s s') : ∃ jq, s.queue? r.queue = some jq ∧ s'.queue? r.queue = some jq ∧
    jq.isOf r = true := h.own.queue

theorem same_enqueue (h : Mirrors r ids s s') {job : Job} (hjob : job.isOf r = true) :
    SameOutcome r ids (s.enqueue r.queue job) (s'.enqueue r.queue job) := by
  have hown : Own.Mirrors r ids ((s.notify (.jobEnqueued job.label)).own r)
      ((s'.notify (.jobEnqueued job.label)).own r) := h.own
  refine ⟨hown.mapQueue fun c _ hc => ⟨rfl, ?_⟩, .cons (.plain (by simp [Task.isPlainFor])) .nil⟩
  simp_all [JobQueue.isOf, JobQueue.add]

theorem same_pump (h : Mirrors r ids s s') : SameOutcome r ids (s.pump r.queue) (s'.pump r.queue) := by
  obtain ⟨jq, hq, hq', hours⟩ := h.queue?
  simp only [pump, hq, hq', Option.bind_some]
  cases hstart : jq.start? with
  | none => exact ⟨h.own, .nil⟩
  | some p =>
    obtain ⟨job, jq'⟩ := p
    obtain ⟨-, waiting, hwaiting, rfl⟩ := start?_eq_some hstart
    simp only [JobQueue.isOf, hwaiting, List.all_cons, Bool.and_eq_true, Job.isOf] at hours
    obtain ⟨⟨⟨hbody, hfinish⟩, hwaiting⟩, -⟩ := hours
    refine ⟨h.own.mapQueue fun _ _ _ => ⟨rfl, ?_⟩, .cons (.plain ?_) .nil⟩
    · exact Bool.and_eq_true_iff.2 ⟨hwaiting, hfinish⟩
    · simp [Task.isPlainFor, hbody]

theorem same_run (h : Mirrors r ids s s') {body : JobBody} {token : Completion} (htoken : token.queue = r.queue)
    (hbody : body.isOf r = true) : SameOutcome r ids (s.run body token) (s'.run body token) := by
  cases body with
  | outside => cases hbody
  | effect p =>
    obtain ⟨hel, hops⟩ := Bool.and_eq_true_iff.1 hbody
    obtain ⟨hlead, htail⟩ := List.forall_mem_append.1 (List.all_eq_true.1 hops)
    have hperform : ∀ ops : List PageOp, (∀ op ∈ ops, decide (op.element = r.element) = true) →
        List.Forall₂ (Task.Mirrors r ids) (ops.map .perform) (ops.map .perform) := fun ops hops =>
      same_tasks fun t ht => by
        obtain ⟨op, hop, rfl⟩ := List.mem_map.1 ht
        exact hops op hop
    have hawait : List.Forall₂ (Task.Mirrors r ids)
        [.await p.element p.endEvent (.effectEnd p.element p.temporary token)]
        [.await p.element p.endEvent (.effectEnd p.element p.temporary token)] :=
      same_tasks (by simpa [Task.isPlainFor, OnceCall.isOf, htoken] using hel)
    exact ⟨h.own, List.rel_append (List.rel_append (List.rel_append (hperform _ hlead) hawait) (hperform _ htail))
      (.cons (.idle rfl) .nil)⟩

theorem same_complete (h : Mirrors r ids s s') {token : Completion} (htoken : token.queue = r.queue) :
    SameOutcome r ids (s.complete token) (s'.complete token) := by
  obtain ⟨jq, hq, hq', hours⟩ := h.queue?
  simp only [complete, isOpen, htoken, hq, hq', Option.bind_some]
  split
  · cases htake : jq.takeFinish? token.ticket with
    | none => exact ⟨h.own, .nil⟩
    | some p =>
      obtain ⟨finish, jq'⟩ := p
      obtain ⟨hrunning, -, hwaiting, hnone⟩ := JobQueue.ranks_takeFinish? htake
      obtain ⟨hours, hfinish⟩ := Bool.and_eq_true_iff.1 hours
      rw [hrunning] at hfinish
      refine ⟨h.own.mapQueue fun _ _ _ => ⟨rfl, ?_⟩, same_tasks fun t ht => ?_⟩
      · simp [JobQueue.isOf, hwaiting, hours, hnone]
      · rcases List.mem_append.1 ht with ht | ht
        · obtain ⟨f, hf, rfl⟩ := List.mem_map.1 ht
          rw [Option.mem_toList.1 hf] at hfinish
          exact hfinish
        · simp only [List.mem_cons, List.not_mem_nil, or_false] at ht
          rcases ht with rfl | rfl | rfl <;> simp [Task.isPlainFor]
  · exact ⟨h.own, .nil⟩

theorem same_finish (h : Mirrors r ids s s') {f : Finish} (hf : f.isOf r = true) :
    SameOutcome r ids (s.finish f) (s'.finish f) := by
  cases f with
  | outside => cases hf
  | reaction m slot =>
    obtain rfl : m = r.machine := of_decide_eq_true hf
    simp only [Stage.finish, h.isLive]
    refine ⟨h.own, same_tasks ?_⟩
    split <;> simp [Task.isPlainFor]
  | sequenceStep m slot k =>
    obtain rfl : m = r.machine := of_decide_eq_true hf
    simp only [Stage.finish, h.isLive]
    refine ⟨h.own, same_tasks ?_⟩
    split <;> simp [Task.isPlainFor]

theorem same_jobOver (h : Mirrors r ids s s') : SameOutcome r ids (s.jobOver r.queue) (s'.jobOver r.queue) :=
  ⟨h.own.mapQueue fun c _ hc => ⟨rfl, by simp_all [JobQueue.isOf, JobQueue.rest]⟩, .nil⟩

/-! ## Listening -/

theorem Secluded.addListener {known : List Nat} (h : Secluded r known s) (event : String) (call : ListenerCall) :
    Secluded r (known ++ [s.page.nextId]) (s.mapPage (·.addListener r.element event call)) := by
  have hmem : ∀ l ∈ (s.mapPage (·.addListener r.element event call)).page.listeners,
      l ∈ s.page.listeners ∨ l = ⟨s.page.nextId, r.element, event, call⟩ := fun l hl =>
    (List.mem_append.1 hl).imp_right List.mem_singleton.1
  refine ⟨h.quiet, h.hooks, h.hosted, h.unnamed, h.alone, h.cast, fun l hl => ?_, fun i hi => ?_, fun l hl hid => ?_⟩
  · rcases hmem l hl with hl | rfl
    · exact Nat.le_succ_of_le (h.bounded l hl)
    · exact Nat.le_refl _
  · rcases List.mem_append.1 hi with hi | hi
    · exact Nat.le_succ_of_le (h.given i hi)
    · rw [List.mem_singleton.1 hi]
      exact Nat.le_refl _
  · rcases hmem l hl with hl | rfl
    · rcases List.mem_append.1 hid with hid | hid
      · exact h.strangers l hl hid
      · -- the id is new
        have hle := h.bounded l hl
        rw [List.mem_singleton.1 hid, Page.nextId] at hle
        omega
    · rfl

theorem Mirrors.paired_nextId (h : Mirrors r ids s s') : Paired (ids ++ [(s.page.nextId, s'.page.nextId)]) := by
  refine List.pairwise_append.2 ⟨h.ids, List.pairwise_singleton .., fun p hp q hq => ?_⟩
  have hleft := h.left.given p.1 (List.mem_map_of_mem hp)
  have hright := h.right.given p.2 (List.mem_map_of_mem hp)
  rw [List.mem_singleton.1 hq]
  simp only [Page.nextId]
  omega

theorem mirrored_attach (h : Mirrors r ids s s') (event : String) {call : ListenerCall} (hcall : call.isOf r = true)
    (index : Nat) : ∃ new,
      Mirrors r (ids ++ new) (s.attach r.element event call (.bound r.machine index)).1
        (s'.attach r.element event call (.bound r.machine index)).1 ∧
      List.Forall₂ (Task.Mirrors r (ids ++ new)) (s.attach r.element event call (.bound r.machine index)).2
        (s'.attach r.element event call (.bound r.machine index)).2 := by
  -- each stage gives out its next id, and from now on the one stands for the other
  have hnew : (s.page.nextId, s'.page.nextId) ∈ ids ++ [(s.page.nextId, s'.page.nextId)] :=
    List.mem_append_right _ List.mem_cons_self
  refine ⟨[(s.page.nextId, s'.page.nextId)], ⟨?_, ?_, ?_, h.paired_nextId⟩, ?_⟩
  · rw [List.map_append]
    exact h.left.addListener event call
  · rw [List.map_append]
    exact h.right.addListener event call
  · exact (h.own.mono (List.subset_append_left _ _)).addListener event hcall hnew
  · simp only [attach, reflexes_eq_nil h.left.quiet, reflexes_eq_nil h.right.quiet]
    exact .cons (.bound index hnew) .nil

theorem SameOutcome.mirrored {t t' : Task} (hsame : SameOutcome r ids (t.carryOut s rest) (t'.carryOut s' rest'))
    (h : Mirrors r ids s s') (hcue : t.kind ≠ .cue) (hcue' : t'.kind ≠ .cue) : ∃ new,
      Mirrors r (ids ++ new) (t.carryOut s rest).1 (t'.carryOut s' rest').1 ∧
        List.Forall₂ (Task.Mirrors r (ids ++ new)) (t.carryOut s rest).2 (t'.carryOut s' rest').2 := by
  refine ⟨[], ?_⟩
  rw [List.append_nil]
  exact ⟨⟨secluded_carryOut h.left hcue, secluded_carryOut h.right hcue', hsame.own, h.ids⟩, hsame.tasks⟩

theorem mirrored_bind (h : Mirrors r ids s s') (slot : Slot) (again : Bool) : ∃ new,
    Mirrors r (ids ++ new) ((Task.bind r.machine slot again).carryOut s rest).1
      ((Task.bind r.machine slot again).carryOut s' rest').1 ∧
    List.Forall₂ (Task.Mirrors r (ids ++ new)) ((Task.bind r.machine slot again).carryOut s rest).2
      ((Task.bind r.machine slot again).carryOut s' rest').2 := by
  obtain ⟨c, bs, hc, hc', hbs, hfits⟩ := h.machines
  have hattached := isAttached_mirrors hbs slot.index
  have hkind : (Task.bind r.machine slot again).kind ≠ .cue := by simp [Task.kind]
  cases hon : (c.reaction? slot).map Reaction.on with
  | none =>
    refine SameOutcome.mirrored ?_ h hkind hkind
    simp only [Task.carryOut, Stage.bind, hc, hc', Machine.reaction?_bindings, hon]
    exact ⟨h.own, .nil⟩
  | some on =>
    cases on with
    | entry =>
      refine SameOutcome.mirrored ?_ h hkind hkind
      simp only [Task.carryOut, Stage.bind, hc, hc', Machine.reaction?_bindings, hon]
      exact ⟨h.own.schedule (by simp [FrameCall.isOf]), .nil⟩
    | event name =>
      by_cases hstays : (again && c.isAttached slot.index) = true
      · refine SameOutcome.mirrored ?_ h hkind hkind
        simp only [Task.carryOut, Stage.bind, hc, hc', Machine.reaction?_bindings, hon, hattached, hstays, if_true]
        exact ⟨h.own, .nil⟩
      · simp only [Task.carryOut, Stage.bind, hc, hc', Machine.reaction?_bindings, hon, hattached, hstays]
        rw [hfits.element]
        have hcall : (ListenerCall.react r.machine slot).isOf r = true := by simp [ListenerCall.isOf]
        exact mirrored_attach h name hcall slot.index

/-! ## All tasks of a role -/

theorem mirrored_idle {t : Task} (h : Mirrors r ids s s') (ht : t.isIdle = true) :
    SameOutcome r ids (t.carryOut s rest) (t.carryOut s' rest') := by
  obtain ⟨hs, htasks⟩ := undisturbed_of_isIdle s rest ht
  obtain ⟨hs', htasks'⟩ := undisturbed_of_isIdle s' rest' ht
  refine ⟨h.own.undisturbed hs hs', ?_⟩
  rw [htasks, htasks']
  exact .nil

theorem same_plain {t : Task} (h : Mirrors r ids s s') (hrest : Shares r ids rest rest') (ht : t.isPlainFor r = true)
    (hbind : t.kind ≠ .bind) : SameOutcome r ids (t.carryOut s rest) (t.carryOut s' rest') := by
  have hm : ∀ {m : Nat}, decide (m = r.machine) = true → m = r.machine := of_decide_eq_true
  cases t with
  | dispatch el event =>
    obtain rfl : el = r.element := of_decide_eq_true ht
    exact same_dispatch h event
  | callOnce c => exact same_callOnce h ht
  | callListener c => exact same_callListener h ht
  | perform op => exact same_perform h (of_decide_eq_true ht)
  | await el event call =>
    obtain ⟨hel, hcall⟩ := Bool.and_eq_true_iff.1 ht
    obtain rfl : el = r.element := of_decide_eq_true hel
    exact same_await h event hcall
  | callFrame c => exact same_callFrame h ht
  | enqueue q job =>
    obtain ⟨hq, hjob⟩ := Bool.and_eq_true_iff.1 ht
    obtain rfl : q = r.queue := of_decide_eq_true hq
    exact same_enqueue h hjob
  | run body token =>
    obtain ⟨htoken, hbody⟩ := Bool.and_eq_true_iff.1 ht
    exact same_run h (of_decide_eq_true htoken) hbody
  | complete token => exact same_complete h (of_decide_eq_true ht)
  | finish q f => exact same_finish h ht
  | pump q =>
    obtain rfl : q = r.queue := of_decide_eq_true ht
    exact same_pump h
  | jobOver q =>
    obtain rfl : q = r.queue := of_decide_eq_true ht
    exact same_jobOver h
  | release hold =>
    cases hold with
    | machine m =>
      obtain rfl : m = r.machine := of_decide_eq_true ht
      exact same_releaseMachine h hrest
    | queue q =>
      obtain rfl : q = r.queue := of_decide_eq_true ht
      exact same_releaseQueue h hrest
    | host => cases ht
  | bind => exact absurd rfl hbind
  | transition m state => exact hm ht ▸ same_transition h state
  | arrive m state again => exact hm ht ▸ same_arrive h state again
  | fire m slot anew => exact hm ht ▸ same_fire h slot anew
  | hook m name state => exact hm ht ▸ same_hook h name state
  | act m slot anew => exact hm ht ▸ same_act h slot
  | conclude m slot => exact hm ht ▸ same_conclude h slot
  | stepOver m slot k => exact hm ht ▸ same_stepOver h slot k
  | jump m slot => exact hm ht ▸ same_jump h slot
  | start m visible => exact hm ht ▸ same_start h visible
  | appear m visible => exact hm ht ▸ same_appear h visible
  | enterDefault m => exact hm ht ▸ same_enterDefault h
  | visibility m visible => exact hm ht ▸ same_visibility h visible
  | closed m => exact hm ht ▸ same_closed h
  | _ => cases ht

/-- **A task of a role does the same on two stages** on which the role is in the same condition. -/
theorem mirrored_carryOut {t t' : Task} (h : Mirrors r ids s s') (hrest : Shares r ids rest rest')
    (ht : Task.Mirrors r ids t t') : ∃ new, Mirrors r (ids ++ new) (t.carryOut s rest).1 (t'.carryOut s' rest').1 ∧
      List.Forall₂ (Task.Mirrors r (ids ++ new)) (t.carryOut s rest).2 (t'.carryOut s' rest').2 := by
  cases ht with
  | idle hidle =>
    have hcue : t.kind ≠ .cue := by
      cases t with
      | cue => cases hidle
      | _ => simp [Task.kind]
    exact (mirrored_idle h hidle).mirrored h hcue hcue
  | plain hplain =>
    have hcue : t.kind ≠ .cue := by
      cases t with
      | cue => cases hplain
      | _ => simp [Task.kind]
    by_cases hbind : t.kind = .bind
    · cases t with
      | bind m slot again =>
        obtain rfl : m = r.machine := of_decide_eq_true hplain
        exact mirrored_bind h slot again
      | _ => cases hbind
    · exact (same_plain h hrest hplain hbind).mirrored h hcue hcue
  | detach hi =>
    refine SameOutcome.mirrored ?_ h (by simp [Task.kind]) (by simp [Task.kind])
    exact same_detach h hi
  | bound index hi =>
    refine SameOutcome.mirrored ?_ h (by simp [Task.kind]) (by simp [Task.kind])
    exact same_bound h index hi
  | deliver ran honce hls =>
    refine SameOutcome.mirrored ?_ h (by simp [Task.kind]) (by simp [Task.kind])
    exact same_deliver h ran honce hls

end
end Stagecraft
