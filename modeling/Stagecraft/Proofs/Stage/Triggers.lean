import Stagecraft.Proofs.Machine.Declared
import Stagecraft.Proofs.Stage.Transition
/-!
# The triggers of a machine

The triggers of the last declarations are installed when a machine is first started: the machine then listens on every
element that their selectors stand for.  No later start installs anything, and the machine keeps these listeners, in
whatever states it is, until it is let go.
-/
namespace Stagecraft

/-- What a trigger asks for: on this element, this event leads to this state. -/
structure Watch where
  element : ElementId
  event : String
  state : String

/-- The listeners by which a machine watches, under ids from this one on. -/
def Watch.listeners (m : Nat) : Nat → List Watch → List (Listener ListenerCall)
  | _, [] => []
  | id, w :: ws => ⟨id, w.element, w.event, .enter m w.state⟩ :: listeners m (id + 1) ws

/-- How a machine notes a listener of a trigger. -/
def Listener.noted {α : Type} (l : Listener α) : ElementId × Nat := (l.element, l.id)

/-- What the trigger of a state asks for: nothing if it names the entry, which is no event. -/
def Stage.watches (s : Stage) (state : String) (trigger : Trigger) : List Watch :=
  match trigger.on with
  | .entry => []
  | .event name => (s.select trigger.selector).map fun el => ⟨el, name, state⟩

/-- What a declaration asks for: nothing if it has no trigger that can be read. -/
def Stage.declaredWatches (s : Stage) (d : Declaration) : List Watch :=
  d.state.trigger.toList.flatMap (s.watches d.name)

namespace Task

/-- Whether a task belongs to the installation of the triggers of a machine. -/
def installs (m : Nat) : Task → Bool
  | .install n .. | .watch n .. | .watched n .. => n = m
  | _ => false

/-- What is still to be listened for. -/
def watches (s : Stage) : Task → List Watch
  | .install _ state trigger => s.watches state trigger
  | .watch _ el event state => [⟨el, event, state⟩]
  | _ => []

/-- The listener that is about to be noted. -/
def noted : Task → List (ElementId × Nat)
  | .watched _ el id => [(el, id)]
  | _ => []

end Task

/-- The next thing to happen is that a listener is removed from outside. -/
def Config.withdraws (l : Listener ListenerCall) (c : Config) : Prop :=
  ∃ rest, c.agenda = .cue (.removeListener l.element l.id) :: rest

/-- No listener of a trigger of the machine is removed from outside. -/
def KeepsTriggers (m : Nat) (cs : List Config) : Prop :=
  ∀ c ∈ cs, ∀ l ∈ c.stage.page.listeners, l.call.enters m = true → ¬ c.withdraws l

theorem KeepsTriggers.tail {m : Nat} {c : Config} {cs : List Config} (h : KeepsTriggers m (c :: cs)) :
    KeepsTriggers m cs := fun d hd => h d (List.mem_cons_of_mem _ hd)

namespace Stage

/-- The listeners that a machine built from declarations adds when it is first started on a stage: one for each element
that the selector of a trigger stands for. -/
def triggerListeners (s : Stage) (m : Nat) (ds : List Declaration) : List (Listener ListenerCall) :=
  Watch.listeners m s.page.nextId ((Declaration.lasting ds).flatMap s.declaredWatches)

/-- What was declared last is what waits for the first start. -/
theorem flatMap_pending (s : Stage) (el : ElementId) (settings : Settings) (hooked : Bool) (q : Nat)
    (ds : List Declaration) :
    (Machine.ofStates el settings hooked q (ds.foldl declare [])).pending.flatMap (fun e => s.watches e.1 e.2) =
      (Declaration.lasting ds).flatMap s.declaredWatches := by
  rw [Machine.pending_declared, List.filterMap_eq_flatMap_toList, List.flatMap_assoc]
  refine congrArg (List.flatMap · _) (funext fun d => ?_)
  rw [declaredWatches]
  cases d.state.trigger <;> rfl

/-! ## What other tasks leave alone -/

section
variable {s : Stage} {t : Task} {rest : List Task} {m : Nat} {c : Machine}

/-- Only the start of a machine begins to install its triggers. -/
theorem installs_of_mem {t' : Task} (h : t' ∈ (t.carryOut s rest).2) (ht' : t'.installs m = true) :
    t.installs m = true ∨ ∃ visible, t = .start m visible := by
  have hleaves : .install ∈ t.leaves ∨ .watch ∈ t.leaves ∨ .watched ∈ t.leaves := by
    have hkind := (within_carryOut s rest t).kinds _ h
    cases t' with
    | install => exact .inl hkind
    | watch => exact .inr (.inl hkind)
    | watched => exact .inr (.inr hkind)
    | _ => cases ht'
  cases t with
  | start n visible =>
    simp only [Task.carryOut, start] at h
    split at h
    · cases h
    · rcases List.mem_append.1 h with h | h
      · obtain ⟨e, -, rfl⟩ := List.mem_map.1 h
        exact .inr ⟨visible, by rw [of_decide_eq_true ht']⟩
      · rw [List.mem_singleton.1 h] at ht'
        cases ht'
  | install n state trigger =>
    simp only [Task.carryOut, install] at h
    split at h
    · cases h
    · obtain ⟨el, -, rfl⟩ := List.mem_map.1 h
      exact .inl ht'
  | watch n el event state =>
    rcases List.mem_append.1 h with h | h
    · have hkind := kind_reflexes s .addListener event el t' h
      cases t' with
      | install | watch | watched => cases hkind
      | _ => cases ht'
    · rw [List.mem_singleton.1 h] at ht'
      exact .inl ht'
  | cue c => cases c <;> simp [Task.leaves, Cue.leaves] at hleaves
  | release hold => cases hold <;> simp [Task.leaves] at hleaves
  | _ => simp [Task.leaves] at hleaves

theorem not_installs_of_mem (ht : t.installs m = false) (hstart : ∀ visible, t ≠ .start m visible) :
    ∀ t' ∈ (t.carryOut s rest).2, t'.installs m = false := by
  refine fun t' ht' => Bool.eq_false_iff.2 fun hinstalls => ?_
  rcases installs_of_mem ht' hinstalls with hinstalls | ⟨visible, heq⟩
  · rw [ht] at hinstalls
    cases hinstalls
  · exact hstart visible heq

/-- A start leaves the installation of all triggers that wait, and has none wait any longer. -/
theorem start_eq (hc : s.machine? m = some c) (visible : Bool) : s.start m visible =
    (s.mapMachine m fun c => { c with pending := [] },
      (c.pending.map fun e => .install m e.1 e.2) ++ [.appear m visible]) := by
  simp only [start, hc]

/-- Only a start makes a machine forget which triggers wait for it. -/
theorem pending_carryOut (ht : ∀ visible, t ≠ .start m visible) (hc : s.machine? m = some c) :
    ∃ c', (t.carryOut s rest).1.machine? m = some c' ∧ c'.pending = c.pending := by
  by_cases htouch : .pending ∈ t.touches
  · cases t with
    | cue cue =>
      cases cue with
      | build name el settings hooked states =>
        refine ⟨c, ?_, rfl⟩
        simp only [Task.carryOut, follow, build]
        split
        · rw [← (undisturbed_declared el states s).machine? m] at hc
          exact machine?_append _ [JobQueue.empty] hc
        · exact hc
      | _ => simp [Task.touches, Cue.touches] at htouch
    | start n visible =>
      have hn : m ≠ n := fun heq => ht visible (by rw [heq])
      refine ⟨c, ?_, rfl⟩
      simp only [Task.carryOut, start]
      split
      · exact hc
      · exact (machine?_mapMachine_ne s hn _).trans hc
    | release hold => cases hold <;> simp [Task.touches] at htouch
    | _ => simp [Task.touches] at htouch
  · have hsame := congrArg (·[m]?) ((within_carryOut s rest t).touched.agree .pending htouch)
    simp only [List.getElem?_map, show s.machines[m]? = some c from hc, Option.map_some] at hsame
    obtain ⟨c', hc', hpending⟩ := Option.map_eq_some_iff.1 hsame
    exact ⟨c', hc', hpending⟩

/-- A machine keeps the listeners of its triggers until it is let go, and then it has none. -/
theorem triggers_carryOut (ht : t.installs m = false) (hc : s.machine? m = some c) :
    ∃ c', (t.carryOut s rest).1.machine? m = some c' ∧
      (c'.triggers = c.triggers ∨ c'.triggers = [] ∧ c'.life ≠ .live) := by
  obtain ⟨c', d, hc', hd, hw⟩ := rewired_carryOut t rest hc
  have htriggers : c'.triggers = d.triggers := (congrArg Machine.triggers hw :)
  have hlife : c'.life = d.life := (congrArg Machine.life hw :)
  refine ⟨c', hc', ?_⟩
  rw [htriggers, hlife]
  generalize (t.carryOut s rest).2 = ts at hd
  cases hd with
  | notes => exact .inl (by rw [c.bind_eq])
  | watches => simp [Task.installs] at ht
  | closes => exact .inr ⟨rfl, by simp⟩
  | _ => exact .inl rfl

/-- A machine that is live was live before. -/
theorem isLive_before (hc : s.machine? m = some c) (h : (t.carryOut s rest).1.isLive m = true) :
    s.isLive m = true := by
  by_contra hno
  have hremoves : s.removes (.enter m "") = true := by
    rw [isLive_of_machine? hc] at hno
    simpa [removes, hc] using hno
  obtain ⟨c', hc', hlife⟩ := (Option.any_eq_true _ _).1 (removes_carryOut (t := t) hremoves)
  rw [isLive_of_machine? hc'] at h
  exact absurd (of_decide_eq_true h) (by simpa using hlife)

/-- The listeners of the triggers of a live machine are not about to be removed by it. -/
theorem Naming.ne_of_detach {c : Config} (h : Naming c) (hlive : c.stage.isLive m = true) {el : ElementId} {id : Nat}
    (hmem : Task.detach el id ∈ c.agenda) {l : Listener ListenerCall} (hl : l ∈ c.stage.page.listeners)
    (henters : l.call.enters m = true) : l.id ≠ id := by
  intro hid
  have hremoves := (h.detach el id hmem).2 l hl hid
  cases hcall : l.call with
  | enter n state =>
    rw [hcall] at hremoves henters
    obtain rfl : n = m := of_decide_eq_true henters
    obtain ⟨c, hc, hlife⟩ := (Option.any_eq_true _ _).1 hremoves
    rw [isLive_of_machine? hc] at hlive
    exact absurd (of_decide_eq_true hlive) (by simpa using hlife)
  | _ =>
    rw [hcall] at henters
    cases henters

theorem filter_removeListener {page : Page ListenerCall OnceCall} {el : ElementId} {id : Nat}
    (h : ∀ l ∈ page.listeners, l.call.enters m = true → ¬ (l.element = el ∧ l.id = id)) :
    (page.removeListener el id).listeners.filter (fun l => l.call.enters m) =
      page.listeners.filter fun l => l.call.enters m := by
  rw [Page.removeListener, List.filter_filter]
  refine List.filter_congr fun l hl => ?_
  by_cases henters : l.call.enters m = true
  · simp [henters, Decidable.not_and_iff_not_or_not.1 (h l hl henters)]
  · simp [henters]

/-- The listeners of the triggers of a machine stay on the page, unless one is removed from outside. -/
theorem listeners_carryOut (hnaming : Naming ⟨s, t :: rest⟩) (ht : t.installs m = false) (hlive : s.isLive m = true)
    (hkept : ∀ l ∈ s.page.listeners, l.call.enters m = true → ¬ Config.withdraws l ⟨s, t :: rest⟩) :
    (t.carryOut s rest).1.page.listeners.filter (fun l => l.call.enters m) =
      s.page.listeners.filter fun l => l.call.enters m := by
  by_cases htouch : .listeners ∈ t.touches
  · cases t with
    | cue cue =>
      cases cue with
      | addListener el event label script =>
        exact (List.filter_append ..).trans (List.append_nil _)
      | removeListener el id =>
        refine filter_removeListener fun l hl henters hsame => hkept l hl henters ⟨rest, ?_⟩
        rw [hsame.1, hsame.2]
      | _ => simp [Task.touches, Cue.touches] at htouch
    | detach el id =>
      exact filter_removeListener fun l hl henters hsame =>
        hnaming.ne_of_detach hlive List.mem_cons_self hl henters hsame.2
    | watch n el event state =>
      have hnot : (ListenerCall.enter n state).enters m = false := ht
      refine (List.filter_append ..).trans ?_
      rw [List.filter_cons_of_neg (by rw [hnot]; exact Bool.false_ne_true)]
      exact List.append_nil _
    | bind n slot again =>
      simp only [Task.carryOut, bind]
      split
      · rfl
      · split
        · rfl
        · rfl
        · split
          · rfl
          · exact (List.filter_append ..).trans (List.append_nil _)
    | release hold => cases hold <;> simp [Task.touches] at htouch
    | _ => simp [Task.touches] at htouch
  · rw [((within_carryOut s rest t).touched.agree .listeners htouch).1]

end

/-! ## Installing -/

/-- The listeners that these tasks are yet to add. -/
def coming (s : Stage) (m : Nat) (ahead : List Task) : List (Listener ListenerCall) :=
  Watch.listeners m s.page.nextId (ahead.flatMap (Task.watches s))

/-- A machine that has been started.  What is `ahead` of the agenda is what is left to be done of the installation of
its triggers, and `ls` are the listeners that the machine is to have in the end. -/
structure Installing (m : Nat) (ls : List (Listener ListenerCall)) (kept : Prop) (ahead : List Task) (c : Config) :
    Prop where
  agenda : ∃ rest, c.agenda = ahead ++ rest ∧ ∀ t ∈ rest, t.installs m = false
  own : ∀ t ∈ ahead, t.installs m = true
  /-- A listener is noted before anything else is done. -/
  first : ∀ t ∈ ahead.tail, t.noted = []
  machine : ∃ mc, c.stage.machine? m = some mc ∧ mc.pending = [] ∧
    mc.triggers ++ ahead.flatMap Task.noted ++ (c.stage.coming m ahead).map Listener.noted = ls.map Listener.noted
  listeners : kept → c.stage.page.listeners.filter (fun l => l.call.enters m) ++ c.stage.coming m ahead = ls

section
variable {s s' : Stage} {t : Task} {rest ahead : List Task} {m : Nat} {ls : List (Listener ListenerCall)} {kept : Prop}

theorem watches_congr (hselectors : s'.page.selectors = s.page.selectors) (hmanners : s'.manners = s.manners) :
    Task.watches s' = Task.watches s := by
  funext t
  cases t with
  | install n state trigger =>
    simp only [Task.watches, watches, select, Page.select, hselectors, hmanners]
  | _ => rfl

/-- The installation of a trigger leaves it to watch for what the trigger asks for. -/
theorem install_eq (s : Stage) (m : Nat) (state : String) (trigger : Trigger) : (s.install m state trigger).2 =
    (s.watches state trigger).map fun w => .watch m w.element w.event w.state := by
  cases h : trigger.on with
  | entry => simp only [install, watches, h, List.map_nil]
  | event name =>
    simp only [install, watches, h, List.map_map]
    rfl

theorem undisturbed_install (s : Stage) (m : Nat) (state : String) (trigger : Trigger) :
    Undisturbed s (s.install m state trigger).1 := by
  simp only [install]
  split
  · exact undisturbed_record s _
  · split
    · exact undisturbed_record s _
    · exact .refl s

/-- The installation of a trigger leaves tasks that add the same listeners. -/
theorem coming_install (s : Stage) (m : Nat) (state : String) (trigger : Trigger) (ahead : List Task) :
    (s.install m state trigger).1.coming m ((s.install m state trigger).2 ++ ahead) =
      s.coming m (.install m state trigger :: ahead) := by
  have h := undisturbed_install s m state trigger
  rw [coming, coming, watches_congr (congrArg Page.selectors h.page) h.manners, h.page, install_eq,
    List.flatMap_append, List.flatMap_cons, List.flatMap_map]
  exact congrArg (fun ws => Watch.listeners m s.page.nextId (ws ++ _)) (List.flatMap_singleton' _)

/-- A watch adds the first of the listeners. -/
theorem coming_watch (s : Stage) (m : Nat) (el : ElementId) (event state : String) (ahead : List Task) :
    s.coming m (.watch m el event state :: ahead) = ⟨s.page.nextId, el, event, .enter m state⟩ ::
      (s.watch m el event state).1.coming m (.watched m el s.page.nextId :: ahead) := by
  have hwatches : Task.watches (s.watch m el event state).1 = Task.watches s := watches_congr rfl rfl
  rw [coming, coming, hwatches]
  rfl

/-- What stands behind the first task of the installation. -/
theorem Installing.behind (h : Installing m ls kept (t :: ahead) ⟨s, t :: rest⟩) :
    ∃ post, rest = ahead ++ post ∧ ∀ t ∈ post, t.installs m = false := by
  obtain ⟨post, heq, hpost⟩ := h.agenda
  exact ⟨post, (List.cons.inj heq).2, hpost⟩

theorem Installing.install {state : String} {trigger : Trigger}
    (h : Installing m ls kept (.install m state trigger :: ahead) ⟨s, .install m state trigger :: rest⟩) :
    Installing m ls kept ((s.install m state trigger).2 ++ ahead) (.after s (.install m state trigger) rest) := by
  obtain ⟨post, rfl, hpost⟩ := h.behind
  obtain ⟨mc, hmc, hpending, htriggers⟩ := h.machine
  have hsame := undisturbed_install s m state trigger
  have hleft : ∀ t ∈ (s.install m state trigger).2, t.installs m = true ∧ t.noted = [] := by
    intro t ht
    rw [install_eq] at ht
    obtain ⟨w, -, rfl⟩ := List.mem_map.1 ht
    exact ⟨decide_eq_true rfl, rfl⟩
  have hfirst : ∀ t ∈ ahead, t.noted = [] := h.first
  have hnoted := List.forall_mem_append.2 ⟨fun t ht => (hleft t ht).2, hfirst⟩
  refine ⟨⟨post, (List.append_assoc ..).symm, hpost⟩,
    List.forall_mem_append.2 ⟨fun t ht => (hleft t ht).1, (List.forall_mem_cons.1 h.own).2⟩,
    fun t ht => hnoted t (List.mem_of_mem_tail ht), ⟨mc, (hsame.machine? m).trans hmc, hpending, ?_⟩, ?_⟩
  · rw [Config.after, Task.carryOut, coming_install, List.flatMap_eq_nil_iff.2 hnoted]
    rw [List.flatMap_cons, List.flatMap_eq_nil_iff.2 hfirst] at htriggers
    exact htriggers
  · rw [Config.after, Task.carryOut, coming_install, hsame.page]
    exact h.listeners

/-- The listener is there, and is noted next, for the host does nothing else meanwhile. -/
theorem Installing.watch {el : ElementId} {event state : String} (hs : s.manners.sparesListeners = true)
    (h : Installing m ls kept (.watch m el event state :: ahead) ⟨s, .watch m el event state :: rest⟩) :
    Installing m ls kept (.watched m el s.page.nextId :: ahead) (.after s (.watch m el event state) rest) := by
  obtain ⟨post, rfl, hpost⟩ := h.behind
  obtain ⟨mc, hmc, hpending, htriggers⟩ := h.machine
  have hlisteners := h.listeners
  have hfirst : ∀ t ∈ ahead, t.noted = [] := h.first
  have hnone : s.reflexes .addListener event el = [] := reflexes_addListener hs event el
  rw [coming_watch] at htriggers hlisteners
  refine ⟨⟨post, ?_, hpost⟩, List.forall_mem_cons.2 ⟨decide_eq_true rfl, (List.forall_mem_cons.1 h.own).2⟩, h.first,
    ⟨mc, hmc, hpending, ?_⟩, fun hkept => ?_⟩
  · simp only [Config.after, Task.carryOut, Stage.watch, attach, hnone]
    rfl
  · rw [← htriggers, List.flatMap_cons, List.flatMap_cons, List.flatMap_eq_nil_iff.2 hfirst]
    simp [Task.noted, Listener.noted, Config.after, Task.carryOut]
  · rw [← hlisteners hkept, Config.after, Task.carryOut, List.append_cons]
    refine congrArg (· ++ _) ((List.filter_append ..).trans (congrArg _ ?_))
    exact List.filter_eq_self.2 (List.forall_mem_singleton.2 (decide_eq_true rfl))

theorem Installing.watched {el : ElementId} {id : Nat}
    (h : Installing m ls kept (.watched m el id :: ahead) ⟨s, .watched m el id :: rest⟩) :
    Installing m ls kept ahead (.after s (.watched m el id) rest) := by
  obtain ⟨post, rfl, hpost⟩ := h.behind
  obtain ⟨mc, hmc, hpending, htriggers⟩ := h.machine
  refine ⟨⟨post, rfl, hpost⟩, (List.forall_mem_cons.1 h.own).2, fun t ht => h.first t (List.mem_of_mem_tail ht),
    ⟨{ mc with triggers := mc.triggers ++ [(el, id)] }, ?_, hpending, ?_⟩, h.listeners⟩
  · rw [Config.after, Task.carryOut, Stage.watched, machine?_mapMachine_self, hmc]
    rfl
  · rw [← htriggers, List.flatMap_cons, ← List.append_assoc]
    rfl

/-- A task of the installation does its part, and leaves the rest of it ahead of the agenda. -/
theorem Installing.go_on (h : Installing m ls kept (t :: ahead) ⟨s, t :: rest⟩)
    (hs : s.manners.sparesListeners = true) : ∃ ahead', Installing m ls kept ahead' (.after s t rest) := by
  have ht := h.own t List.mem_cons_self
  cases t with
  | install n state trigger =>
    obtain rfl : n = m := of_decide_eq_true ht
    exact ⟨_, h.install⟩
  | watch n el event state =>
    obtain rfl : n = m := of_decide_eq_true ht
    exact ⟨_, h.watch hs⟩
  | watched n el id =>
    obtain rfl : n = m := of_decide_eq_true ht
    exact ⟨_, h.watched⟩
  | _ => cases ht

/-- When the installation is done, other tasks leave what it has done as it is. -/
theorem Installing.go_by (h : Installing m ls kept [] ⟨s, t :: rest⟩) (hnaming : Naming ⟨s, t :: rest⟩)
    (hlive : (Config.after s t rest).stage.isLive m = true)
    (hkept : kept → ∀ l ∈ s.page.listeners, l.call.enters m = true → ¬ Config.withdraws l ⟨s, t :: rest⟩) :
    Installing m ls kept [] (.after s t rest) := by
  obtain ⟨post, rfl, hpost⟩ := h.agenda
  obtain ⟨mc, hmc, hpending, htriggers⟩ := h.machine
  obtain ⟨ht, hrest⟩ := List.forall_mem_cons.1 hpost
  obtain ⟨mc', hmc', hwired⟩ : ∃ mc', (Config.after s t rest).stage.machine? m = some mc' ∧
    (mc'.triggers = mc.triggers ∨ mc'.triggers = [] ∧ mc'.life ≠ .live) := triggers_carryOut ht hmc
  have hstill : mc'.triggers = mc.triggers := hwired.resolve_right fun hgone => by
    rw [isLive_of_machine? hmc'] at hlive
    exact hgone.2 (of_decide_eq_true hlive)
  have hleft : mc'.pending = [] ∧ ∀ t' ∈ (t.carryOut s rest).2, t'.installs m = false := by
    by_cases hstart : ∃ visible, t = .start m visible
    · obtain ⟨visible, rfl⟩ := hstart
      rw [Config.after] at hmc'
      rw [Task.carryOut, start_eq hmc, hpending] at hmc' ⊢
      rw [machine?_mapMachine_self, hmc] at hmc'
      exact ⟨(congrArg Machine.pending (Option.some.inj hmc')).symm, List.forall_mem_singleton.2 rfl⟩
    · have hstart : ∀ visible, t ≠ .start m visible := fun visible heq => hstart ⟨visible, heq⟩
      obtain ⟨mc'', hmc'', hsame⟩ : ∃ mc'', (Config.after s t rest).stage.machine? m = some mc'' ∧
        mc''.pending = mc.pending := pending_carryOut hstart hmc
      obtain rfl := Option.some.inj (hmc'.symm.trans hmc'')
      exact ⟨hsame.trans hpending, not_installs_of_mem ht hstart⟩
  refine ⟨⟨_, rfl, List.forall_mem_append.2 ⟨hleft.2, hrest⟩⟩, List.forall_mem_nil _, List.forall_mem_nil _,
    ⟨mc', hmc', hleft.1, by rw [hstill]; exact htriggers⟩, fun hk => ?_⟩
  rw [← h.listeners hk]
  exact congrArg (· ++ _) (listeners_carryOut hnaming ht (isLive_before hmc hlive) (hkept hk))

/-- The installation goes on, or it is done and stays as it is. -/
theorem Installing.after (h : Installing m ls kept ahead ⟨s, t :: rest⟩) (hs : s.manners.sparesListeners = true)
    (hnaming : Naming ⟨s, t :: rest⟩) (hlive : (Config.after s t rest).stage.isLive m = true)
    (hkept : kept → ∀ l ∈ s.page.listeners, l.call.enters m = true → ¬ Config.withdraws l ⟨s, t :: rest⟩) :
    ∃ ahead', Installing m ls kept ahead' (.after s t rest) := by
  cases ahead with
  | nil => exact ⟨[], h.go_by hnaming hlive hkept⟩
  | cons t' ahead =>
    obtain ⟨post, heq, -⟩ := h.agenda
    obtain rfl : t = t' := (List.cons.inj heq).1
    exact h.go_on hs

/-- The first start of a machine sets out to add the listeners of its triggers. -/
theorem installing_start {mc : Machine} {visible : Bool} (hmc : s.machine? m = some mc) (htriggers : mc.triggers = [])
    (hrest : ∀ t ∈ rest, t.installs m = false) (hpage : ∀ l ∈ s.page.listeners, l.call.enters m = false) :
    Installing m (Watch.listeners m s.page.nextId (mc.pending.flatMap fun e => s.watches e.1 e.2)) kept
      (mc.pending.map fun e => .install m e.1 e.2) (.after s (.start m visible) rest) := by
  have hwatches : Task.watches (s.mapMachine m fun c => { c with pending := [] }) = Task.watches s :=
    watches_congr rfl rfl
  have hcoming : (s.mapMachine m fun c => { c with pending := [] }).coming m
      (mc.pending.map fun e => .install m e.1 e.2) =
        Watch.listeners m s.page.nextId (mc.pending.flatMap fun e => s.watches e.1 e.2) := by
    rw [coming, hwatches, List.flatMap_map]
    rfl
  have hplain : ∀ t ∈ mc.pending.map fun e => Task.install m e.1 e.2, t.installs m = true ∧ t.noted = [] := by
    intro t ht
    obtain ⟨e, -, rfl⟩ := List.mem_map.1 ht
    exact ⟨decide_eq_true rfl, rfl⟩
  rw [Config.after, Task.carryOut, start_eq hmc]
  refine ⟨⟨.appear m visible :: rest, List.append_assoc .., List.forall_mem_cons.2 ⟨rfl, hrest⟩⟩,
    fun t ht => (hplain t ht).1, fun t ht => (hplain t (List.mem_of_mem_tail ht)).2,
    ⟨{ mc with pending := [] }, ?_, rfl, ?_⟩, fun _ => ?_⟩
  · rw [machine?_mapMachine_self, hmc]
    rfl
  · rw [hcoming, htriggers, List.flatMap_eq_nil_iff.2 fun t ht => (hplain t ht).2]
    rfl
  · have hnone : s.page.listeners.filter (fun l => l.call.enters m) = [] :=
      List.filter_eq_nil_iff.2 fun l hl => Bool.eq_false_iff.1 (hpage l hl)
    rw [hcoming]
    exact congrArg (· ++ _) hnone

/-- When nothing of the installation is on the agenda any more, it is done. -/
theorem Installing.done {c : Config} (h : Installing m ls kept ahead c)
    (hdone : ∀ t ∈ c.agenda, t.installs m = false) : Installing m ls kept [] c := by
  cases ahead with
  | nil => exact h
  | cons t ahead =>
    obtain ⟨post, heq, -⟩ := h.agenda
    cases (hdone t (heq ▸ List.mem_cons_self)).symm.trans (h.own t List.mem_cons_self)

theorem Installing.triggers_eq {c : Config} {machine : Machine} (h : Installing m ls kept [] c)
    (hm : c.stage.machine? m = some machine) : machine.triggers = ls.map Listener.noted := by
  obtain ⟨machine', hm', -, hnoted⟩ := h.machine
  obtain rfl := Option.some.inj (hm.symm.trans hm')
  rw [← hnoted]
  exact ((List.append_nil _).trans (List.append_nil _)).symm

theorem Installing.mono {kept' : Prop} {c : Config} (h : Installing m ls kept ahead c) (hkept : kept' → kept) :
    Installing m ls kept' ahead c :=
  ⟨h.agenda, h.own, h.first, h.machine, fun hk => h.listeners (hkept hk)⟩

end

/-! ## Before the first start -/

/-- The machine `new` has been built, and nothing has been done of the installation of its triggers. -/
structure Unstarted (m : Nat) (new : Machine) (c : Config) : Prop where
  agenda : ∀ t ∈ c.agenda, t.installs m = false
  machine : ∃ mc, c.stage.machine? m = some mc ∧ mc.made = new.made ∧ mc.pending = new.pending ∧ mc.triggers = []

section
variable {s : Stage} {t : Task} {rest : List Task} {m : Nat} {new : Machine}

theorem Unstarted.after (h : Unstarted m new ⟨s, t :: rest⟩) (hstart : ∀ visible, t ≠ .start m visible) :
    Unstarted m new (.after s t rest) := by
  obtain ⟨ht, hrest⟩ := List.forall_mem_cons.1 h.agenda
  obtain ⟨mc, hmc, hmade, hpending, htriggers⟩ := h.machine
  obtain ⟨mc', hmc', hmade'⟩ := machine?_after t rest hmc
  obtain ⟨mc'', hmc'', hsame⟩ : ∃ mc'', (Config.after s t rest).stage.machine? m = some mc'' ∧
    mc''.pending = mc.pending := pending_carryOut hstart hmc
  obtain rfl := Option.some.inj (hmc'.symm.trans hmc'')
  obtain ⟨mc'', hmc'', hwired⟩ : ∃ mc'', (Config.after s t rest).stage.machine? m = some mc'' ∧
    (mc''.triggers = mc.triggers ∨ mc''.triggers = [] ∧ mc''.life ≠ .live) := triggers_carryOut ht hmc
  obtain rfl := Option.some.inj (hmc'.symm.trans hmc'')
  exact ⟨List.forall_mem_append.2 ⟨not_installs_of_mem ht hstart, hrest⟩, mc', hmc', hmade'.trans hmade,
    hsame.trans hpending, hwired.elim (fun heq => heq.trans htriggers) And.left⟩

theorem machine?_of_installs (h : t.installs m = true) : t.machine? = some m := by
  cases t with
  | install | watch | watched => exact congrArg some (of_decide_eq_true h)
  | _ => cases h

/-- A machine that a task on the agenda works on is live. -/
theorem isLive_of_mem (ht : t.machine? = some m) : ∀ {agenda : List Task}, Held ⟨s, agenda⟩ → t ∈ agenda →
    s.isLive m = true
  | t' :: rest, h, hmem => by
    rcases List.mem_cons.1 hmem with rfl | hmem
    · exact isLive_of_held h ht
    · exact isLive_of_mem ht (held_tail h) hmem

theorem unstarted_build {name : String} {el : ElementId} {settings : Settings} {hooked : Bool} {ds : List Declaration}
    (hhosted : s.hosted = true) (hheld : Held ⟨s, .cue (.build name el settings hooked ds) :: rest⟩) :
    Unstarted s.machines.length (.ofStates el settings hooked s.queues.length (ds.foldl declare []))
      (.after s (.cue (.build name el settings hooked ds)) rest) := by
  -- a task can work only on a machine that is there
  have hrest : ∀ t ∈ rest, t.installs s.machines.length = false := by
    refine fun t ht => Bool.eq_false_iff.2 fun hinstalls => ?_
    obtain ⟨mc, hmc⟩ := exists_machine?_of_isLive
      (isLive_of_mem (machine?_of_installs hinstalls) hheld (List.mem_cons_of_mem _ ht))
    exact absurd (List.getElem?_eq_some_iff.1 hmc).1 (Nat.lt_irrefl _)
  refine ⟨List.forall_mem_append.2 ⟨not_installs_of_mem rfl fun visible heq => ?_, hrest⟩, _, ?_, rfl, rfl, rfl⟩
  · cases heq
  · have h := undisturbed_declared el ds s
    simp only [Config.after, Task.carryOut, follow, build, hhosted, if_true, castAs, addMachine, machine?]
    rw [h.machines, h.queues, List.getElem?_concat_length]

end

/-! ## The first start comes to its end -/

section
variable {m : Nat} {rest : List Task}

theorem run_watches : ∀ (ws : List Watch) {s : Stage}, s.manners.sparesListeners = true → ∃ n s',
    Config.run n ⟨s, ws.map (fun w => Task.watch m w.element w.event w.state) ++ rest⟩ = ⟨s', rest⟩ ∧
      s'.manners = s.manners
  | [], s, _ => ⟨0, s, rfl, rfl⟩
  | w :: ws, s, hs => by
    have hnone : s.reflexes .addListener w.event w.element = [] := reflexes_addListener hs _ _
    obtain ⟨n, s', hn, hmanners⟩ : ∃ n s', Config.run n
      ⟨((s.watch m w.element w.event w.state).1.watched m w.element s.page.nextId).1,
        ws.map (fun w => Task.watch m w.element w.event w.state) ++ rest⟩ = ⟨s', rest⟩ ∧ s'.manners = s.manners :=
          run_watches ws (by exact hs)
    refine ⟨n + 1 + 1, s', ?_, hmanners⟩
    rw [List.map_cons, List.cons_append, run_succ, Config.after, Task.carryOut, watch, attach, hnone]
    exact hn

theorem run_installs : ∀ (es : List (String × Trigger)) {s : Stage}, s.manners.sparesListeners = true → ∃ n s',
    Config.run n ⟨s, es.map (fun e => Task.install m e.1 e.2) ++ rest⟩ = ⟨s', rest⟩
  | [], s, _ => ⟨0, s, rfl⟩
  | e :: es, s, hs => by
    have hmanners := (undisturbed_install s m e.1 e.2).manners
    obtain ⟨k, s₁, hk, hsame⟩ : ∃ k s₁, Config.run k ⟨(s.install m e.1 e.2).1, (s.watches e.1 e.2).map
      (fun w => Task.watch m w.element w.event w.state) ++ (es.map (fun e => Task.install m e.1 e.2) ++ rest)⟩ =
        ⟨s₁, es.map (fun e => Task.install m e.1 e.2) ++ rest⟩ ∧ s₁.manners = (s.install m e.1 e.2).1.manners :=
          run_watches _ (by rw [hmanners]; exact hs)
    obtain ⟨n, s', hn⟩ : ∃ n s', Config.run n ⟨s₁, es.map (fun e => Task.install m e.1 e.2) ++ rest⟩ = ⟨s', rest⟩ :=
      run_installs es (by rw [hsame, hmanners]; exact hs)
    refine ⟨k + n + 1, s', ?_⟩
    rw [List.map_cons, List.cons_append, run_succ, Config.after, Task.carryOut, install_eq, Config.run_add, hk]
    exact hn

/-- A start installs what waits for it, and then goes on. -/
theorem run_start {s : Stage} (hs : s.manners.sparesListeners = true) (hm : s.isLive m = true) (visible : Bool) :
    ∃ n s', Config.run n ⟨s, .start m visible :: rest⟩ = ⟨s', .appear m visible :: rest⟩ := by
  obtain ⟨mc, hmc⟩ := exists_machine?_of_isLive hm
  obtain ⟨n, s', hn⟩ : ∃ n s', Config.run n ⟨s.mapMachine m fun c => { c with pending := [] },
    (mc.pending.map fun e => Task.install m e.1 e.2) ++ .appear m visible :: rest⟩ = ⟨s', .appear m visible :: rest⟩ :=
      run_installs mc.pending (by exact hs)
  refine ⟨n + 1, s', ?_⟩
  rw [run_succ, Config.after, Task.carryOut, start_eq hmc, List.append_assoc]
  exact hn

end

end Stage
open Stage

/-! ## Along a course -/

section
variable {manners : Manners} {a b c : Config} {later between past earlier : List Config} {rest : List Task} {m : Nat}
  {visible : Bool} {new machine : Machine} {ls : List (Listener ListenerCall)}

/-- Until it is first started, a machine is as it was built. -/
theorem Course.unstarted_since (ha : ∀ b, Course manners (b :: a :: earlier) → Unstarted m new b) :
    ∀ {between : List Config} {b : Config}, Course manners (b :: (between ++ a :: earlier)) →
      (∀ d ∈ between, ∀ visible rest, d.agenda ≠ .start m visible :: rest) → Unstarted m new b
  | [], b, h, _ => ha b h
  | ⟨s, []⟩ :: between, b, h, hfirst => by
    have hd := unstarted_since ha h.tail fun d hd => hfirst d (List.mem_cons_of_mem _ hd)
    cases h with
    | cleared => exact ⟨List.forall_mem_nil _, hd.machine⟩
    | called => exact ⟨List.forall_mem_singleton.2 rfl, hd.machine⟩
    | stepped _ hstep => cases hstep
  | ⟨s, t :: rest⟩ :: between, b, h, hfirst => by
    have hd := unstarted_since ha h.tail fun d hd => hfirst d (List.mem_cons_of_mem _ hd)
    rw [h.eq_after rfl]
    exact hd.after fun visible heq => hfirst _ List.mem_cons_self visible rest (congrArg (· :: rest) heq)

/-- A machine that has noted no triggers has no listener for one. -/
theorem Course.not_enters (h : Course manners (b :: past)) (hb : Unstarted m new b) (hlive : b.stage.isLive m = true) :
    ∀ l ∈ b.stage.page.listeners, l.call.enters m = false := by
  refine fun l hl => Bool.eq_false_iff.2 fun henters => ?_
  have htracked := h.tracked l hl
  obtain ⟨mc, hmc, -, -, htriggers⟩ := hb.machine
  cases hcall : l.call with
  | enter n state =>
    rw [hcall] at htracked henters
    obtain rfl : n = m := of_decide_eq_true henters
    cases htracked with
    | triggered hc hnoted =>
      obtain rfl := Option.some.inj (hmc.symm.trans hc)
      rw [htriggers] at hnoted
      cases hnoted
    | watching hc hmem => cases (hb.agenda _ hmem).symm.trans (decide_eq_true rfl)
    | unwatching hdetaching =>
      obtain ⟨before, after, heq, -⟩ := hdetaching
      exact h.naming.ne_of_detach hlive (heq ▸ List.mem_append_right _ List.mem_cons_self) hl
        (hcall ▸ decide_eq_true rfl) rfl
  | _ =>
    rw [hcall] at henters
    cases henters

/-- What was pending when the machine was built is what its first start sets out to install. -/
theorem Course.installing_first {s : Stage} (h : Course manners (c :: ⟨s, .start m visible :: rest⟩ :: past))
    (hb : Unstarted m new ⟨s, .start m visible :: rest⟩) : ∃ ahead,
      Installing m (Watch.listeners m s.page.nextId (new.pending.flatMap fun e => s.watches e.1 e.2)) True ahead c := by
  obtain ⟨mc, hmc, -, hpending, htriggers⟩ := hb.machine
  rw [h.eq_after rfl, ← hpending]
  exact ⟨_, installing_start hmc htriggers (List.forall_mem_cons.1 hb.agenda).2
    (h.tail.not_enters hb (isLive_of_held h.tail.held rfl))⟩

/-- **From the first start on a machine installs its triggers, and then it has installed them**, as long as it is
live. -/
theorem Course.installing_since (hs : manners.sparesListeners = true) (hb : b.stage.machine? m = some machine)
    (hstart : ∀ c, Course manners (c :: b :: past) → ∃ ahead, Installing m ls True ahead c) :
    ∀ {later : List Config} {c : Config}, Course manners (c :: (later ++ b :: past)) → c.stage.isLive m = true →
      ∃ ahead, Installing m ls (KeepsTriggers m later) ahead c
  | [], c, h, _ => by
    obtain ⟨ahead, hc⟩ := hstart c h
    exact ⟨ahead, hc.mono fun _ => trivial⟩
  | ⟨s, []⟩ :: later, c, h, hlive => by
    have hbefore : s.isLive m = true := by
      cases h with
      | cleared | called => exact hlive
      | stepped _ hstep => cases hstep
    obtain ⟨ahead, hd⟩ := installing_since hs hb hstart h.tail hbefore
    obtain ⟨post, heq, -⟩ := hd.agenda
    obtain ⟨rfl, rfl⟩ := List.append_eq_nil_iff.1 heq.symm
    have hstill := hd.mono (KeepsTriggers.tail (c := ⟨s, []⟩))
    cases h with
    | cleared =>
      exact ⟨[], ⟨[], rfl, List.forall_mem_nil _⟩, hstill.own, hstill.first, hstill.machine, hstill.listeners⟩
    | called cue =>
      exact ⟨[], ⟨[.cue cue], rfl, List.forall_mem_singleton.2 rfl⟩, hstill.own, hstill.first, hstill.machine,
        hstill.listeners⟩
    | stepped _ hstep => cases hstep
  | ⟨s, t :: rest⟩ :: later, c, h, hlive => by
    obtain rfl := h.eq_after rfl
    obtain ⟨mc, hmc, -⟩ := machine?_since hb h.tail
    obtain ⟨ahead, hd⟩ := installing_since hs hb hstart h.tail (isLive_before hmc hlive)
    have hstill := hd.mono (KeepsTriggers.tail (c := ⟨s, t :: rest⟩))
    exact hstill.after (h.tail.manners_eq.symm ▸ hs) h.tail.naming hlive fun hk => hk _ List.mem_cons_self

/-- Once the first start has installed the triggers of a machine, they are those of its last declarations. -/
theorem Course.installed {s : Stage} {el : ElementId} {settings : Settings} {hooked : Bool} {q : Nat}
    {ds : List Declaration} (hs : manners.sparesListeners = true)
    (h : Course manners (c :: (later ++ ⟨s, .start m visible :: rest⟩ :: past)))
    (hb : Unstarted m (.ofStates el settings hooked q (ds.foldl declare [])) ⟨s, .start m visible :: rest⟩)
    (hlive : c.stage.isLive m = true) (hdone : ∀ t ∈ c.agenda, t.installs m = false) :
    Installing m (s.triggerListeners m ds) (KeepsTriggers m later) [] c := by
  obtain ⟨machine, hmachine, -⟩ := hb.machine
  obtain ⟨ahead, hc⟩ := h.installing_since hs hmachine (fun c h => h.installing_first hb) hlive
  rw [flatMap_pending] at hc
  exact hc.done hdone

/-- A call of a listener that leads to a state moves the machine there. -/
theorem Course.run_enter {s : Stage} {state : String} (hs : manners.sparesListeners = true)
    (h : Course manners (⟨s, .callListener (.enter m state) :: rest⟩ :: past)) (hm : s.machine? m = some machine)
    (hlive : machine.life = .live) : ∃ n s' machine', Config.run n ⟨s, .callListener (.enter m state) :: rest⟩ =
      ⟨s', .release (.machine m) :: rest⟩ ∧ s'.machine? m = some machine' ∧ machine'.current = some state := by
  have hafter : Config.after s (.callListener (.enter m state)) rest =
      ⟨s, .transition m state :: .release (.machine m) :: rest⟩ := by
    have hheld : s.isLive m = true := by
      rw [isLive_of_machine? hm, hlive]
      rfl
    simp only [Config.after, Task.carryOut, callListener, onMachine, hheld, if_true]
    rfl
  have hcourse : Course manners (⟨s, .transition m state :: .release (.machine m) :: rest⟩ ::
      ⟨s, .callListener (.enter m state) :: rest⟩ :: past) := .stepped h (by rw [Config.step?_cons, hafter])
  obtain ⟨k, n, s', hk, hn, hmoved⟩ := hcourse.moved hs hm
  obtain ⟨machine', hm', heq, -⟩ := hmoved.machine
  refine ⟨k + n + 1, s', machine', ?_, hm', by rw [heq]⟩
  rw [run_succ, hafter, Config.run_add, hk, hn]

end

/-- How the declarations of a machine count, of which `first` was the stage when it was first started. -/
structure AsDeclared (m : Nat) (ds : List Declaration) (first : Stage) (later : List Config) (c : Config)
    (machine : Machine) : Prop where
  hasState : ∀ name, machine.hasState name = ds.any fun d => d.name = name
  /-- A state is as it was declared last. -/
  state : ∀ name, machine.state? name = (ds.reverse.find? fun d => d.name = name).map Declaration.state
  /-- When the first start has installed the triggers, the machine has noted their listeners and keeps them. -/
  triggers : machine.life = .live → (∀ t ∈ c.agenda, t.installs m = false) →
    machine.triggers = (first.triggerListeners m ds).map Listener.noted
  /-- These listeners are on the page, in this order, and no others lead to a state of the machine. -/
  listeners : machine.life = .live → (∀ t ∈ c.agenda, t.installs m = false) → KeepsTriggers m later →
    c.stage.page.listeners.filter (fun l => l.call.enters m) = first.triggerListeners m ds
  /-- The call of such a listener moves the machine to the state that it is for. -/
  enters : machine.life = .live → ∀ state rest, c.agenda = .callListener (.enter m state) :: rest →
    ∃ n s' machine', Config.run n c = ⟨s', .release (.machine m) :: rest⟩ ∧ s'.machine? m = some machine' ∧
      machine'.current = some state

section
variable {manners : Manners} {a b c : Config} {later between earlier : List Config} {rest rest' : List Task}
  {name : String} {el : ElementId} {settings : Settings} {hooked : Bool} {ds : List Declaration} {m : Nat}
  {visible : Bool}

/-- **The last declaration of a state counts, and its trigger is installed once.**  The first start of a machine adds
a listener for each element that the selectors of the last declarations stand for at that moment, in the order of these
declarations, and comes to its end.  From then on, whatever happens on the stage, and however often the machine is
started or moved, it has these listeners and no others for its triggers until it is let go. -/
theorem last_declarations_count (hs : manners.sparesListeners = true)
    (h : Course manners (c :: (later ++ b :: (between ++ a :: earlier))))
    (hbuild : a.agenda = .cue (.build name el settings hooked ds) :: rest) (hhosted : a.stage.hosted = true)
    (hm : m = a.stage.machines.length) (hstart : b.agenda = .start m visible :: rest')
    (hfirst : ∀ d ∈ between, ∀ visible rest, d.agenda ≠ .start m visible :: rest) :
    (∃ n s', Config.run n b = ⟨s', .appear m visible :: rest'⟩) ∧
    ∃ machine, c.stage.machine? m = some machine ∧ AsDeclared m ds b.stage later c machine := by
  obtain ⟨s₀, agenda₀⟩ := a
  obtain ⟨s₁, agenda₁⟩ := b
  obtain rfl : agenda₀ = .cue (.build name el settings hooked ds) :: rest := hbuild
  obtain rfl : agenda₁ = .start m visible :: rest' := hstart
  subst hm
  have hb := Course.drop (c :: later) h
  have ha := Course.drop (_ :: between) hb
  have hunstarted := hb.unstarted_since
    (fun b h => by rw [h.eq_after rfl]; exact unstarted_build hhosted ha.held) hfirst
  refine ⟨run_start (hb.manners_eq.symm ▸ hs) (isLive_of_held hb.held rfl) visible, ?_⟩
  obtain ⟨mc, hmc, hmade, -⟩ := hunstarted.machine
  obtain ⟨machine, hmachine, hmade'⟩ := Course.machine?_since hmc h
  have hstates : machine.states = ds.foldl declare [] := congrArg Machine.states (hmade'.trans hmade)
  have hinstalled (hlive : machine.life = .live) :=
    h.installed hs hunstarted ((isLive_of_machine? hmachine).trans (decide_eq_true hlive))
  exact ⟨machine, hmachine, {
    hasState := Machine.hasState_of_declared hstates
    state := Machine.state?_of_declared hstates
    triggers := fun hlive hdone => (hinstalled hlive hdone).triggers_eq hmachine
    listeners := fun hlive hdone hkept => by
      rw [← (hinstalled hlive hdone).listeners hkept]
      exact (List.append_nil _).symm
    enters := fun hlive state rest hcall => by
      obtain ⟨s, agenda⟩ := c
      obtain rfl : agenda = .callListener (.enter s₀.machines.length state) :: rest := hcall
      exact h.run_enter hs hmachine hlive }⟩

end

/-- A name that is declared twice, a trigger for the entry, a trigger that cannot be read, and a name that is blank. -/
def ringing : List Declaration :=
  [.attributed "open" (some ".bell press") [], .ready ⟨"shut", [], some ⟨".bell", .entry⟩⟩,
    .attributed "torn" (some ".bell") [], .attributed " open " (some ".bell click") [], .attributed " " none []]

/-- The machine has been started twice and moved, the selector has come to stand for another element, and one of the
first elements is clicked. -/
def rung : List Config :=
  Course.play 3 ([.registerSelector ".bell" [⟨2⟩, ⟨3⟩, ⟨2⟩], .build "m" ⟨1⟩ {} false ringing, .start "m" true,
    .registerSelector ".bell" [⟨4⟩], .start "m" true, .transition "m" "shut"].foldl (Course.play 40)
      [⟨.opened {}, []⟩]) (.dispatch ⟨3⟩ "click")

/-- The machine listens for the click on the elements of the first start, once for each time that they stand there, and
for nothing else. -/
theorem last_declarations_count_rung : ∃ c later b earlier machine rest, rung = c :: (later ++ b :: earlier) ∧
    c.agenda = .callListener (.enter 0 "open") :: rest ∧ c.stage.machine? 0 = some machine ∧
      machine.current = some "shut" ∧ AsDeclared 0 ringing b.stage later c machine ∧
      machine.triggers = [(⟨2⟩, 1), (⟨3⟩, 2), (⟨2⟩, 3)] ∧ machine.hasState "default" = true ∧
      ∃ n s' machine', Config.run n c = ⟨s', .release (.machine 0) :: rest⟩ ∧ s'.machine? 0 = some machine' ∧
        machine'.current = some "open" := by
  obtain ⟨c, later, b, between, a, earlier, machine, rest, rest₀, rest', heq, hcall, hmachine, hcur, hlife, hdone,
      hbuild, hhosted, hlength, hstart, hkinds, hnoted⟩ :
      ∃ c later b between a earlier machine rest rest₀ rest', rung = c :: (later ++ b :: (between ++ a :: earlier)) ∧
        c.agenda = .callListener (.enter 0 "open") :: rest ∧ c.stage.machine? 0 = some machine ∧
        machine.current = some "shut" ∧ machine.life = .live ∧ (c.agenda.any fun t => t.installs 0) = false ∧
        a.agenda = .cue (.build "m" ⟨1⟩ {} false ringing) :: rest₀ ∧ a.stage.hosted = true ∧
        0 = a.stage.machines.length ∧ b.agenda = .start 0 true :: rest' ∧
        between.map (fun d => d.agenda.head?.map Task.kind) = [some .cue, none, some .reply] ∧
        (b.stage.triggerListeners 0 ringing).map Listener.noted = [(⟨2⟩, 1), (⟨3⟩, 2), (⟨2⟩, 3)] :=
    ⟨_, rung.tail.take 35, _, (rung.drop 37).take 3, _, _, _, _, _, _, rfl, rfl, rfl, rfl, rfl, rfl, rfl, rfl, rfl, rfl,
      rfl, rfl⟩
  have hfirst : ∀ d ∈ between, ∀ visible rest, d.agenda ≠ .start 0 visible :: rest := by
    intro d hd visible rest hagenda
    have hmem := hkinds ▸ List.mem_map_of_mem hd
    rw [hagenda] at hmem
    simp [Task.kind] at hmem
  have hcourse : Course {} rung := Course.play_course 3 (Course.plays {} 40 _ .opened) (.dispatch ⟨3⟩ "click")
  obtain ⟨-, machine', hmachine', hdeclared⟩ :=
    last_declarations_count rfl (heq ▸ hcourse) hbuild hhosted hlength hstart hfirst
  obtain rfl := Option.some.inj (hmachine.symm.trans hmachine')
  have hnone : ∀ t ∈ c.agenda, t.installs 0 = false := fun t ht =>
    Bool.eq_false_iff.2 (List.any_eq_false.1 hdone t ht)
  exact ⟨c, later, b, between ++ a :: earlier, machine, rest, heq, hcall, hmachine, hcur, hdeclared,
    (hdeclared.triggers hlife hnone).trans hnoted, (hdeclared.hasState "default").trans rfl,
    hdeclared.enters hlife "open" rest hcall⟩

end Stagecraft
