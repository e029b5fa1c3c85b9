import Mathlib.Algebra.BigOperators.Group.List.Basic
import Stagecraft.Proofs.Stage.Conclusion
import Stagecraft.Proofs.Stage.Unfolded
/-!
# States that lead to each other in circles

The states of a machine may lead to each other in circles, with reactions that have nothing to do and jump at once.
Still no operation goes around such a circle.  To enter a state fires nothing, it only binds and schedules; so each call
leads to one transition at most, and what is bound or scheduled there waits for a later call.
-/
namespace Stagecraft

/-- The calls that dispatches and frames make. -/
def Kind.isCall : Kind → Bool
  | .callOnce | .callListener | .callFrame => true
  | _ => false

/-- What is done inside a call, and by the cues for machines, where there are no scripts. -/
def Kind.isLocal : Kind → Bool
  | .script | .cue | .report | .dispatch | .deliver | .callOnce | .callListener => false
  | .tick | .frame | .callFrame | .frameOver | .untilIdle | .settle => false
  | _ => true

/-- What is done to move machines from state to state and to let go of them. -/
def Kind.isMove : Kind → Bool
  | .transition | .arrive | .bind | .bound | .detach => true
  | .start | .install | .watch | .watched | .appear | .enterDefault | .visibility | .release | .closed => true
  | _ => false

/-- What is done when an effect has come to its end. -/
def Kind.isEnding : Kind → Bool
  | .callOnce | .perform | .await | .complete | .finish | .jobOver | .pump | .run => true
  | .conclude | .stepOver | .jump | .hook | .transition | .arrive | .bind | .bound | .detach | .release | .closed => true
  | _ => false

/-- The most transitions that a task leads to, where there are no scripts. -/
def Kind.transitions : Kind → Nat
  | .start | .appear => 2
  | .callOnce | .callListener | .callFrame | .complete | .finish => 1
  | .fire | .act | .conclude | .stepOver | .jump | .enterDefault | .visibility | .transition => 1
  | _ => 0

/-- The most jobs that are started when an effect has come to its end. -/
def Kind.starts : Kind → Nat
  | .callOnce | .complete | .pump | .run => 1
  | _ => 0

namespace Stage

section
variable {s : Stage} {t : Task} {rest : List Task}

/-! ## What is left where there are no scripts -/

/-- Apart from cues, nothing dispatches an event. -/
theorem not_dispatch (hr : s.manners.reflexes = []) (ht : t.kind ≠ .cue) :
    ∀ t' ∈ (t.carryOut s rest).2, t'.kind ≠ .dispatch := by
  intro t' ht'
  have hkind := (within_carryOut s rest t).kinds t' ht'
  cases t with
  | cue => exact absurd rfl ht
  | perform op =>
    simp only [Task.carryOut, perform, reflexes_eq_nil hr] at ht'
    (repeat' split at ht') <;> cases ht'
  | await el event call =>
    simp only [Task.carryOut, await, reflexes_eq_nil hr] at ht'
    cases ht'
  | detach el id =>
    simp only [Task.carryOut, detach, reflexes_eq_nil hr] at ht'
    cases ht'
  | bind m slot again =>
    simp only [Task.carryOut, bind, attach, reflexes_eq_nil hr, List.nil_append] at ht'
    split at ht'
    · cases ht'
    · split at ht'
      · cases ht'
      · cases ht'
      · split at ht'
        · cases ht'
        · rw [List.mem_singleton.1 ht']
          exact Kind.noConfusion
  | watch m el event state =>
    simp only [Task.carryOut, watch, attach, reflexes_eq_nil hr, List.nil_append, List.mem_singleton] at ht'
    rw [ht']
    exact Kind.noConfusion
  | release hold =>
    intro heq
    rw [heq] at hkind
    cases hold <;> simp [Task.leaves] at hkind
  | _ =>
    intro heq
    rw [heq] at hkind
    simp [Task.leaves] at hkind

/-- What a task leaves besides dispatches and scripts, of which there are none. -/
theorem kinds_carryOut (Q : Kind → Prop) (h : Scriptless ⟨s, t :: rest⟩) (ht : t.kind ≠ .cue)
    (hQ : ∀ k ∈ t.leaves, k ∉ [Kind.dispatch, .script, .settle] → Q k) : ∀ t' ∈ (t.carryOut s rest).2, Q t'.kind := by
  intro t' ht'
  refine hQ _ ((within_carryOut s rest t).kinds t' ht') fun hmem => ?_
  have hscriptless := tasks_scriptless h t' ht'
  have hdispatch := not_dispatch h.manners ht t' ht'
  cases t' with
  | script | settle => cases hscriptless
  | dispatch => exact hdispatch rfl
  | _ => simp [Task.kind] at hmem

theorem isLocal_carryOut (h : Scriptless ⟨s, t :: rest⟩) (ht : t.kind.isLocal = true ∨ t.kind.isCall = true) :
    ∀ t' ∈ (t.carryOut s rest).2, t'.kind.isLocal = true := by
  cases t with
  | script | cue | report | dispatch | deliver | tick | frame | frameOver | untilIdle | settle =>
    rcases ht with ht | ht <;> cases ht
  | release hold =>
    cases hold <;> exact kinds_carryOut (Kind.isLocal · = true) h Kind.noConfusion (by simp only [Task.leaves]; decide)
  | _ => exact kinds_carryOut (Kind.isLocal · = true) h Kind.noConfusion (by simp only [Task.leaves]; decide)

theorem isMove_carryOut (h : Scriptless ⟨s, t :: rest⟩) (ht : t.kind.isMove = true) :
    ∀ t' ∈ (t.carryOut s rest).2, t'.kind.isMove = true := by
  cases t with
  | release hold =>
    cases hold <;> exact kinds_carryOut (Kind.isMove · = true) h Kind.noConfusion (by simp only [Task.leaves]; decide)
  | transition | arrive | bind | bound | detach | start | install | watch | watched | appear | enterDefault | visibility
  | closed => exact kinds_carryOut (Kind.isMove · = true) h Kind.noConfusion (by simp only [Task.leaves]; decide)
  | _ => cases ht

theorem isEnding_carryOut (h : Scriptless ⟨s, t :: rest⟩) (ht : t.kind.isEnding = true) :
    ∀ t' ∈ (t.carryOut s rest).2, t'.kind.isEnding = true := by
  cases t with
  | release hold =>
    cases hold <;> exact kinds_carryOut (Kind.isEnding · = true) h Kind.noConfusion (by simp only [Task.leaves]; decide)
  | callOnce | perform | await | complete | finish | jobOver | pump | run | conclude | stepOver | jump | hook | transition
  | arrive | bind | bound | detach | closed =>
    exact kinds_carryOut (Kind.isEnding · = true) h Kind.noConfusion (by simp only [Task.leaves]; decide)
  | _ => cases ht

/-! ## How much comes of a task -/

theorem sum_eq_zero {w : Kind → Nat} (h : ∀ k ∈ t.leaves, w k = 0) :
    ((t.carryOut s rest).2.map fun t' => w t'.kind).sum = 0 :=
  List.sum_eq_zero fun n hn => by
    obtain ⟨t', ht', rfl⟩ := List.mem_map.1 hn
    exact h _ ((within_carryOut s rest t).kinds t' ht')

theorem sum_onMachine {w : Kind → Nat} (hw : w .release = 0) (m : Nat) (t' : Task) :
    ((s.onMachine m [t']).2.map fun t' => w t'.kind).sum ≤ w t'.kind := by
  unfold onMachine
  split
  · simp [hw, Task.kind]
  · exact Nat.zero_le _

theorem sum_callOnce {w : Kind → Nat} (hperform : w .perform = 0) (hrelease : w .release = 0) (hscript : w .script = 0)
    (c : OnceCall) : ((s.callOnce rest c).2.map fun t' => w t'.kind).sum ≤ w .complete := by
  cases c with
  | outside => simp [callOnce, Task.kind, hscript]
  | effectEnd el classes token =>
    simp only [callOnce]
    split
    · simp [Task.kind, Function.comp_def, hperform, hrelease]
    · exact Nat.le_refl _

theorem sum_complete {w : Kind → Nat} (hover : w .jobOver = 0) (hrelease : w .release = 0) (token : Completion) :
    ((s.complete token).2.map fun t' => w t'.kind).sum ≤ w .finish + w .pump := by
  unfold complete
  split
  · split
    · rename_i finish _ _
      cases finish <;> simp [Task.kind, hover, hrelease]
    · exact Nat.zero_le _
  · exact Nat.zero_le _

theorem transitions_act (m : Nat) (slot : Slot) : ((s.act m slot).2.map fun t' => t'.kind.transitions).sum ≤ 1 := by
  rcases act_cases s m slot with hleft | hleft | hleft | hleft
  · exact hleft ▸ Nat.zero_le 1
  · exact hleft ▸ Nat.le_refl 1
  · exact hleft ▸ Nat.le_refl 1
  · have hsum : ((s.act m slot).2.map fun t' => t'.kind.transitions).sum = 0 := List.sum_eq_zero fun n hn => by
      obtain ⟨t', ht', rfl⟩ := List.mem_map.1 hn
      rw [hleft t' ht']
      rfl
    omega

/-- **What a task leaves leads to no more transitions than the task itself may**, where there are no scripts. -/
theorem transitions_left (ht : t.kind.isLocal = true ∨ t.kind.isCall = true) :
    (t.kind == .transition).toNat + ((t.carryOut s rest).2.map fun t' => t'.kind.transitions).sum ≤
      t.kind.transitions := by
  have hnone : (∀ k ∈ t.leaves, k.transitions = 0) → (t.kind == .transition).toNat +
      ((t.carryOut s rest).2.map fun t' => t'.kind.transitions).sum = (t.kind == .transition).toNat := fun hleaves => by
    rw [sum_eq_zero hleaves, Nat.add_zero]
  cases t with
  | script | cue | report | dispatch | deliver | tick | frame | frameOver | untilIdle | settle =>
    rcases ht with ht | ht <;> cases ht
  | callOnce c => exact Nat.zero_add _ ▸ sum_callOnce rfl rfl rfl c
  | callListener c =>
    cases c with
    | outside => exact Nat.zero_le 1
    | react m slot => exact Nat.zero_add _ ▸ sum_onMachine rfl m (.fire m slot true)
    | enter m state => exact Nat.zero_add _ ▸ sum_onMachine rfl m (.transition m state)
  | callFrame c =>
    cases c with
    | outside => exact Nat.zero_le 1
    | react m slot => exact Nat.zero_add _ ▸ sum_onMachine rfl m (.fire m slot true)
    | resume m slot => exact Nat.zero_add _ ▸ sum_onMachine rfl m (.fire m slot false)
  | complete token => exact Nat.zero_add _ ▸ sum_complete rfl rfl token
  | finish q f =>
    cases f with
    | outside => exact Nat.zero_le 1
    | reaction m slot | sequenceStep m slot step =>
      simp only [Task.carryOut, finish]
      split
      · exact Nat.le_refl 1
      · exact Nat.zero_le 1
  | act m slot anew => exact Nat.zero_add _ ▸ transitions_act m slot
  | conclude m slot =>
    simp only [Task.carryOut, conclude]
    split <;> exact Nat.le_refl 1
  | fire m slot anew | stepOver m slot k | visibility m visible =>
    simp only [Task.carryOut, fire, stepOver, visibility]
    (repeat' split) <;> first | exact Nat.zero_le 1 | exact Nat.le_refl 1
  | enterDefault m =>
    simp only [Task.carryOut, enterDefault]
    split
    · exact Nat.zero_le 1
    · split
      · exact Nat.le_refl 1
      · exact Nat.zero_le 1
  | jump m slot =>
    simp only [Task.carryOut, jump]
    (repeat' split) <;> first | exact Nat.zero_le 1 | exact Nat.le_refl 1
  | start m visible =>
    simp only [Task.carryOut, start]
    split
    · exact Nat.zero_le 2
    · simp [Task.kind, Kind.transitions, Function.comp_def]
  | appear m visible =>
    simp only [Task.carryOut, appear]
    split
    · exact Nat.zero_le 2
    · split
      · split
        · exact Nat.le_refl 2
        · exact Nat.le_succ 1
      · exact Nat.le_succ 1
  | release hold =>
    cases hold <;> exact Nat.le_of_eq (hnone (by simp only [Task.leaves]; decide))
  | _ => exact Nat.le_of_eq (hnone (by simp only [Task.leaves]; decide))

/-- **What a task leaves starts no more jobs than the task itself may**, at the end of an effect. -/
theorem starts_left (ht : t.kind.isEnding = true) :
    (t.kind == .run).toNat + ((t.carryOut s rest).2.map fun t' => t'.kind.starts).sum ≤ t.kind.starts := by
  have hnone : (∀ k ∈ t.leaves, k.starts = 0) → (t.kind == .run).toNat +
      ((t.carryOut s rest).2.map fun t' => t'.kind.starts).sum = (t.kind == .run).toNat := fun hleaves => by
    rw [sum_eq_zero hleaves, Nat.add_zero]
  cases t with
  | callOnce c => exact Nat.zero_add _ ▸ sum_callOnce rfl rfl rfl c
  | complete token => exact Nat.zero_add _ ▸ sum_complete rfl rfl token
  | pump q =>
    simp only [Task.carryOut, pump]
    split
    · exact Nat.le_refl 1
    · exact Nat.zero_le 1
  | release hold => cases hold <;> exact Nat.le_of_eq (hnone (by simp only [Task.leaves]; decide))
  | run | perform | await | finish | jobOver | conclude | stepOver | jump | hook | transition | arrive | bind | bound
  | detach | closed => exact Nat.le_of_eq (hnone (by simp only [Task.leaves]; decide))
  | _ => cases ht

end

end Stage

/-! ## What tasks unfold into -/

/-- How often something of the kind is done. -/
def times (k : Kind) (ts : List Task) : Nat := ts.countP fun t => t.kind == k

theorem times_append (k : Kind) (ts us : List Task) : times k (ts ++ us) = times k ts + times k us :=
  List.countP_append ..

theorem times_cons (k : Kind) (t : Task) (ts : List Task) : times k (t :: ts) = times k ts + (t.kind == k).toNat := by
  rw [times, List.countP_cons, ← times]
  cases t.kind == k <;> rfl

theorem times_eq_zero {Q : Kind → Bool} {k : Kind} {ts : List Task} (hts : ∀ t ∈ ts, Q t.kind = true)
    (hk : Q k = false) : times k ts = 0 := by
  refine List.countP_eq_zero.2 fun t ht heq => ?_
  have hQ := hts t ht
  rw [eq_of_beq heq, hk] at hQ
  cases hQ

open Stage

section
variable {s s' : Stage} {t : Task} {rest ts : List Task}

namespace Unfolds

theorem transitions_le (h : Unfolds rest s [t] ts s') (hs : Scriptless ⟨s, t :: rest⟩)
    (ht : t.kind.isLocal = true ∨ t.kind.isCall = true) : times .transition ts ≤ t.kind.transitions := by
  have hle := h.countP_le (P := fun t => t.kind.isLocal = true ∨ t.kind.isCall = true)
    (fun hs ht t' ht' => .inl (isLocal_carryOut hs ht t' ht')) (fun _ ht => transitions_left ht) hs
    (List.forall_mem_singleton.2 ht)
  rwa [List.map_singleton, List.sum_singleton] at hle

theorem starts_le (h : Unfolds rest s [t] ts s') (hs : Scriptless ⟨s, t :: rest⟩) (ht : t.kind = .callOnce) :
    times .run ts ≤ 1 := by
  have hle := h.countP_le (P := fun t => t.kind.isEnding = true) isEnding_carryOut (fun _ ht => starts_left ht) hs
    (List.forall_mem_singleton.2 (by rw [ht]; rfl))
  rwa [List.map_singleton, List.sum_singleton, ht] at hle

/-- **From inside a transition no reaction is fired.** -/
theorem not_fire (h : Unfolds rest s [t] ts s') (hs : Scriptless ⟨s, t :: rest⟩) (ht : t.kind.isMove = true) :
    times .fire ts = 0 :=
  times_eq_zero (h.of_all (P := fun t => t.kind.isMove = true) isMove_carryOut hs (List.forall_mem_singleton.2 ht)) rfl

/-- No call is made inside another one. -/
theorem times_call (h : Unfolds rest s [t] ts s') (hs : Scriptless ⟨s, t :: rest⟩) (ht : t.kind.isCall = true) {k : Kind}
    (hk : k.isLocal = false) : times k ts = (t.kind == k).toNat := by
  obtain ⟨ts', rfl, h'⟩ := h.single
  have hinside := h'.of_all (P := fun t => t.kind.isLocal = true) (fun hs ht => isLocal_carryOut hs (.inl ht))
    (scriptless_after hs) (isLocal_carryOut hs (.inr ht))
  rw [times_cons, times_eq_zero hinside hk, Nat.zero_add]

/-- A call comes first, and then the rest of the calls. -/
theorem of_turn {u : Task} (h : Unfolds rest s [t, u] ts s') (hs : Scriptless ⟨s, t :: u :: rest⟩)
    (ht : t.kind.isCall = true) : ∃ s₁ ts₂, Unfolds rest s₁ [u] ts₂ s' ∧ Scriptless ⟨s₁, u :: rest⟩ ∧
      (∀ k : Kind, k.isLocal = false → times k ts = (t.kind == k).toNat + times k ts₂) ∧
      times .transition ts ≤ 1 + times .transition ts₂ := by
  obtain ⟨ts₁, s₁, ts₂, rfl, hcall, hmore⟩ := h.split [t]
  refine ⟨s₁, ts₂, hmore, hcall.scriptless hs, fun k hk => ?_, ?_⟩
  · rw [times_append, hcall.times_call hs ht hk]
  · have hone : t.kind.transitions = 1 := by
      revert ht
      cases t.kind <;> decide
    have hle := hcall.transitions_le hs (.inr ht)
    rw [times_append]
    omega

/-- **A dispatch answers how many calls it has made**, and there are no more transitions than that. -/
theorem of_deliver : ∀ (once : List OnceCall) (ls : List (Nat × ListenerCall)) (ran : Nat) {s : Stage} {ts : List Task},
    Unfolds rest s [.deliver once ls ran] ts s' → Scriptless ⟨s, .deliver once ls ran :: rest⟩ →
      s'.answer = .count (ran + (times .callOnce ts + times .callListener ts)) ∧
        times .transition ts ≤ times .callOnce ts + times .callListener ts
  | c :: once, ls, ran, s, ts, h, hs => by
    obtain ⟨ts', rfl, h'⟩ := h.single
    obtain ⟨s₁, ts₂, hmore, hs₁, hcalls, hle⟩ := h'.of_turn (scriptless_after hs) rfl
    obtain ⟨hanswer, hle'⟩ := of_deliver once ls (ran + 1) hmore hs₁
    have honce : times .callOnce (.deliver (c :: once) ls ran :: ts') = 1 + times .callOnce ts₂ := hcalls .callOnce rfl
    have hlistener : times .callListener (.deliver (c :: once) ls ran :: ts') = 0 + times .callListener ts₂ :=
      hcalls .callListener rfl
    have htransition : times .transition (.deliver (c :: once) ls ran :: ts') = times .transition ts' := rfl
    refine ⟨hanswer.trans (congrArg Answer.count ?_), ?_⟩ <;> omega
  | [], (id, c) :: ls, ran, s, ts, h, hs => by
    obtain ⟨ts', rfl, h'⟩ := h.single
    have hs' := scriptless_after hs
    by_cases hid : s.page.isRegistered id = true
    · simp only [Config.after, Task.carryOut, deliver, if_pos hid] at h' hs'
      obtain ⟨s₁, ts₂, hmore, hs₁, hcalls, hle⟩ := h'.of_turn hs' rfl
      obtain ⟨hanswer, hle'⟩ := of_deliver [] ls (ran + 1) hmore hs₁
      have honce : times .callOnce (.deliver [] ((id, c) :: ls) ran :: ts') = 0 + times .callOnce ts₂ :=
        hcalls .callOnce rfl
      have hlistener : times .callListener (.deliver [] ((id, c) :: ls) ran :: ts') = 1 + times .callListener ts₂ :=
        hcalls .callListener rfl
      have htransition : times .transition (.deliver [] ((id, c) :: ls) ran :: ts') = times .transition ts' := rfl
      refine ⟨hanswer.trans (congrArg Answer.count ?_), ?_⟩ <;> omega
    · simp only [Config.after, Task.carryOut, deliver, if_neg hid] at h' hs'
      obtain ⟨hanswer, hle⟩ := of_deliver [] ls ran h' hs'
      exact ⟨hanswer, hle⟩
  | [], [], ran, s, ts, h, hs => by
    obtain ⟨ts', rfl, h'⟩ := h.single
    cases h'
    exact ⟨rfl, Nat.zero_le _⟩

theorem of_frame : ∀ (calls : List FrameCall) {s : Stage} {ts : List Task}, Unfolds rest s [.frame calls] ts s' →
    Scriptless ⟨s, .frame calls :: rest⟩ → times .callFrame ts = calls.length ∧ times .transition ts ≤ calls.length
  | [], s, ts, h, hs => by
    obtain ⟨ts', rfl, h'⟩ := h.single
    cases h'
    exact ⟨rfl, Nat.zero_le _⟩
  | c :: calls, s, ts, h, hs => by
    obtain ⟨ts', rfl, h'⟩ := h.single
    obtain ⟨s₁, ts₂, hmore, hs₁, hcalls, hle⟩ := h'.of_turn (scriptless_after hs) rfl
    obtain ⟨hlength, hle'⟩ := of_frame calls hmore hs₁
    have hframe : times .callFrame (.frame (c :: calls) :: ts') = 1 + times .callFrame ts₂ := hcalls .callFrame rfl
    have htransition : times .transition (.frame (c :: calls) :: ts') = times .transition ts' := rfl
    rw [List.length_cons]
    omega

theorem of_dispatch {el : ElementId} {event : String} (h : Unfolds rest s [.dispatch el event] ts s')
    (hs : Scriptless ⟨s, .dispatch el event :: rest⟩) :
    s'.answer = .count (times .callOnce ts + times .callListener ts) ∧
      times .transition ts ≤ times .callOnce ts + times .callListener ts := by
  obtain ⟨ts', rfl, h'⟩ := h.single
  obtain ⟨hanswer, hle⟩ := of_deliver _ _ 0 h' (scriptless_after hs)
  rw [Nat.zero_add] at hanswer
  exact ⟨hanswer, hle⟩

/-- **A frame answers how many calls it has made**, and there are no more transitions than that. -/
theorem of_tick (h : Unfolds rest s [.tick] ts s') (hs : Scriptless ⟨s, .tick :: rest⟩) :
    s'.answer = .frame s.frames.index (times .callFrame ts) ∧ times .transition ts ≤ times .callFrame ts := by
  obtain ⟨ts', rfl, h'⟩ := h.single
  obtain ⟨ts₁, s₁, ts₂, rfl, hframe, hover⟩ := h'.split [.frame s.frames.waiting]
  obtain ⟨hcalls, hle⟩ := of_frame _ hframe (scriptless_after hs)
  obtain ⟨ts₃, rfl, hnil⟩ := hover.single
  cases hnil
  have hcalls' : times .callFrame (.tick :: (ts₁ ++ [.frameOver s.frames.index s.frames.waiting.length])) =
      s.frames.waiting.length := by
    rw [times_cons, times_append, hcalls]
    rfl
  have hle' : times .transition (.tick :: (ts₁ ++ [.frameOver s.frames.index s.frames.waiting.length])) ≤
      s.frames.waiting.length := by
    rw [times_cons, times_append]
    exact hle
  rw [hcalls']
  exact ⟨rfl, hle'⟩

end Unfolds

end

/-- **Jumps never spin.**  Where the host makes no events of its own, let any machines be built with any states, and let
anything be done to them, by cues that bring no scripts and no hooks.  Whatever is done next then comes to an end, and:
- A dispatch and a frame answer how many calls they have made, and perform no more transitions than that.
- Each thing that is done on the way comes to an end too.  From inside a start, a transition or a change of visibility no
  reaction is fired; the call at the end of an effect, that of a listener and that of a frame perform one transition at
  most; and the call at the end of an effect starts one job at most. -/
theorem jumps_never_spin {manners : Manners} (hquiet : manners.reflexes = []) {cues : List Cue}
    (hcues : ∀ c ∈ cues, c.isScriptless = true) : ∃ s, Plays (.opened manners) cues s ∧
      ∀ cue, cue.isScriptless = true →
        (∃ ts s', Unfolds [] s [.cue cue] ts s' ∧ Config.run ts.length ⟨s, [.cue cue]⟩ = ⟨s', []⟩ ∧
          (∀ el event, cue = .dispatch el event →
            s'.answer = .count (times .callOnce ts + times .callListener ts) ∧
              times .transition ts ≤ times .callOnce ts + times .callListener ts) ∧
          (cue = .tick →
            s'.answer = .frame s.frames.index (times .callFrame ts) ∧ times .transition ts ≤ times .callFrame ts)) ∧
        ∀ n s₁ t rest, Config.run n ⟨s, [.cue cue]⟩ = ⟨s₁, t :: rest⟩ → ∃ us s₂, Unfolds rest s₁ [t] us s₂ ∧
          (t.kind = .start ∨ t.kind = .transition ∨ t.kind = .visibility → times .fire us = 0) ∧
          (t.kind = .callOnce ∨ t.kind = .callListener ∨ t.kind = .callFrame → times .transition us ≤ 1) ∧
          (t.kind = .callOnce → times .run us ≤ 1) := by
  obtain ⟨s, hplays, hs⟩ := (Scriptless.opened hquiet).plays hcues
  refine ⟨s, hplays, fun cue hcue => ?_⟩
  have hbegun := hs.called hcue
  constructor
  · obtain ⟨ts, s', h⟩ : ∃ ts s', Unfolds [] s [.cue cue] ts s' := hbegun.unfolds
    refine ⟨ts, s', h, h.run, ?_, ?_⟩
    · rintro el event rfl
      obtain ⟨ts', rfl, h'⟩ := h.single
      obtain ⟨hanswer, hle⟩ := h'.of_dispatch (scriptless_after hbegun)
      exact ⟨hanswer, hle⟩
    · rintro rfl
      obtain ⟨ts', rfl, h'⟩ := h.single
      obtain ⟨hanswer, hle⟩ := h'.of_tick (scriptless_after hbegun)
      exact ⟨hanswer, hle⟩
  · intro n s₁ t rest hrun
    have hs₁ : Scriptless ⟨s₁, t :: rest⟩ := hrun ▸ Config.run_preserves (fun _ _ _ => scriptless_after) n hbegun
    obtain ⟨us, s₂, h⟩ : ∃ us s₂, Unfolds rest s₁ [t] us s₂ := hs₁.unfolds
    refine ⟨us, s₂, h, fun ht => h.not_fire hs₁ ?_, fun ht => ?_, h.starts_le hs₁⟩
    · rcases ht with ht | ht | ht <;> rw [ht] <;> rfl
    · have hle := h.transitions_le hs₁ (.inr (by rcases ht with ht | ht | ht <;> rw [ht] <;> rfl))
      rcases ht with ht | ht | ht <;> rwa [ht] at hle

/-- A lamp that each click turns on or off.  The click that turns it off leads to a state that hears the next one, but the
dispatch makes one call, and with it one transition. -/
theorem jumps_never_spin_lamp :
    let cues : List Cue := [.build "lamp" ⟨1⟩ {} false
      [.ready ⟨"on", [{ on := .event "click", goto := some "off" }], none⟩,
        .ready ⟨"off", [{ on := .event "click", goto := some "on" }], none⟩], .transition "lamp" "on"]
    ∃ s ts s', Plays (.opened {}) cues s ∧ Unfolds [] s [.cue (.dispatch ⟨1⟩ "click")] ts s' ∧
      s'.answer = .count 1 ∧ s'.page.listening ⟨1⟩ "click" ≠ [] ∧ times .transition ts ≤ 1 := by
  intro cues
  have hquiet : ({} : Manners).reflexes = [] := rfl
  have hcues : ∀ c ∈ cues, c.isScriptless = true := by decide
  obtain ⟨s, hplays, hnext⟩ := jumps_never_spin hquiet hcues
  obtain ⟨⟨ts, s', h, hrun, hdispatch, -⟩, -⟩ := hnext (.dispatch ⟨1⟩ "click") rfl
  obtain ⟨hanswer, hle⟩ := hdispatch _ _ rfl
  have hlast : (Plays.last 60 (.opened {}) (cues ++ [.dispatch ⟨1⟩ "click"])).any (fun s =>
      decide (s.answer = .count 1) && !(s.page.listening ⟨1⟩ "click").isEmpty) = true := by
    decide +kernel
  obtain ⟨s'', hs'', hshown⟩ := (Option.any_eq_true _ _).1 hlast
  obtain rfl := (Plays.of_last hs'').unique (hplays.append (.cons ts.length hrun (.nil s')))
  simp only [Bool.and_eq_true, decide_eq_true_eq, Bool.not_eq_true', List.isEmpty_eq_false_iff] at hshown
  rw [hshown.1, Answer.count.injEq] at hanswer
  exact ⟨s, ts, _, hplays, h, hshown.1, hshown.2, by omega⟩

end Stagecraft
