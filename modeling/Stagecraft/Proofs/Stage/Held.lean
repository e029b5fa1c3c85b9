import Stagecraft.Proofs.Stage.Course
import Stagecraft.Proofs.Stage.Frame
/-!
# What is in use is not let go

A call that works on a machine or a queue has a hold on it that is given up only when the call is over.  So a machine
that acts is live, and a queue that is worked on is open, however deep the calls are nested.
-/
namespace Stagecraft

/-- The machine that a task works on. -/
def Task.machine? : Task → Option Nat
  | .transition m _ | .arrive m .. | .bind m .. | .bound m .. => some m
  | .fire m .. | .hook m .. | .act m .. | .conclude m _ | .stepOver m .. | .jump m _ => some m
  | .start m _ | .install m .. | .watch m .. | .watched m .. => some m
  | .appear m _ | .enterDefault m | .visibility m _ => some m
  | _ => none

/-- The queue that a task works on. -/
def Task.queue? : Task → Option Nat
  | .enqueue q _ | .pump q | .jobOver q => some q
  | _ => none

/-- The kinds of task that work on no machine and no queue. -/
def Kind.isFree : Kind → Bool
  | .enqueue | .pump | .jobOver => false
  | .transition | .arrive | .bind | .bound | .fire | .hook | .act | .conclude | .stepOver | .jump => false
  | .start | .install | .watch | .watched | .appear | .enterDefault | .visibility => false
  | _ => true

def Task.closes (m : Nat) : Task → Bool
  | .closed n => n = m
  | _ => false

namespace Stage

/-- The rest of an agenda keeps a queue in use, itself or through the machine that the queue belongs to. -/
def KeepsQueue (s : Stage) (rest : List Task) (q : Nat) : Prop :=
  Task.release (.queue q) ∈ rest ∨ ∃ m c, s.machine? m = some c ∧ c.queue = q ∧ Task.release (.machine m) ∈ rest

/-- What a task works on is given up only later. -/
structure Backed (s : Stage) (rest : List Task) (t : Task) : Prop where
  machine : ∀ m, t.machine? = some m → Task.release (.machine m) ∈ rest
  queue : ∀ q, t.queue? = some q → s.KeepsQueue rest q

def AllBacked (s : Stage) : List Task → Prop
  | [] => True
  | t :: rest => Backed s rest t ∧ AllBacked s rest

end Stage

open Stage

/-- Holds are honoured: whatever is held, by a name or by a call, is in use. -/
structure Held (c : Config) : Prop where
  backed : AllBacked c.stage c.agenda
  machines : ∀ m, m ∈ c.stage.cast.values ∨ Task.release (.machine m) ∈ c.agenda → c.stage.isLive m = true
  closing : ∀ m, Task.closed m ∈ c.agenda → ∃ mc, c.stage.machine? m = some mc ∧ mc.life = .closing
  once : ∀ m, c.agenda.countP (Task.closes m) ≤ 1
  queues : ∀ q, q ∈ c.stage.queueNames.values ∨ Task.release (.queue q) ∈ c.agenda ∨
    (∃ m mc, c.stage.machine? m = some mc ∧ mc.queue = q ∧ mc.life ≠ .closed) → c.stage.isOpen q = true

namespace Stage

theorem KeepsQueue.mono {s : Stage} {rest rest' : List Task} {q : Nat} (h : s.KeepsQueue rest q)
    (hsub : ∀ t ∈ rest, t ∈ rest') : s.KeepsQueue rest' q := by
  rcases h with h | ⟨m, c, hc, hq, h⟩
  · exact .inl (hsub _ h)
  · exact .inr ⟨m, c, hc, hq, hsub _ h⟩

theorem Backed.mono {s : Stage} {rest rest' : List Task} {t : Task} (h : Backed s rest t)
    (hsub : ∀ t ∈ rest, t ∈ rest') : Backed s rest' t :=
  ⟨fun m hm => hsub _ (h.machine m hm), fun q hq => (h.queue q hq).mono hsub⟩

theorem AllBacked.append {s : Stage} {rest : List Task} (h : AllBacked s rest) : ∀ (ts : List Task),
    (∀ t ∈ ts, Backed s rest t) → AllBacked s (ts ++ rest)
  | [], _ => h
  | t :: ts, hts =>
    ⟨(hts t List.mem_cons_self).mono fun _ ht => List.mem_append_right _ ht,
      h.append ts fun t' ht' => hts t' (List.mem_cons_of_mem _ ht')⟩

/-- A task that works on nothing. -/
theorem Backed.free {s : Stage} {rest : List Task} {t : Task} (hm : t.machine? = none) (hq : t.queue? = none) :
    Backed s rest t := ⟨fun m h => (by rw [hm] at h; cases h), fun q h => (by rw [hq] at h; cases h)⟩

/-! ## Stages with the same holds -/

structure SameHolds (s s' : Stage) : Prop where
  lives : s'.machines.map (fun c => (c.life, c.queue)) = s.machines.map fun c => (c.life, c.queue)
  closings : s'.queues.map JobQueue.closed = s.queues.map JobQueue.closed
  cast : s'.cast = s.cast
  queueNames : s'.queueNames = s.queueNames

theorem Touched.sameHolds {parts : List Part} {s s' : Stage} (h : Touched parts s s') (hl : .lives ∉ parts)
    (hc : .closings ∉ parts) (hcast : .cast ∉ parts) (hn : .queueNames ∉ parts) : SameHolds s s' :=
  ⟨h.agree .lives hl, h.agree .closings hc, h.agree .cast hcast, h.agree .queueNames hn⟩

theorem Undisturbed.sameHolds {s s' : Stage} (h : Undisturbed s s') : SameHolds s s' :=
  (h.touched []).sameHolds List.not_mem_nil List.not_mem_nil List.not_mem_nil List.not_mem_nil

theorem sameHolds_reply (s : Stage) (a : Answer) : SameHolds s (s.reply a) := ⟨rfl, rfl, rfl, rfl⟩

theorem SameHolds.machine {s s' : Stage} (h : SameHolds s s') {m : Nat} {c : Machine} (hc : s.machine? m = some c) :
    ∃ c', s'.machine? m = some c' ∧ c'.life = c.life ∧ c'.queue = c.queue := by
  have hm := congrArg (·[m]?) h.lives
  simp only [List.getElem?_map] at hm
  rw [machine?] at hc
  rw [hc, Option.map_some, Option.map_eq_some_iff] at hm
  obtain ⟨c', hc', heq⟩ := hm
  exact ⟨c', hc', congrArg Prod.fst heq, congrArg Prod.snd heq⟩

theorem SameHolds.symm {s s' : Stage} (h : SameHolds s s') : SameHolds s' s :=
  ⟨h.lives.symm, h.closings.symm, h.cast.symm, h.queueNames.symm⟩

theorem SameHolds.isLive {s s' : Stage} (h : SameHolds s s') {m : Nat} (hm : s.isLive m = true) :
    s'.isLive m = true := by
  unfold Stage.isLive at hm ⊢
  cases hc : s.machine? m with
  | none => rw [hc] at hm; cases hm
  | some c =>
    obtain ⟨c', hc', hlife, -⟩ := h.machine hc
    rw [hc] at hm
    rw [hc']
    simpa [hlife] using hm

theorem SameHolds.isOpen {s s' : Stage} (h : SameHolds s s') (q : Nat) : s'.isOpen q = s.isOpen q := by
  have hq := congrArg (·[q]?) h.closings
  simp only [List.getElem?_map] at hq
  unfold Stage.isOpen Stage.queue?
  cases hc : s.queues[q]? with
  | none =>
    rw [hc, Option.map_none, Option.map_eq_none_iff] at hq
    rw [hq]
  | some c =>
    rw [hc, Option.map_some, Option.map_eq_some_iff] at hq
    obtain ⟨c', hc', heq⟩ := hq
    rw [hc']
    simp [heq]

theorem SameHolds.keepsQueue {s s' : Stage} (h : SameHolds s s') {rest : List Task} {q : Nat}
    (hq : s.KeepsQueue rest q) : s'.KeepsQueue rest q := by
  rcases hq with hq | ⟨m, c, hc, hq, hr⟩
  · exact .inl hq
  · obtain ⟨c', hc', -, hqueue⟩ := h.machine hc
    exact .inr ⟨m, c', hc', hqueue.trans hq, hr⟩

theorem AllBacked.of_keeps {s s' : Stage} (h : ∀ rest q, s.KeepsQueue rest q → s'.KeepsQueue rest q) :
    ∀ {agenda : List Task}, AllBacked s agenda → AllBacked s' agenda
  | [], _ => trivial
  | _ :: rest, ⟨ht, hrest⟩ => ⟨⟨ht.machine, fun q hq => h rest q (ht.queue q hq)⟩, AllBacked.of_keeps h hrest⟩

theorem held_sameHolds {s s' : Stage} {agenda : List Task} (h : Held ⟨s, agenda⟩) (hs : SameHolds s s') :
    Held ⟨s', agenda⟩ where
  backed := h.backed.of_keeps fun _ _ => hs.keepsQueue
  machines m hm := hs.isLive (h.machines m (by simpa only [hs.cast] using hm))
  closing m hm := by
    obtain ⟨c, hc, hlife⟩ := h.closing m hm
    obtain ⟨c', hc', hl, -⟩ := hs.machine hc
    exact ⟨c', hc', hl.trans hlife⟩
  once := h.once
  queues q hq := by
    rw [hs.isOpen]
    refine h.queues q ?_
    rcases hq with hq | hq | ⟨m, c', hc', hqueue, hlife⟩
    · exact .inl (by simpa only [hs.queueNames] using hq)
    · exact .inr (.inl hq)
    · obtain ⟨c, hc, hl, hq⟩ := hs.symm.machine hc'
      exact .inr (.inr ⟨m, c, hc, hq.trans hqueue, fun heq => hlife (hl.symm.trans heq)⟩)

theorem held_tail {s : Stage} {t : Task} {rest : List Task} (h : Held ⟨s, t :: rest⟩) : Held ⟨s, rest⟩ where
  backed := h.backed.2
  machines m hm := h.machines m (hm.imp_right (List.mem_cons_of_mem _))
  closing m hm := h.closing m (List.mem_cons_of_mem _ hm)
  once m := Nat.le_trans (List.Sublist.countP_le (List.sublist_cons_self _ _)) (h.once m)
  queues q hq := h.queues q (hq.imp_right (Or.imp_left (List.mem_cons_of_mem _)))

/-- New tasks are no harm if what they work on and what they give up is held already. -/
theorem held_append {s : Stage} {rest : List Task} (ts : List Task) (h : Held ⟨s, rest⟩) (hb : AllBacked s (ts ++ rest))
    (hm : ∀ m, Task.release (.machine m) ∈ ts → s.isLive m = true)
    (hq : ∀ q, Task.release (.queue q) ∈ ts → s.isOpen q = true) (hc : ∀ m, ts.countP (Task.closes m) = 0) :
    Held ⟨s, ts ++ rest⟩ where
  backed := hb
  machines m hmem := by
    rcases hmem with hmem | hmem
    · exact h.machines m (.inl hmem)
    · rcases List.mem_append.1 hmem with hmem | hmem
      · exact hm m hmem
      · exact h.machines m (.inr hmem)
  closing m hmem := by
    rcases List.mem_append.1 hmem with hmem | hmem
    · have := List.countP_eq_zero.1 (hc m) _ hmem
      simp [Task.closes] at this
    · exact h.closing m hmem
  once m := by
    have := h.once m
    simp only at this ⊢
    rw [List.countP_append, hc, Nat.zero_add]
    exact this
  queues q hmem := by
    rcases hmem with hmem | hmem | hmem
    · exact h.queues q (.inl hmem)
    · rcases List.mem_append.1 hmem with hmem | hmem
      · exact hq q hmem
      · exact h.queues q (.inr (.inl hmem))
    · exact h.queues q (.inr (.inr hmem))

/-! ## What a task leaves works on nothing else -/

/-- A task works on nothing that the one before it does not have a hold on. -/
structure Follows (s : Stage) (t t' : Task) : Prop where
  machine : ∀ m, t'.machine? = some m → t.machine? = some m
  queue : ∀ q, t'.queue? = some q → t.queue? = some q ∨ ∃ m c, t.machine? = some m ∧ s.machine? m = some c ∧ c.queue = q

theorem Follows.backed {s : Stage} {rest : List Task} {t t' : Task} (h : Follows s t t') (ht : Backed s rest t) :
    Backed s rest t' := by
  refine ⟨fun m hm => ht.machine m (h.machine m hm), fun q hq => ?_⟩
  rcases h.queue q hq with hq | ⟨m, c, hm, hc, hq⟩
  · exact ht.queue q hq
  · exact .inr ⟨m, c, hc, hq, ht.machine m hm⟩

theorem machine?_of_isFree {t : Task} (h : t.kind.isFree = true) : t.machine? = none ∧ t.queue? = none := by
  cases t with
  | enqueue | pump | jobOver | transition | arrive | bind | bound | fire | hook | act | conclude | stepOver | jump |
    start | install | watch | watched | appear | enterDefault | visibility => cases h
  | _ => exact ⟨rfl, rfl⟩

theorem Follows.free (s : Stage) (t : Task) {t' : Task} (h : t'.kind.isFree = true) : Follows s t t' := by
  obtain ⟨hm, hq⟩ := machine?_of_isFree h
  exact ⟨fun m h => (by rw [hm] at h; cases h), fun q h => (by rw [hq] at h; cases h)⟩

/-- A task that works on the same machine. -/
theorem Follows.same (s : Stage) {t t' : Task} (hm : t'.machine? = t.machine?) (hq : t'.queue? = none) :
    Follows s t t' := ⟨fun m h => hm ▸ h, fun q h => (by rw [hq] at h; cases h)⟩

theorem follows_transition (s : Stage) (m : Nat) (state : String) :
    ∀ t' ∈ (s.transition m state).2, Follows s (.transition m state) t' := by
  intro t' ht
  unfold transition at ht
  split at ht
  · cases ht
  · split at ht
    · rw [List.mem_singleton.1 ht]
      exact .same s rfl rfl
    · simp only [List.mem_append, List.mem_map, List.mem_singleton] at ht
      rcases ht with ⟨_, -, rfl⟩ | rfl
      · exact .free s _ rfl
      · exact .same s rfl rfl

theorem follows_arrive (s : Stage) (m : Nat) (state : String) (again : Bool) :
    ∀ t' ∈ (s.arrive m state again).2, Follows s (.arrive m state again) t' := by
  intro t' ht
  unfold arrive at ht
  simp only at ht
  generalize (s.mapMachine m fun c => { c with current := if again then c.current else some state }) = s' at ht
  split at ht
  · cases ht
  · split at ht
    · cases ht
    · obtain ⟨_, -, rfl⟩ := List.mem_map.1 ht
      exact .same s rfl rfl

theorem follows_attach (s : Stage) (el : ElementId) (event : String) (call : ListenerCall) (next : Nat → Task)
    (t : Task) (hm : ∀ id, (next id).machine? = t.machine?) (hq : ∀ id, (next id).queue? = none) :
    ∀ t' ∈ (s.attach el event call next).2, Follows s t t' := by
  intro t' ht
  rcases List.mem_append.1 ht with ht | ht
  · exact .free s t (by rw [kind_reflexes s _ _ _ t' ht]; rfl)
  · rw [List.mem_singleton.1 ht]
    exact .same s (hm _) (hq _)

theorem follows_bind (s : Stage) (m : Nat) (slot : Slot) (again : Bool) :
    ∀ t' ∈ (s.bind m slot again).2, Follows s (.bind m slot again) t' := by
  intro t' ht
  unfold bind at ht
  split at ht
  · cases ht
  · split at ht
    · cases ht
    · cases ht
    · split at ht
      · cases ht
      · exact follows_attach s _ _ _ (.bound m slot.index) _ (fun _ => rfl) (fun _ => rfl) t' ht

theorem follows_fire (s : Stage) (m : Nat) (slot : Slot) (anew : Bool) :
    ∀ t' ∈ (s.fire m slot anew).2, Follows s (.fire m slot anew) t' := by
  intro t' ht
  unfold fire at ht
  split at ht
  · cases ht
  · split at ht
    · cases ht
    · simp only [List.mem_cons, List.not_mem_nil, or_false] at ht
      rcases ht with rfl | rfl <;> exact .same s rfl rfl

theorem follows_act (s : Stage) (m : Nat) (slot : Slot) (anew : Bool) :
    ∀ t' ∈ (s.act m slot).2, Follows s (.act m slot anew) t' := by
  intro t' ht
  unfold act at ht
  split at ht
  · cases ht
  · rename_i c hc
    have henqueue : ∀ job, Follows s (.act m slot anew) (.enqueue c.queue job) := fun job =>
      ⟨fun n hn => (by cases hn), fun q hq => .inr ⟨m, c, rfl, hc, Option.some.inj hq⟩⟩
    split at ht
    · cases ht
    · split at ht
      · rw [List.mem_singleton.1 ht]
        exact .same s rfl rfl
      · split at ht
        · unfold runAll at ht
          split at ht
          · rw [List.mem_singleton.1 ht]
            exact .same s rfl rfl
          · obtain ⟨job, -, rfl⟩ := List.mem_map.1 ht
            exact henqueue job
        · unfold runNext at ht
          simp only at ht
          split at ht
          · cases ht
          · split at ht
            · cases ht
            · rw [List.mem_singleton.1 ht]
              exact henqueue _

theorem follows_conclude (s : Stage) (m : Nat) (slot : Slot) :
    ∀ t' ∈ (s.conclude m slot).2, Follows s (.conclude m slot) t' := by
  intro t' ht
  unfold conclude at ht
  rcases List.mem_cons.1 ht with rfl | ht
  · exact .same s rfl rfl
  · split at ht
    · rw [List.mem_singleton.1 ht]
      exact .same s rfl rfl
    · cases ht

theorem follows_stepOver (s : Stage) (m : Nat) (slot : Slot) (k : Nat) :
    ∀ t' ∈ (s.stepOver m slot k).2, Follows s (.stepOver m slot k) t' := by
  intro t' ht
  unfold stepOver at ht
  split at ht
  · cases ht
  · split at ht
    · cases ht
    · rw [List.mem_singleton.1 ht]
      exact .same s rfl rfl

theorem follows_jump (s : Stage) (m : Nat) (slot : Slot) : ∀ t' ∈ (s.jump m slot).2, Follows s (.jump m slot) t' := by
  intro t' ht
  unfold jump at ht
  split at ht
  · cases ht
  · split at ht
    · cases ht
    · split at ht
      · cases ht
      · split at ht
        · simp only [List.mem_cons, List.not_mem_nil, or_false] at ht
          rcases ht with rfl | rfl
          · exact .free s _ rfl
          · exact .same s rfl rfl
        · rw [List.mem_singleton.1 ht]
          exact .same s rfl rfl

theorem follows_start (s : Stage) (m : Nat) (visible : Bool) :
    ∀ t' ∈ (s.start m visible).2, Follows s (.start m visible) t' := by
  intro t' ht
  unfold start at ht
  split at ht
  · cases ht
  · simp only [List.mem_append, List.mem_map, List.mem_singleton] at ht
    rcases ht with ⟨⟨_, _⟩, -, rfl⟩ | rfl <;> exact .same s rfl rfl

theorem follows_install (s : Stage) (m : Nat) (state : String) (trigger : Trigger) :
    ∀ t' ∈ (s.install m state trigger).2, Follows s (.install m state trigger) t' := by
  intro t' ht
  unfold install at ht
  split at ht
  · cases ht
  · obtain ⟨_, -, rfl⟩ := List.mem_map.1 ht
    exact .same s rfl rfl

theorem follows_appear (s : Stage) (m : Nat) (visible : Bool) :
    ∀ t' ∈ (s.appear m visible).2, Follows s (.appear m visible) t' := by
  intro t' ht
  unfold appear at ht
  split at ht
  · cases ht
  · split at ht
    · simp only at ht
      split at ht
      · simp only [List.mem_cons, List.not_mem_nil, or_false] at ht
        rcases ht with rfl | rfl <;> exact .same s rfl rfl
      · rw [List.mem_singleton.1 ht]
        exact .same s rfl rfl
    · rw [List.mem_singleton.1 ht]
      exact .same s rfl rfl

theorem follows_enterDefault (s : Stage) (m : Nat) :
    ∀ t' ∈ (s.enterDefault m).2, Follows s (.enterDefault m) t' := by
  intro t' ht
  unfold enterDefault at ht
  split at ht
  · cases ht
  · simp only at ht
    split at ht
    · rw [List.mem_singleton.1 ht]
      exact .same s rfl rfl
    · cases ht

theorem follows_visibility (s : Stage) (m : Nat) (visible : Bool) :
    ∀ t' ∈ (s.visibility m visible).2, Follows s (.visibility m visible) t' := by
  intro t' ht
  unfold visibility at ht
  split at ht
  · cases ht
  · split at ht
    · rw [List.mem_singleton.1 ht]
      exact .same s rfl rfl
    · cases ht

/-- A task that gives nothing up leaves only tasks on what it works on itself. -/
theorem follows_carryOut (s : Stage) (agenda : List Task) {t : Task} (h : .release ∉ t.leaves) :
    ∀ t' ∈ (t.carryOut s agenda).2, Follows s t t' := by
  have hfree : (∀ kind ∈ t.leaves, kind.isFree = true) → ∀ t' ∈ (t.carryOut s agenda).2, Follows s t t' :=
    fun hl t' ht => .free s t (hl _ ((within_carryOut s agenda t).kinds t' ht))
  cases t with
  | transition m state => exact follows_transition s m state
  | arrive m state again => exact follows_arrive s m state again
  | bind m slot again => exact follows_bind s m slot again
  | fire m slot anew => exact follows_fire s m slot anew
  | act m slot anew => exact follows_act s m slot anew
  | conclude m slot => exact follows_conclude s m slot
  | stepOver m slot k => exact follows_stepOver s m slot k
  | jump m slot => exact follows_jump s m slot
  | start m visible => exact follows_start s m visible
  | install m state trigger => exact follows_install s m state trigger
  | watch m el event state =>
    exact follows_attach s el event (.enter m state) (.watched m el) _ (fun _ => rfl) fun _ => rfl
  | appear m visible => exact follows_appear s m visible
  | enterDefault m => exact follows_enterDefault s m
  | visibility m visible => exact follows_visibility s m visible
  | enqueue q job =>
    intro t' ht
    rw [List.mem_singleton.1 ht]
    exact ⟨fun n hn => (by cases hn), fun _ hq => .inl hq⟩
  | callOnce | callListener | callFrame | run | complete | finish | closed =>
    exact absurd (by simp [Task.leaves]) h
  | release hold =>
    cases hold with
    | machine m => exact hfree (by simp [Task.leaves, Kind.isFree])
    | queue q => exact hfree (by simp [Task.leaves])
    | host => exact hfree (by simp [Task.leaves])
  | cue c =>
    cases c with
    | dispatch | tick | runUntilIdle | complete | dropToken =>
      exact hfree (by simp [Task.leaves, Cue.leaves, Kind.isFree])
    | build | drop | queue | queueClone | queueDrop | start | transition | visibility | enqueue | effectJob =>
      exact absurd (by simp [Task.leaves, Cue.leaves]) h
    | _ => exact hfree (by simp [Task.leaves, Cue.leaves])
  | _ => exact hfree (by simp [Task.leaves, Kind.isFree])

/-! ## Every task honours the holds -/

section
variable {s : Stage} {t : Task} {rest : List Task}

/-- Tasks that follow on `t`, and give up only what is in use. -/
theorem held_of_follows {ts : List Task} (h : Held ⟨s, t :: rest⟩) (hf : ∀ t' ∈ ts, Follows s t t')
    (hm : ∀ m, Task.release (.machine m) ∈ ts → s.isLive m = true)
    (hq : ∀ q, Task.release (.queue q) ∈ ts → s.isOpen q = true) (hc : ∀ m, Task.closed m ∉ ts) :
    Held ⟨s, ts ++ rest⟩ := by
  refine held_append _ (held_tail h) (h.backed.2.append ts fun t' ht' => (hf t' ht').backed h.backed.1) hm hq
    fun m => ?_
  refine List.countP_eq_zero.2 fun t' ht' hcl => ?_
  cases t' with
  | closed n => exact hc n ht'
  | _ => cases hcl

theorem ne_of_kind {ts : List Task} {kinds : List Kind} (h : ∀ t ∈ ts, t.kind ∈ kinds) {t : Task}
    (ht : t.kind ∉ kinds) : t ∉ ts := fun hmem => ht (h t hmem)

/-- A task that neither gives up holds nor changes who is in use. -/
theorem held_of_plain (h : Held ⟨s, t :: rest⟩) (hr : .release ∉ t.leaves) (hc : .closed ∉ t.leaves)
    (hl : .lives ∉ t.touches) (hcl : .closings ∉ t.touches) (hcast : .cast ∉ t.touches)
    (hn : .queueNames ∉ t.touches) : Held (.after s t rest) := by
  have hw := within_carryOut s rest t
  refine held_sameHolds ?_ (hw.touched.sameHolds hl hcl hcast hn)
  exact held_of_follows h (follows_carryOut s rest hr) (fun m hm => absurd hm (ne_of_kind hw.kinds hr))
    (fun q hq => absurd hq (ne_of_kind hw.kinds hr)) fun m => ne_of_kind hw.kinds hc

/-- A task that goes before the release of what it works on. -/
theorem held_holding {hold : Hold} (h : Held ⟨s, rest⟩) (hb : Backed s (.release hold :: rest) t)
    (hm : ∀ m, hold = .machine m → s.isLive m = true) (hq : ∀ q, hold = .queue q → s.isOpen q = true)
    (hr : ∀ hold', t ≠ .release hold') (hc : ∀ m, t ≠ .closed m) : Held ⟨s, t :: .release hold :: rest⟩ := by
  refine held_append [t, .release hold] h ⟨hb, .free rfl rfl, h.backed⟩ (fun m hmem => ?_) (fun q hmem => ?_)
    fun m => ?_
  · rcases List.mem_cons.1 hmem with hmem | hmem
    · exact absurd hmem.symm (hr _)
    · cases List.mem_singleton.1 hmem
      exact hm m rfl
  · rcases List.mem_cons.1 hmem with hmem | hmem
    · exact absurd hmem.symm (hr _)
    · cases List.mem_singleton.1 hmem
      exact hq q rfl
  · refine List.countP_eq_zero.2 fun t' ht' hcl => ?_
    cases t' with
    | closed n =>
      rcases List.mem_cons.1 ht' with ht' | ht'
      · exact hc n ht'.symm
      · cases List.mem_singleton.1 ht'
    | _ => cases hcl

/-- A call on a machine that is live. -/
theorem held_onMachine (h : Held ⟨s, t :: rest⟩) (m : Nat) {t' : Task} (hm : t'.machine? = some m)
    (hq : t'.queue? = none) (hc : ∀ n, t' ≠ .closed n) : Held ⟨s, (s.onMachine m [t']).2 ++ rest⟩ := by
  unfold onMachine
  simp only
  split
  · rename_i hlive
    refine held_holding (held_tail h) ⟨fun n hn => ?_, fun q hn => by rw [hq] at hn; cases hn⟩ (fun n hn => ?_)
      (fun q hn => by cases hn) (fun hold heq => ?_) hc
    · obtain rfl : m = n := Option.some.inj (hm.symm.trans hn)
      exact List.mem_cons_self
    · cases hn
      exact hlive
    · rw [heq] at hm
      cases hm
  · exact held_tail h

theorem held_of_kinds {ts : List Task} {kinds : List Kind} (h : Held ⟨s, t :: rest⟩) (hk : ∀ t' ∈ ts, t'.kind ∈ kinds)
    (hfree : ∀ kind ∈ kinds, kind.isFree = true) (hc : .closed ∉ kinds)
    (hm : ∀ m, Task.release (.machine m) ∈ ts → s.isLive m = true)
    (hq : ∀ q, Task.release (.queue q) ∈ ts → s.isOpen q = true) : Held ⟨s, ts ++ rest⟩ :=
  held_of_follows h (fun t' ht' => .free s t (hfree _ (hk t' ht'))) hm hq fun _ => ne_of_kind hk hc

theorem held_script (h : Held ⟨s, t :: rest⟩) (e : Entry) (cues : List Cue) :
    Held ⟨s.record e, .script cues :: rest⟩ := by
  refine held_sameHolds (s := s) ?_ (undisturbed_record s e).sameHolds
  refine held_append _ (held_tail h) (h.backed.2.append [.script cues] fun t' ht' => ?_) (fun m hm => ?_)
    (fun q hq => ?_)
    fun m => rfl
  · rw [List.mem_singleton.1 ht']
    exact .free rfl rfl
  · cases List.mem_singleton.1 hm
  · cases List.mem_singleton.1 hq

theorem held_callOnce {c : OnceCall} (h : Held ⟨s, .callOnce c :: rest⟩) : Held (.after s (.callOnce c) rest) := by
  have hw := within_callOnce s rest c
  refine held_sameHolds ?_
    (hw.touched.sameHolds List.not_mem_nil List.not_mem_nil List.not_mem_nil List.not_mem_nil)
  have hhost : ∀ hold, Task.release hold ∈ (s.callOnce rest c).2 → hold = .host := by
    intro hold hmem
    cases c with
    | effectEnd el classes token =>
      simp only [callOnce] at hmem
      split at hmem
      · simp at hmem
        exact hmem
      · simp at hmem
    | outside label script => simp [callOnce] at hmem
  exact held_of_kinds h hw.kinds (by decide) (by decide) (fun m hm => by cases hhost _ hm) fun q hq => by
    cases hhost _ hq

theorem held_run {body : JobBody} {token : Completion} (h : Held ⟨s, .run body token :: rest⟩) :
    Held (.after s (.run body token) rest) := by
  have hw := within_run s body token
  refine held_sameHolds ?_
    (hw.touched.sameHolds List.not_mem_nil List.not_mem_nil List.not_mem_nil List.not_mem_nil)
  have hhost : ∀ hold, Task.release hold ∈ (s.run body token).2 → hold = .host := by
    intro hold hmem
    cases body with
    | effect p =>
      simp [run] at hmem
      exact hmem
    | outside name script fate =>
      simp only [run] at hmem
      split at hmem <;> simp at hmem
  exact held_of_kinds h hw.kinds (by decide) (by decide) (fun m hm => by cases hhost _ hm) fun q hq => by
    cases hhost _ hq

theorem held_callListener {c : ListenerCall} (h : Held ⟨s, .callListener c :: rest⟩) :
    Held (.after s (.callListener c) rest) := by
  cases c with
  | react m slot => exact held_onMachine h m rfl rfl fun n hn => by cases hn
  | enter m state => exact held_onMachine h m rfl rfl fun n hn => by cases hn
  | outside label script => exact held_script h _ script

theorem held_callFrame {c : FrameCall} (h : Held ⟨s, .callFrame c :: rest⟩) : Held (.after s (.callFrame c) rest) := by
  cases c with
  | react m slot => exact held_onMachine h m rfl rfl fun n hn => by cases hn
  | resume m slot => exact held_onMachine h m rfl rfl fun n hn => by cases hn
  | outside label script => exact held_script h _ script

theorem held_finish {q : Nat} {f : Finish} (h : Held ⟨s, .finish q f :: rest⟩) :
    Held (.after s (.finish q f) rest) := by
  cases f with
  | reaction m slot => exact @held_onMachine s _ rest h m (.conclude m slot) rfl rfl fun n hn => by cases hn
  | sequenceStep m slot k => exact @held_onMachine s _ rest h m (.stepOver m slot k) rfl rfl fun n hn => by cases hn
  | outside label script => exact held_script h _ script

/-- The end of a job keeps its queue until the next job has started. -/
theorem held_complete {token : Completion} (h : Held ⟨s, .complete token :: rest⟩) :
    Held (.after s (.complete token) rest) := by
  have hw := within_complete s token
  refine held_sameHolds ?_ (hw.touched.sameHolds (by decide) (by decide) (by decide) (by decide))
  simp only [Task.carryOut, complete]
  split
  · rename_i hopen
    split
    · rename_i f q' _
      have hkeep : s.KeepsQueue (Task.release (.queue token.queue) :: rest) token.queue := .inl List.mem_cons_self
      have hqueues :
          AllBacked s ([Task.jobOver token.queue, .pump token.queue, .release (.queue token.queue)] ++ rest) :=
        ⟨⟨fun n hn => (by cases hn), fun q hq => by cases hq; exact hkeep.mono fun _ => List.mem_cons_of_mem _⟩,
          ⟨fun n hn => (by cases hn), fun q hq => by cases hq; exact hkeep⟩, .free rfl rfl, h.backed.2⟩
      refine held_append _ (held_tail h) ?_ (fun m hm => by simp at hm) (fun q hq => ?_) fun m => ?_
      · rw [List.append_assoc]
        refine hqueues.append _ fun t' ht' => ?_
        obtain ⟨_, -, rfl⟩ := List.mem_map.1 ht'
        exact .free rfl rfl
      · simp only [List.mem_append, List.mem_map, reduceCtorEq, and_false, exists_false, List.mem_cons, false_or,
          Task.release.injEq, Hold.queue.injEq, List.not_mem_nil, or_false] at hq
        rw [hq]
        exact hopen
      · refine List.countP_eq_zero.2 fun t' ht' hcl => ?_
        simp only [List.mem_append, List.mem_map, List.mem_cons, List.not_mem_nil, or_false] at ht'
        rcases ht' with ⟨_, -, rfl⟩ | rfl | rfl | rfl <;> cases hcl
    · exact held_tail h
  · exact held_tail h

theorem isLive_of_machine? {m : Nat} {c : Machine} (hc : s.machine? m = some c) :
    s.isLive m = decide (c.life = .live) := by
  rw [isLive, hc]

theorem exists_machine?_of_isLive {m : Nat} (h : s.isLive m = true) : ∃ c, s.machine? m = some c := by
  cases hc : s.machine? m with
  | none =>
    rw [isLive, hc] at h
    cases h
  | some c => exact ⟨c, rfl⟩

theorem holdsMachine_eq_false {m : Nat} (h : s.holdsMachine rest m = false) :
    m ∉ s.cast.values ∧ Task.release (.machine m) ∉ rest := by
  unfold holdsMachine Task.holds at h
  rw [Bool.or_eq_false_iff] at h
  refine ⟨by simpa using h.1, fun hmem => ?_⟩
  have := List.any_eq_false.1 h.2 _ hmem
  simp at this

theorem holdsQueue_eq_false {q : Nat} (h : s.holdsQueue rest q = false) : q ∉ s.queueNames.values ∧
    Task.release (.queue q) ∉ rest ∧ ∀ m c, s.machine? m = some c → c.queue = q → c.life = .closed := by
  unfold holdsQueue Task.holds at h
  rw [Bool.or_eq_false_iff, Bool.or_eq_false_iff] at h
  refine ⟨by simpa using h.1.1, fun hmem => ?_, fun m c hc hq => ?_⟩
  · have := List.any_eq_false.1 h.2 _ hmem
    simp at this
  · have := List.any_eq_false.1 h.1.2 c (List.mem_of_getElem? hc)
    simpa [hq] using this

theorem machine?_mapMachine_eq_some {m n : Nat} {f : Machine → Machine} {c' : Machine}
    (hc : (s.mapMachine m f).machine? n = some c') :
    (n ≠ m ∧ s.machine? n = some c') ∨ ∃ c, n = m ∧ s.machine? m = some c ∧ c' = f c := by
  by_cases hn : n = m
  · subst hn
    rw [machine?_mapMachine_self] at hc
    obtain ⟨c, hc', rfl⟩ := Option.map_eq_some_iff.1 hc
    exact .inr ⟨c, rfl, hc', rfl⟩
  · rw [machine?_mapMachine_ne s hn] at hc
    exact .inl ⟨hn, hc⟩

/-- A change of a machine that leaves it its queue. -/
theorem keepsQueue_mapMachine {m q : Nat} {f : Machine → Machine} (hf : ∀ c, (f c).queue = c.queue) {ts : List Task}
    (h : s.KeepsQueue ts q) : (s.mapMachine m f).KeepsQueue ts q := by
  rcases h with h | ⟨n, c, hc, hq, h⟩
  · exact .inl h
  · by_cases hn : n = m
    · subst hn
      exact .inr ⟨n, f c, by rw [machine?_mapMachine_self, hc]; rfl, (hf c).trans hq, h⟩
    · exact .inr ⟨n, c, by rw [machine?_mapMachine_ne s hn]; exact hc, hq, h⟩

theorem isLive_mapMachine_ne {m n : Nat} (h : n ≠ m) (f : Machine → Machine) :
    (s.mapMachine m f).isLive n = s.isLive n := by
  rw [isLive, isLive, machine?_mapMachine_ne s h]

/-- A machine that no one holds any more stops being live, and is to be closed once. -/
theorem held_closing {m : Nat} {c : Machine} (h : Held ⟨s, rest⟩) (hc : s.machine? m = some c) (hlife : c.life = .live)
    (hcast : m ∉ s.cast.values) (hrel : Task.release (.machine m) ∉ rest) :
    Held ⟨s.mapMachine m fun c => { c with life := .closing, bindings := [], triggers := [] }, .closed m :: rest⟩ := by
  -- nothing on the agenda closes the machine yet, for it was live
  have hnot : Task.closed m ∉ rest := by
    intro hmem
    obtain ⟨c', hc', hl⟩ := h.closing m hmem
    rw [hc, Option.some.injEq] at hc'
    rw [← hc', hlife] at hl
    cases hl
  constructor
  · refine AllBacked.of_keeps (s := s) (fun _ _ hq => ?_) ⟨.free rfl rfl, h.backed⟩
    refine keepsQueue_mapMachine ?_ hq
    exact fun _ => rfl
  · intro n hn
    have hn' : n ∈ s.cast.values ∨ Task.release (.machine n) ∈ rest := by
      refine hn.imp_right fun hn => ?_
      rcases List.mem_cons.1 hn with heq | hn
      · cases heq
      · exact hn
    have hne : n ≠ m := by
      rintro rfl
      exact hn'.elim hcast hrel
    rw [isLive_mapMachine_ne hne]
    exact h.machines n hn'
  · intro n hn
    rcases List.mem_cons.1 hn with heq | hin
    · cases heq
      exact ⟨_, by rw [machine?_mapMachine_self, hc]; rfl, rfl⟩
    · have hne : n ≠ m := by
        rintro rfl
        exact hnot hin
      rw [machine?_mapMachine_ne s hne]
      exact h.closing n hin
  · intro n
    by_cases hnm : n = m
    · have hzero : rest.countP (Task.closes n) = 0 := by
        refine List.countP_eq_zero.2 fun t ht hcl => ?_
        cases t with
        | closed k =>
          have hk : k = n := by simpa [Task.closes] using hcl
          rw [hk, hnm] at ht
          exact hnot ht
        | _ => cases hcl
      simp only [List.countP_cons, hzero, Nat.zero_add]
      split
      · exact Nat.le_refl _
      · exact Nat.zero_le _
    · have hother : Task.closes n (.closed m) = false := by simp [Task.closes, Ne.symm hnm]
      simp only [List.countP_cons, hother, Bool.false_eq_true, if_false, Nat.add_zero]
      exact h.once n
  · intro q hq
    refine h.queues q ?_
    rcases hq with hq | hq | ⟨n, c', hc', hqueue, hlife'⟩
    · exact .inl hq
    · rcases List.mem_cons.1 hq with heq | hq
      · cases heq
      · exact .inr (.inl hq)
    · rcases machine?_mapMachine_eq_some hc' with ⟨-, hc'⟩ | ⟨c'', rfl, hc'', rfl⟩
      · exact .inr (.inr ⟨n, c', hc', hqueue, hlife'⟩)
      · obtain rfl : c = c'' := Option.some.inj (hc.symm.trans hc'')
        exact .inr (.inr ⟨n, c, hc, hqueue, fun hn => (by rw [hlife] at hn; cases hn)⟩)

/-- Tasks that detach listeners work on nothing and give up nothing. -/
theorem held_detaching {ds : List Task} (h : Held ⟨s, rest⟩) (hd : ∀ d ∈ ds, ∃ el id, d = Task.detach el id) :
    Held ⟨s, ds ++ rest⟩ := by
  refine held_append ds h (h.backed.append ds fun t ht => ?_) (fun m hm => ?_) (fun q hq => ?_) fun m => ?_
  · obtain ⟨el, id, rfl⟩ := hd t ht
    exact .free rfl rfl
  · obtain ⟨el, id, heq⟩ := hd _ hm
    cases heq
  · obtain ⟨el, id, heq⟩ := hd _ hq
    cases heq
  · refine List.countP_eq_zero.2 fun t ht hcl => ?_
    obtain ⟨el, id, rfl⟩ := hd t ht
    cases hcl

theorem held_releaseMachine {m : Nat} (h : Held ⟨s, .release (.machine m) :: rest⟩) :
    Held (.after s (.release (.machine m)) rest) := by
  have hrest := held_tail h
  simp only [Config.after, Task.carryOut, release]
  cases hc : s.machine? m with
  | none => exact hrest
  | some c =>
    simp only
    split
    · rename_i hcond
      obtain ⟨hlife, hno⟩ := Bool.and_eq_true_iff.1 hcond
      obtain ⟨hcast, hrel⟩ := holdsMachine_eq_false (by simpa using hno)
      have hdetach : ∀ d ∈ c.bound.map (Task.detach c.element) ++ c.triggers.map (fun t => Task.detach t.1 t.2),
          ∃ el id, d = Task.detach el id := by
        intro d hd
        rcases List.mem_append.1 hd with hd | hd
        · obtain ⟨id, -, rfl⟩ := List.mem_map.1 hd
          exact ⟨_, id, rfl⟩
        · obtain ⟨⟨el, id⟩, -, rfl⟩ := List.mem_map.1 hd
          exact ⟨el, id, rfl⟩
      have hheld := held_detaching (held_closing hrest hc (by simpa using hlife) hcast hrel) hdetach
      simp only [List.append_assoc, List.cons_append, List.nil_append] at hheld ⊢
      exact hheld
    · exact hrest

theorem isOpen_mapQueue_ne {p q : Nat} (h : p ≠ q) (f : JobQueue → JobQueue) :
    (s.mapQueue q f).isOpen p = s.isOpen p := by
  rw [isOpen, isOpen, queue?_mapQueue_ne s h]

/-- Only a queue that no one holds is closed. -/
theorem held_releaseQueue {q : Nat} (h : Held ⟨s, .release (.queue q) :: rest⟩) :
    Held (.after s (.release (.queue q)) rest) := by
  have hrest := held_tail h
  simp only [Config.after, Task.carryOut, release, List.nil_append]
  split
  · exact hrest
  · rename_i hno
    obtain ⟨hnames, hrel, hmachines⟩ := holdsQueue_eq_false (by simpa using hno)
    refine ⟨AllBacked.of_keeps (s := s) ?_ hrest.backed, hrest.machines, hrest.closing, hrest.once, fun p hp => ?_⟩
    · exact fun _ _ h => h
    have hne : p ≠ q := by
      rintro rfl
      rcases hp with hp | hp | ⟨m, c, hc, hqueue, hlife⟩
      · exact hnames hp
      · exact hrel hp
      · exact hlife (hmachines m c hc hqueue)
    rw [isOpen_mapQueue_ne hne]
    exact hrest.queues p hp

/-- A machine that is closed gives up its queue, which was open until now. -/
theorem held_closed {m : Nat} (h : Held ⟨s, .closed m :: rest⟩) : Held (.after s (.closed m) rest) := by
  have hrest := held_tail h
  obtain ⟨c, hc, hlife⟩ := h.closing m List.mem_cons_self
  have hnot : Task.closed m ∉ rest := by
    intro hmem
    have hone := h.once m
    have hpos : 0 < rest.countP (Task.closes m) := List.countP_pos_iff.2 ⟨_, hmem, by simp [Task.closes]⟩
    have hself : Task.closes m (.closed m) = true := by simp [Task.closes]
    simp only [List.countP_cons, hself, if_true] at hone
    omega
  simp only [Config.after, Task.carryOut, closed, hc, List.cons_append, List.nil_append]
  constructor
  · refine ⟨.free rfl rfl, AllBacked.of_keeps (s := s) ?_ hrest.backed⟩
    intro _ _ hq
    refine keepsQueue_mapMachine ?_ hq
    exact fun _ => rfl
  · intro n hn
    have hn' : n ∈ s.cast.values ∨ Task.release (.machine n) ∈ rest := by
      refine hn.imp_right fun hn => ?_
      rcases List.mem_cons.1 hn with h | h
      · cases h
      · exact h
    have hlive := hrest.machines n hn'
    have hne : n ≠ m := by
      rintro rfl
      rw [isLive_of_machine? hc, hlife] at hlive
      cases hlive
    rw [isLive_mapMachine_ne hne]
    exact hlive
  · intro n hn
    rcases List.mem_cons.1 hn with h | hin
    · cases h
    · have hne : n ≠ m := by
        rintro rfl
        exact hnot hin
      rw [machine?_mapMachine_ne s hne]
      exact hrest.closing n hin
  · intro n
    have := hrest.once n
    simp only [List.countP_cons] at this ⊢
    exact this
  · intro q hq
    rcases hq with hq | hq | ⟨n, c', hc', hqueue, hlife'⟩
    · exact hrest.queues q (.inl hq)
    · rcases List.mem_cons.1 hq with heq | hq
      · cases heq
        exact hrest.queues _ (.inr (.inr ⟨m, c, hc, rfl, fun hn => (by rw [hlife] at hn; cases hn)⟩))
      · exact hrest.queues q (.inr (.inl hq))
    · rcases machine?_mapMachine_eq_some hc' with ⟨-, hc'⟩ | ⟨c'', rfl, -, rfl⟩
      · exact hrest.queues q (.inr (.inr ⟨n, c', hc', hqueue, hlife'⟩))
      · exact absurd rfl hlife'

/-! ## Cues -/

theorem held_reply (h : Held ⟨s, rest⟩) (a : Answer) : Held ⟨s.reply a, rest⟩ := held_sameHolds h (sameHolds_reply s a)

theorem held_replying (h : Held ⟨s, rest⟩) (a : Answer) : Held ⟨s, .reply a :: rest⟩ :=
  held_append [.reply a] h ⟨.free rfl rfl, h.backed⟩ (fun _ hm => by cases List.mem_singleton.1 hm)
    (fun _ hq => by cases List.mem_singleton.1 hq) fun _ => rfl

theorem held_direct (h : Held ⟨s, rest⟩) (name : String) {f : Nat → Task} (hm : ∀ m, (f m).machine? = some m)
    (hq : ∀ m, (f m).queue? = none) (hc : ∀ m n, f m ≠ .closed n) :
    Held ⟨(s.direct name f).1, (s.direct name f).2 ++ rest⟩ := by
  unfold direct withMachine
  split
  · exact held_reply h _
  · rename_i m hname
    split
    · exact held_reply h _
    · refine held_holding (held_replying h _) ⟨fun n hn => ?_, fun q hn => ?_⟩ (fun n hn => ?_)
        (fun q hn => by cases hn)
        (fun hold heq => ?_)
        (hc m)
      · obtain rfl : m = n := Option.some.inj ((hm m).symm.trans hn)
        exact List.mem_cons_self
      · rw [hq] at hn
        cases hn
      · cases hn
        exact h.machines m (.inl (Registry.mem_values_of_get? hname))
      · have := hm m
        rw [heq] at this
        cases this

theorem held_submit (h : Held ⟨s, rest⟩) (queue : String) (job : Job) :
    Held ⟨(s.submit queue job).1, (s.submit queue job).2 ++ rest⟩ := by
  unfold submit
  split
  · exact held_reply h _
  · rename_i q hname
    refine held_holding (held_replying h _) ⟨fun m hm => (by cases hm), fun p hp => ?_⟩ (fun m hm => by cases hm)
      (fun p hp => ?_) (fun hold hh => by cases hh) fun m hm => by cases hm
    · cases hp
      exact .inl List.mem_cons_self
    · cases hp
      exact h.queues q (.inl (Registry.mem_values_of_get? hname))

theorem held_submitEffect (h : Held ⟨s, rest⟩) (queue effect : String) (el : ElementId) (settings : Settings)
    (finish : Option (List Cue)) : Held ⟨(s.submitEffect queue effect el settings finish).1,
      (s.submitEffect queue effect el settings finish).2 ++ rest⟩ := by
  unfold submitEffect
  split
  · split
    · exact held_reply h _
    · rename_i e _
      have hprepared := held_sameHolds h (undisturbed_prepare s settings e).sameHolds
      simp only
      split
      · exact held_reply hprepared _
      · exact held_submit hprepared _ _
  · exact held_reply h _

/-- Holds on what is in use may be given up. -/
theorem held_releases (h : Held ⟨s, rest⟩) (holds : List Hold) (hm : ∀ m, .machine m ∈ holds → s.isLive m = true)
    (hq : ∀ q, .queue q ∈ holds → s.isOpen q = true) : Held ⟨s, holds.map .release ++ rest⟩ := by
  refine held_append _ h (h.backed.append _ fun t ht => ?_) (fun m hmem => ?_) (fun q hmem => ?_) fun m => ?_
  · obtain ⟨_, -, rfl⟩ := List.mem_map.1 ht
    exact .free rfl rfl
  · obtain ⟨hold, hhold, heq⟩ := List.mem_map.1 hmem
    cases heq
    exact hm m hhold
  · obtain ⟨hold, hhold, heq⟩ := List.mem_map.1 hmem
    cases heq
    exact hq q hhold
  · refine List.countP_eq_zero.2 fun t ht hcloses => ?_
    obtain ⟨_, -, rfl⟩ := List.mem_map.1 ht
    cases hcloses

/-- Machines get and lose names; one that loses its last name is released. -/
theorem held_cast (h : Held ⟨s, rest⟩) (cast : Registry String Nat) (name : String) (a : Answer)
    (hcast : ∀ m ∈ cast.values, s.isLive m = true) :
    Held ⟨{ s with cast := cast },
      (s.cast.get? name).toList.map (fun old => Task.release (.machine old)) ++ [Task.reply a] ++ rest⟩ := by
  have hnamed : Held ⟨{ s with cast := cast }, rest⟩ := by
    refine ⟨AllBacked.of_keeps (s := s) ?_ h.backed, fun m hm => ?_, h.closing, h.once, h.queues⟩
    · exact fun _ _ hq => hq
    · exact hm.elim (hcast m) fun hm => h.machines m (.inr hm)
  have hreleased := held_releases (held_replying hnamed a) ((s.cast.get? name).toList.map .machine) (fun m hm => ?_)
    fun q hq => ?_
  · rw [List.map_map] at hreleased
    rw [List.append_assoc]
    exact hreleased
  · obtain ⟨old, hold, heq⟩ := List.mem_map.1 hm
    cases heq
    exact h.machines m (.inl (Registry.mem_values_of_get? (Option.mem_toList.1 hold)))
  · obtain ⟨_, -, heq⟩ := List.mem_map.1 hq
    cases heq

/-- Queues get and lose names; one that loses a name is released. -/
theorem held_queueNames (h : Held ⟨s, rest⟩) (names : Registry String Nat) (name : String) (a : Answer)
    (hnames : ∀ q ∈ names.values, s.isOpen q = true) :
    Held ⟨{ s with queueNames := names },
      (s.queueNames.get? name).toList.map (fun old => Task.release (.queue old)) ++ [Task.reply a] ++ rest⟩ := by
  have hnamed : Held ⟨{ s with queueNames := names }, rest⟩ := by
    refine ⟨AllBacked.of_keeps (s := s) ?_ h.backed, h.machines, h.closing, h.once, fun q hq => ?_⟩
    · exact fun _ _ hq => hq
    · exact hq.elim (hnames q) fun hq => h.queues q (.inr hq)
  have hreleased := held_releases (held_replying hnamed a) ((s.queueNames.get? name).toList.map .queue) (fun m hm => ?_)
    fun q hq => ?_
  · rw [List.map_map] at hreleased
    rw [List.append_assoc]
    exact hreleased
  · obtain ⟨_, -, heq⟩ := List.mem_map.1 hm
    cases heq
  · obtain ⟨old, hold, heq⟩ := List.mem_map.1 hq
    cases heq
    exact h.queues q (.inl (Registry.mem_values_of_get? (Option.mem_toList.1 hold)))

theorem isLive_append {ms : List Machine} {qs : List JobQueue} {m : Nat} (h : s.isLive m = true) :
    isLive { s with machines := s.machines ++ ms, queues := s.queues ++ qs } m = true := by
  unfold isLive machine? at h ⊢
  cases hc : s.machines[m]? with
  | none => rw [hc] at h; cases h
  | some c =>
    rw [hc] at h
    rw [List.getElem?_append_left (List.getElem?_eq_some_iff.1 hc).1, hc]
    exact h

theorem isOpen_append {ms : List Machine} {qs : List JobQueue} {q : Nat} (h : s.isOpen q = true) :
    isOpen { s with machines := s.machines ++ ms, queues := s.queues ++ qs } q = true := by
  unfold isOpen queue? at h ⊢
  cases hc : s.queues[q]? with
  | none => rw [hc] at h; cases h
  | some c =>
    rw [hc] at h
    rw [List.getElem?_append_left (List.getElem?_eq_some_iff.1 hc).1, hc]
    exact h

theorem machine?_append (ms : List Machine) (qs : List JobQueue) {m : Nat} {c : Machine} (h : s.machine? m = some c) :
    machine? { s with machines := s.machines ++ ms, queues := s.queues ++ qs } m = some c := by
  unfold machine? at h ⊢
  rw [List.getElem?_append_left (List.getElem?_eq_some_iff.1 h).1, h]

/-- New machines and queues are no harm to what is held. -/
theorem held_more (h : Held ⟨s, rest⟩) (ms : List Machine) (qs : List JobQueue)
    (hms : ∀ c ∈ ms, isOpen { s with machines := s.machines ++ ms, queues := s.queues ++ qs } c.queue = true) :
    Held ⟨{ s with machines := s.machines ++ ms, queues := s.queues ++ qs }, rest⟩ where
  backed := by
    refine AllBacked.of_keeps (s := s) (fun _ q hq => ?_) h.backed
    rcases hq with hq | ⟨m, c, hc, hq, hr⟩
    · exact .inl hq
    · exact .inr ⟨m, c, machine?_append ms qs hc, hq, hr⟩
  machines m hm := isLive_append (h.machines m hm)
  closing m hm := by
    obtain ⟨c, hc, hl⟩ := h.closing m hm
    exact ⟨c, machine?_append ms qs hc, hl⟩
  once := h.once
  queues q hq := by
    rcases hq with hq | hq | ⟨m, c, hc, hqueue, hl⟩
    · exact isOpen_append (h.queues q (.inl hq))
    · exact isOpen_append (h.queues q (.inr (.inl hq)))
    · rw [machine?] at hc
      rcases List.mem_append.1 (List.mem_of_getElem? hc) with hmem | hmem
      · obtain ⟨i, hi⟩ := List.getElem?_of_mem hmem
        exact isOpen_append (h.queues q (.inr (.inr ⟨i, c, hi, hqueue, hl⟩)))
      · rw [← hqueue]
        exact hms c hmem

theorem isOpen_new (s : Stage) (ms : List Machine) :
    isOpen { s with machines := s.machines ++ ms, queues := s.queues ++ [JobQueue.empty] } s.queues.length = true := by
  simp [isOpen, queue?, JobQueue.empty]

theorem held_build (h : Held ⟨s, rest⟩) (name : String) (el : ElementId) (settings : Settings) (hooked : Bool)
    (declarations : List Declaration) : Held ⟨(s.build name el settings hooked declarations).1,
      (s.build name el settings hooked declarations).2 ++ rest⟩ := by
  unfold build
  split
  · have hnoted := held_sameHolds h (undisturbed_declared el declarations s).sameHolds
    simp only
    revert hnoted
    generalize declarations.foldl (fun s d => s.notifyAll (d.notices el)) s = s'
    intro hnoted
    have hadded := held_more hnoted [.ofStates el settings hooked s'.queues.length (declarations.foldl declare [])]
      [JobQueue.empty] fun c hc => by rw [List.mem_singleton.1 hc]; exact isOpen_new s' _
    refine held_cast hadded _ _ _ fun m hm => ?_
    rcases Registry.mem_values_put hm with hm | rfl
    · exact hadded.machines m (.inl hm)
    · simp [isLive, machine?, Machine.ofStates]
  · exact held_reply h _

theorem held_follow (c : Cue) (h : Held ⟨s, .cue c :: rest⟩) : Held (.after s (.cue c) rest) := by
  have hrest := held_tail h
  cases c with
  | build name el settings hooked states => exact held_build hrest name el settings hooked states
  | start name visible => exact held_direct hrest name (fun _ => rfl) (fun _ => rfl) fun m n hn => by cases hn
  | transition name state => exact held_direct hrest name (fun _ => rfl) (fun _ => rfl) fun m n hn => by cases hn
  | visibility name visible => exact held_direct hrest name (fun _ => rfl) (fun _ => rfl) fun m n hn => by cases hn
  | enqueue => exact held_submit hrest _ _
  | effectJob => exact held_submitEffect hrest _ _ _ _ _
  | drop name =>
    simp only [Config.after, Task.carryOut, follow]
    split
    · rename_i m hname
      have := held_cast hrest (s.cast.erase name) name (.truth true) fun m hm =>
        hrest.machines m (.inl (Registry.mem_values_of_mem_erase hm))
      rw [hname] at this
      exact this
    · exact held_reply hrest _
  | queue name =>
    have hadded := held_more hrest [] [JobQueue.empty] fun _ hc => absurd hc List.not_mem_nil
    have hnew := isOpen_new s []
    rw [List.append_nil] at hadded hnew
    simp only [Config.after, Task.carryOut, follow, nameQueue]
    refine held_queueNames hadded _ _ _ fun q hq => ?_
    rcases Registry.mem_values_put hq with hq | rfl
    · exact hadded.queues q (.inl hq)
    · exact hnew
  | queueClone name copy =>
    simp only [Config.after, Task.carryOut, follow]
    split
    · rename_i q hname
      refine held_queueNames hrest _ _ _ fun p hp => ?_
      rcases Registry.mem_values_put hp with hp | rfl
      · exact hrest.queues p (.inl hp)
      · exact hrest.queues p (.inl (Registry.mem_values_of_get? hname))
    · exact held_reply hrest _
  | queueDrop name =>
    simp only [Config.after, Task.carryOut, follow]
    split
    · rename_i q hname
      have := held_queueNames hrest (s.queueNames.erase name) name (.truth true) fun p hp =>
        hrest.queues p (.inl (Registry.mem_values_of_mem_erase hp))
      rw [hname] at this
      exact this
    · exact held_reply hrest _
  | _ =>
    exact held_of_plain h (by simp [Task.leaves, Cue.leaves]) (by simp [Task.leaves, Cue.leaves])
      (by simp [Task.touches, Cue.touches]) (by simp [Task.touches, Cue.touches]) (by simp [Task.touches, Cue.touches])
      (by simp [Task.touches, Cue.touches])

/-- **Every task honours the holds.** -/
theorem held_carryOut (h : Held ⟨s, t :: rest⟩) : Held (.after s t rest) := by
  cases t with
  | cue c => exact held_follow c h
  | callOnce c => exact held_callOnce h
  | callListener c => exact held_callListener h
  | callFrame c => exact held_callFrame h
  | run body token => exact held_run h
  | complete token => exact held_complete h
  | finish q f => exact held_finish h
  | closed m => exact held_closed h
  | release hold =>
    cases hold with
    | machine m => exact held_releaseMachine h
    | queue q => exact held_releaseQueue h
    | host => exact held_tail h
  | _ =>
    exact held_of_plain h (by simp [Task.leaves]) (by simp [Task.leaves]) (by simp [Task.touches])
      (by simp [Task.touches]) (by simp [Task.touches]) (by simp [Task.touches])

end

end Stage
open Stage

/-- **Whatever is held is in use**, at every point of every course. -/
theorem Course.held {manners : Manners} {c : Config} {past : List Config} (h : Course manners (c :: past)) :
    Held c := by
  refine Course.invariant (I := Held) (P := fun _ => True) ?_ (fun s hs => ?_) (fun s cue hs => ?_)
    (fun s t rest _ _ _ hc => held_carryOut hc) h fun _ _ => trivial
  · refine ⟨trivial, fun m hm => ?_, fun m hm => (by cases hm), fun _ => Nat.zero_le _, fun q hq => ?_⟩
    · rcases hm with hm | hm <;> cases hm
    · rcases hq with hq | hq | ⟨_, _, hc, -⟩
      · cases hq
      · cases hq
      · cases hc
  · exact held_sameHolds hs ⟨rfl, rfl, rfl, rfl⟩
  · exact held_append [.cue cue] hs ⟨.free rfl rfl, trivial⟩ (fun _ hm => by cases List.mem_singleton.1 hm)
      (fun _ hq => by cases List.mem_singleton.1 hq) fun _ => rfl

namespace Stage

/-- A machine that acts is live. -/
theorem isLive_of_held {s : Stage} {t : Task} {rest : List Task} {m : Nat} (h : Held ⟨s, t :: rest⟩)
    (hm : t.machine? = some m) : s.isLive m = true :=
  h.machines m (.inr (List.mem_cons_of_mem _ (h.backed.1.machine m hm)))

/-- A queue that is worked on is open. -/
theorem isOpen_of_held {s : Stage} {t : Task} {rest : List Task} {q : Nat} (h : Held ⟨s, t :: rest⟩)
    (hq : t.queue? = some q) : s.isOpen q = true := by
  rcases h.backed.1.queue q hq with hq | ⟨m, c, hc, hq, hm⟩
  · exact h.queues q (.inr (.inl (List.mem_cons_of_mem _ hq)))
  · have hlive := h.machines m (.inr (List.mem_cons_of_mem _ hm))
    rw [isLive_of_machine? hc] at hlive
    refine h.queues q (.inr (.inr ⟨m, c, hc, hq, ?_⟩))
    intro hclosed
    rw [of_decide_eq_true hlive] at hclosed
    cases hclosed

theorem isOpen_of_mem {s : Stage} {t : Task} {q : Nat} (hq : t.queue? = some q) : ∀ {agenda : List Task},
    Held ⟨s, agenda⟩ → t ∈ agenda → s.isOpen q = true
  | t' :: rest, h, ht => by
    rcases List.mem_cons.1 ht with rfl | ht
    · exact isOpen_of_held h hq
    · exact isOpen_of_mem hq (held_tail h) ht

end Stage
end Stagecraft
