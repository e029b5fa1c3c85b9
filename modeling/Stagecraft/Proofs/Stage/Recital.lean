import Stagecraft.Proofs.Stage.LastTurn
import Stagecraft.Proofs.Stage.Played
import Stagecraft.Proofs.Stage.Worn
import Stagecraft.Proofs.State.Captured
import Stagecraft.Proofs.Style.ClassName
/-!
# Effects played on an element that nothing else touches

Effects are sent to one queue, and events are dispatched on the element, in any order.  What is done to the element is
then known in full: the pieces are played in the order in which they were sent, each is opened when the one before it
is over, and is over at the first dispatch of its end event after that.
-/
namespace Stagecraft

/-- An effect that is to be played, and the settings that it is played with. -/
structure Piece where
  settings : Settings
  effect : Effect

namespace Piece

/-- Whether there is anything to play: a keyframe animation needs a name. -/
def isPlayable (p : Piece) : Bool :=
  match p.effect.kind with
  | .animate => p.effect.keyframe?.isSome
  | _ => true

/-- The class for the place that an entry starts from, or that a transform leads to. -/
def place (p : Piece) : String := p.effect.target p.settings

def transition (p : Piece) : String := (Stage.animation p.settings p.effect).transition.name

def keyframes (p : Piece) : String := p.effect.keyframe?.getD ""

/-- The event with which the page reports that the piece is over. -/
def endEvent (p : Piece) : String := p.settings.endOf p.effect.kind

/-- What is done to the element when the piece begins. -/
def opening (el : ElementId) (p : Piece) : List PageOp :=
  match p.effect.kind with
  | .enter => [.addClass el p.place, .flush el, .addClass el p.transition, .removeClass el p.place]
  | .transform => [.flush el, .addClass el p.place, .addClass el p.transition]
  | .animate => [.flush el, .addClass el p.keyframes, .addClass el p.settings.animatedClass]

/-- What is done to the element when the piece is over. -/
def closing (el : ElementId) (p : Piece) : List PageOp :=
  match p.effect.kind with
  | .animate => [.removeClass el p.keyframes, .removeClass el p.settings.animatedClass]
  | _ => [.removeClass el p.transition]

end Piece

/-- What is done next: a piece is sent to the queue, or an event is dispatched on the element. -/
inductive Act
  | send (p : Piece)
  | dispatch (event : String)

/-- How far the pieces have been played.  The first that is not over is being played. -/
structure Recital where
  played : List Piece := []
  rest : List Piece := []

namespace Recital

/-- A piece waits for its turn behind the others; it is over when its end event is dispatched while it is played. -/
def next (r : Recital) : Act → Recital
  | .send p => if p.isPlayable then { r with rest := r.rest ++ [p] } else r
  | .dispatch event =>
    if r.rest.head?.any fun p => p.endEvent = event then
      { played := r.played ++ r.rest.head?.toList, rest := r.rest.tail }
    else r

/-- How far the pieces have been played after these acts. -/
def after (acts : List Act) : Recital := acts.foldl next {}

end Recital

namespace Act

/-- The piece that an act sends, if there is anything to play. -/
def piece? : Act → Option Piece
  | .send p => if p.isPlayable then some p else none
  | .dispatch _ => none

/-- The stage on which an act begins: the plan of the piece has been made. -/
def ready (s : Stage) : Act → Stage
  | .send p => s.prepare p.settings p.effect
  | .dispatch _ => s

/-- What an act gives the stage to do. -/
def tasks (el : ElementId) (q : Nat) : Act → List Task
  | .send p => (Stage.job? p.settings el p.effect).toList.map (.enqueue q)
  | .dispatch event => [.dispatch el event]

end Act

/-- The acts, one after another, lead from a stage to another one. -/
inductive Performed (el : ElementId) (q : Nat) : Stage → List Act → Stage → Prop
  | nil (s : Stage) : Performed el q s [] s
  | cons {s s' s'' : Stage} {a : Act} {acts : List Act} (n : Nat)
      (first : Config.run n ⟨a.ready s, a.tasks el q⟩ = ⟨s', []⟩) (later : Performed el q s' acts s'') :
      Performed el q s (a :: acts) s''

def Entry.op? : Entry → Option PageOp
  | .op o => some o
  | _ => none

/-- All that was done to the classes of elements, as the journal has it. -/
def Stage.ops (s : Stage) : List PageOp := s.entries.filterMap Entry.op?

/-! ## The plan of a piece -/

namespace Piece

open Stage

/-- How a piece is played. -/
def plan (el : ElementId) (p : Piece) : EffectPlan :=
  match p.effect.kind with
  | .animate => animatePlan p.settings el p.keyframes
  | .enter => enterPlan p.settings el (animation p.settings p.effect)
  | .transform => transformPlan p.settings el (animation p.settings p.effect)

def job (el : ElementId) (p : Piece) : Job := { label := p.effect.source, body := .effect (p.plan el) }

/-- What waits on the page while the piece is played. -/
def waiting (el : ElementId) (q ticket : Nat) (p : Piece) : Waiting OnceCall :=
  ⟨el, p.endEvent, (p.plan el).endCall ⟨q, ticket, p.effect.source⟩⟩

theorem job?_eq (el : ElementId) (p : Piece) :
    job? p.settings el p.effect = if p.isPlayable then some (p.job el) else none := by
  unfold job? plan? isPlayable job plan
  cases hkind : p.effect.kind with
  | animate =>
    cases hname : p.effect.keyframe? with
    | none => rfl
    | some name => simp [hname, keyframes]
  | _ => rfl

theorem element_plan (el : ElementId) (p : Piece) : (p.plan el).element = el ∧ (p.plan el).endEvent = p.endEvent := by
  unfold plan endEvent
  cases p.effect.kind <;> exact ⟨rfl, rfl⟩

theorem opening_eq (el : ElementId) (p : Piece) : p.opening el = (p.plan el).lead ++ (p.plan el).tail := by
  unfold opening plan
  cases hkind : p.effect.kind with
  | animate => rfl
  | _ => simp [enterPlan, transformPlan, place, transition, Effect.target]

theorem closing_eq (el : ElementId) (p : Piece) :
    p.closing el = (p.plan el).temporary.map fun names => .removeClass el names := by
  unfold closing plan
  cases p.effect.kind <;> rfl

end Piece

/-! ## Changes of the page one after another -/

namespace Stylesheet

theorem isBlank_of_isAlphanum {c : Char} (h : c.isAlphanum = true) : Text.isBlank c = false := by
  have hcode : 0x30 ≤ c.toNat ∧ c.toNat < 0x80 := by
    replace h : (decide (c.val ≥ 'A'.val ∧ c.val ≤ 'Z'.val) || (c.val ≥ 'a'.val && c.val ≤ 'z'.val) ||
      (c.val ≥ '0'.val && c.val ≤ '9'.val)) = true := h
    simp only [Bool.or_eq_true, Bool.and_eq_true, decide_eq_true_eq, ge_iff_le, UInt32.le_iff_toNat_le] at h
    rcases h with (⟨hl, hu⟩ | ⟨hl, hu⟩) | ⟨hl, hu⟩ <;>
      exact ⟨Nat.le_trans (by decide) hl, Nat.lt_of_le_of_lt hu (by decide)⟩
  -- every range of blanks ends before the digits or begins behind the letters
  have hranges : ∀ r ∈ Text.blankRanges, r.2 < 0x30 ∨ 0x80 ≤ r.1 := by decide
  refine List.any_eq_false.2 fun r hr hin => ?_
  rw [Bool.and_eq_true, decide_eq_true_eq, decide_eq_true_eq] at hin
  have := hranges r hr
  omega

/-- The class for a key is one word, if it is not empty. -/
theorem eq_of_mem_wordsOf {key w : String} (h : w ∈ Text.wordsOf (classKey key)) : w = classKey key := by
  have hsolid : ∀ c ∈ classOf key.toList, Text.isBlank c = false := by
    intro c hc
    obtain ⟨k, -, hk⟩ := List.mem_flatMap.1 hc
    unfold classChars at hk
    split at hk
    · obtain rfl := List.mem_singleton.1 hk
      decide
    · split at hk
      · simp only [List.mem_cons, List.not_mem_nil, or_false] at hk
        rcases hk with rfl | rfl | rfl <;> decide
      · split at hk
        · rename_i halnum
          obtain rfl := List.mem_singleton.1 hk
          rcases Bool.or_eq_true _ _ ▸ halnum with hal | hus
          · exact isBlank_of_isAlphanum hal
          · obtain rfl : c = '_' := of_decide_eq_true hus
            decide
        · obtain rfl := List.mem_singleton.1 hk
          decide
  rw [Text.wordsOf, toList_classKey] at h
  by_cases hne : classOf key.toList = []
  · rw [hne] at h
    cases h
  · rw [Text.words_of_solid hne hsolid, ← toList_classKey, List.map_singleton, List.mem_singleton,
      String.ofList_toList] at h
    exact h

end Stylesheet

namespace Stage

/-- The stage when these changes have been made through the host. -/
def did (s : Stage) (ops : List PageOp) : Stage := ops.foldl (fun s op => (Stage.perform s op).1) s

/-- The stage when an effect has begun. -/
def begun (s : Stage) (p : EffectPlan) (token : Completion) : Stage :=
  ((s.did p.lead).mapPage (·.listenOnce p.element p.endEvent (p.endCall token))).did p.tail

section
variable {s : Stage} {el : ElementId} {rest : List Task}

theorem after_of_carryOut {t : Task} {o : Outcome} (h : t.carryOut s rest = o) :
    Config.after s t rest = ⟨o.1, o.2 ++ rest⟩ := by
  rw [Config.after, h]

theorem ops_record (s : Stage) (e : Entry) : (s.record e).ops = s.ops ++ e.op?.toList := by
  simp only [ops, entries, record, List.reverse_cons, List.filterMap_append]
  cases e <;> rfl

theorem ops_notifyAll : ∀ (ns : List Notice) (s : Stage), (s.notifyAll ns).ops = s.ops
  | [], _ => rfl
  | n :: ns, s => (ops_notifyAll ns (s.notify n)).trans ((ops_record s (.notice n)).trans (List.append_nil _))

theorem ops_resolve (s : Stage) (key body : String) : (s.resolve key body).ops = s.ops := by
  have h := ops_notifyAll
    (Notice.ofVerdict? (Stylesheet.classKey key) (s.styles.verdict (Stylesheet.classKey key) body)).toList s
  unfold resolve
  simp only
  split
  · exact (ops_record _ _).trans ((List.append_nil _).trans h)
  · exact h

theorem ops_resolveAll (s : Stage) (a : Animation) : (s.resolveAll a).ops = s.ops := by
  unfold resolveAll
  induction a.requests generalizing s with
  | nil => rfl
  | cons r rs ih => exact (ih _).trans (ops_resolve s r.key r.body)

/-- Making a plan does nothing to any element. -/
theorem ops_prepare (s : Stage) (settings : Settings) (e : Effect) : (s.prepare settings e).ops = s.ops := by
  unfold prepare
  split
  · split
    · rfl
    · exact (ops_record s _).trans (List.append_nil _)
  · exact (ops_resolveAll _ _).trans (ops_notifyAll _ s)

theorem Touched.mono {parts parts' : List Part} {s s' : Stage} (h : Touched parts s s') (hsub : parts ⊆ parts') :
    Touched parts' s s' :=
  ⟨h.manners, fun part hpart => h.agree part fun hin => hpart (hsub hin)⟩

theorem touched_did : ∀ (ops : List PageOp) (s : Stage), Touched [.classes] s (s.did ops)
  | [], s => .refl _ s
  | op :: ops, s => (within_perform s op).touched.trans (touched_did ops _)

theorem ops_did : ∀ (ops : List PageOp) (s : Stage), s.manners = {} → (s.did ops).ops = s.ops ++ ops
  | [], _, _ => (List.append_nil _).symm
  | op :: ops, s, hs => by
    have hop : (Stage.perform s op).1.ops = s.ops ++ [op] := by
      have hrecord := ops_record (s.mapPage (·.perform op)) (.op op)
      cases op with
      | flush e =>
        rw [Stage.perform, hs]
        exact hrecord
      | _ => exact hrecord
    have hmanners := (within_perform s op).touched.manners.trans hs
    refine (ops_did ops _ hmanners).trans ?_
    rw [hop, List.append_assoc]
    rfl

/-- Whether an element has a class, when these changes have been made to its classes. -/
theorem hasClass_did (e : ElementId) (w : String) : ∀ (ops : List PageOp) (s : Stage), (s.did ops).page.hasClass e w =
    ops.foldl (fun has op => op.puts e w || (has && !op.takes e w)) (s.page.hasClass e w)
  | [], _ => rfl
  | op :: ops, s => by
    refine (hasClass_did e w ops _).trans ?_
    rw [List.foldl_cons]
    exact congrArg (ops.foldl _) (hasClass_after s (.perform op) [] e w)

theorem did_closing (s : Stage) (el : ElementId) (p : Piece) :
    s.did (p.closing el) = s.strip el (p.plan el).temporary := by
  rw [p.closing_eq, did, List.foldl_map]
  rfl

theorem run_performs : ∀ (ops : List PageOp) (s : Stage), s.manners = {} →
    Config.run ops.length ⟨s, ops.map .perform ++ rest⟩ = ⟨s.did ops, rest⟩
  | [], _, _ => rfl
  | op :: ops, s, hs => by
    have hleft : (Task.carryOut s (ops.map .perform ++ rest) (.perform op)).2 = [] := by
      cases op with
      | flush e =>
        rw [Task.carryOut, Stage.perform, hs]
        exact reflexes_eq_nil (congrArg Manners.reflexes hs) _ _ _
      | _ => exact reflexes_eq_nil (congrArg Manners.reflexes hs) _ _ _
    rw [List.map_cons, List.cons_append, List.length_cons, run_succ, Config.after, hleft]
    exact run_performs ops _ ((within_perform s op).touched.manners.trans hs)

theorem touched_await (s : Stage) (p : EffectPlan) (token : Completion) :
    Touched [.waiting] s (s.mapPage (·.listenOnce p.element p.endEvent (p.endCall token))) :=
  (within_carryOut s [] (.await p.element p.endEvent (p.endCall token))).touched

theorem touched_begun (s : Stage) (p : EffectPlan) (token : Completion) :
    Touched [.classes, .waiting] s (s.begun p token) := by
  have hlead : Touched [.classes, .waiting] s (s.did p.lead) := (touched_did p.lead s).mono (by decide)
  have hawait : Touched [.classes, .waiting] (s.did p.lead) _ := (touched_await (s.did p.lead) p token).mono (by decide)
  exact (hlead.trans hawait).trans ((touched_did p.tail _).mono (by decide))

theorem run_plan (hs : s.manners = {}) (p : EffectPlan) (token : Completion) :
    ∃ n, Config.run n ⟨s, p.tasks token ++ rest⟩ = ⟨s.begun p token, rest⟩ := by
  have hled : (s.did p.lead).manners = {} := (touched_did p.lead s).manners.trans hs
  have hawait := reflexes_eq_nil (congrArg Manners.reflexes hled) .listenOnce p.endEvent p.element
  have htail : Config.run p.tail.length ⟨(s.did p.lead).mapPage (·.listenOnce p.element p.endEvent (p.endCall token)),
      p.tail.map .perform ++ .release .host :: rest⟩ = _ := run_performs p.tail _ hled
  refine ⟨p.lead.length + (p.tail.length + 1 + 1), ?_⟩
  rw [EffectPlan.tasks, List.append_assoc, List.append_assoc, List.append_assoc, Config.run_add,
    run_performs p.lead s hs, List.singleton_append, run_succ, Config.after, Task.carryOut, await, hawait,
    List.nil_append, Config.run_add, List.singleton_append, htail]
  rfl

theorem waiting_begun (s : Stage) (p : EffectPlan) (token : Completion) : (s.begun p token).page.waiting =
    s.page.waiting ++ [⟨p.element, p.endEvent, p.endCall token⟩] := by
  have hlead : (s.did p.lead).page.waiting = s.page.waiting := (touched_did p.lead s).agree .waiting (by decide)
  have htail : (s.begun p token).page.waiting =
      (s.did p.lead).page.waiting ++ [⟨p.element, p.endEvent, p.endCall token⟩] :=
    (touched_did p.tail _).agree .waiting (by decide)
  rw [htail, hlead]

theorem ops_begun (hs : s.manners = {}) (p : EffectPlan) (token : Completion) :
    (s.begun p token).ops = s.ops ++ (p.lead ++ p.tail) := by
  have hled : (s.did p.lead).manners = {} := (touched_did p.lead s).manners.trans hs
  have htail : (s.begun p token).ops = (s.did p.lead).ops ++ p.tail := ops_did p.tail _ hled
  rw [htail, ops_did p.lead s hs, List.append_assoc]

theorem hasClass_begun (s : Stage) (p : EffectPlan) (token : Completion) (e : ElementId) (w : String) :
    (s.begun p token).page.hasClass e w =
      (p.lead ++ p.tail).foldl (fun has op => op.puts e w || (has && !op.takes e w)) (s.page.hasClass e w) := by
  rw [List.foldl_append, ← hasClass_did]
  exact hasClass_did e w p.tail _

end
end Stage

namespace Piece

open Stage

/-- A class on an element after a piece has begun was there before, or is that of a transform, or comes off when the
piece is over. -/
theorem of_opening {el : ElementId} {w : String} {p : Piece} {has : Bool}
    (h : (p.opening el).foldl (fun has op => op.puts el w || (has && !op.takes el w)) has = true) : has = true ∨
      (p.effect.kind = .transform ∧ w = p.place) ∨ ∃ names ∈ (p.plan el).temporary, w ∈ Text.wordsOf names := by
  unfold opening at h
  unfold plan
  cases hkind : p.effect.kind with
  | enter =>
    simp [hkind, PageOp.puts, PageOp.takes] at h
    obtain ⟨htransition | hplace | hhas, hnot⟩ := h
    · exact .inr (.inr ⟨_, List.mem_singleton_self _, htransition⟩)
    · exact absurd hplace hnot
    · exact .inl hhas
  | transform =>
    simp [hkind, PageOp.puts, PageOp.takes] at h
    rcases h with htransition | hplace | hhas
    · exact .inr (.inr ⟨_, List.mem_singleton_self _, htransition⟩)
    · exact .inr (.inl ⟨rfl, Stylesheet.eq_of_mem_wordsOf hplace⟩)
    · exact .inl hhas
  | animate =>
    simp [hkind, PageOp.puts, PageOp.takes] at h
    rcases h with hmarker | hname | hhas
    · exact .inr (.inr ⟨_, List.mem_cons_of_mem _ (List.mem_singleton_self _), hmarker⟩)
    · exact .inr (.inr ⟨_, List.mem_cons_self, hname⟩)
    · exact .inl hhas

end Piece

/-! ## One queue at work -/

open Stage

/-- A queue that has played some pieces, plays this one now if there is one, and is to play those later. -/
def Recital.queue (el : ElementId) (played : Nat) (now : Option Piece) (later : List Piece) : JobQueue where
  waiting := later.map (·.job el)
  running := now.map fun _ => ⟨played + 1, none⟩
  started := played + now.toList.length

/-- A queue has played these pieces on an element, plays this one now if there is one, and is to play those later.
Nothing else happens on the stage. -/
structure Solo (el : ElementId) (q : Nat) (played : List Piece) (now : Option Piece) (later : List Piece) (s : Stage) :
    Prop where
  manners : s.manners = {}
  hosted : s.hosted = true
  named : q ∈ s.queueNames.values
  silent : s.page.listeners = []
  queue : s.queue? q = some (Recital.queue el played.length now later)
  waiting : s.page.waiting = now.toList.map (·.waiting el q (played.length + 1))
  ops : s.ops = played.flatMap (fun p => p.opening el ++ p.closing el) ++ now.toList.flatMap (·.opening el)
  /-- A class is that of a transform that has begun, or belongs to the piece that is being played. -/
  classes : ∀ w, s.page.hasClass el w = true →
    (∃ p ∈ played ++ now.toList, p.effect.kind = .transform ∧ w = p.place) ∨
      ∃ p ∈ now, ∃ names ∈ (p.plan el).temporary, w ∈ Text.wordsOf names

namespace Solo

variable {el : ElementId} {q : Nat} {played later : List Piece} {now : Option Piece} {s s' : Stage} {p : Piece}
  {event : String} {rest : List Task}

/-- What only reports does not matter. -/
theorem undisturbed (h : Solo el q played now later s) (hs : Undisturbed s s') (hops : s'.ops = s.ops) :
    Solo el q played now later s' where
  manners := hs.manners.trans h.manners
  hosted := hs.hosted.trans h.hosted
  named := hs.queueNames ▸ h.named
  silent := hs.page ▸ h.silent
  queue := (hs.queue? q).trans h.queue
  waiting := hs.page ▸ h.waiting
  ops := hops.trans h.ops
  classes := hs.page ▸ h.classes

theorem isOpen (h : Solo el q played now later s) : s.isOpen q = true := by
  rw [Stage.isOpen, h.queue]
  rfl

/-- A queue that plays nothing begins its next piece. -/
theorem pump (h : Solo el q played none later s) : ∃ n s', Config.run n ⟨s, .pump q :: rest⟩ = ⟨s', rest⟩ ∧
    Solo el q played later.head? later.tail s' := by
  cases later with
  | nil =>
    have hpump : s.pump q = (s, []) := by
      rw [Stage.pump, h.queue]
      rfl
    refine ⟨1, s, ?_, h⟩
    rw [run_succ, Config.after, Task.carryOut, hpump]
    rfl
  | cons p later =>
    let token : Completion := ⟨q, played.length + 1, p.effect.source⟩
    let s₁ := (s.mapQueue q fun _ => Recital.queue el played.length (some p) later).notify
      (.jobStarted p.effect.source)
    have hpump : s.pump q = (s₁, [.run (.effect (p.plan el)) token]) := by
      rw [Stage.pump, h.queue]
      rfl
    have hmanners : s₁.manners = {} := h.manners
    obtain ⟨n, hn⟩ : ∃ n, Config.run n ⟨s₁, (p.plan el).tasks token ++ rest⟩ = ⟨s₁.begun (p.plan el) token, rest⟩ :=
      run_plan hmanners (p.plan el) token
    have htouched := touched_begun s₁ (p.plan el) token
    refine ⟨n + 1 + 1, s₁.begun (p.plan el) token, ?_, ?_⟩
    · rw [run_succ, Config.after, Task.carryOut, hpump]
      exact hn
    · obtain ⟨hel, hend⟩ := p.element_plan el
      have hs₁ : s₁.ops = s.ops := (ops_record _ _).trans (List.append_nil _)
      exact {
        manners := htouched.manners.trans hmanners
        hosted := Eq.trans (htouched.agree .hosted (by decide)) h.hosted
        named := (htouched.agree .queueNames (by decide) : _ = s.queueNames) ▸ h.named
        silent := Eq.trans (htouched.agree .listeners (by decide)).1 h.silent
        queue := by
          have hqueues : (s₁.begun (p.plan el) token).queues = s₁.queues := htouched.agree .queues (by decide)
          rw [Stage.queue?, hqueues]
          refine (queue?_mapQueue_self s q _).trans ?_
          rw [h.queue]
          rfl
        waiting := by
          rw [waiting_begun, hel, hend]
          exact congrArg (· ++ [_]) h.waiting
        ops := by
          rw [ops_begun hmanners, hs₁, h.ops, ← p.opening_eq]
          simp
        classes := fun w hw => by
          rw [hasClass_begun, ← p.opening_eq] at hw
          rcases Piece.of_opening hw with hbefore | htarget | htemporary
          · rcases h.classes w hbefore with ⟨p', hp', htarget⟩ | ⟨p', hp', -⟩
            · exact .inl ⟨p', List.mem_append_left _ (by simpa using hp'), htarget⟩
            · cases hp'
          · exact .inl ⟨p, List.mem_append_right _ List.mem_cons_self, htarget⟩
          · exact .inr ⟨p, rfl, htemporary⟩ }

/-- While a piece is being played, those behind it wait. -/
theorem pump_busy (h : Solo el q played (some p) later s) : Config.run 1 ⟨s, .pump q :: rest⟩ = ⟨s, rest⟩ := by
  have hpump : s.pump q = (s, []) := by
    rw [Stage.pump, h.queue]
    rfl
  rw [run_succ, Config.after, Task.carryOut, hpump]
  rfl

/-- The queue with one more piece behind the others. -/
theorem enqueued (h : Solo el q played now later s) (p : Piece) : Solo el q played now (later ++ [p])
    ((s.notify (.jobEnqueued p.effect.source)).mapQueue q (·.add (p.job el))) where
  manners := h.manners
  hosted := h.hosted
  named := h.named
  silent := h.silent
  queue := by
    refine (queue?_mapQueue_self (s.notify _) q _).trans ?_
    rw [show (s.notify _).queue? q = _ from h.queue, Recital.queue, Recital.queue, List.map_append]
    rfl
  waiting := h.waiting
  ops := ((ops_record s _).trans (List.append_nil _)).trans h.ops
  classes := h.classes

/-- A piece is sent to the queue. -/
theorem send {r : Recital} (h : Solo el q r.played r.rest.head? r.rest.tail s) (p : Piece) :
    ∃ n s', Config.run n ⟨s.prepare p.settings p.effect, (Act.send p).tasks el q⟩ = ⟨s', []⟩ ∧
      Solo el q (r.next (.send p)).played (r.next (.send p)).rest.head? (r.next (.send p)).rest.tail s' := by
  have hready := h.undisturbed (undisturbed_prepare s p.settings p.effect) (ops_prepare s p.settings p.effect)
  rw [Act.tasks, p.job?_eq, Recital.next]
  by_cases hplayable : p.isPlayable = true
  · rw [if_pos hplayable, if_pos hplayable]
    have hsent := hready.enqueued p
    cases hrest : r.rest with
    | nil =>
      rw [hrest] at hsent
      obtain ⟨n, s', hn, hs'⟩ : ∃ n s', Config.run n ⟨_, [.pump q]⟩ = ⟨s', []⟩ ∧
          Solo el q r.played (some p) [] s' := Solo.pump hsent
      exact ⟨n + 1, s', hn, hs'⟩
    | cons p' later =>
      rw [hrest] at hsent
      exact ⟨1 + 1, _, hsent.pump_busy, hsent⟩
  · rw [if_neg hplayable, if_neg hplayable]
    exact ⟨0, _, rfl, hready⟩

/-- An event that ends nothing changes nothing. -/
theorem dispatch_other (h : Solo el q played now later s) (hevent : ∀ p ∈ now, p.endEvent ≠ event) :
    Config.run 2 ⟨s, [.dispatch el event]⟩ = ⟨s.reply (.count 0), []⟩ := by
  have hdeaf : ∀ w ∈ s.page.waiting, w.hears el event = false := by
    rw [h.waiting]
    intro w hw
    obtain ⟨p, hp, rfl⟩ := List.mem_map.1 hw
    simp [Waiting.hears, Piece.waiting, hevent p (by simpa using hp)]
  have hkept : s.page.forget el event = s.page := by
    rw [Page.forget, List.filter_eq_self.2 fun w hw => by rw [hdeaf w hw]; rfl]
  have hawaiting : s.page.awaiting el event = [] :=
    List.filter_eq_nil_iff.2 fun w hw => by rw [hdeaf w hw]; exact Bool.false_ne_true
  have hlistening : s.page.listening el event = [] := by
    rw [Page.listening, h.silent]
    rfl
  have hdispatch : s.dispatch el event = (s, [.deliver [] [] 0]) := by
    rw [Stage.dispatch, hawaiting, hlistening, mapPage, hkept]
    rfl
  rw [run_succ, Config.after, Task.carryOut, hdispatch]
  rfl

/-- The stage when the piece that was being played is over, and the next one has not begun. -/
theorem closed (h : Solo el q played (some p) later s) : Solo el q (played ++ [p]) none later
    ((((s.mapPage (·.forget el p.endEvent)).strip el (p.plan el).temporary).mapQueue q fun _ =>
      Recital.queue el played.length (some p) later).mapQueue q (·.rest)) := by
  have hmanners : (s.mapPage (·.forget el p.endEvent)).manners = {} := h.manners
  have htouched := touched_did (p.closing el) (s.mapPage (·.forget el p.endEvent))
  rw [did_closing] at htouched
  exact {
    manners := htouched.manners.trans h.manners
    hosted := Eq.trans (htouched.agree .hosted (by decide)) h.hosted
    named := (htouched.agree .queueNames (by decide) : _ = s.queueNames) ▸ h.named
    silent := Eq.trans (htouched.agree .listeners (by decide)).1 h.silent
    queue := by
      rw [queue?_mapQueue_self, queue?_mapQueue_self, Stage.queue?,
        show _ = s.queues from htouched.agree .queues (by decide), show s.queues[q]? = _ from h.queue,
        List.length_append]
      rfl
    waiting := by
      refine Eq.trans (htouched.agree .waiting (by decide)) ?_
      refine List.filter_eq_nil_iff.2 fun w hw => ?_
      rw [h.waiting] at hw
      obtain rfl := List.mem_singleton.1 hw
      simp [Waiting.hears, Piece.waiting]
    ops := by
      have hops := ops_did (p.closing el) (s.mapPage (·.forget el p.endEvent)) hmanners
      rw [did_closing, show (s.mapPage _).ops = s.ops from rfl, h.ops] at hops
      refine hops.trans ?_
      simp
    classes := fun w hw => by
      have hkept : ((s.mapPage (·.forget el p.endEvent)).strip el (p.plan el).temporary).page.hasClass el w = true := hw
      rw [hasClass_strip, Bool.and_eq_true, Bool.not_eq_true', List.any_eq_false] at hkept
      obtain ⟨hbefore, htakes⟩ := hkept
      rcases h.classes w hbefore with htarget | ⟨p', hp', names, hnames, hmem⟩
      · exact .inl (by simpa using htarget)
      · obtain rfl := Option.some.inj hp'
        exact absurd (by simpa [PageOp.takes] using hmem) (htakes names hnames) }

/-- The end event of the piece that is being played ends it, and the next one begins. -/
theorem dispatch_end (h : Solo el q played (some p) later s) :
    ∃ n s', Config.run n ⟨s, [.dispatch el p.endEvent]⟩ = ⟨s', []⟩ ∧
      Solo el q (played ++ [p]) later.head? later.tail s' := by
  let token : Completion := ⟨q, played.length + 1, p.effect.source⟩
  let call := (p.plan el).endCall token
  let classes := (p.plan el).temporary
  let heard := s.mapPage (·.forget el p.endEvent)
  let stripped := heard.strip el classes
  let playing := Recital.queue el played.length (some p) later
  have hdispatch : s.dispatch el p.endEvent = (heard, [.deliver [call] [] 0]) := by
    have hawaiting : s.page.awaiting el p.endEvent = [p.waiting el q (played.length + 1)] := by
      rw [Page.awaiting, h.waiting]
      simp [Waiting.hears, Piece.waiting]
    have hlistening : s.page.listening el p.endEvent = [] := by
      rw [Page.listening, h.silent]
      rfl
    rw [Stage.dispatch, hawaiting, hlistening]
    rfl
  have hcall : heard.callOnce [.deliver [] [] 1] call =
      (heard, classes.map (fun c => .perform (.removeClass el c)) ++ [.release .host, .complete token]) := by
    obtain ⟨hel, -⟩ := p.element_plan el
    rw [← hel]
    exact if_pos (by simp [hasHost, heard, mapPage, h.hosted])
  have hcomplete : stripped.complete token =
      (stripped.mapQueue q fun _ => playing, [.jobOver q, .pump q, .release (.queue q)]) := by
    have hqueue : stripped.queue? q = some playing := by
      rw [Stage.queue?, queues_strip]
      exact h.queue
    have hopen : stripped.isOpen q = true := by
      rw [Stage.isOpen, hqueue]
      rfl
    have hrunning : playing.running = some ⟨token.ticket, none⟩ := rfl
    exact complete_eq hopen hqueue rfl hrunning
  obtain ⟨n, s', hn, hs'⟩ : ∃ n s', Config.run n ⟨(stripped.mapQueue q fun _ => playing).mapQueue q (·.rest),
      [.pump q, .release (.queue q), .deliver [] [] 1]⟩ = ⟨s', [.release (.queue q), .deliver [] [] 1]⟩ ∧
      Solo el q (played ++ [p]) later.head? later.tail s' := h.closed.pump
  have hrelease : s'.release [.deliver [] [] 1] (.queue q) = (s', []) := by
    have hholds : s'.holdsQueue [.deliver [] [] 1] q = true := by
      rw [holdsQueue, List.contains_iff_mem.2 hs'.named]
      rfl
    rw [Stage.release, if_pos hholds]
  -- the end of the piece is heard, its classes come off, and its job is complete
  have hheard : Config.run 3 ⟨s, [.dispatch el p.endEvent]⟩ =
      ⟨heard, classes.map (fun c => .perform (.removeClass el c)) ++
        [.release .host, .complete token, .deliver [] [] 1]⟩ := by
    have hcalled := after_of_carryOut (t := .callOnce call) hcall
    rw [List.append_assoc] at hcalled
    rw [run_succ, after_of_carryOut (t := .dispatch el p.endEvent) hdispatch]
    exact hcalled
  have hstripped : Config.run classes.length ⟨heard, classes.map (fun c => .perform (.removeClass el c)) ++
      [.release .host, .complete token, .deliver [] [] 1]⟩ = _ :=
    run_strip classes heard (congrArg Manners.reflexes h.manners)
  have hover : Config.run 3 ⟨stripped, [.release .host, .complete token, .deliver [] [] 1]⟩ =
      ⟨(stripped.mapQueue q fun _ => playing).mapQueue q (·.rest), [.pump q, .release (.queue q), .deliver [] [] 1]⟩ :=
    congrArg (Config.run 1) (after_of_carryOut (t := .complete token) hcomplete)
  have hended : Config.run 2 ⟨s', [.release (.queue q), .deliver [] [] 1]⟩ = ⟨s'.reply (.count 1), []⟩ :=
    congrArg (Config.run 1) (after_of_carryOut (t := .release (.queue q)) hrelease)
  refine ⟨3 + (classes.length + (3 + (n + 2))), s'.reply (.count 1), ?_,
    hs'.undisturbed (undisturbed_reply s' _) rfl⟩
  rw [Config.run_add, hheard, Config.run_add, hstripped, Config.run_add, hover, Config.run_add, hn, hended]

/-- What one act does. -/
theorem act {r : Recital} (h : Solo el q r.played r.rest.head? r.rest.tail s) (a : Act) :
    ∃ n s', Config.run n ⟨a.ready s, a.tasks el q⟩ = ⟨s', []⟩ ∧
      Solo el q (r.next a).played (r.next a).rest.head? (r.next a).rest.tail s' := by
  cases a with
  | send p => exact h.send p
  | dispatch event =>
    rw [Recital.next]
    by_cases hends : r.rest.head?.any (fun p => p.endEvent = event) = true
    · rw [if_pos hends]
      obtain ⟨p, hp, hevent⟩ := (Option.any_eq_true ..).1 hends
      obtain rfl : p.endEvent = event := of_decide_eq_true hevent
      rw [hp] at h ⊢
      exact h.dispatch_end
    · rw [if_neg hends]
      refine ⟨2, _, h.dispatch_other fun p hp hevent => hends ?_, h.undisturbed (undisturbed_reply s _) rfl⟩
      rw [hp, Option.any_some, decide_eq_true hevent]

/-- **What a list of acts does.** -/
theorem acts : ∀ (acts : List Act) {r : Recital} {s : Stage}, Solo el q r.played r.rest.head? r.rest.tail s →
    ∃ s', Performed el q s acts s' ∧ Solo el q (acts.foldl Recital.next r).played
      (acts.foldl Recital.next r).rest.head? (acts.foldl Recital.next r).rest.tail s'
  | [], _, s, h => ⟨s, .nil s, h⟩
  | a :: acts, r, s, h => by
    obtain ⟨n, s', hn, hs'⟩ := h.act a
    obtain ⟨s'', hlater, hs''⟩ := Solo.acts acts (r := r.next a) hs'
    exact ⟨s'', .cons n hn hlater, hs''⟩

end Solo

/-- A new stage with a queue on it is ready to play. -/
theorem solo_opened (name : String) (el : ElementId) :
    ∃ s, Plays (.opened {}) [.queue name] s ∧ Solo el 0 [] none [] s := by
  have hqueue : Config.run 2 ⟨.opened {}, [.cue (.queue name)]⟩ = ⟨_, []⟩ := rfl
  refine ⟨_, .cons 2 hqueue (.nil _), ?_⟩
  exact {
    manners := rfl
    hosted := rfl
    named := List.mem_singleton_self 0
    silent := rfl
    queue := rfl
    waiting := rfl
    ops := rfl
    classes := fun w hw => by cases hw }

/-- Every piece that was sent is over or is not. -/
theorem Recital.sent (acts : List Act) : ∀ r : Recital, (acts.foldl next r).played ++ (acts.foldl next r).rest =
    r.played ++ r.rest ++ acts.filterMap Act.piece? := by
  induction acts with
  | nil => exact fun r => (List.append_nil _).symm
  | cons a acts ih =>
    intro r
    have hnext : (r.next a).played ++ (r.next a).rest = r.played ++ r.rest ++ a.piece?.toList := by
      cases a with
      | send p =>
        rw [next, Act.piece?]
        by_cases hplayable : p.isPlayable = true
        · rw [if_pos hplayable, if_pos hplayable]
          exact (List.append_assoc ..).symm
        · rw [if_neg hplayable, if_neg hplayable]
          exact (List.append_nil _).symm
      | dispatch event =>
        rw [next, Act.piece?, Option.toList_none, List.append_nil]
        split
        · cases r.rest with
          | nil => simp
          | cons p rest => simp
        · rfl
    rw [List.foldl_cons, ih, hnext, List.append_assoc, List.filterMap_cons]
    cases a.piece? with
    | none => rfl
    | some p => rfl

/-- What a list of acts leads to, it alone leads to. -/
theorem Performed.unique {el : ElementId} {q : Nat} {s s' s'' : Stage} {acts : List Act}
    (h : Performed el q s acts s') (h' : Performed el q s acts s'') : s' = s'' := by
  induction h with
  | nil =>
    cases h'
    rfl
  | cons n first _ ih =>
    cases h' with
    | cons n' first' later' =>
      obtain rfl := congrArg Config.stage (Config.end_unique first first' rfl rfl)
      exact ih later'

/-- A stage on which pieces have been played on an element through its only queue. -/
structure Recited (el : ElementId) (r : Recital) (s : Stage) : Prop where
  /-- The pieces that are over have been opened and closed one by one, and the first of the others has been opened. -/
  ops : s.ops = r.played.flatMap (fun p => p.opening el ++ p.closing el) ++ r.rest.head?.toList.flatMap (·.opening el)
  /-- The queue runs a job as long as there is a piece that is not over. -/
  busy : (s.queueAt 0).isRunning = r.rest.head?.isSome
  waiting : (s.queueAt 0).waiting.map Job.label = r.rest.tail.map fun p => p.effect.source
  /-- Any event but the end event of the piece that is being played calls nothing and changes nothing. -/
  deaf : ∀ event, (∀ p ∈ r.rest.head?, p.endEvent ≠ event) →
    ∃ n, Config.run n ⟨s, [.dispatch el event]⟩ = ⟨s.reply (.count 0), []⟩
  /-- When all pieces are over, no classes are left but those that transforms lead to. -/
  classes : r.rest = [] → ∀ w, s.page.hasClass el w = true →
    ∃ p ∈ r.played, p.effect.kind = .transform ∧ w = p.place

/-- **The pieces are played one after another, in the order in which they were sent, and nothing else is done to the
element.**  A piece is over at the first dispatch of its end event after it has begun; then the next one begins at
once.  This is so for all pieces, whatever classes and events they share, and for all events, in whatever order. -/
theorem pieces_played_in_order (name : String) (el : ElementId) (acts : List Act) :
    ∃ s₀ s, Plays (.opened {}) [.queue name] s₀ ∧ (∀ s', Performed el 0 s₀ acts s' ↔ s' = s) ∧
      (Recital.after acts).played ++ (Recital.after acts).rest = acts.filterMap Act.piece? ∧
      Recited el (Recital.after acts) s := by
  obtain ⟨s₀, hopened, hsolo⟩ := solo_opened name el
  obtain ⟨s, hperformed, hs⟩ := Solo.acts (r := {}) acts hsolo
  refine ⟨s₀, s, hopened, fun s' => ⟨fun h => h.unique hperformed, fun heq => heq ▸ hperformed⟩,
    Recital.sent acts {}, ?_⟩
  exact {
    ops := hs.ops
    busy := by
      rw [queueAt_of_queue? hs.queue]
      exact Option.isSome_map
    waiting := by
      rw [queueAt_of_queue? hs.queue, Recital.queue, List.map_map]
      rfl
    deaf := fun event hevent => ⟨2, hs.dispatch_other hevent⟩
    classes := fun hrest w hw => by
      rw [show acts.foldl Recital.next {} = Recital.after acts from rfl, hrest] at hs
      rcases hs.classes w hw with ⟨p, hp, htarget⟩ | ⟨p, hp, -⟩
      · exact ⟨p, by simpa using hp, htarget⟩
      · cases hp }

end Stagecraft
