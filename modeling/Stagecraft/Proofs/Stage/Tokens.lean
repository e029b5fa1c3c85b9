import Stagecraft.Proofs.Stage.Course
import Stagecraft.Proofs.Stage.Frame
/-!
# Tokens

Where the tokens of running jobs are: in tasks, with the calls that wait for the end of an effect, and kept from
outside.  A token is made when a job starts, and after that it is only moved about or used up.
-/
namespace Stagecraft

def OnceCall.tokens : OnceCall → List Completion
  | .effectEnd _ _ token => [token]
  | .outside .. => []

def Task.tokens : Task → List Completion
  | .deliver once _ _ => once.flatMap OnceCall.tokens
  | .callOnce c => c.tokens
  | .await _ _ c => c.tokens
  | .run _ token => [token]
  | .settle _ _ token => [token]
  | .complete token => [token]
  | .lose token => [token]
  | _ => []

/-- The tokens that no task holds. -/
def Stage.keptTokens (s : Stage) : List Completion :=
  s.page.waiting.flatMap (fun w => w.call.tokens) ++ s.tokens.values

def Config.tokens (c : Config) : List Completion := c.agenda.flatMap Task.tokens ++ c.stage.keptTokens

/-- The kinds of task that can hold a token. -/
def Kind.bears : Kind → Bool
  | .deliver | .callOnce | .await | .run | .settle | .complete | .lose => true
  | _ => false

theorem Task.tokens_of_bears {t : Task} (h : t.kind.bears = false) : t.tokens = [] := by
  cases t with
  | deliver | callOnce | await | run | settle | complete | lose => cases h
  | _ => rfl

/-- The tokens that a task uses up. -/
def Task.spends : Task → List Completion
  | .complete token => [token]
  | .lose token => [token]
  | _ => []

/-- The tokens that a task makes. -/
def Stage.mints (s : Stage) : Task → List Completion
  | .pump q => ((s.queue? q).bind JobQueue.start?).toList.map fun (job, q') => ⟨q, q'.started, job.label⟩
  | _ => []

theorem countP_flatMap_filter {α β : Type} (p : β → Bool) (f : α → Bool) (g : α → List β) : ∀ as : List α,
    ((as.filter f).flatMap g).countP p + ((as.filter fun a => !f a).flatMap g).countP p = (as.flatMap g).countP p
  | [] => rfl
  | a :: as => by
    have ih := countP_flatMap_filter p f g as
    cases hf : f a with
    | true =>
      simp only [List.filter_cons, hf, if_true, Bool.not_true, Bool.false_eq_true, if_false, List.flatMap_cons,
        List.countP_append]
      omega
    | false =>
      simp only [List.filter_cons, hf, if_true, Bool.not_false, Bool.false_eq_true, if_false, List.flatMap_cons,
        List.countP_append]
      omega

namespace Stage

/-- Tokens are moved about by a task: none is there after it that was not before, but for those that it makes, and those
that it uses up are gone. -/
def Conserves (s : Stage) (t : Task) (o : Outcome) : Prop :=
  ∀ p : Completion → Bool,
    (o.2.flatMap Task.tokens).countP p + o.1.keptTokens.countP p + t.spends.countP p ≤
      t.tokens.countP p + s.keptTokens.countP p + (s.mints t).countP p

/-- None of the tokens for which `p` holds gets lost on the way either. -/
def Balances (p : Completion → Bool) (s : Stage) (t : Task) (o : Outcome) : Prop :=
  (o.2.flatMap Task.tokens).countP p + o.1.keptTokens.countP p + t.spends.countP p =
    t.tokens.countP p + s.keptTokens.countP p + (s.mints t).countP p

theorem Touched.keptTokens {parts : List Part} {s s' : Stage} (h : Touched parts s s') (hw : .waiting ∉ parts)
    (ht : .tokens ∉ parts) : s'.keptTokens = s.keptTokens := by
  have hwaiting : s'.page.waiting = s.page.waiting := h.agree .waiting hw
  have htokens : s'.tokens = s.tokens := h.agree .tokens ht
  rw [Stage.keptTokens, Stage.keptTokens, hwaiting, htokens]

theorem flatMap_tokens_of_bears {ts : List Task} (h : ∀ t ∈ ts, t.kind.bears = false) :
    ts.flatMap Task.tokens = [] :=
  List.flatMap_eq_nil_iff.2 fun t ht => Task.tokens_of_bears (h t ht)

/-- A task that leaves no task with a token, and leaves the kept tokens alone. -/
theorem balances_of_bears {p : Completion → Bool} {s : Stage} {agenda : List Task} {t : Task}
    (hw : .waiting ∉ t.touches) (ht : .tokens ∉ t.touches) (hl : ∀ kind ∈ t.leaves, kind.bears = false)
    (hs : t.spends = t.tokens) (hm : s.mints t = []) : Balances p s t (t.carryOut s agenda) := by
  have h := within_carryOut s agenda t
  rw [Balances, flatMap_tokens_of_bears fun t' ht' => hl _ (h.kinds t' ht'), h.touched.keptTokens hw ht, hs, hm,
    List.countP_nil]
  omega

theorem balances_dispatch (p : Completion → Bool) (s : Stage) (el : ElementId) (event : String) :
    Balances p s (.dispatch el event) (s.dispatch el event) := by
  have h := countP_flatMap_filter p (fun w : Waiting OnceCall => w.hears el event) (fun w => w.call.tokens)
    s.page.waiting
  simp only [Balances, dispatch, keptTokens, mapPage, Page.forget, Page.awaiting, List.flatMap_cons, List.flatMap_nil,
    List.append_nil, Task.tokens, List.flatMap_map, Task.spends, mints, List.countP_append, List.countP_nil]
  omega

theorem balances_deliver (p : Completion → Bool) (s : Stage) : ∀ once listeners ran,
    Balances p s (.deliver once listeners ran) (s.deliver once listeners ran)
  | c :: cs, ls, ran => by
    simp only [Balances, deliver, Task.tokens, Task.spends, mints, List.flatMap_cons, List.flatMap_nil, List.append_nil]
  | [], (id, c) :: ls, ran => by
    simp only [deliver]
    split <;> simp [Balances, Task.tokens, Task.spends, mints]
  | [], [], ran => by simp [Balances, deliver, Task.tokens, Task.spends, mints, keptTokens, reply]

theorem flatMap_tokens_reflexes (s : Stage) (call : HostCall) (argument : String) (el : ElementId) :
    (s.reflexes call argument el).flatMap Task.tokens = [] :=
  flatMap_tokens_of_bears fun t ht => by rw [kind_reflexes s call argument el t ht]; rfl

theorem balances_callOnce (p : Completion → Bool) (s : Stage) (agenda : List Task) (c : OnceCall) :
    Balances p s (.callOnce c) (s.callOnce agenda c) := by
  cases c with
  | effectEnd el classes token =>
    have hperform : (classes.map fun c => Task.perform (.removeClass el c)).flatMap Task.tokens = [] := by
      refine flatMap_tokens_of_bears fun t ht => ?_
      obtain ⟨_, -, rfl⟩ := List.mem_map.1 ht
      rfl
    simp only [callOnce]
    split
    · simp only [Balances, List.flatMap_append, hperform]
      simp [Task.tokens, OnceCall.tokens, Task.spends, mints]
    · simp [Balances, Task.tokens, OnceCall.tokens, Task.spends, mints]
  | outside label script =>
    simp [Balances, callOnce, Task.tokens, OnceCall.tokens, Task.spends, mints, keptTokens, record]

theorem balances_await (p : Completion → Bool) (s : Stage) (el : ElementId) (event : String) (call : OnceCall) :
    Balances p s (.await el event call) (s.await el event call) := by
  simp only [Balances, await, flatMap_tokens_reflexes, keptTokens, mapPage, Page.listenOnce, List.flatMap_append,
    List.flatMap_cons, List.flatMap_nil, List.append_nil, List.countP_append, Task.tokens, Task.spends, mints,
    List.countP_nil]
  omega

theorem balances_pump (p : Completion → Bool) (s : Stage) (q : Nat) : Balances p s (.pump q) (s.pump q) := by
  simp only [Balances, pump, mints]
  cases h : (s.queue? q).bind JobQueue.start? with
  | none => simp [Task.tokens, Task.spends]
  | some r => simp [Task.tokens, Task.spends, keptTokens, mapQueue, notify, record, Nat.add_comm]

theorem flatMap_tokens_perform (ops : List PageOp) : (ops.map Task.perform).flatMap Task.tokens = [] := by
  refine flatMap_tokens_of_bears fun t ht => ?_
  obtain ⟨_, -, rfl⟩ := List.mem_map.1 ht
  rfl

theorem balances_run (p : Completion → Bool) (s : Stage) (body : JobBody) (token : Completion) :
    Balances p s (.run body token) (s.run body token) := by
  cases body with
  | effect plan =>
    simp only [Balances, run, List.flatMap_append, flatMap_tokens_perform]
    simp [Task.tokens, OnceCall.tokens, Task.spends, mints]
  | outside name script fate =>
    simp only [run]
    split <;> simp [Balances, Task.tokens, Task.spends, mints, keptTokens, record]

/-- **No task copies a token, makes one up or loses one**, but for the start of a job, which makes one, and for what is
done with the tokens kept from outside. -/
theorem balances_carryOut (p : Completion → Bool) (s : Stage) (agenda : List Task) {t : Task}
    (ht : .tokens ∉ t.touches) : Balances p s t (t.carryOut s agenda) := by
  cases t with
  | cue c =>
    cases c with
    | listenOnce => simp [Balances, Task.carryOut, follow, Task.tokens, Task.spends, mints, keptTokens, reply,
        mapPage, Page.listenOnce, OnceCall.tokens]
    | complete => simp [Task.touches, Cue.touches] at ht
    | dropToken => simp [Task.touches, Cue.touches] at ht
    | _ =>
      exact balances_of_bears (by simp [Task.touches, Cue.touches]) ht (by simp [Task.leaves, Cue.leaves, Kind.bears])
        rfl rfl
  | dispatch el event => exact balances_dispatch p s el event
  | deliver once listeners ran => exact balances_deliver p s once listeners ran
  | callOnce c => exact balances_callOnce p s agenda c
  | await el event call => exact balances_await p s el event call
  | pump q => exact balances_pump p s q
  | run body token => exact balances_run p s body token
  | settle => simp [Task.touches] at ht
  | release hold =>
    cases hold <;> exact balances_of_bears (by simp [Task.touches]) ht (by simp [Task.leaves, Kind.bears]) rfl rfl
  | _ => exact balances_of_bears (by simp [Task.touches]) ht (by simp [Task.leaves, Kind.bears]) rfl rfl

/-! ## Tokens kept from outside -/

theorem flatMap_tokens_lose (tokens : List Completion) : (tokens.map Task.lose).flatMap Task.tokens = tokens := by
  rw [List.flatMap_map]
  exact List.flatMap_singleton' tokens

theorem conserves_settle (s : Stage) (name : String) (fate : Fate) (token : Completion) :
    Conserves s (.settle name fate token) (s.settle name fate token) := by
  intro p
  cases fate with
  | complete => simp [settle, Task.tokens, Task.spends, mints]
  | drop => simp [settle, Task.tokens, Task.spends, mints]
  | park | lend =>
    have h := s.tokens.countP_values_erase p name
    simp only [settle, flatMap_tokens_lose, keptTokens, Registry.values_put, List.countP_append, Task.tokens,
      Task.spends, mints, List.countP_nil]
    omega

theorem conserves_withToken (s : Stage) (name : String) {f : Completion → Task} {t : Task}
    (hf : ∀ token, (f token).tokens = [token]) (ht : t.tokens = []) (hs : t.spends = []) :
    Conserves s t (s.withToken name f) := by
  intro p
  have h := s.tokens.countP_values_erase p name
  unfold withToken
  cases hget : s.tokens.get? name with
  | none =>
    simp only [List.flatMap_nil, hs, ht, List.countP_nil]
    exact Nat.le_trans (Nat.le_of_eq (by simp [keptTokens, reply])) (Nat.le_add_right _ _)
  | some token =>
    have hreply : (Task.reply (.truth true)).tokens = [] := rfl
    rw [hget] at h
    simp only [List.flatMap_cons, List.flatMap_nil, hf, hreply, List.append_nil, hs, ht, keptTokens,
      List.countP_append, List.countP_nil, Option.toList_some] at h ⊢
    omega

/-- **No task copies a token or makes one up**: only the start of a job makes one. -/
theorem conserves_carryOut (s : Stage) (agenda : List Task) (t : Task) : Conserves s t (t.carryOut s agenda) := by
  by_cases ht : .tokens ∈ t.touches
  · cases t with
    | settle name fate token => exact conserves_settle s name fate token
    | cue c =>
      cases c with
      | complete => exact conserves_withToken s _ (fun _ => rfl) rfl rfl
      | dropToken => exact conserves_withToken s _ (fun _ => rfl) rfl rfl
      | _ => simp [Task.touches, Cue.touches] at ht
    | release hold => cases hold <;> simp [Task.touches] at ht
    | _ => simp [Task.touches] at ht
  · exact fun p => Nat.le_of_eq (balances_carryOut p s agenda ht)

/-- If none of the tokens is kept from outside, then none of them gets lost there. -/
theorem balances_of_unkept {p : Completion → Bool} (s : Stage) (agenda : List Task) (t : Task)
    (hp : s.tokens.values.countP p = 0) : Balances p s t (t.carryOut s agenda) := by
  have htaken : ∀ name, (s.tokens.erase name).values.countP p = 0 ∧ (s.tokens.get? name).toList.countP p = 0 := by
    intro name
    have h := s.tokens.countP_values_erase p name
    omega
  have hwith : ∀ (name : String) (f : Completion → Task) (t : Task), (∀ token, (f token).tokens = [token]) →
      t.tokens = [] → t.spends = [] → s.mints t = [] → Balances p s t (s.withToken name f) := by
    intro name f t hf ht hs hm
    obtain ⟨herase, hget⟩ := htaken name
    have hreply : (Task.reply (.truth true)).tokens = [] := rfl
    unfold withToken
    cases hname : s.tokens.get? name with
    | none => simp [Balances, hs, ht, hm, keptTokens, reply]
    | some token =>
      rw [hname, Option.toList_some] at hget
      simp only [Balances, List.flatMap_cons, List.flatMap_nil, hf, hreply, List.append_nil, hs, ht, hm, keptTokens,
        List.countP_append, List.countP_nil, herase, hget, hp]
  by_cases ht : .tokens ∈ t.touches
  · cases t with
    | settle name fate token =>
      cases fate with
      | complete => simp [Balances, Task.carryOut, settle, Task.tokens, Task.spends, mints]
      | drop => simp [Balances, Task.carryOut, settle, Task.tokens, Task.spends, mints]
      | park | lend =>
        obtain ⟨herase, hget⟩ := htaken name
        simp only [Balances, Task.carryOut, settle, flatMap_tokens_lose, keptTokens, Registry.values_put,
          List.countP_append, Task.tokens, Task.spends, mints, List.countP_nil, herase, hget, hp]
        omega
    | cue c =>
      cases c with
      | complete => exact hwith _ _ _ (fun _ => rfl) rfl rfl rfl
      | dropToken => exact hwith _ _ _ (fun _ => rfl) rfl rfl rfl
      | _ => simp [Task.touches, Cue.touches] at ht
    | release hold => cases hold <;> simp [Task.touches] at ht
    | _ => simp [Task.touches] at ht
  · exact balances_carryOut p s agenda ht

theorem countP_tokens_of_balances {s : Stage} {t : Task} {rest : List Task} {p : Completion → Bool}
    (h : Balances p s t (t.carryOut s rest)) :
    (Config.after s t rest).tokens.countP p + t.spends.countP p =
      (Config.mk s (t :: rest)).tokens.countP p + (s.mints t).countP p := by
  simp only [Balances, Config.tokens, Config.after, List.flatMap_append, List.flatMap_cons, List.countP_append] at h ⊢
  omega

theorem countP_tokens_after (s : Stage) (t : Task) (rest : List Task) (p : Completion → Bool) :
    (Config.after s t rest).tokens.countP p + t.spends.countP p ≤
      (Config.mk s (t :: rest)).tokens.countP p + (s.mints t).countP p := by
  have h := conserves_carryOut s rest t p
  simp only [Config.tokens, Config.after, List.flatMap_append, List.flatMap_cons, List.countP_append] at h ⊢
  omega

end Stage
end Stagecraft
