import Stagecraft.Proofs.Stage.Classes
/-!
# The classes that effects leave on an element

An effect takes its temporary classes off at its end, and an initial class before that.  The wait for the end is set up
before the classes are put on.  So they stay only if the end has come in between, which takes a host that dispatches
when it is told to wait for an event or to put a class on.
-/
namespace Stagecraft

/-- The call that is made at the end of an effect. -/
def EffectPlan.endCall (p : EffectPlan) (token : Completion) : OnceCall := .effectEnd p.element p.temporary token

/-- The tasks with which an effect begins. -/
def EffectPlan.tasks (p : EffectPlan) (token : Completion) : List Task :=
  p.lead.map .perform ++ [.await p.element p.endEvent (p.endCall token)] ++ p.tail.map .perform ++ [.release .host]

theorem Stage.left_run (s : Stage) (p : EffectPlan) (token : Completion) (rest : List Task) :
    ((Task.run (.effect p) token).carryOut s rest).2 ++ rest = p.tasks token ++ rest := rfl

/-- The class to which a transform brings its element. -/
def Effect.target (settings : Settings) (e : Effect) : String :=
  (Animation.place (Stage.animation settings e).change).name

namespace Stage

variable {settings : Settings} {el other : ElementId} {e : Effect} {p : EffectPlan} {token : Completion}
  {names : String} {pre post : List Task}

/-- What stands around the task with which an effect puts a class on.  An initial class is taken off at once.  Any other
is temporary, or that of a transform, and the wait for the end has been set up before. -/
theorem split_tasks (hp : plan? settings el e = some p)
    (h : p.tasks token = pre ++ .perform (.addClass other names) :: post) : other = el ∧ p.element = el ∧
      (.perform (.removeClass el names) ∈ post ∨
        (names ∈ p.temporary ∨ e.kind = .transform ∧ names = e.target settings) ∧
        ∃ lead mid, pre = lead ++ .await p.element p.endEvent (p.endCall token) :: mid ∧
          ∀ t ∈ mid, ∃ names, t = .perform (.addClass el names)) := by
  unfold plan? at hp
  split at hp
  · obtain rfl := Option.some.inj hp
    simp only [EffectPlan.tasks, enterPlan, List.map_cons, List.map_nil, List.cons_append, List.nil_append] at h
    rcases pre with _ | ⟨t₁, _ | ⟨t₂, _ | ⟨t₃, _ | ⟨t₄, _ | ⟨t₅, _ | ⟨t₆, pre⟩⟩⟩⟩⟩⟩ <;> simp at h
    · obtain ⟨⟨rfl, rfl⟩, rfl⟩ := h
      exact ⟨rfl, rfl, .inl (by simp)⟩
    · obtain ⟨rfl, rfl, rfl, ⟨rfl, rfl⟩, rfl⟩ := h
      exact ⟨rfl, rfl, .inr ⟨.inl (by simp [enterPlan]), [_, _], [], rfl, List.forall_mem_nil _⟩⟩
  · rename_i hkind
    obtain rfl := Option.some.inj hp
    simp only [EffectPlan.tasks, transformPlan, List.map_cons, List.map_nil, List.cons_append, List.nil_append] at h
    rcases pre with _ | ⟨t₁, _ | ⟨t₂, _ | ⟨t₃, _ | ⟨t₄, _ | ⟨t₅, pre⟩⟩⟩⟩⟩ <;> simp at h
    · obtain ⟨rfl, rfl, ⟨rfl, rfl⟩, rfl⟩ := h
      exact ⟨rfl, rfl, .inr ⟨.inr ⟨hkind, rfl⟩, [_], [], rfl, List.forall_mem_nil _⟩⟩
    · obtain ⟨rfl, rfl, rfl, ⟨rfl, rfl⟩, rfl⟩ := h
      exact ⟨rfl, rfl, .inr ⟨.inl (by simp [transformPlan]), [_], [_], rfl, by simp⟩⟩
  · obtain ⟨name, -, rfl⟩ := Option.map_eq_some_iff.1 hp
    simp only [EffectPlan.tasks, animatePlan, List.map_cons, List.map_nil, List.cons_append, List.nil_append] at h
    rcases pre with _ | ⟨t₁, _ | ⟨t₂, _ | ⟨t₃, _ | ⟨t₄, _ | ⟨t₅, pre⟩⟩⟩⟩⟩ <;> simp at h
    · obtain ⟨rfl, rfl, ⟨rfl, rfl⟩, rfl⟩ := h
      exact ⟨rfl, rfl, .inr ⟨.inl (by simp [animatePlan]), [_], [], rfl, List.forall_mem_nil _⟩⟩
    · obtain ⟨rfl, rfl, rfl, ⟨rfl, rfl⟩, rfl⟩ := h
      exact ⟨rfl, rfl, .inr ⟨.inl (by simp [animatePlan]), [_], [_], rfl, by simp⟩⟩

end Stage

/-! ## The end of an effect -/

/-- A task that will make the call, or will have it wait to be made. -/
def Task.hands (call : OnceCall) : Task → Prop
  | .await _ _ k => k = call
  | .deliver once _ _ => call ∈ once
  | .callOnce k => k = call
  | _ => False

/-- The call is still to be made. -/
def Config.keeps (call : OnceCall) (c : Config) : Prop :=
  (∃ w ∈ c.stage.page.waiting, w.call = call) ∨ ∃ t ∈ c.agenda, t.hands call

namespace Stage

variable {s : Stage} {t : Task} {rest : List Task} {call : OnceCall}

theorem keeps_of_waiting {w : Waiting OnceCall} (hw : w ∈ s.page.waiting) (hcall : w.call = call) :
    Config.keeps call (.after s t rest) := by
  by_cases ht : .waiting ∈ t.touches
  · cases t with
    | cue cue =>
      cases cue with
      | listenOnce => exact .inl ⟨w, List.mem_append_left _ hw, hcall⟩
      | _ => simp [Task.touches, Cue.touches] at ht
    | await => exact .inl ⟨w, List.mem_append_left _ hw, hcall⟩
    | dispatch el event =>
      by_cases hears : w.hears el event = true
      · refine .inr ⟨_, List.mem_cons_self, ?_⟩
        exact List.mem_map.2 ⟨w, List.mem_filter.2 ⟨hw, hears⟩, hcall⟩
      · exact .inl ⟨w, List.mem_filter.2 ⟨hw, by simpa using hears⟩, hcall⟩
    | release hold => cases hold <;> simp [Task.touches] at ht
    | _ => simp [Task.touches] at ht
  · have hwaiting : (t.carryOut s rest).1.page.waiting = s.page.waiting :=
      (within_carryOut s rest t).touched.agree .waiting ht
    exact .inl ⟨w, hwaiting ▸ hw, hcall⟩

/-- A call is still to be made until it is made. -/
theorem keeps_after (h : Config.keeps call ⟨s, t :: rest⟩) (ht : t ≠ .callOnce call) :
    Config.keeps call (.after s t rest) := by
  rcases h with ⟨w, hw, hcall⟩ | ⟨t', ht', hands⟩
  · exact keeps_of_waiting hw hcall
  · rcases List.mem_cons.1 ht' with rfl | hrest
    · cases t' with
      | await el event k =>
        exact .inl ⟨⟨el, event, k⟩, List.mem_append_right _ (List.mem_singleton_self _), hands⟩
      | deliver once listeners ran =>
        cases once with
        | nil => cases hands
        | cons k ks =>
          rcases List.mem_cons.1 hands with rfl | hlater
          · exact .inr ⟨.callOnce call, List.mem_cons_self, rfl⟩
          · exact .inr ⟨.deliver ks listeners (ran + 1), List.mem_cons_of_mem _ List.mem_cons_self, hlater⟩
      | callOnce k => exact absurd (congrArg Task.callOnce hands) ht
      | _ => exact hands.elim
    · exact .inr ⟨t', List.mem_append_right _ hrest, hands⟩

/-- The token of an effect is there until its end. -/
theorem mem_tokens_of_keeps {c : Config} {el : ElementId} {names : List String} {token : Completion}
    (h : c.keeps (.effectEnd el names token)) : token ∈ c.tokens := by
  rcases h with ⟨w, hw, hcall⟩ | ⟨t, ht, hands⟩
  · refine List.mem_append_right _ (List.mem_append_left _ (List.mem_flatMap.2 ⟨w, hw, ?_⟩))
    rw [hcall]
    exact List.mem_singleton_self token
  · refine List.mem_append_left _ (List.mem_flatMap.2 ⟨t, ht, ?_⟩)
    cases t with
    | await el event k =>
      obtain rfl : k = _ := hands
      exact List.mem_singleton_self token
    | deliver once listeners ran => exact List.mem_flatMap.2 ⟨_, hands, List.mem_singleton_self token⟩
    | callOnce k =>
      obtain rfl : k = _ := hands
      exact List.mem_singleton_self token
    | _ => exact hands.elim

theorem hosted_before (h : (t.carryOut s rest).1.hosted = true) : s.hosted = true := by
  by_cases ht : .hosted ∈ t.touches
  · cases t with
    | cue cue =>
      cases cue with
      | dropHost => cases h
      | _ => simp [Task.touches, Cue.touches] at ht
    | release hold => cases hold <;> simp [Task.touches] at ht
    | _ => simp [Task.touches] at ht
  · exact ((within_carryOut s rest t).touched.agree .hosted ht : _ = _) ▸ h

end Stage
open Stage

section
variable {manners : Manners} {c d b : Config} {past later earlier : List Config} {call : OnceCall}

theorem Course.keeps_next (h : Course manners (c :: d :: past)) (hd : d.keeps call)
    (hno : ∀ rest, d.agenda ≠ .callOnce call :: rest) : c.keeps call := by
  obtain ⟨s, agenda⟩ := d
  rcases h.undisturbed_or_after with ⟨rfl, hsame⟩ | ⟨t, rest, rfl, rfl⟩
  · rcases hd with ⟨w, hw, hcall⟩ | ⟨t, ht, -⟩
    · exact .inl ⟨w, hsame.page ▸ hw, hcall⟩
    · cases ht
  · exact keeps_after hd fun heq => hno rest (congrArg (· :: rest) heq)

theorem Course.keeps_since (hb : b.keeps call) : ∀ {later : List Config} {c : Config},
    Course manners (c :: (later ++ b :: earlier)) →
      c.keeps call ∨ ∃ e ∈ later ++ [b], ∃ rest, e.agenda = .callOnce call :: rest
  | [], c, h => by
    by_cases hno : ∃ rest, b.agenda = .callOnce call :: rest
    · exact .inr ⟨b, List.mem_singleton_self b, hno⟩
    · exact .inl (h.keeps_next hb fun rest heq => hno ⟨rest, heq⟩)
  | d :: later, c, h => by
    rcases keeps_since hb h.tail with hd | ⟨e, he, hmade⟩
    · by_cases hno : ∃ rest, d.agenda = .callOnce call :: rest
      · exact .inr ⟨d, List.mem_cons_self, hno⟩
      · exact .inl (h.keeps_next hd fun rest heq => hno ⟨rest, heq⟩)
    · exact .inr ⟨e, List.mem_cons_of_mem _ he, hmade⟩

theorem Course.hosted_last (h : Course manners (c :: d :: past)) (hc : c.stage.hosted = true) :
    d.stage.hosted = true := by
  rcases h.undisturbed_or_after with ⟨-, hsame⟩ | ⟨t, rest, -, rfl⟩
  · rw [← hsame.hosted]
    exact hc
  · exact Stage.hosted_before hc

/-- A host that can be used could be used before. -/
theorem Course.hosted_before : ∀ {later : List Config} {c : Config}, Course manners (c :: (later ++ b :: earlier)) →
    c.stage.hosted = true → b.stage.hosted = true
  | [], _, h, hc => h.hosted_last hc
  | _ :: _, _, h, hc => hosted_before h.tail (h.hosted_last hc)

end

/-! ## Where effects come from -/

/-- Whether a task puts a class on through the host, or leaves a call to wait for an event. -/
def Task.sets : Task → Bool
  | .perform (.addClass ..) | .await .. => true
  | _ => false

namespace Stage

variable {s : Stage} {q : Nat} {job : Job} {p : EffectPlan}

theorem eq_of_submit {queue : String} {job' : Job} (h : .enqueue q job ∈ (s.submit queue job').2) : job = job' := by
  unfold submit at h
  split at h
  · cases h
  · rename_i m _
    have heq : q = m ∧ job = job' := by simpa using h
    exact heq.2

theorem plan_of_follow {cue : Cue} (h : .enqueue q job ∈ (s.follow cue).2) (hbody : job.body = .effect p) :
    ∃ settings el e, plan? settings el e = some p := by
  have hkind := (within_follow s cue).kinds _ h
  cases cue with
  | enqueue queue name labelled fate script finish =>
    rw [eq_of_submit h] at hbody
    cases hbody
  | effectJob queue effect el settings finish =>
    simp only [follow, submitEffect] at h
    split at h
    · split at h
      · cases h
      · rename_i e heffect
        split at h
        · cases h
        · rename_i job' hjob'
          obtain ⟨p', hp', rfl⟩ := Option.map_eq_some_iff.1 hjob'
          rw [eq_of_submit h] at hbody
          cases hbody
          exact ⟨settings, el, e, hp'⟩
    · cases h
  | _ => simp [Cue.leaves, Task.kind] at hkind

theorem plan_of_enqueue {t : Task} {rest : List Task} (h : .enqueue q job ∈ (t.carryOut s rest).2)
    (hbody : job.body = .effect p) : ∃ settings el e, plan? settings el e = some p := by
  have hkind := (within_carryOut s rest t).kinds _ h
  cases t with
  | cue cue => exact plan_of_follow h hbody
  | act m slot anew =>
    obtain ⟨c, -, -, hsends⟩ := sends_act h
    obtain ⟨e, p', hp', -, hbody'⟩ := hsends.effect
    obtain rfl : p' = p := by
      rw [hbody'] at hbody
      exact JobBody.effect.inj hbody
    exact ⟨c.settings, c.element, e, hp'⟩
  | release hold => cases hold <;> simp [Task.leaves, Task.kind] at hkind
  | _ => simp [Task.leaves, Task.kind] at hkind

end Stage

section
variable {manners : Manners} {c : Config} {past : List Config} {s : Stage} {rest : List Task} {p : EffectPlan}
  {token : Completion}

/-- A job is run when its queue has just started it. -/
theorem Course.before_run {body : JobBody} (h : Course manners (⟨s, .run body token :: rest⟩ :: past)) :
    ∃ s₀ earlier job jq, past = ⟨s₀, .pump token.queue :: rest⟩ :: earlier ∧
      (s₀.queueAt token.queue).start? = some (job, jq) ∧ job.body = body ∧ jq.started = token.ticket := by
  rcases h.left_next with ⟨cue, hcue, -⟩ | ⟨later, s₀, t₀, rest₀, earlier, pre, post, rfl, hleft, rfl, -, hlong⟩
  · cases hcue
  have hmem : .run body token ∈ (t₀.carryOut s₀ rest₀).2 := by rw [hleft]; simp
  have hkind := (within_carryOut s₀ rest₀ t₀).kinds _ hmem
  cases t₀ with
  | pump q =>
    have hpump : (Task.carryOut s₀ rest₀ (.pump q)).2 =
        ((s₀.queueAt q).start?.map fun o => .run o.1.body ⟨q, o.2.started, o.1.label⟩).toList := by
      simp only [Task.carryOut, pump, ← start?_queueAt]
      cases (s₀.queueAt q).start? <;> rfl
    cases hstart : (s₀.queueAt q).start? with
    | none =>
      rw [hpump, hstart] at hmem
      cases hmem
    | some o =>
      obtain ⟨job, jq⟩ := o
      rw [hstart] at hpump
      obtain ⟨rfl, rfl⟩ : job.body = body ∧ ⟨q, jq.started, job.label⟩ = token := by
        have heq := List.mem_singleton.1 (hpump ▸ hmem)
        injection heq with hbody htoken
        exact ⟨hbody.symm, htoken.symm⟩
      obtain ⟨rfl, rfl⟩ : pre = [] ∧ post = [] := by
        have hlength := congrArg List.length (hpump.symm.trans hleft)
        simp only [Option.map_some, Option.toList_some, List.length_append, List.length_cons, List.length_nil]
          at hlength
        exact ⟨List.eq_nil_of_length_eq_zero (by omega), List.eq_nil_of_length_eq_zero (by omega)⟩
      obtain rfl := h.begins_first hleft hlong
      exact ⟨s₀, earlier, job, jq, rfl, hstart, rfl, rfl⟩
  | cue cue => cases cue <;> simp [Task.leaves, Cue.leaves, Task.kind] at hkind
  | release hold => cases hold <;> simp [Task.leaves, Task.kind] at hkind
  | _ => simp [Task.leaves, Task.kind] at hkind

/-- What is played is played as it was planned. -/
theorem Course.plan_of_run (h : Course manners (⟨s, .run (.effect p) token :: rest⟩ :: past)) :
    ∃ settings el e, plan? settings el e = some p := by
  obtain ⟨s₀, earlier, job, jq, rfl, hstart, hbody, -⟩ := h.before_run
  obtain ⟨-, waiting, hwaiting, -⟩ := start?_eq_some hstart
  have hsent : job ∈ enqueuedJobs (queueLog token.queue earlier) := by
    refine (h.tail.serial token.queue rfl).order.subset (List.mem_append_right _ ?_)
    rw [hwaiting]
    exact List.mem_cons_self
  obtain ⟨i, hi⟩ := List.getElem?_of_mem hsent
  obtain ⟨later, s₁, rest₁, earlier', rfl, -⟩ := exists_enqueue hi
  have hsend : Course manners (⟨s₁, .enqueue token.queue job :: rest₁⟩ :: earlier') := Course.drop (_ :: later) h.tail
  rcases hsend.left_next with ⟨cue, hcue, -⟩ | ⟨_, s₂, t₂, rest₂, _, pre, post, _, hleft, -, -, -⟩
  · cases hcue
  · exact plan_of_enqueue (show .enqueue token.queue job ∈ (t₂.carryOut s₂ rest₂).2 by rw [hleft]; simp) hbody

/-- A class is put on through the host, and a call is left to wait for the end, by an effect that is set going. -/
theorem Course.effect_of_task {t : Task} (h : Course manners (⟨s, t :: rest⟩ :: past)) (ht : t.sets = true) :
    ∃ begun s₀ p token rest₀ before pre post, past = begun ++ ⟨s₀, .run (.effect p) token :: rest₀⟩ :: before ∧
      p.tasks token = pre ++ t :: post ∧ rest = post ++ rest₀ ∧
      (progress rest₀ (p.tasks token) begun).todo = t :: post ∧
      ∀ d ∈ begun, (t :: rest).length < d.agenda.length := by
  rcases h.left_next with ⟨cue, rfl, -⟩ | ⟨begun, s₀, t₀, rest₀, before, pre, post, rfl, hleft, rfl, htodo, hlong⟩
  · cases ht
  have hmem : t ∈ (t₀.carryOut s₀ rest₀).2 := by rw [hleft]; simp
  have hkind : t.kind ∈ t₀.leaves := (within_carryOut s₀ rest₀ t₀).kinds _ hmem
  have hsets : t.kind = .perform ∨ t.kind = .await := by
    cases t with
    | perform => exact .inl rfl
    | await => exact .inr rfl
    | _ => cases ht
  cases t₀ with
  | run body token =>
    cases body with
    | effect p =>
      have htasks : p.tasks token = pre ++ t :: post := hleft
      exact ⟨begun, s₀, p, token, rest₀, before, pre, post, rfl, htasks, rfl, htasks ▸ htodo, hlong⟩
    | outside name script fate =>
      simp only [Task.carryOut, Stage.run] at hmem
      split at hmem <;> rcases List.mem_pair.1 hmem with rfl | rfl <;> cases ht
  | callOnce call =>
    cases call with
    | effectEnd e classes token =>
      simp only [Task.carryOut, callOnce] at hmem
      split at hmem
      · rcases List.mem_append.1 hmem with hmem | hmem
        · obtain ⟨_, -, rfl⟩ := List.mem_map.1 hmem
          cases ht
        · rcases List.mem_pair.1 hmem with rfl | rfl <;> cases ht
      · rw [List.mem_singleton.1 hmem] at ht
        cases ht
    | outside label script =>
      rw [List.mem_singleton.1 hmem] at ht
      cases ht
  | cue cue => rcases hsets with hk | hk <;> cases cue <;> simp [Task.leaves, Cue.leaves, hk] at hkind
  | release hold => rcases hsets with hk | hk <;> cases hold <;> simp [Task.leaves, hk] at hkind
  | _ => rcases hsets with hk | hk <;> simp [Task.leaves, hk] at hkind

end

/-! ## What stays -/

/-- Why an effect may have a class on its element: `begun` has happened between the start of the effect and the point
`b` where it put the class on, and `later` has happened since. -/
inductive Worn (manners : Manners) (settings : Settings) (e : Effect) (p : EffectPlan) (token : Completion)
    (rest₀ : List Task) (begun later : List Config) (b : Config) (names : String) (past : List Config) (c : Config) :
    Prop
  /-- The effect has not yet been set going. -/
  | starting (h : (progress rest₀ (p.tasks token) (later ++ b :: begun)).todo ≠ [])
  /-- The effect is not over. -/
  | playing (h : token ∈ c.tokens) (hlog : .completed token.ticket ∉ queueLog token.queue past)
  /-- The effect is a transform, and this is the class to which it brings the element. -/
  | lasting (hkind : e.kind = .transform) (hnames : names = e.target settings)
  /-- The end of the effect came before the class was put on, since the host dispatched from inside a call. -/
  | late (d : Config) (hd : d ∈ begun) (hcall : d.agenda.head? = some (.callOnce (p.endCall token)))
      (hreflex : ∃ r ∈ manners.reflexes, r.call = .listenOnce ∨ r.call = .addClass)

section
variable {manners : Manners} {c b d e : Config} {past later begun before earlier : List Config} {el : ElementId}
  {w names : String} {token : Completion} {rest : List Task}

theorem Config.takes_of_agenda (hw : (Text.wordsOf names).contains w = true)
    (hd : d.agenda = .perform (.removeClass el names) :: rest) : d.takes el w = true := by
  simp [Config.takes, hd, Task.op?, PageOp.takes, List.contains_iff_mem.1 hw]

theorem Config.exists_of_puts (h : b.puts el w = true) : ∃ names rest, (b.agenda = .cue (.addClass el names) :: rest ∨
    b.agenda = .perform (.addClass el names) :: rest) ∧ (Text.wordsOf names).contains w = true := by
  obtain ⟨s, agenda⟩ := b
  have hputs : ∀ op : PageOp, op.puts el w = true → ∃ names, op = .addClass el names ∧
      (Text.wordsOf names).contains w = true := by
    intro op hop
    cases op with
    | addClass e names =>
      simp only [PageOp.puts, Bool.and_eq_true, decide_eq_true_eq] at hop
      exact ⟨names, by rw [hop.1], hop.2⟩
    | _ => cases hop
  cases agenda with
  | nil => cases h
  | cons t rest =>
    cases t with
    | perform op =>
      obtain ⟨names, rfl, hw⟩ := hputs op h
      exact ⟨names, rest, .inr rfl, hw⟩
    | cue cue =>
      cases cue with
      | addClass e names' =>
        obtain ⟨names, heq, hw⟩ := hputs (.addClass e names') h
        cases heq
        exact ⟨names', rest, .inl rfl, hw⟩
      | removeClass e names' => cases h
      | _ => cases h
    | _ => cases h

/-- A token that is there has not been completed. -/
theorem Course.not_completed (h : Course manners (c :: past)) (ht : token ∈ c.tokens) :
    .completed token.ticket ∉ queueLog token.queue past := by
  intro hmem
  obtain ⟨jobs, job, -, hticket, -, -, -, hturns⟩ := (h.serial token.queue rfl).turn.exists_busy ht rfl
  have hcompleted : token.ticket ∈ completions (turns (queueLog token.queue past)) := by
    rw [completions_turns]
    exact List.mem_filterMap.2 ⟨_, hmem, rfl⟩
  rw [hturns, completions, List.filterMap_append, List.mem_append] at hcompleted
  rcases hcompleted with hmem | hmem
  · rw [show List.filterMap QueueEvent.completed? (rounds 1 jobs) = completions (rounds 1 jobs) from rfl,
      completions_rounds, List.mem_range'_1] at hmem
    omega
  · cases hmem

/-- The end of an effect takes its classes off before the token is completed. -/
theorem Course.token_of_end {s : Stage} {classes : List String}
    (h : Course manners (c :: (later ++ ⟨s, .callOnce (.effectEnd el classes token) :: rest⟩ :: earlier)))
    (hhost : s.hosted = true) (hnames : names ∈ classes)
    (hkept : ∀ d ∈ later, ∀ rest', d.agenda ≠ .perform (.removeClass el names) :: rest') : token ∈ c.tokens := by
  have hleft : ((Task.callOnce (.effectEnd el classes token)).carryOut s rest).2 ++ rest =
      (classes.map (fun names => Task.perform (.removeClass el names)) ++ [Task.release .host]) ++
        [Task.complete token] ++ rest := by
    simp [Task.carryOut, callOnce, hasHost, hhost]
  have htakes : .perform (.removeClass el names) ∈
      (progress rest (classes.map (fun names => Task.perform (.removeClass el names)) ++ [Task.release .host] ++
        [Task.complete token]) []).todo :=
    List.mem_append_left _ (List.mem_append_left _ (List.mem_map.2 ⟨names, hnames, rfl⟩))
  rcases Course.begins_or_waits rfl hleft htakes h with hwaits | ⟨d, hd, rest', hbegun⟩
  · rw [List.append_nil] at hwaits
    have htodo := List.ne_nil_of_mem hwaits
    obtain ⟨us, hagenda, -⟩ := h.progress_agenda rfl hleft htodo
    have hcomplete : .complete token ∈ c.agenda := by
      rw [hagenda]
      exact List.mem_append_left _ (List.mem_append_right _ (last_mem_todo htodo))
    exact List.mem_append_left _ (List.mem_flatMap.2 ⟨_, hcomplete, List.mem_singleton_self token⟩)
  · exact absurd hbegun (hkept d hd rest')

/-- If the end of an effect comes before the effect has put its classes on, then the host has dispatched. -/
theorem Course.exists_reflex {call call' : OnceCall} {event : String} {mid rest' : List Task} {el' : ElementId}
    (hd : d.agenda = .await el' event call :: (mid ++ .perform (.addClass el names) :: rest))
    (hmid : ∀ t ∈ mid, ∃ names, t = .perform (.addClass el names))
    (h : Course manners (b :: (begun ++ d :: earlier)))
    (hlong : ∀ x ∈ begun, (Task.perform (.addClass el names) :: rest).length < x.agenda.length) (he : e ∈ begun)
    (hcall : e.agenda = .callOnce call' :: rest') :
    ∃ r ∈ manners.reflexes, r.call = .listenOnce ∨ r.call = .addClass := by
  by_contra hno
  push Not at hno
  have hnone : ∀ (s : Stage) (call : HostCall) (argument : String) (el : ElementId), s.manners = manners →
      (call = .listenOnce ∨ call = .addClass) → s.reflexes call argument el = [] := by
    intro s call argument el hs hcall
    rw [reflexes, List.map_eq_nil_iff, List.filter_eq_nil_iff, hs]
    intro r hr
    rcases hcall with rfl | rfl
    · simp [(hno r hr).1]
    · simp [(hno r hr).2]
  obtain ⟨since, begun, rfl⟩ := List.append_of_mem he
  have hat : Course manners (e :: (begun ++ d :: earlier)) := by
    refine Course.drop (b :: since) ?_
    simpa using h
  have hleft : ((Task.await el' event call).carryOut d.stage (mid ++ Task.perform (.addClass el names) :: rest)).2 ++
      (mid ++ Task.perform (.addClass el names) :: rest) = (mid ++ [Task.perform (.addClass el names)]) ++ rest := by
    have hmanners : d.stage.manners = manners := (Course.drop (e :: begun) hat).manners_eq
    simp [Task.carryOut, await, hnone _ _ _ _ hmanners (.inl rfl)]
  have hsuffix : [Task.perform (.addClass el names)] <:+
      (progress rest (mid ++ [Task.perform (.addClass el names)]) begun).todo :=
    suffix_todo (List.suffix_append mid _) fun x hx => hlong x (by simp [hx])
  have htodo : (progress rest (mid ++ [Task.perform (.addClass el names)]) begun).todo ≠ [] := fun hnil => by
    simp [hnil] at hsuffix
  obtain ⟨us, hagenda, hus, -⟩ := hat.progress_between (P := fun _ => False) hd hleft
    (fun s t rest' later hcourse ht t' ht' => by
      have hput : ∃ names, t = .perform (.addClass el names) := by
        rcases List.mem_append.1 (ht.resolve_right id) with hmem | hmem
        · exact hmid t hmem
        · exact ⟨names, List.mem_singleton.1 hmem⟩
      obtain ⟨names', rfl⟩ := hput
      simp [Task.carryOut, perform, hnone s _ _ _ hcourse.manners_eq (.inr rfl)] at ht') htodo
  obtain rfl : us = [] := List.eq_nil_iff_forall_not_mem.2 hus
  obtain ⟨t, todo, heq⟩ := List.exists_cons_of_ne_nil htodo
  have hmem := mem_of_mem_todo (heq ▸ List.mem_cons_self)
  rw [heq, List.nil_append, List.cons_append, hcall] at hagenda
  obtain rfl : Task.callOnce call' = t := (List.cons.inj hagenda).1
  rcases List.mem_append.1 hmem with hmem | hmem
  · obtain ⟨_, hput⟩ := hmid _ hmem
    cases hput
  · cases List.mem_singleton.1 hmem

variable {settings : Settings} {effect : Effect} {p : EffectPlan} {s : Stage} {rest₀ pre post : List Task}

/-- The wait for the end of an effect is set up before the effect puts on a class that it takes off at its end. -/
theorem Course.awaited_before {lead mid : List Task} {t : Task}
    (h : Course manners (c :: (begun ++ ⟨s, .run (.effect p) token :: rest₀⟩ :: before)))
    (htasks : p.tasks token = lead ++ .await p.element p.endEvent (p.endCall token) :: mid ++ t :: post)
    (htodo : (progress rest₀ (p.tasks token) begun).todo = t :: post) : ∃ d ∈ begun,
      d.agenda = .await p.element p.endEvent (p.endCall token) :: (mid ++ t :: (post ++ rest₀)) := by
  obtain ⟨hdrop, hle⟩ := todo_eq_drop rest₀ (p.tasks token) begun
  have hlength := congrArg List.length (htodo.symm.trans hdrop)
  rw [List.length_drop] at hlength
  rw [htasks] at hle hlength
  simp only [List.length_append, List.length_cons] at hlength hle
  obtain ⟨d, hd⟩ : ∃ d, (progress rest₀ (p.tasks token) begun).begun[lead.length]? = some d :=
    ⟨_, List.getElem?_eq_getElem (by rw [htasks]; omega)⟩
  refine ⟨d, begun_subset d (List.mem_of_getElem? hd), ?_⟩
  rw [Course.agenda_of_begun rfl (left_run s p token rest₀) h lead.length d hd, htasks]
  simp

theorem Course.worn
    (h : Course manners (c :: (later ++ b :: (begun ++ ⟨s, .run (.effect p) token :: rest₀⟩ :: before))))
    (hhost : c.stage.hosted = true) (hplan : plan? settings el effect = some p)
    (htasks : p.tasks token = pre ++ .perform (.addClass el names) :: post)
    (hb : b.agenda = .perform (.addClass el names) :: (post ++ rest₀))
    (htodo : (progress rest₀ (p.tasks token) begun).todo = .perform (.addClass el names) :: post)
    (hlong : ∀ d ∈ begun, (Task.perform (.addClass el names) :: (post ++ rest₀)).length < d.agenda.length)
    (hw : (Text.wordsOf names).contains w = true) (hkept : ∀ d ∈ later, d.takes el w = false) :
    Worn manners settings effect p token rest₀ begun later b names
      (later ++ b :: (begun ++ ⟨s, .run (.effect p) token :: rest₀⟩ :: before)) c := by
  by_cases hover : (progress rest₀ (p.tasks token) (later ++ b :: begun)).todo = []
  · have hkept' : ∀ d ∈ later, ∀ rest', d.agenda ≠ .perform (.removeClass el names) :: rest' := by
      intro d hd rest' hagenda
      have := hkept d hd
      rw [Config.takes_of_agenda hw hagenda] at this
      cases this
    obtain ⟨-, hel, hremoved | ⟨hlasting, lead, mid, rfl, hmid⟩⟩ := split_tasks hplan htasks
    · -- an initial class has been taken off by now
      have hbegins := progress_begins htodo (show b.agenda.length = _ by rw [hb]; simp)
      have hwaits : .perform (.removeClass el names) ∈ (progress rest₀ (p.tasks token) (b :: begun)).todo := by
        rw [hbegins]
        exact hremoved
      have hwhole : Course manners
          (c :: (later ++ ((b :: begun) ++ ⟨s, .run (.effect p) token :: rest₀⟩ :: before))) := h
      rcases hwhole.begins_or_waits rfl (left_run s p token rest₀) hwaits with hwaits | ⟨d, hd, rest', hagenda⟩
      · rw [hover] at hwaits
        cases hwaits
      · exact absurd hagenda (hkept' d hd rest')
    · rcases hlasting with htemporary | ⟨hkind, hnames⟩
      · have hat : Course manners (b :: (begun ++ ⟨s, .run (.effect p) token :: rest₀⟩ :: before)) :=
          Course.drop (c :: later) h
        obtain ⟨d, hd, hawait⟩ := hat.awaited_before htasks htodo
        obtain ⟨since, begun, rfl⟩ := List.append_of_mem hd
        have hsince : Course manners
            (c :: ((later ++ b :: since) ++ d :: (begun ++ ⟨s, .run (.effect p) token :: rest₀⟩ :: before))) := by
          simpa using h
        have hkeeps : d.keeps (p.endCall token) :=
          .inr ⟨.await p.element p.endEvent (p.endCall token), hawait ▸ List.mem_cons_self, rfl⟩
        rcases Course.keeps_since hkeeps hsince with hkeeps | ⟨e, he, rest', hcall⟩
        · exact .playing (mem_tokens_of_keeps hkeeps) (h.not_completed (mem_tokens_of_keeps hkeeps))
        rw [List.append_assoc, List.cons_append, List.mem_append, List.mem_cons, List.mem_append,
          List.mem_singleton] at he
        rcases he with he | rfl | he | rfl
        · -- the end has come since
          obtain ⟨later₁, later₂, rfl⟩ := List.append_of_mem he
          obtain ⟨s', agenda⟩ := e
          obtain rfl : agenda = .callOnce (p.endCall token) :: rest' := hcall
          have hend := h
          rw [List.append_assoc, List.cons_append] at hend
          have htoken := hend.token_of_end (hend.hosted_before hhost) htemporary fun x hx =>
            hel ▸ hkept' x (List.mem_append_left _ hx)
          exact .playing htoken (h.not_completed htoken)
        · rw [hb] at hcall
          cases hcall
        · refine .late e (List.mem_append_left _ he) (by rw [hcall]; rfl) ?_
          have hsplit : Course manners
              (b :: (since ++ d :: (begun ++ ⟨s, .run (.effect p) token :: rest₀⟩ :: before))) := by
            simpa using hat
          exact hsplit.exists_reflex hawait hmid (fun x hx => hlong x (List.mem_append_left _ hx)) he hcall
        · rw [hawait] at hcall
          cases hcall
      · exact .lasting hkind hnames
  · exact .starting hover

/-- **A temporary class stays on an element after its effect only if the effect was ended early.**  A class is on an
element exactly if something put it there and nothing has taken it off since.  If an effect put it there, then the
effect is not over, or it is a transform and brought the element to this class, or the host dispatched from inside a
call and so the end of the effect came before the class was put on. -/
theorem temporary_classes_stay_only_if_ended_early (h : Course manners (c :: past)) (hhost : c.stage.hosted = true)
    (el : ElementId) (w : String) : c.stage.page.hasClass el w = true ↔
      ∃ (later : List Config) (b : Config) (earlier : List Config), past = later ++ b :: earlier ∧
      b.puts el w = true ∧ (∀ d ∈ later, d.takes el w = false) ∧
      ((∃ names rest, b.agenda = .cue (.addClass el names) :: rest) ∨
        ∃ names rest begun s p token rest₀ before settings e, b.agenda = .perform (.addClass el names) :: rest ∧
          earlier = begun ++ ⟨s, .run (.effect p) token :: rest₀⟩ :: before ∧ plan? settings el e = some p ∧
          Worn manners settings e p token rest₀ begun later b names past c) := by
  rw [h.hasClass_iff]
  constructor
  · rintro ⟨later, b, earlier, rfl, hputs, hkept⟩
    refine ⟨later, b, earlier, rfl, hputs, hkept, ?_⟩
    obtain ⟨names, rest, hb, hw⟩ := Config.exists_of_puts hputs
    rcases hb with hb | hb
    · exact .inl ⟨names, rest, hb⟩
    · obtain ⟨s₁, agenda⟩ := b
      obtain rfl : agenda = .perform (.addClass el names) :: rest := hb
      have hat : Course manners (⟨s₁, .perform (.addClass el names) :: rest⟩ :: earlier) := Course.drop (c :: later) h
      obtain ⟨begun, s, p, token, rest₀, before, pre, post, rfl, htasks, rfl, htodo, hlong⟩ := hat.effect_of_task rfl
      obtain ⟨settings, el', e, hplan⟩ := Course.plan_of_run (Course.drop (_ :: begun) hat)
      obtain ⟨rfl, -, -⟩ := split_tasks hplan htasks
      exact .inr ⟨names, post ++ rest₀, begun, s, p, token, rest₀, before, settings, e, rfl, rfl, hplan,
        h.worn hhost hplan htasks rfl htodo hlong hw hkept⟩
  · rintro ⟨later, b, earlier, rfl, hputs, hkept, -⟩
    exact ⟨later, b, earlier, rfl, hputs, hkept⟩

end

/-- This host dispatches the end of an animation as soon as something waits for it. -/
def hasty : Manners := { reflexes := [⟨.listenOnce, some "animationend", "animationend"⟩] }

/-- A hasty host is to play an animation. -/
def hastyPlayed : List Config :=
  [Cue.queue "q", .effectJob "q" "animate one" ⟨1⟩ {} none].foldl (Course.play 40) [⟨.opened hasty, []⟩]

/-- On a hasty host the animation is over and nothing runs, but its class is on the element.  It was put there by an
effect, whose token is not there any more and whose tasks have all been done. -/
theorem temporary_classes_stay_only_if_ended_early_hasty : ∃ s past, hastyPlayed = ⟨s, []⟩ :: past ∧
    (s.queueAt 0).running = none ∧ .completed 1 ∈ queueLog 0 past ∧ s.page.hasClass ⟨1⟩ "one" = true ∧
    ∃ later b earlier, past = later ++ b :: earlier ∧ b.puts ⟨1⟩ "one" = true ∧
      (∀ d ∈ later, d.takes ⟨1⟩ "one" = false) ∧
      ((∃ names rest, b.agenda = .cue (.addClass ⟨1⟩ names) :: rest) ∨
        ∃ names rest begun s' p token rest₀ before settings e, b.agenda = .perform (.addClass ⟨1⟩ names) :: rest ∧
          earlier = begun ++ ⟨s', .run (.effect p) token :: rest₀⟩ :: before ∧ plan? settings ⟨1⟩ e = some p ∧
          Worn hasty settings e p token rest₀ begun later b names past ⟨s, []⟩) := by
  obtain ⟨s, past, heq, hhost, hidle, hcompleted, hclass⟩ : ∃ s past, hastyPlayed = ⟨s, []⟩ :: past ∧
      s.hosted = true ∧ (s.queueAt 0).running = none ∧ completions (queueLog 0 past) = [1] ∧
      s.page.hasClass ⟨1⟩ "one" = true := ⟨_, _, rfl, rfl, rfl, rfl, rfl⟩
  have hcourse : Course hasty (⟨s, []⟩ :: past) := heq ▸ Course.plays hasty 40 _ .opened
  have hmem : 1 ∈ completions (queueLog 0 past) := hcompleted ▸ List.mem_singleton_self 1
  obtain ⟨event, hevent, hnumber⟩ := List.mem_filterMap.1 hmem
  obtain rfl : event = .completed 1 := by cases event <;> simp_all [QueueEvent.completed?]
  exact ⟨s, past, heq, hidle, hevent, hclass,
    (temporary_classes_stay_only_if_ended_early hcourse hhost ⟨1⟩ "one").1 hclass⟩

end Stagecraft
