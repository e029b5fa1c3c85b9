import Stagecraft.Proofs.Stage.Progress
import Stagecraft.Proofs.Stage.Tickets
/-!
# What leads to the conclusion of a reaction

A reaction is concluded in four tasks at most, each done as soon as the one before it has left it: the token of a job is
completed, what is to be done at the end of the job begins, the step is over if it is one, and the reaction concludes.
So from a conclusion one can go back to the job whose end has led to it, and to the point where the job was sent.
-/
namespace Stagecraft

/-- The kinds of task that are done as soon as they are left. -/
def Kind.isPrompt : Kind → Bool
  | .finish | .stepOver | .conclude | .jump => true
  | _ => false

namespace Stage

section
variable {s : Stage} {m n : Nat} {slot other : Slot} {t u : Task} {us rest : List Task}

/-- What an action leaves to be done. -/
theorem act_cases (s : Stage) (m : Nat) (slot : Slot) : (s.act m slot).2 = [] ∨ (s.act m slot).2 = [.jump m slot] ∨
    (s.act m slot).2 = [.conclude m slot] ∨ ∀ t ∈ (s.act m slot).2, t.kind = .enqueue := by
  unfold act
  split
  · exact .inl rfl
  split
  · exact .inl rfl
  split
  · exact .inr (.inl rfl)
  split
  · unfold runAll
    split
    · exact .inr (.inr (.inl rfl))
    · refine .inr (.inr (.inr fun t ht => ?_))
      obtain ⟨job, -, rfl⟩ := List.mem_map.1 ht
      rfl
  · unfold runNext
    dsimp only
    split
    · exact .inl rfl
    · split
      · exact .inl rfl
      · refine .inr (.inr (.inr fun t ht => ?_))
        rw [List.mem_singleton.1 ht]
        rfl

/-- A reaction with an action does not jump when it acts. -/
theorem jump_notMem_act {c : Machine} {r : Reaction} (hc : s.machine? m = some c) (hr : c.reaction? slot = some r)
    (hact : r.hasAction = true) : .jump m slot ∉ (s.act m slot).2 := by
  simp only [act, hc, hr, hact, Bool.not_true, Bool.false_eq_true, if_false]
  split
  · unfold runAll
    split
    · simp
    · simp
  · unfold runNext
    dsimp only
    split
    · exact List.not_mem_nil
    · split
      · exact List.not_mem_nil
      · simp

theorem machine?_complete (s : Stage) (token : Completion) (m : Nat) :
    (s.complete token).1.machine? m = s.machine? m := by
  unfold complete
  split
  · split <;> rfl
  · rfl

theorem isLive_complete (s : Stage) (token : Completion) (m : Nat) :
    (s.complete token).1.isLive m = s.isLive m := by
  rw [isLive, machine?_complete, isLive]

/-- The tasks that leave those that are done as soon as they are left. -/
inductive Leads : Task → Kind → Prop
  | completion (token : Completion) : Leads (.complete token) .finish
  | ofStep (q : Nat) (f : Finish) : Leads (.finish q f) .stepOver
  | ofLast (q : Nat) (f : Finish) : Leads (.finish q f) .conclude
  | ofNothing (m : Nat) (slot : Slot) (anew : Bool) : Leads (.act m slot anew) .conclude
  | lastStep (m : Nat) (slot : Slot) (k : Nat) : Leads (.stepOver m slot k) .conclude
  | noAction (m : Nat) (slot : Slot) (anew : Bool) : Leads (.act m slot anew) .jump
  | conclusion (m : Nat) (slot : Slot) : Leads (.conclude m slot) .jump

theorem leads_of_mem_leaves {kind : Kind} (h : kind ∈ t.leaves) (hp : kind.isPrompt = true) : Leads t kind := by
  have hmem : kind ∈ t.leaves.filter Kind.isPrompt := List.mem_filter.2 ⟨h, hp⟩
  cases t with
  | complete token =>
    obtain rfl : kind = .finish := List.mem_singleton.1 hmem
    exact .completion token
  | finish q f =>
    rcases (List.mem_pair.1 hmem : kind = .conclude ∨ kind = .stepOver) with rfl | rfl
    · exact .ofLast q f
    · exact .ofStep q f
  | act m slot anew =>
    rcases (List.mem_pair.1 hmem : kind = .jump ∨ kind = .conclude) with rfl | rfl
    · exact .noAction m slot anew
    · exact .ofNothing m slot anew
  | stepOver m slot k =>
    obtain rfl : kind = .conclude := List.mem_singleton.1 hmem
    exact .lastStep m slot k
  | conclude m slot =>
    obtain rfl : kind = .jump := List.mem_singleton.1 hmem
    exact .conclusion m slot
  | cue c => cases c <;> cases hmem
  | release hold => cases hold <;> cases hmem
  | _ => cases hmem

/-- A task that is done as soon as it is left is left in front of all others. -/
theorem isPrompt_of_mem_tail (s : Stage) (agenda : List Task) (t : Task) :
    ∀ t' ∈ (t.carryOut s agenda).2.tail, t'.kind.isPrompt = false := by
  intro t' ht'
  by_cases hplain : t.leaves.filter Kind.isPrompt = []
  · exact Bool.not_eq_true _ ▸ List.filter_eq_nil_iff.1 hplain _
      ((within_carryOut s agenda t).kinds t' (List.mem_of_mem_tail ht'))
  cases t with
  | complete token =>
    simp only [Task.carryOut, complete] at ht'
    split at ht'
    · split at ht'
      · rename_i finish q' _
        cases finish <;>
          simp only [Option.toList_none, Option.toList_some, List.map_nil, List.map_cons, List.nil_append,
            List.cons_append, List.tail_cons, List.mem_cons, List.not_mem_nil, or_false] at ht' <;>
          rcases ht' with rfl | rfl | rfl <;> rfl
      · cases ht'
    · cases ht'
  | finish q f =>
    cases f with
    | outside label script => cases ht'
    | _ =>
      simp only [Task.carryOut, finish] at ht'
      split at ht'
      · rw [List.tail_cons, List.mem_singleton] at ht'
        rw [ht']
        rfl
      · cases ht'
  | act m slot anew =>
    change t' ∈ (s.act m slot).2.tail at ht'
    rcases act_cases s m slot with heq | heq | heq | hall
    · rw [heq] at ht'
      cases ht'
    · rw [heq] at ht'
      cases ht'
    · rw [heq] at ht'
      cases ht'
    · rw [hall t' (List.mem_of_mem_tail ht')]
      rfl
  | conclude m slot =>
    simp only [Task.carryOut, conclude, List.tail_cons] at ht'
    split at ht'
    · rw [List.mem_singleton.1 ht']
      rfl
    · cases ht'
  | stepOver m slot k =>
    simp only [Task.carryOut, stepOver] at ht'
    split at ht'
    · cases ht'
    · split at ht' <;> cases ht'
  | cue c => cases c <;> exact absurd rfl hplain
  | release hold => cases hold <;> exact absurd rfl hplain
  | _ => exact absurd rfl hplain

end

end Stage
open Stage

section
variable {manners : Manners} {s : Stage} {past : List Config} {rest : List Task} {m q : Nat} {slot : Slot}

theorem Course.isPrompt {c : Config} (h : Course manners (c :: past)) :
    ∀ t ∈ c.agenda.tail, t.kind.isPrompt = false := by
  refine Course.invariant (I := fun c => ∀ t ∈ c.agenda.tail, t.kind.isPrompt = false) (P := fun _ => True)
    (List.forall_mem_nil _) (fun _ _ => List.forall_mem_nil _) (fun _ _ _ => List.forall_mem_nil _)
    (fun s t rest past _ _ ih => ?_) h fun _ _ => trivial
  have hrest : ∀ t ∈ rest, t.kind.isPrompt = false := ih
  have htail := isPrompt_of_mem_tail s rest t
  show ∀ t' ∈ ((t.carryOut s rest).2 ++ rest).tail, t'.kind.isPrompt = false
  cases hleft : (t.carryOut s rest).2 with
  | nil => exact fun t' ht' => hrest t' (List.mem_of_mem_tail ht')
  | cons u us =>
    rw [hleft] at htail
    exact List.forall_mem_append.2 ⟨htail, hrest⟩

/-- A task that is done as soon as it is left has just been left. -/
theorem Course.before_prompt {t : Task} (h : Course manners (⟨s, t :: rest⟩ :: past)) (ht : t.kind.isPrompt = true) :
    ∃ s₀ t₀ rest₀ earlier us, past = ⟨s₀, t₀ :: rest₀⟩ :: earlier ∧ t₀.carryOut s₀ rest₀ = (s, t :: us) ∧
      rest = us ++ rest₀ ∧ Leads t₀ t.kind := by
  rcases h.exists_before (List.cons_ne_nil _ _) with ⟨cue, _, hcue, -⟩ | ⟨s₀, t₀, rest₀, earlier, rfl, hafter⟩
  · obtain ⟨rfl, -⟩ := List.cons.inj hcue
    cases ht
  obtain ⟨hs, hagenda⟩ := Config.mk.inj hafter
  cases hleft : (t₀.carryOut s₀ rest₀).2 with
  | nil =>
    rw [hleft] at hagenda
    have := h.tail.isPrompt t (by rw [show rest₀ = t :: rest from hagenda.symm]; exact List.mem_cons_self)
    rw [ht] at this
    cases this
  | cons u us =>
    rw [hleft] at hagenda
    obtain ⟨rfl, rfl⟩ := List.cons.inj hagenda
    refine ⟨s₀, t₀, rest₀, earlier, us, rfl, Prod.ext hs.symm hleft, rfl, leads_of_mem_leaves ?_ ht⟩
    exact (within_carryOut s₀ rest₀ t₀).kinds t (by rw [hleft]; exact List.mem_cons_self)

/-- What is to be done at the end of a job begins when the token of the job has just been completed. -/
theorem Course.before_finish {f : Finish} (h : Course manners (⟨s, .finish q f :: rest⟩ :: past)) :
    ∃ s₀ token rest₀ earlier i job, past = ⟨s₀, .complete token :: rest₀⟩ :: earlier ∧ token.queue = q ∧
      s₀.isOpen q = true ∧ token.ticket = i + 1 ∧ (enqueuedJobs (queueLog q earlier))[i]? = some job ∧
      job.finish = some f := by
  obtain ⟨s₀, _, rest₀, earlier, us, rfl, hleft, -, hleads⟩ := h.before_prompt rfl
  change Leads _ .finish at hleads
  cases hleads with
  | completion token =>
    by_cases hopen : s₀.isOpen token.queue = true
    · obtain ⟨i, job, hticket, hjob, hagenda⟩ := h.tail.completing rfl hopen
      rw [Config.after, hleft] at hagenda
      cases hf : job.finish with
      | none =>
        rw [hf] at hagenda
        cases hagenda
      | some f' =>
        rw [hf] at hagenda
        obtain ⟨heq, -⟩ := List.cons.inj hagenda
        cases heq
        exact ⟨s₀, token, rest₀, earlier, i, job, rfl, rfl, hopen, hticket, hjob, hf⟩
    · simp only [Task.carryOut, complete, hopen] at hleft
      cases hleft

theorem Course.before_stepOver {k : Nat} (h : Course manners (⟨s, .stepOver m slot k :: rest⟩ :: past)) :
    ∃ q rest₀ earlier, past = ⟨s, .finish q (.sequenceStep m slot k) :: rest₀⟩ :: earlier ∧
      rest = .release (.machine m) :: rest₀ := by
  obtain ⟨s₀, _, rest₀, earlier, us, rfl, hleft, rfl, hleads⟩ := h.before_prompt rfl
  change Leads _ .stepOver at hleads
  cases hleads with
  | ofStep q f =>
    cases f with
    | outside label script => cases hleft
    | reaction n other =>
      simp only [Task.carryOut, finish] at hleft
      split at hleft <;> cases hleft
    | sequenceStep n other j =>
      simp only [Task.carryOut, finish] at hleft
      split at hleft <;> cases hleft
      exact ⟨q, rest₀, earlier, rfl, rfl⟩

/-- A reaction concludes when its last job is complete, when the last step of its sequence is over, or when it acts and
there is nothing to run. -/
theorem Course.before_conclude (h : Course manners (⟨s, .conclude m slot :: rest⟩ :: past)) :
    (∃ s₀ anew earlier, past = ⟨s₀, .act m slot anew :: rest⟩ :: earlier ∧ s₀.act m slot = (s, [.conclude m slot])) ∨
      (∃ q rest₀ earlier, past = ⟨s, .finish q (.reaction m slot) :: rest₀⟩ :: earlier ∧
        rest = .release (.machine m) :: rest₀) ∨
      ∃ s₀ k earlier, past = ⟨s₀, .stepOver m slot k :: rest⟩ :: earlier ∧
        s₀.stepOver m slot k = (s, [.conclude m slot]) := by
  obtain ⟨s₀, _, rest₀, earlier, us, rfl, hleft, rfl, hleads⟩ := h.before_prompt rfl
  change Leads _ .conclude at hleads
  cases hleads with
  | ofLast q f =>
    cases f with
    | outside label script => cases hleft
    | sequenceStep n other j =>
      simp only [Task.carryOut, finish] at hleft
      split at hleft <;> cases hleft
    | reaction n other =>
      simp only [Task.carryOut, finish] at hleft
      split at hleft <;> cases hleft
      exact .inr (.inl ⟨q, rest₀, earlier, rfl, rfl⟩)
  | ofNothing n other anew =>
    have hsnd : (s₀.act n other).2 = .conclude m slot :: us := congrArg Prod.snd hleft
    rcases act_cases s₀ n other with heq | heq | heq | hall
    · rw [heq] at hsnd
      cases hsnd
    · rw [heq] at hsnd
      cases hsnd
    · rw [heq] at hsnd
      cases hsnd
      exact .inl ⟨s₀, anew, earlier, rfl, hleft⟩
    · cases hall _ (by rw [hsnd]; exact List.mem_cons_self)
  | lastStep n other k =>
    have hsnd : (s₀.stepOver n other k).2 = .conclude m slot :: us := congrArg Prod.snd hleft
    have hshape : (s₀.stepOver n other k).2 = [] ∨ (s₀.stepOver n other k).2 = [.conclude n other] := by
      unfold stepOver
      split
      · exact .inl rfl
      · split
        · exact .inl rfl
        · exact .inr rfl
    rcases hshape with heq | heq
    · rw [heq] at hsnd
      cases hsnd
    · rw [heq] at hsnd
      cases hsnd
      exact .inr (.inr ⟨s₀, k, earlier, rfl, hleft⟩)

/-- A reaction jumps when it concludes, or when it acts and has no action. -/
theorem Course.before_jump (h : Course manners (⟨s, .jump m slot :: rest⟩ :: past)) :
    (∃ s₀ anew earlier, past = ⟨s₀, .act m slot anew :: rest⟩ :: earlier ∧ s₀.act m slot = (s, [.jump m slot])) ∨
      ∃ rest₀ earlier, past = ⟨s, .conclude m slot :: rest₀⟩ :: earlier ∧
        .jump m slot :: rest = (s.conclude m slot).2 ++ rest₀ := by
  obtain ⟨s₀, _, rest₀, earlier, us, rfl, hleft, rfl, hleads⟩ := h.before_prompt rfl
  change Leads _ .jump at hleads
  cases hleads with
  | conclusion n other =>
    simp only [Task.carryOut, conclude, Prod.mk.injEq, List.cons.injEq] at hleft
    obtain ⟨rfl, heq, rfl⟩ := hleft
    cases heq
    exact .inr ⟨rest₀, earlier, rfl, rfl⟩
  | noAction n other anew =>
    have hsnd : (s₀.act n other).2 = .jump m slot :: us := congrArg Prod.snd hleft
    rcases act_cases s₀ n other with heq | heq | heq | hall
    · rw [heq] at hsnd
      cases hsnd
    · rw [heq] at hsnd
      cases hsnd
      exact .inl ⟨s₀, anew, earlier, rfl, hleft⟩
    · rw [heq] at hsnd
      cases hsnd
    · cases hall _ (by rw [hsnd]; exact List.mem_cons_self)

/-! ## The reaction, the jump and the last hook -/

variable {r : Reaction}

/-- A machine that has the reaction had it ever since it was built. -/
theorem Course.awaits_before {c b : Config} {later earlier : List Config}
    (h : Course manners (c :: (later ++ b :: earlier))) (hr : Awaits c.stage m slot r) : Awaits b.stage m slot r := by
  cases hb : b.stage.machine? m with
  | none => exact .inl hb
  | some machine =>
    obtain ⟨machine', hc, hmade⟩ := h.machine?_since hb
    have hreaction : c.stage.reactionOf m slot = b.stage.reactionOf m slot :=
      reactionOf_of_made (by rw [hb, hc, Option.map_some, Option.map_some, hmade])
    rcases hr with hnone | hr
    · rw [hnone] at hc
      cases hc
    · exact .inr (hreaction.symm.trans hr)

theorem Course.awaits_last {c d : Config} {past : List Config} (h : Course manners (c :: d :: past))
    (hr : Awaits c.stage m slot r) : Awaits d.stage m slot r :=
  awaits_before (show Course manners (c :: ([] ++ d :: past)) from h) hr

/-- The reaction at an earlier point, where the machine acts. -/
theorem Course.reaction_before {t : Task} {s : Stage} {rest : List Task} (h : Course manners (⟨s, t :: rest⟩ :: past))
    (hr : Awaits s m slot r) (ht : t.machine? = some m) :
    ∃ machine, s.machine? m = some machine ∧ machine.reaction? slot = some r := by
  obtain ⟨machine, hm⟩ := exists_machine?_of_isLive (isLive_of_held h.held ht)
  exact ⟨machine, hm, hr.reaction? hm⟩

/-- A reaction with an action jumps because it is concluded, and its last hook comes after the jump. -/
theorem Course.conclusion_before_jump (h : Course manners (⟨s, .jump m slot :: rest⟩ :: past))
    (hr : Awaits s m slot r) (hact : r.hasAction = true) : ∃ rest₀ earlier,
      past = ⟨s, .conclude m slot :: rest₀⟩ :: earlier ∧ rest = .hook m r.after slot.state :: rest₀ := by
  rcases h.before_jump with ⟨s₀, anew, earlier, rfl, heq⟩ | ⟨rest₀, earlier, rfl, heq⟩
  · obtain ⟨machine, hm, hr'⟩ := h.tail.reaction_before (h.awaits_last hr) rfl
    exact absurd (by rw [heq]; exact List.mem_cons_self) (jump_notMem_act hm hr' hact)
  · obtain ⟨machine, hm, hr'⟩ := h.reaction_before hr rfl
    refine ⟨rest₀, earlier, rfl, ?_⟩
    simp only [conclude, hm, Option.bind_some, hr', List.cons_append, List.nil_append, List.cons.injEq, true_and] at heq
    exact heq

/-- **A conclusion is a jump, which is made at once, and then the last hook**, which is called when all that the jump
leads to has been done. -/
theorem Course.jump_and_hook {c : Config} {later earlier : List Config}
    (h : Course manners (c :: (later ++ ⟨s, .conclude m slot :: rest⟩ :: earlier))) (hr : Awaits c.stage m slot r)
    (htodo : (progress rest [.jump m slot, .hook m r.after slot.state] later).todo ≠ []) :
    ∃ us, c.agenda = us ++ (progress rest [.jump m slot, .hook m r.after slot.state] later).todo ++ rest ∧
      ((progress rest [.jump m slot, .hook m r.after slot.state] later).begun = [] → us = []) := by
  have hbefore : Course manners (⟨s, .conclude m slot :: rest⟩ :: earlier) := Course.drop (c :: later) h
  obtain ⟨machine, hm, hr'⟩ := hbefore.reaction_before (h.awaits_before hr) rfl
  refine h.progress_agenda rfl ?_ htodo
  simp only [Task.carryOut, conclude, hm, Option.bind_some, hr']

end

end Stagecraft
