import Stagecraft.Proofs.Stage.Gone
/-!
# From one job to the next

A queue is held from the completion of its running job until the next one has started.  If the host dispatches nothing
from inside its calls, nothing comes in between but what is to be done at the end of the job, so the agenda shows how
far the queue has come.
-/
namespace Stagecraft

namespace Stage

/-- Where a queue of a machine is between two jobs, if the host dispatches nothing from inside its calls. -/
inductive Relay (q : Nat) (agenda : List Task) : Prop
  /-- No call holds the queue. -/
  | free (h : Task.release (.queue q) ∉ agenda)
  /-- What is to be done at the end of the running job is being done. -/
  | ending (us post : List Task) (h : agenda = us ++ .jobOver q :: .pump q :: .release (.queue q) :: post)
    (hpost : Task.release (.queue q) ∉ post)
  /-- The queue looks for the next job. -/
  | looking (post : List Task) (h : agenda = .pump q :: .release (.queue q) :: post)
    (hpost : Task.release (.queue q) ∉ post)
  /-- The next job is being set going, or there is none and the queue is about to be let go. -/
  | starting (us post : List Task) (h : agenda = us ++ .release (.queue q) :: post)
    (hplays : ∀ u ∈ us, u.plays = true) (hpost : Task.release (.queue q) ∉ post)

/-- What the agenda says of a machine and its queue: jobs are sent to the queue only while the machine is held. -/
structure Relayed (m q : Nat) (agenda : List Task) : Prop where
  relay : Relay q agenda
  sending : ∀ us job post, agenda = us ++ .enqueue q job :: post → .release (.machine m) ∈ post

section
variable {s : Stage} {t : Task} {rest : List Task} {m q : Nat} {machine : Machine}

theorem not_release_onMachine (n : Nat) (t' : Task) (ht' : t' ≠ .release (.queue q)) :
    Task.release (.queue q) ∉ (s.onMachine n [t']).2 := by
  unfold onMachine
  split
  · simp [ht'.symm]
  · exact List.not_mem_nil

theorem named_of_release_nameQueue {s' : Stage} {name : String} {p : Nat}
    (h : .release (.queue q) ∈ (s'.nameQueue name p).2) : q ∈ s'.queueNames.values := by
  simp only [nameQueue, List.mem_append, List.mem_map, Option.mem_toList, List.mem_singleton, reduceCtorEq, or_false,
    Task.release.injEq, Hold.queue.injEq] at h
  obtain ⟨old, hold, rfl⟩ := h
  exact Registry.mem_values_of_get? hold

theorem named_of_release_submit {s' : Stage} {name : String} {job : Job}
    (h : .release (.queue q) ∈ (s'.submit name job).2) : q ∈ s'.queueNames.values := by
  unfold submit at h
  split at h
  · cases h
  · rename_i p hp
    simp only [List.mem_cons, reduceCtorEq, Task.release.injEq, Hold.queue.injEq, List.not_mem_nil, or_false,
      false_or] at h
    exact h ▸ Registry.mem_values_of_get? hp

/-- A cue lets go only what has a name. -/
theorem named_of_release {cue : Cue} (h : .release (.queue q) ∈ (s.follow cue).2) : q ∈ s.queueNames.values := by
  have hkind := (within_follow s cue).kinds _ h
  cases cue with
  | queue name => exact (named_of_release_nameQueue h :)
  | queueClone name copy =>
    simp only [follow] at h
    split at h
    · exact named_of_release_nameQueue h
    · cases h
  | queueDrop name =>
    simp only [follow] at h
    split at h
    · rename_i p hp
      simp only [List.mem_cons, reduceCtorEq, Task.release.injEq, Hold.queue.injEq, List.not_mem_nil, or_false] at h
      exact h ▸ Registry.mem_values_of_get? hp
    · cases h
  | enqueue => exact named_of_release_submit h
  | effectJob queue effect el settings finish =>
    simp only [follow, submitEffect] at h
    split at h
    · split at h
      · cases h
      · rename_i e _
        split at h
        · cases h
        · rw [← (undisturbed_prepare s settings e).queueNames]
          exact named_of_release_submit h
    · cases h
  | build name el settings hooked states =>
    simp only [follow, build] at h
    split at h
    · simp [castAs] at h
    · cases h
  | drop name =>
    simp only [follow] at h
    split at h <;> simp at h
  | start | transition | visibility =>
    simp only [follow, direct, withMachine] at h
    split at h
    · cases h
    · split at h <;> simp at h
  | _ => simp [Cue.leaves, Task.kind] at hkind

/-- A queue is let go by the end of its running job, with its machine, or by a name. -/
theorem release_carryOut (h : .release (.queue q) ∈ (t.carryOut s rest).2) :
    (∃ token, t = .complete token ∧ token.queue = q) ∨ (∃ n c, t = .closed n ∧ s.machine? n = some c ∧ c.queue = q) ∨
      q ∈ s.queueNames.values := by
  have hkind := (within_carryOut s rest t).kinds _ h
  cases t with
  | cue cue => exact .inr (.inr (named_of_release h))
  | complete token =>
    refine .inl ⟨token, rfl, ?_⟩
    simp only [Task.carryOut, complete] at h
    split at h
    · split at h
      · rename_i f q' _
        cases f <;> simp_all
      · cases h
    · cases h
  | closed n =>
    simp only [Task.carryOut, closed] at h
    split at h
    · cases h
    · rename_i c hc
      cases List.mem_singleton.1 h
      exact .inr (.inl ⟨n, c, rfl, hc, rfl⟩)
  | callOnce call =>
    cases call with
    | effectEnd el classes token =>
      simp only [Task.carryOut, callOnce] at h
      split at h <;> simp at h
    | outside => simp [Task.carryOut, callOnce] at h
  | callListener call =>
    cases call with
    | outside => simp [Task.carryOut, callListener] at h
    | _ => exact absurd h (not_release_onMachine _ _ (by simp))
  | callFrame call =>
    cases call with
    | outside => simp [Task.carryOut, callFrame] at h
    | _ => exact absurd h (not_release_onMachine _ _ (by simp))
  | finish p f =>
    cases f with
    | outside => simp [Task.carryOut, finish] at h
    | _ =>
      simp only [Task.carryOut, finish] at h
      split at h <;> simp at h
  | run body token =>
    cases body with
    | effect p => simp [Task.carryOut, run] at h
    | outside name script fate =>
      simp only [Task.carryOut, run] at h
      split at h <;> simp at h
  | release hold => cases hold <;> simp [Task.leaves, Task.kind] at hkind
  | _ => simp [Task.leaves, Task.kind] at hkind

/-- An effect that is being set going stays the next thing to be done. -/
theorem plays_next {us : List Task} (hr : s.manners.reflexes = []) (h : ∀ u ∈ t :: us, u.plays = true) :
    ∀ u ∈ (t.carryOut s rest).2 ++ us, u.plays = true := fun u hu =>
  (List.mem_append.1 hu).elim (plays_carryOut hr (h t List.mem_cons_self) u) fun hu => h u (List.mem_cons_of_mem _ hu)

/-- **A queue passes from one job to the next** without anything in between. -/
theorem relay_after (h : Relay q (t :: rest)) (hr : s.manners.reflexes = []) (hname : q ∉ s.queueNames.values)
    (heffect : ∀ job jq, (s.queueAt q).start? = some (job, jq) → job.isEffect = true) :
    Relay q ((t.carryOut s rest).2 ++ rest) := by
  cases h with
  | free hfree =>
    have hrest : Task.release (.queue q) ∉ rest := fun hmem => hfree (List.mem_cons_of_mem _ hmem)
    by_cases hleft : .release (.queue q) ∈ (t.carryOut s rest).2
    · rcases release_carryOut hleft with ⟨token, rfl, rfl⟩ | ⟨n, c, rfl, hc, rfl⟩ | hnamed
      · simp only [Task.carryOut, complete] at hleft ⊢
        split at hleft
        · rename_i hopen
          rw [if_pos hopen]
          split at hleft
          · rename_i f q' _
            exact .ending (f.toList.map (.finish token.queue)) rest (by simp) hrest
          · cases hleft
        · cases hleft
      · simp only [Task.carryOut, closed, hc]
        exact .starting [] rest rfl (List.forall_mem_nil _) hrest
      · exact absurd hnamed hname
    · exact .free fun hmem => (List.mem_append.1 hmem).elim hleft hrest
  | ending us post hagenda hpost =>
    cases us with
    | nil =>
      obtain ⟨rfl, rfl⟩ := List.cons.inj hagenda
      exact .looking post rfl hpost
    | cons u us =>
      obtain ⟨rfl, rfl⟩ := List.cons.inj hagenda
      exact .ending ((t.carryOut s _).2 ++ us) post (List.append_assoc ..).symm hpost
  | looking post hagenda hpost =>
    obtain ⟨rfl, rfl⟩ := List.cons.inj hagenda
    exact .starting _ post rfl (plays_pump heffect) hpost
  | starting us post hagenda hplays hpost =>
    cases us with
    | nil =>
      obtain ⟨rfl, rfl⟩ := List.cons.inj hagenda
      exact .free hpost
    | cons u us =>
      obtain ⟨rfl, rfl⟩ := List.cons.inj hagenda
      exact .starting _ post (List.append_assoc ..).symm (plays_next hr hplays) hpost

/-- A machine sends jobs to its queue only while a call of it is under way. -/
theorem release_of_sending {job : Job} (howned : Owned s) (hheld : Held ⟨s, t :: rest⟩)
    (hm : s.machine? m = some machine) (hleft : .enqueue machine.queue job ∈ (t.carryOut s rest).2) :
    .release (.machine m) ∈ rest := by
  have hkind := (within_carryOut s rest t).kinds _ hleft
  cases t with
  | cue cue => exact absurd (named_follow hleft) (howned.unnamed m machine hm)
  | act n slot anew =>
    obtain ⟨c, hc, hqueue, -⟩ := sends_act hleft
    obtain rfl := howned.own m n machine c hm hc hqueue
    exact hheld.backed.1.machine m rfl
  | release hold => cases hold <;> simp [Task.leaves, Task.kind] at hkind
  | _ => simp [Task.leaves, Task.kind] at hkind

theorem sending_after (h : Relayed m machine.queue (t :: rest)) (howned : Owned s) (hheld : Held ⟨s, t :: rest⟩)
    (hm : s.machine? m = some machine) {us post : List Task} {job : Job}
    (hagenda : (t.carryOut s rest).2 ++ rest = us ++ .enqueue machine.queue job :: post) :
    .release (.machine m) ∈ post := by
  rcases List.append_eq_append_iff.1 hagenda with ⟨xs, rfl, hrest⟩ | ⟨xs, hleft, hpost⟩
  · exact h.sending (t :: xs) job post (congrArg (t :: ·) hrest)
  · cases xs with
    | nil => exact h.sending [t] job post (congrArg (t :: ·) hpost.symm)
    | cons x xs =>
      obtain ⟨rfl, rfl⟩ := List.cons.inj hpost
      have hmem : .enqueue machine.queue job ∈ (t.carryOut s rest).2 := by
        rw [hleft]
        simp
      exact List.mem_append_right xs (release_of_sending howned hheld hm hmem)

/-- Nothing has been begun on a queue that is not there yet. -/
theorem relayed_fresh {agenda : List Task} (hrelease : Task.release (.queue q) ∉ agenda)
    (hsend : ∀ job, Task.enqueue q job ∉ agenda) : Relayed m q agenda :=
  ⟨.free hrelease, fun us job post hagenda => absurd (by rw [hagenda]; simp) (hsend job)⟩

end
end Stage
open Stage

section
variable {manners : Manners} {c b d : Config} {past later earlier : List Config} {m : Nat} {machine : Machine}
  {rest : List Task}

/-- **The queue of a machine passes from one job to the next without anything in between**, if the host dispatches
nothing from inside its calls. -/
theorem Course.relayed (h : Course manners (c :: past)) (hr : manners.reflexes = []) : ∀ {m : Nat} {machine : Machine},
    c.stage.machine? m = some machine → Relayed m machine.queue c.agenda := by
  refine Course.invariant (I := fun c => ∀ {m machine}, c.stage.machine? m = some machine →
    Relayed m machine.queue c.agenda) (P := fun _ => True) nofun (fun s hs => hs) (fun s cue _ m machine _ => ?_)
    (fun s t rest past hcourse _ hbefore m machine hm => ?_) h fun _ _ => trivial
  · exact relayed_fresh (by simp) (by simp)
  · have hheld := hcourse.held
    rcases machine?_before s t rest hm with ⟨machine', hm', hmade⟩ | ⟨⟨name, el, settings, hooked, states, rfl⟩, hqueue⟩
    · have heq : machine.queue = machine'.queue := (congrArg Machine.queue hmade :)
      rw [heq]
      refine ⟨relay_after (hbefore hm').relay (hcourse.manners_eq.symm ▸ hr) (hcourse.owned.unnamed m machine' hm')
        (fun job jq => hcourse.isEffect_of_start? hm'), fun us job post => ?_⟩
      exact sending_after (hbefore hm') hcourse.owned hheld hm'
    · have hlt : s.isOpen machine.queue ≠ true := fun hopen => Nat.lt_irrefl _ (hqueue ▸ lt_of_isOpen hopen)
      refine relayed_fresh (fun hmem => ?_) fun job hmem => ?_
      · rcases List.mem_append.1 hmem with hleft | hrest
        · rcases release_carryOut hleft with ⟨_, ht, -⟩ | ⟨_, _, ht, -⟩ | hnamed
          · cases ht
          · cases ht
          · exact hlt (hheld.queues _ (.inl hnamed))
        · exact hlt (hheld.queues _ (.inr (.inl (List.mem_cons_of_mem _ hrest))))
      · rcases List.mem_append.1 hmem with hleft | hrest
        · exact hlt (hheld.queues _ (.inl (named_follow hleft)))
        · exact hlt (isOpen_of_mem rfl hheld (List.mem_cons_of_mem _ hrest))

/-- No job is sent to the queue of a machine that is gone. -/
theorem Course.unsent_of_gone (h : Course manners (c :: past)) (hr : manners.reflexes = []) (hgone : c.stage.Gone m)
    (hm : c.stage.machine? m = some machine) (job : Job) : Task.enqueue machine.queue job ∉ c.agenda := by
  intro hmem
  obtain ⟨us, post, hagenda⟩ := List.append_of_mem hmem
  have hrelease := (h.relayed hr hm).sending us job post hagenda
  have hlive := h.held.machines m (.inr (by rw [hagenda]; exact List.mem_append_right us (.tail _ hrelease)))
  rw [hgone.isLive] at hlive
  cases hlive

end

end Stagecraft
