import Stagecraft.Proofs.Stage.Called
import Stagecraft.Proofs.Stage.Progress
/-!
# While a task goes on

A task that takes its turns one by one leaves itself behind each of them, in a new form, and whatever a turn leads to is
done before the next one.  So what has been done since such a task began can be followed from task to task, and whoever
takes a turn can be traced back to the task that began.
-/
namespace Stagecraft

section
variable {manners : Manners} {b : Config} {earlier : List Config} {outer : List Task} {t : Task}

theorem Config.awaits.of_cons {u : Task} {d : Config} (h : d.awaits (u :: outer)) : d.awaits outer := by
  obtain ⟨t, ts, hd⟩ := h
  exact ⟨t, ts ++ [u], by rw [hd]; simp⟩

/-- As long as something is left to do, what was begun when nothing was waiting goes on. -/
theorem Config.awaits_nil {later : List Config} (h : later.all (fun d => !d.agenda.isEmpty) = true) :
    ∀ d ∈ later, d.awaits [] := by
  intro d hd
  have hne : d.agenda ≠ [] := by simpa using List.all_eq_true.1 h d hd
  obtain ⟨t, ts, heq⟩ := List.exists_cons_of_ne_nil hne
  exact ⟨t, ts, by rw [heq, List.append_nil]⟩

/-- **What holds when a task has been done, and survives all that is done before what was waiting, holds as long as the
task goes on.** -/
theorem Course.during {I : Config → List Config → Prop} (hb : b.agenda = t :: outer)
    (hfirst : I (.after b.stage t outer) [])
    (hnext : ∀ s u us later, Course manners (⟨s, u :: (us ++ outer)⟩ :: (later ++ b :: earlier)) →
      I ⟨s, u :: (us ++ outer)⟩ later → I (.after s u (us ++ outer)) (⟨s, u :: (us ++ outer)⟩ :: later)) :
    ∀ {c : Config} {later : List Config}, Course manners (c :: (later ++ b :: earlier)) →
      (∀ d ∈ later, d.awaits outer) → I c later
  | c, [], h, _ => by
    rw [h.eq_after hb]
    exact hfirst
  | c, ⟨s, agenda⟩ :: later, h, hover => by
    have hbefore := during hb hfirst hnext h.tail fun d hd => hover d (List.mem_cons_of_mem _ hd)
    obtain ⟨u, us, hagenda⟩ := hover _ List.mem_cons_self
    obtain rfl : agenda = u :: (us ++ outer) := hagenda
    rw [h.eq_after rfl]
    exact hnext s u us later h.tail hbefore

/-- **A task that takes turns was begun.**  If tasks that are `P` are left only by those that are `Q` or, as the last
thing, by others that are `P`, then each of them stands where it was left when it was begun, and nothing that was
waiting then has been done since. -/
theorem Course.begun_by {P Q : Task → Prop} (hcue : ∀ cue, ¬ P (.cue cue))
    (hP : ∀ s t rest u pre post, (t.carryOut s rest).2 = pre ++ u :: post → P u → Q t ∨ (P t ∧ post = [])) :
    ∀ {past : List Config} {c : Config} (ts : List Task) {u : Task} {rest : List Task},
      Course manners (c :: past) → c.agenda = ts ++ u :: rest → P u →
      ∃ later b earlier t u' pre post rest₀, past = later ++ b :: earlier ∧ b.agenda = t :: rest₀ ∧ Q t ∧
        (t.carryOut b.stage rest₀).2 = pre ++ u' :: post ∧ rest = post ++ rest₀ ∧ P u' ∧
        ∀ d ∈ later, d.awaits rest := by
  intro past
  induction past with
  | nil =>
    intro c ts u rest h hc
    rcases h.exists_before (by simp [hc]) with ⟨_, _, _, hpast⟩ | ⟨_, _, _, _, hpast, _⟩ <;> cases hpast
  | cons d past ih =>
    intro c ts u rest h hc hu
    rcases h.exists_before (by simp [hc]) with ⟨cue, _, hagenda, -⟩ | ⟨s, t, rest₀, _, hpast, rfl⟩
    · rw [hc] at hagenda
      have hmem : u ∈ [Task.cue cue] := hagenda ▸ List.mem_append_right _ List.mem_cons_self
      rw [List.mem_singleton.1 hmem] at hu
      exact absurd hu (hcue cue)
    · obtain ⟨rfl, rfl⟩ := List.cons.inj hpast
      -- a task that was there before was begun before
      have hold : ∀ us v, t :: rest₀ = us ++ v :: rest → P v → ∃ later b earlier t' u' pre post rest',
          ⟨s, t :: rest₀⟩ :: past = later ++ b :: earlier ∧ b.agenda = t' :: rest' ∧ Q t' ∧
          (t'.carryOut b.stage rest').2 = pre ++ u' :: post ∧ rest = post ++ rest' ∧ P u' ∧
          ∀ d ∈ later, d.awaits rest := by
        intro us v heq hv
        obtain ⟨later, b, earlier, t', u', pre, post, rest', rfl, hb, hstart, hleft, hrest, hu', hover⟩ :=
          ih us h.tail heq hv
        refine ⟨⟨s, t :: rest₀⟩ :: later, b, earlier, t', u', pre, post, rest', rfl, hb, hstart, hleft, hrest, hu',
          List.forall_mem_cons.2 ⟨?_, hover⟩⟩
        cases us with
        | nil => exact ⟨v, [], heq⟩
        | cons w us => exact ⟨w, us ++ [v], by rw [heq]; simp⟩
      rcases List.append_eq_append_iff.1 (show (t.carryOut s rest₀).2 ++ rest₀ = ts ++ u :: rest from hc) with
        ⟨us, -, hrest⟩ | ⟨post, hleft, hpost⟩
      · exact hold (t :: us) u (by rw [hrest]; rfl) hu
      · cases post with
        | nil => exact hold [t] u (by rw [hpost]; rfl) hu
        | cons v post =>
          obtain ⟨rfl, rfl⟩ := List.cons.inj hpost
          rcases hP s t rest₀ u ts post hleft hu with hstart | ⟨ht, rfl⟩
          · exact ⟨[], _, past, t, u, ts, post, rest₀, rfl, rfl, hstart, hleft, rfl, hu, List.forall_mem_nil _⟩
          · exact hold [] t rfl ht

end

/-! ## What is done at one depth -/

section
variable {α : Type} (f : Stage → Task → Option α) (n : Nat)

/-- What the next task comes to, if `n` tasks wait behind it. -/
def Config.first? (c : Config) : Option α :=
  match c.agenda with
  | t :: rest => if rest.length = n then f c.stage t else none
  | [] => none

/-- What was done while `n` tasks were waiting behind it, the earliest first. -/
def deeds (cs : List Config) : List α := cs.reverse.filterMap (Config.first? f n)

variable {f n}

theorem deeds_cons (c : Config) (cs : List Config) : deeds f n (c :: cs) = deeds f n cs ++ (c.first? f n).toList := by
  rw [deeds, List.reverse_cons, List.filterMap_append, deeds]
  cases h : c.first? f n <;> simp [h]

theorem first?_of_agenda {c : Config} {t : Task} {rest : List Task} (hc : c.agenda = t :: rest) (hn : rest.length = n) :
    c.first? f n = f c.stage t := by
  rw [Config.first?, hc]
  exact if_pos hn

theorem first?_of_length {c : Config} (h : c.agenda.length ≠ n + 1) : c.first? f n = none := by
  unfold Config.first?
  split
  · rename_i t rest hc
    exact if_neg fun hn => h (by rw [hc, List.length_cons, hn])
  · rfl

end

/-! ## Inside a turn -/

/-- All that has been begun by a turn is over, or a task of the kind `inner` is the last of it. -/
def Inside (inner : Task → Prop) (outer agenda : List Task) : Prop :=
  agenda = outer ∨ ∃ ts u, inner u ∧ agenda = ts ++ u :: outer

section
variable {inner : Task → Prop} {outer rest : List Task} {v : Task} {s : Stage}

theorem Inside.of_turn (h : ∀ u ∈ (v.carryOut s rest).2.getLast?, inner u) (hrest : rest = outer) :
    Inside inner outer (Config.after s v rest).agenda := by
  subst hrest
  unfold Config.after
  rcases List.eq_nil_or_concat (v.carryOut s rest).2 with hnil | ⟨ts, u, heq⟩
  · exact .inl (by rw [hnil, List.nil_append])
  · refine .inr ⟨ts, u, h u ?_, by rw [heq, List.concat_eq_append, List.append_assoc, List.singleton_append]⟩
    rw [heq, List.concat_eq_append, List.getLast?_concat]
    rfl

theorem Inside.after (hinner : ∀ u, inner u → ∀ s rest, ∀ u' ∈ (u.carryOut s rest).2.getLast?, inner u')
    (h : Inside inner outer (v :: rest)) (hne : v :: rest ≠ outer) :
    Inside inner outer (Config.after s v rest).agenda := by
  obtain ⟨ts, u, hu, heq⟩ := h.resolve_left hne
  cases ts with
  | nil =>
    obtain ⟨rfl, rfl⟩ := List.cons.inj heq
    exact .of_turn (hinner v hu s rest) rfl
  | cons t ts =>
    obtain ⟨rfl, rfl⟩ := List.cons.inj heq
    exact .inr ⟨(v.carryOut s (ts ++ u :: outer)).2 ++ ts, u, hu, (List.append_assoc ..).symm⟩

theorem Inside.length_lt {agenda : List Task} (h : Inside inner outer agenda) (hne : agenda ≠ outer) :
    outer.length < agenda.length := by
  obtain ⟨ts, u, -, rfl⟩ := h.resolve_left hne
  simp only [List.length_append, List.length_cons]
  omega

theorem Inside.first?_eq_none {α : Type} {f : Stage → Task → Option α} {c : Config} (h : Inside inner outer c.agenda)
    (hinner : ∀ u s, inner u → f s u = none) : c.first? f outer.length = none := by
  rcases h with h | ⟨ts, u, hu, h⟩
  · exact first?_of_length (by rw [h]; omega)
  · cases ts with
    | nil => rw [first?_of_agenda h rfl, hinner u _ hu]
    | cons t ts => exact first?_of_length (by rw [h]; simp; omega)

end

end Stagecraft
