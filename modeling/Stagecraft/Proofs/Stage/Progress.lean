import Stagecraft.Proofs.Stage.Course
/-!
# What has begun of what was left

A task leaves others in front of what was waiting already.  They begin one after another, each when all that the one
before it led to has been done.  How far they have come can be read off the configurations since then, for the next of
them begins when the agenda is down to it.  And whatever is on an agenda was left there by a task before, or is a cue
from outside.
-/
namespace Stagecraft

/-- How far some tasks have come: those that have begun, by the configurations in which they did, and those that have
not. -/
structure Progress where
  begun : List Config
  todo : List Task

/-- How far the tasks `ts` have come that were left in front of `rest`, after the configurations `later`, of which the
latest comes first. -/
def progress (rest ts : List Task) : List Config → Progress
  | [] => ⟨[], ts⟩
  | c :: later =>
    match progress rest ts later with
    | ⟨begun, []⟩ => ⟨begun, []⟩
    | ⟨begun, t :: todo⟩ =>
      if c.agenda.length = (t :: todo ++ rest).length then ⟨begun ++ [c], todo⟩ else ⟨begun, t :: todo⟩

section
variable {rest ts todo : List Task} {t : Task} {c : Config} {later begun : List Config}

theorem progress_over (h : (progress rest ts later).todo = []) :
    progress rest ts (c :: later) = progress rest ts later := by
  rw [progress]
  generalize progress rest ts later = p at h ⊢
  obtain ⟨begun, todo⟩ := p
  obtain rfl : todo = [] := h
  rfl

theorem progress_begins (h : (progress rest ts later).todo = t :: todo)
    (hc : c.agenda.length = (t :: todo ++ rest).length) :
    progress rest ts (c :: later) = ⟨(progress rest ts later).begun ++ [c], todo⟩ := by
  rw [progress]
  generalize progress rest ts later = p at h ⊢
  obtain ⟨begun, todo'⟩ := p
  obtain rfl : todo' = t :: todo := h
  exact if_pos hc

theorem progress_waits (h : (progress rest ts later).todo = t :: todo)
    (hc : c.agenda.length ≠ (t :: todo ++ rest).length) :
    progress rest ts (c :: later) = progress rest ts later := by
  rw [progress]
  generalize progress rest ts later = p at h ⊢
  obtain ⟨begun, todo'⟩ := p
  obtain rfl : todo' = t :: todo := h
  exact if_neg hc

/-- What a configuration can do to the progress. -/
theorem progress_cons (rest ts : List Task) (c : Config) (later : List Config) :
    progress rest ts (c :: later) = progress rest ts later ∨
      ∃ t todo, (progress rest ts later).todo = t :: todo ∧ c.agenda.length = (t :: todo ++ rest).length ∧
        progress rest ts (c :: later) = ⟨(progress rest ts later).begun ++ [c], todo⟩ := by
  cases htodo : (progress rest ts later).todo with
  | nil => exact .inl (progress_over htodo)
  | cons t todo =>
    by_cases hc : c.agenda.length = (t :: todo ++ rest).length
    · exact .inr ⟨t, todo, rfl, hc, progress_begins htodo hc⟩
    · exact .inl (progress_waits htodo hc)

/-- The tasks begin in their order. -/
theorem todo_eq_drop (rest ts : List Task) : ∀ later : List Config,
    (progress rest ts later).todo = ts.drop (progress rest ts later).begun.length ∧
      (progress rest ts later).begun.length ≤ ts.length
  | [] => ⟨rfl, Nat.zero_le _⟩
  | c :: later => by
    obtain ⟨htodo, hle⟩ := todo_eq_drop rest ts later
    rcases progress_cons rest ts c later with heq | ⟨t, todo, htail, -, heq⟩
    · rw [heq]
      exact ⟨htodo, hle⟩
    · rw [heq]
      have hdrop : ts.drop (progress rest ts later).begun.length = t :: todo := htodo.symm.trans htail
      have hlt := congrArg List.length hdrop
      rw [List.length_drop, List.length_cons] at hlt
      refine ⟨?_, ?_⟩
      · rw [List.length_append, List.length_singleton, ← List.drop_drop, hdrop]
        rfl
      · rw [List.length_append, List.length_singleton]
        omega

theorem mem_of_mem_todo (h : t ∈ (progress rest ts later).todo) : t ∈ ts :=
  List.mem_of_mem_drop ((todo_eq_drop rest ts later).1 ▸ h)

/-- The last of the tasks waits as long as any of them does. -/
theorem last_mem_todo (h : (progress rest (ts ++ [t]) later).todo ≠ []) :
    t ∈ (progress rest (ts ++ [t]) later).todo := by
  rw [(todo_eq_drop ..).1] at h ⊢
  have hlt := List.length_pos_iff.2 h
  rw [List.length_drop, List.length_append, List.length_singleton] at hlt
  rw [List.drop_append_of_le_length (by omega)]
  exact List.mem_append_right _ (List.mem_singleton_self t)

/-- Tasks that have all begun stay so. -/
theorem progress_append_over (h : (progress rest ts later).todo = []) : ∀ since : List Config,
    progress rest ts (since ++ later) = progress rest ts later
  | [] => rfl
  | c :: since => by
    have heq := progress_append_over h since
    rw [List.cons_append, progress_over (by rw [heq]; exact h), heq]

/-- As the course goes on, more of the tasks begin, and those that have begun stay so. -/
theorem begun_append (rest ts : List Task) (later : List Config) : ∀ since : List Config,
    ∃ more, (progress rest ts (since ++ later)).begun = (progress rest ts later).begun ++ more ∧
      more.Sublist since.reverse ∧
      ∀ b ∈ more, b.agenda.length ≤ (progress rest ts later).todo.length + rest.length
  | [] => ⟨[], (List.append_nil _).symm, List.Sublist.refl _, nofun⟩
  | c :: since => by
    obtain ⟨more, heq, hsub, hlen⟩ := begun_append rest ts later since
    rw [List.cons_append, List.reverse_cons]
    rcases progress_cons rest ts c (since ++ later) with hsame | ⟨t, todo, htodo, hc, hmore⟩
    · rw [hsame]
      exact ⟨more, heq, hsub.trans (List.sublist_append_left ..), hlen⟩
    · rw [hmore]
      refine ⟨more ++ [c], ?_, hsub.append (List.Sublist.refl _), ?_⟩
      · rw [heq, List.append_assoc]
      · rw [List.forall_mem_append]
        refine ⟨hlen, List.forall_mem_singleton.2 ?_⟩
        -- fewer tasks are left by now than there were then
        have hdrop := (todo_eq_drop rest ts (since ++ later)).1
        rw [htodo, heq, List.length_append, ← List.drop_drop, ← (todo_eq_drop rest ts later).1] at hdrop
        have := congrArg List.length hdrop
        simp only [List.length_drop, List.length_cons, List.length_append] at this hc
        omega

theorem begun_subset : ∀ b ∈ (progress rest ts later).begun, b ∈ later := by
  intro b hb
  obtain ⟨more, heq, hsub, -⟩ := begun_append rest ts [] later
  rw [List.append_nil] at heq
  rw [heq] at hb
  exact List.mem_reverse.1 (hsub.subset hb)

theorem lt_length_of_mem_begun : ∀ {later : List Config}, ∀ b ∈ (progress rest ts later).begun,
    rest.length < b.agenda.length
  | [], _, hb => by cases hb
  | c :: later, b, hb => by
    rcases progress_cons rest ts c later with heq | ⟨t, todo, -, hc, heq⟩
    · rw [heq] at hb
      exact lt_length_of_mem_begun b hb
    · rw [heq] at hb
      rcases List.mem_append.1 hb with hb | hb
      · exact lt_length_of_mem_begun b hb
      · rw [List.mem_singleton.1 hb, hc, List.length_append, List.length_cons]
        omega

/-- Tasks have not begun while the agenda has not been down to them. -/
theorem suffix_todo {post : List Task} (hpost : t :: post <:+ ts) : ∀ {later : List Config},
    (∀ b ∈ later, (t :: post ++ rest).length < b.agenda.length) → t :: post <:+ (progress rest ts later).todo
  | [], _ => hpost
  | c :: later, h => by
    have hsuffix := suffix_todo hpost fun b hb => h b (List.mem_cons_of_mem _ hb)
    rcases progress_cons rest ts c later with heq | ⟨t', todo, htodo, hc, heq⟩
    · rw [heq]
      exact hsuffix
    · rw [heq]
      rw [htodo] at hsuffix
      rcases List.suffix_cons_iff.1 hsuffix with hsame | htail
      · have hlt := h c List.mem_cons_self
        rw [hc, ← hsame] at hlt
        exact absurd hlt (Nat.lt_irrefl _)
      · exact htail

end

/-! ## In a course -/

section
variable {manners : Manners} {past : List Config}

theorem Course.eq_after {c d : Config} (h : Course manners (c :: d :: past)) {t : Task} {rest : List Task}
    (hd : d.agenda = t :: rest) : c = .after d.stage t rest := by
  obtain ⟨s, agenda⟩ := d
  obtain rfl : agenda = t :: rest := hd
  cases h with
  | stepped h hstep =>
    rw [Config.step?_cons, Option.some.injEq] at hstep
    exact hstep.symm

/-- What follows the first task of an agenda. -/
theorem Course.next {s : Stage} {t : Task} {rest : List Task} (h : Course manners (⟨s, t :: rest⟩ :: past)) :
    Course manners (.after s t rest :: ⟨s, t :: rest⟩ :: past) := .stepped h rfl

/-- An agenda that is not empty was left by a task, unless it is a cue from outside. -/
theorem Course.exists_before {c : Config} (h : Course manners (c :: past)) (hc : c.agenda ≠ []) :
    (∃ cue earlier, c.agenda = [.cue cue] ∧ past = ⟨c.stage, []⟩ :: earlier) ∨
      ∃ s t rest earlier, past = ⟨s, t :: rest⟩ :: earlier ∧ c = .after s t rest := by
  cases h with
  | opened => exact absurd rfl hc
  | cleared => exact absurd rfl hc
  | called cue h => exact .inl ⟨cue, _, rfl, rfl⟩
  | @stepped b _ earlier h hstep =>
    obtain ⟨s, agenda⟩ := b
    cases agenda with
    | nil => cases hstep
    | cons t rest =>
      rw [Config.step?_cons, Option.some.injEq] at hstep
      exact .inr ⟨s, t, rest, earlier, rfl, hstep.symm⟩

variable {a : Config} {t₀ : Task} {rest₀ rest ts : List Task}

/-- What stands before the tasks that have still to begin says whether the next of them begins. -/
theorem progress_of_agenda {c : Config} {later : List Config} {us : List Task}
    (hc : c.agenda = us ++ (progress rest ts later).todo ++ rest) (htodo : (progress rest ts later).todo ≠ []) :
    (∃ t todo, us = [] ∧ (progress rest ts later).todo = t :: todo ∧ c.agenda = t :: (todo ++ rest) ∧
      progress rest ts (c :: later) = ⟨(progress rest ts later).begun ++ [c], todo⟩) ∨
    ∃ u us', us = u :: us' ∧ c.agenda = u :: (us' ++ (progress rest ts later).todo ++ rest) ∧
      progress rest ts (c :: later) = progress rest ts later := by
  obtain ⟨t, todo, heq⟩ := List.exists_cons_of_ne_nil htodo
  have hlength := congrArg List.length hc
  cases us with
  | nil =>
    rw [heq] at hc hlength
    exact .inl ⟨t, todo, rfl, heq, hc, progress_begins heq hlength⟩
  | cons u us =>
    refine .inr ⟨u, us, rfl, hc, progress_waits heq ?_⟩
    rw [hlength, heq]
    simp only [List.length_append, List.length_cons]
    omega

/-- **The tasks that have still to begin stand right before what was waiting already**, and before them stands what
those that have begun led to. -/
theorem Course.progress_between {P : Task → Prop} (ha : a.agenda = t₀ :: rest₀)
    (hleft : (t₀.carryOut a.stage rest₀).2 ++ rest₀ = ts ++ rest)
    (hP : ∀ s t rest' later, Course manners (⟨s, t :: rest'⟩ :: (later ++ a :: past)) → t ∈ ts ∨ P t →
      ∀ t' ∈ (t.carryOut s rest').2, P t') : ∀ {c : Config} {later : List Config},
      Course manners (c :: (later ++ a :: past)) → (progress rest ts later).todo ≠ [] →
        ∃ us, c.agenda = us ++ (progress rest ts later).todo ++ rest ∧ (∀ u ∈ us, P u) ∧
          ((progress rest ts later).begun = [] → us = [])
  | c, [], h, _ => by
    rw [h.eq_after ha]
    exact ⟨[], hleft, nofun, fun _ => rfl⟩
  | c, ⟨s, agenda⟩ :: later, h, htodo => by
    have hbefore : (progress rest ts later).todo ≠ [] := by
      intro hnil
      rw [progress_over hnil] at htodo
      exact htodo hnil
    obtain ⟨us, hb, hus, hfirst⟩ := progress_between ha hleft hP h.tail hbefore
    rcases progress_of_agenda hb hbefore with ⟨t, todo, -, heq, rfl, hsince⟩ | ⟨u, us', rfl, rfl, hsince⟩
    · rw [h.eq_after rfl, hsince]
      refine ⟨(t.carryOut s (todo ++ rest)).2, (List.append_assoc ..).symm, hP _ _ _ _ h.tail (.inl ?_),
        fun hnil => ?_⟩
      · have hmem : t ∈ (progress rest ts later).todo := by rw [heq]; exact List.mem_cons_self
        rw [(todo_eq_drop rest ts later).1] at hmem
        exact List.mem_of_mem_drop hmem
      · exact absurd hnil (List.append_ne_nil_of_right_ne_nil _ (List.cons_ne_nil _ _))
    · rw [h.eq_after rfl, hsince]
      refine ⟨(u.carryOut s (us' ++ (progress rest ts later).todo ++ rest)).2 ++ us', ?_, ?_, fun hnil => ?_⟩
      · simp only [Config.after, List.append_assoc]
      · rw [List.forall_mem_append]
        exact ⟨hP _ _ _ _ h.tail (.inr (hus u List.mem_cons_self)), fun t ht => hus t (List.mem_cons_of_mem _ ht)⟩
      · cases hfirst hnil

theorem Course.progress_agenda (ha : a.agenda = t₀ :: rest₀)
    (hleft : (t₀.carryOut a.stage rest₀).2 ++ rest₀ = ts ++ rest) {c : Config} {later : List Config}
    (h : Course manners (c :: (later ++ a :: past))) (htodo : (progress rest ts later).todo ≠ []) :
    ∃ us, c.agenda = us ++ (progress rest ts later).todo ++ rest ∧
      ((progress rest ts later).begun = [] → us = []) := by
  obtain ⟨us, hc, -, hus⟩ := h.progress_between (P := fun _ => True) ha hleft (fun _ _ _ _ _ _ _ _ => trivial) htodo
  exact ⟨us, hc, hus⟩

/-- When a task begins, it stands before those that come after it. -/
theorem Course.agenda_of_begun (ha : a.agenda = t₀ :: rest₀)
    (hleft : (t₀.carryOut a.stage rest₀).2 ++ rest₀ = ts ++ rest) : ∀ {c : Config} {later : List Config},
      Course manners (c :: (later ++ a :: past)) → ∀ i b, (progress rest ts later).begun[i]? = some b →
        b.agenda = ts.drop i ++ rest
  | c, [], _, i, b, hb => by cases hb
  | c, d :: later, h, i, b, hb => by
    rcases progress_cons rest ts d later with heq | ⟨t, todo, hbefore, -, heq⟩
    · rw [heq] at hb
      exact agenda_of_begun ha hleft h.tail i b hb
    · rw [heq, List.getElem?_append] at hb
      split at hb
      · exact agenda_of_begun ha hleft h.tail i b hb
      · have hne : (progress rest ts later).todo ≠ [] := by
          rw [hbefore]
          exact List.cons_ne_nil _ _
        obtain ⟨us, hd, -⟩ := h.tail.progress_agenda ha hleft hne
        rcases progress_of_agenda hd hne with ⟨t', todo', -, hbefore', hd, -⟩ | ⟨_, _, _, _, hsame⟩
        · rw [List.getElem?_singleton] at hb
          split at hb
          · rename_i hle hzero
            obtain rfl : d = b := Option.some.inj hb
            obtain rfl : i = (progress rest ts later).begun.length := by omega
            rw [hd, ← (todo_eq_drop rest ts later).1, hbefore']
            rfl
          · cases hb
        · rw [heq] at hsame
          have := congrArg (fun p => p.begun.length) hsame
          simp at this

/-- A task that had still to begin waits, or it has begun since. -/
theorem Course.begins_or_waits (ha : a.agenda = t₀ :: rest₀)
    (hleft : (t₀.carryOut a.stage rest₀).2 ++ rest₀ = ts ++ rest) {later : List Config} {t : Task}
    (ht : t ∈ (progress rest ts later).todo) : ∀ {c : Config} {since : List Config},
      Course manners (c :: (since ++ (later ++ a :: past))) →
        t ∈ (progress rest ts (since ++ later)).todo ∨ ∃ b ∈ since, ∃ rest', b.agenda = t :: rest'
  | _, [], _ => .inl ht
  | _, d :: since, h => by
    rcases begins_or_waits ha hleft ht h.tail with hwaits | ⟨b, hb, hbegun⟩
    · have htodo : (progress rest ts (since ++ later)).todo ≠ [] := List.ne_nil_of_mem hwaits
      have hwhole : Course manners (d :: ((since ++ later) ++ a :: past)) := by
        rw [List.append_assoc]
        exact h.tail
      obtain ⟨us, hagenda, -⟩ := hwhole.progress_agenda ha hleft htodo
      rw [List.cons_append]
      rcases progress_of_agenda hagenda htodo with ⟨t', todo, -, heq, hfirst, hsince⟩ | ⟨u, us', -, -, hsince⟩
      · rw [hsince]
        rcases List.mem_cons.1 (heq ▸ hwaits) with rfl | hlater
        · exact .inr ⟨d, List.mem_cons_self, _, hfirst⟩
        · exact .inl hlater
      · rw [hsince]
        exact .inl hwaits
    · exact .inr ⟨b, List.mem_cons_of_mem _ hb, hbegun⟩

/-- **Every task was left by another one**, and has stayed on the agenda since, or is a cue from outside. -/
theorem Course.left_by : ∀ {past : List Config} {c : Config} (us : List Task) {post : List Task} {t : Task},
    Course manners (c :: past) → c.agenda = us ++ t :: post →
      (∃ cue, t = .cue cue ∧ c.agenda = [t]) ∨
      ∃ (later : List Config) (s : Stage) (t₀ : Task) (rest₀ : List Task) (earlier : List Config)
        (pre post' : List Task), past = later ++ ⟨s, t₀ :: rest₀⟩ :: earlier ∧
        (t₀.carryOut s rest₀).2 = pre ++ t :: post' ∧ post = post' ++ rest₀ ∧
        ∀ b ∈ later, (t :: post).length < b.agenda.length := by
  intro past
  induction past with
  | nil =>
    intro c us post t h hc
    rcases h.exists_before (by simp [hc]) with ⟨_, _, _, hpast⟩ | ⟨_, _, _, _, hpast, _⟩ <;> cases hpast
  | cons b past ih =>
    intro c us post t h hc
    rcases h.exists_before (by simp [hc]) with ⟨cue, _, hcue, -⟩ | ⟨s, t₀, rest₀, earlier, hpast, rfl⟩
    · rw [hcue] at hc ⊢
      rcases List.append_eq_cons_iff.1 hc.symm with ⟨-, heq⟩ | ⟨us', -, hnil⟩
      · obtain ⟨rfl, -⟩ := List.cons.inj heq
        exact .inl ⟨cue, rfl, rfl⟩
      · simp at hnil
    · obtain ⟨rfl, rfl⟩ := List.cons.inj hpast
      -- a task that was on the agenda already was left by a task before
      have hold : ∀ us', rest₀ = us' ++ t :: post → ∃ later s' t' rest' earlier pre post',
          ⟨s, t₀ :: rest₀⟩ :: past = later ++ ⟨s', t' :: rest'⟩ :: earlier ∧
          (t'.carryOut s' rest').2 = pre ++ t :: post' ∧ post = post' ++ rest' ∧
          ∀ b ∈ later, (t :: post).length < b.agenda.length := by
        rintro us' rfl
        rcases ih (t₀ :: us') h.tail rfl with ⟨cue, -, hcue⟩ |
          ⟨later, s', t', rest', earlier, pre, post', rfl, hpre, hpost, hlater⟩
        · simp at hcue
        · refine ⟨⟨s, _⟩ :: later, s', t', rest', earlier, pre, post', rfl, hpre, hpost, ?_⟩
          refine List.forall_mem_cons.2 ⟨?_, hlater⟩
          simp only [List.length_cons, List.length_append]
          omega
      rcases List.append_eq_append_iff.1 (show (t₀.carryOut s rest₀).2 ++ rest₀ = us ++ t :: post from hc) with
        ⟨us', -, hrest⟩ | ⟨post', hleft, hpost⟩
      · exact .inr (hold us' hrest)
      · cases post' with
        | nil => exact .inr (hold [] hpost.symm)
        | cons t' post' =>
          obtain ⟨rfl, rfl⟩ := List.cons.inj hpost
          exact .inr ⟨[], s, t₀, rest₀, past, us, post', rfl, hleft, rfl, nofun⟩

/-- The first task of an agenda is the next of those that were left with it, and has had others before it until
then. -/
theorem Course.left_next {s : Stage} {t : Task} {post : List Task} (h : Course manners (⟨s, t :: post⟩ :: past)) :
    (∃ cue, t = .cue cue ∧ post = []) ∨
      ∃ (later : List Config) (s₀ : Stage) (t₀ : Task) (rest₀ : List Task) (earlier : List Config)
        (pre post' : List Task), past = later ++ ⟨s₀, t₀ :: rest₀⟩ :: earlier ∧
        (t₀.carryOut s₀ rest₀).2 = pre ++ t :: post' ∧ post = post' ++ rest₀ ∧
        (progress rest₀ (pre ++ t :: post') later).todo = t :: post' ∧
        ∀ b ∈ later, (t :: post).length < b.agenda.length := by
  rcases h.left_by [] rfl with ⟨cue, rfl, heq⟩ | ⟨later, s₀, t₀, rest₀, earlier, pre, post', rfl, hleft, rfl, hlater⟩
  · exact .inl ⟨cue, rfl, (List.cons.inj heq).2⟩
  · refine .inr ⟨later, s₀, t₀, rest₀, earlier, pre, post', rfl, hleft, rfl, ?_, hlater⟩
    obtain ⟨more, hmore⟩ := suffix_todo (List.suffix_append pre (t :: post')) hlater
    have hrest : (t₀.carryOut s₀ rest₀).2 ++ rest₀ = (pre ++ t :: post') ++ rest₀ := by rw [hleft]
    obtain ⟨us, hagenda, -⟩ := h.progress_agenda rfl hrest (by simp [← hmore])
    have hlength := congrArg List.length hagenda
    rw [← hmore] at hlength
    simp only [List.length_append, List.length_cons] at hlength
    obtain rfl : more = [] := List.eq_nil_of_length_eq_zero (by omega)
    exact hmore.symm

/-- A task that has been left in front of all others begins at once. -/
theorem Course.begins_first {c : Config} {s : Stage} {t : Task} {post : List Task} {later : List Config}
    (h : Course manners (c :: (later ++ ⟨s, t₀ :: rest₀⟩ :: past))) (hleft : (t₀.carryOut s rest₀).2 = t :: post)
    (hlong : ∀ b ∈ later, (t :: (post ++ rest₀)).length < b.agenda.length) : later = [] := by
  rcases List.eq_nil_or_concat later with hnil | ⟨since, b, rfl⟩
  · exact hnil
  · have hb : Course manners (b :: ⟨s, t₀ :: rest₀⟩ :: past) := by
      refine Course.drop (c :: since) ?_
      simpa using h
    have hlt := hlong b (by simp)
    rw [hb.eq_after rfl, Config.after, hleft] at hlt
    simp at hlt

end

end Stagecraft
