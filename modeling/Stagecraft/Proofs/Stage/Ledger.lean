import Mathlib.Data.List.Infix
import Stagecraft.Proofs.Stage.Nested
/-!
# What is put down and taken up again

Calls are put down one by one and taken up all at once.  So every call has a number, the place at which it was put down,
and whoever takes calls up takes them under consecutive numbers, which no one else takes again.
-/
namespace Stagecraft

/-! ## Histories -/

section
variable {α : Type} {g : Config → List α}

/-- What the configurations of a course, the latest of which comes first, have brought one after another. -/
def history (g : Config → List α) (cs : List Config) : List α := cs.reverse.flatMap g

theorem history_cons (c : Config) (cs : List Config) : history g (c :: cs) = history g cs ++ g c := by
  rw [history, List.reverse_cons, List.flatMap_append, List.flatMap_singleton, history]

theorem history_suffix {cs ds : List Config} (h : cs <:+ ds) : history g cs <+: history g ds := by
  obtain ⟨es, rfl⟩ := h
  rw [history, history, List.reverse_append, List.flatMap_append]
  exact List.prefix_append _ _

theorem length_deeds_of_suffix {f : Stage → Task → Option α} {n : Nat} {cs ds : List Config} (h : cs <:+ ds) :
    (deeds f n cs).length ≤ (deeds f n ds).length := by
  obtain ⟨es, rfl⟩ := h
  rw [deeds, deeds, List.reverse_append, List.filterMap_append, List.length_append]
  exact Nat.le_add_right _ _

end

/-! ## Pools -/

/-- A place where calls wait to be taken up, and how they are made then. -/
structure Pool (α β : Type) where
  /-- The calls that wait there. -/
  waiting : Stage → List α
  /-- The calls that the next task puts there. -/
  puts : Config → List α
  /-- The calls that the next task takes from there. -/
  takes : Config → List α
  /-- The task that takes them all. -/
  start : Task
  /-- How many tasks wait behind a call more than behind that task. -/
  depth : Nat
  made : Task → Option β
  call : α → β

namespace Pool

variable {α β : Type} (p : Pool α β)

/-- All calls that were ever put there, in this order. -/
def entered (past : List Config) : List α := history p.puts past

/-- Those of them that have been taken. -/
def drawn (past : List Config) : List α := history p.takes past

/-- The calls made by those who took them when they stood before `outer`. -/
def calls (outer : List Task) (cs : List Config) : List β := deeds (fun _ t => p.made t) (outer.length + p.depth) cs

/-- The latest of the configurations makes the call that was the `k`-th to be put there.  It was there when the task began
that makes it. -/
def Serves (k : Nat) (a : α) (cs : List Config) : Prop :=
  ∃ c later b earlier outer, cs = c :: (later ++ b :: earlier) ∧ b.agenda = p.start :: outer ∧
    (∀ d ∈ later, d.awaits outer) ∧ c.first? (fun _ t => p.made t) (outer.length + p.depth) = some (p.call a) ∧
    k = (p.drawn earlier).length + (p.calls outer later).length ∧ (p.entered earlier)[k]? = some a

/-- Nothing comes to the calls or goes from them but what is put there and taken. -/
structure Sound : Prop where
  opened : ∀ manners, p.waiting (.opened manners) = []
  cleared : ∀ s, p.waiting s.cleared = p.waiting s
  idle : ∀ s, p.puts ⟨s, []⟩ = [] ∧ p.takes ⟨s, []⟩ = []
  step : ∀ s t rest, p.takes ⟨s, t :: rest⟩ ++ p.waiting (t.carryOut s rest).1 = p.waiting s ++ p.puts ⟨s, t :: rest⟩
  start : ∀ s rest, p.takes ⟨s, p.start :: rest⟩ = p.waiting s

variable {p} {manners : Manners}

/-- **What was put there has been taken or is still there.** -/
theorem Sound.entered_eq (hp : p.Sound) : ∀ {past : List Config} {c : Config}, Course manners (c :: past) →
    p.entered past = p.drawn past ++ p.waiting c.stage
  | [], c, h => by
    cases h with
    | opened => exact (hp.opened manners).symm
  | d :: past, c, h => by
    have hbefore := hp.entered_eq h.tail
    rw [entered] at hbefore
    rw [entered, drawn, history_cons, history_cons, hbefore, List.append_assoc, List.append_assoc]
    refine congrArg (history p.takes past ++ ·) ?_
    cases h with
    | cleared h => rw [(hp.idle _).1, (hp.idle _).2, hp.cleared, List.append_nil, List.nil_append]
    | called cue h => rw [(hp.idle _).1, (hp.idle _).2, List.append_nil, List.nil_append]
    | stepped h hstep =>
      obtain ⟨s, agenda⟩ := d
      cases agenda with
      | nil => cases hstep
      | cons t rest =>
        rw [Config.step?_cons, Option.some.injEq] at hstep
        rw [← hstep]
        exact (hp.step s t rest).symm

/-- The call that is the next to be made by a task that took it when it began. -/
theorem Sound.serves (hp : p.Sound) {a : α} {c b : Config} {later earlier : List Config} {outer : List Task}
    (h : Course manners (c :: (later ++ b :: earlier))) (hb : b.agenda = p.start :: outer)
    (hover : ∀ d ∈ later, d.awaits outer)
    (hc : c.first? (fun _ t => p.made t) (outer.length + p.depth) = some (p.call a))
    (hnext : (p.waiting b.stage)[(p.calls outer later).length]? = some a) :
    ∃ k, p.Serves k a (c :: (later ++ b :: earlier)) := by
  refine ⟨_, c, later, b, earlier, outer, rfl, hb, hover, hc, rfl, ?_⟩
  have hbcourse : Course manners (b :: earlier) := Course.drop (c :: later) h
  rwa [hp.entered_eq hbcourse, List.getElem?_append_right (Nat.le_add_right ..), Nat.add_sub_cancel_left]

/-- The number of a call is among those that were taken when the task began that makes it. -/
theorem Sound.lt_drawn (hp : p.Sound) {a : α} {k : Nat} {b : Config} {earlier : List Config} {outer : List Task}
    (h : Course manners (b :: earlier)) (hb : b.agenda = p.start :: outer) (hk : (p.entered earlier)[k]? = some a) :
    k < (p.drawn (b :: earlier)).length := by
  obtain ⟨s, agenda⟩ := b
  obtain rfl : agenda = p.start :: outer := hb
  rw [drawn, history_cons, hp.start, ← drawn, ← hp.entered_eq h]
  exact (List.getElem?_eq_some_iff.1 hk).1

/-- A call that is made before another one has another number. -/
theorem Sound.number_ne (hp : p.Sound) {k k' : Nat} {a a' : α} {c : Config} {cs cs' : List Config}
    (h : Course manners (c :: cs')) (hbefore : cs <:+ cs') (hserves : p.Serves k a cs)
    (hserves' : p.Serves k' a' (c :: cs')) : k ≠ k' := by
  have hcourse : ∀ {b : Config} {earlier : List Config}, b :: earlier <:+ cs' → Course manners (b :: earlier) := by
    rintro b earlier ⟨since, rfl⟩
    exact Course.drop (c :: since) h
  obtain ⟨d, later, b, earlier, outer, rfl, hb, -, hd, rfl, hk⟩ := hserves
  obtain ⟨d', later', b', earlier', outer', heq, hb', -, -, rfl, hk'⟩ := hserves'
  obtain ⟨-, rfl⟩ := List.cons.inj heq
  have hsuf : b :: earlier <:+ later' ++ b' :: earlier' :=
    ((List.suffix_append later _).trans (List.suffix_cons d _)).trans hbefore
  by_cases hsame : b :: earlier = b' :: earlier'
  · -- both calls were taken together, and one of them is made after the other
    obtain ⟨rfl, rfl⟩ := List.cons.inj hsame
    obtain ⟨-, rfl⟩ := List.cons.inj (hb.symm.trans hb')
    obtain ⟨since, hsince⟩ := hbefore
    have hlater : later' = since ++ d :: later := by
      refine List.append_cancel_right (?_ : _ = _ ++ b :: earlier)
      rw [← hsince]
      simp
    have hmore : (p.calls outer (d :: later)).length ≤ (p.calls outer later').length :=
      length_deeds_of_suffix ⟨since, hlater.symm⟩
    rw [calls, deeds_cons, hd, List.length_append, Option.toList_some, List.length_singleton, ← calls] at hmore
    omega
  · rcases List.suffix_or_suffix_of_suffix hsuf (List.suffix_append later' _) with hsuf' | hsuf'
    · have hlt := hp.lt_drawn (hcourse hsuf) hb hk
      have hle := (history_suffix (g := p.takes) ((List.suffix_cons_iff.1 hsuf').resolve_left hsame)).length_le
      rw [← drawn, ← drawn] at hle
      omega
    · have hlt := hp.lt_drawn (hcourse (List.suffix_append later' _)) hb' hk'
      have hle := (history_suffix (g := p.takes) ((List.suffix_cons_iff.1 hsuf').resolve_left (Ne.symm hsame))).length_le
      rw [← drawn, ← drawn] at hle
      omega

/-- **A call that was put there is made at most once.** -/
theorem Sound.serves_once (hp : p.Sound) {k : Nat} {a a' : α} {all cs cs' : List Config} (h : Course manners all)
    (hcs : cs <:+ all) (hcs' : cs' <:+ all) (hserves : p.Serves k a cs) (hserves' : p.Serves k a' cs') : cs = cs' := by
  have hcourse : ∀ {c : Config} {cs : List Config}, c :: cs <:+ all → Course manners (c :: cs) := by
    rintro c cs ⟨since, rfl⟩
    exact Course.drop since h
  rcases List.suffix_or_suffix_of_suffix hcs hcs' with hsuf | hsuf
  · cases cs' with
    | nil => exact List.suffix_nil.1 hsuf
    | cons c' cs' =>
      rcases List.suffix_cons_iff.1 hsuf with heq | hbefore
      · exact heq
      · exact absurd rfl (hp.number_ne (hcourse hcs') hbefore hserves hserves')
  · cases cs with
    | nil => exact (List.suffix_nil.1 hsuf).symm
    | cons c cs =>
      rcases List.suffix_cons_iff.1 hsuf with heq | hbefore
      · exact heq.symm
      · exact absurd rfl (hp.number_ne (hcourse hcs) hbefore hserves' hserves)

end Pool
end Stagecraft
