import Stagecraft.Proofs.Stage.Nested
/-!
# The calls of a dispatch

A dispatch makes the calls that it gathered when it began: first those that waited for its event, then those of the
listeners that are still registered when their turns come.  Whatever these calls do, to the listeners or by dispatching
again, does not change which others it makes, except that a listener that is removed loses its turn.
-/
namespace Stagecraft

/-- The call that a task makes for a dispatch. -/
def Task.called? : Task → Option (OnceCall ⊕ ListenerCall)
  | .callOnce call => some (.inl call)
  | .callListener call => some (.inr call)
  | _ => none

/-- The listener whose turn it is. -/
def Task.turn? : Task → Option (Nat × ListenerCall)
  | .deliver [] (e :: _) _ => some e
  | _ => none

namespace Dispatch

/-- The calls made by a dispatch that stood before `outer` when it began. -/
def calls (outer : List Task) (cs : List Config) : List (OnceCall ⊕ ListenerCall) :=
  deeds (fun _ t => t.called?) (outer.length + 1) cs

/-- The turns of listeners in a dispatch that stood before `outer` when it began, each with the stage at that time. -/
def turns (outer : List Task) (cs : List Config) : List ((Nat × ListenerCall) × Stage) :=
  deeds (fun s t => t.turn?.map (·, s)) outer.length cs

/-- Whether the listener is still registered when its turn comes. -/
def isHeard (turn : (Nat × ListenerCall) × Stage) : Bool := turn.2.page.isRegistered turn.1.1

/-- What a dispatch has done so far: of the calls that waited for its event it has made `gone`, and `left` and `ls` are
still to come.  The last of the configurations is `c`. -/
structure Tally (s : Stage) (el : ElementId) (event : String) (outer : List Task) (gone left : List OnceCall)
    (ls : List (Nat × ListenerCall)) (c : Config) (later : List Config) : Prop where
  once : (s.page.awaiting el event).map Waiting.call = gone ++ left
  listeners : (s.page.listening el event).map (fun l => (l.id, l.call)) = (turns outer later).map Prod.fst ++ ls
  first : turns outer later ≠ [] → left = []
  made : calls outer (c :: later) =
    gone.map .inl ++ ((turns outer later).filter isHeard).map fun turn => .inr turn.1.2

/-- How far a dispatch has come: it takes a turn, or makes the call of one, or is inside such a call, or is over. -/
inductive Stands (outer : List Task) (left : List OnceCall) (ls : List (Nat × ListenerCall)) (ran : Nat) (c : Config) :
    Prop
  | calling (t : Task) (call : OnceCall ⊕ ListenerCall) (ht : t.called? = some call)
      (hc : c.agenda = t :: .deliver left ls ran :: outer)
  | inside (hc : Inside (fun u => u.called? = none) (.deliver left ls ran :: outer) c.agenda)
  | ended (hleft : left = []) (hls : ls = []) (hc : c.agenda = outer) (hanswer : c.stage.answer = .count ran)

end Dispatch

open Stage Dispatch

section
variable {s : Stage} {t : Task} {rest outer : List Task} {c d : Config} {later : List Config}

theorem Task.kind_of_called? {call : OnceCall ⊕ ListenerCall} (h : t.called? = some call) :
    t.kind = .callOnce ∨ t.kind = .callListener := by
  cases t with
  | callOnce => exact .inl rfl
  | callListener => exact .inr rfl
  | _ => cases h

/-- A call is never the last thing that a task leaves. -/
theorem called?_of_getLast? : ∀ u ∈ (t.carryOut s rest).2.getLast?, u.called? = none := by
  intro u hu
  cases hcalled : u.called? with
  | none => rfl
  | some call =>
    have hkind := (within_carryOut s rest t).kinds u (List.mem_of_getLast? hu)
    cases t with
    | deliver once ls ran =>
      cases once with
      | cons o once =>
        cases hu
        cases hcalled
      | nil =>
        cases ls with
        | nil => cases hu
        | cons e ls =>
          simp only [Task.carryOut, Stage.deliver] at hu
          split at hu <;> cases hu <;> cases hcalled
    | cue c => cases c <;> rcases Task.kind_of_called? hcalled with h | h <;> simp [Task.leaves, Cue.leaves, h] at hkind
    | release hold => cases hold <;> rcases Task.kind_of_called? hcalled with h | h <;> simp [Task.leaves, h] at hkind
    | _ => rcases Task.kind_of_called? hcalled with h | h <;> simp [Task.leaves, h] at hkind

namespace Dispatch

theorem calls_cons (outer : List Task) (c : Config) (cs : List Config) : calls outer (c :: cs) =
    calls outer cs ++ (c.first? (fun _ t => t.called?) (outer.length + 1)).toList := deeds_cons c cs

theorem turns_cons (outer : List Task) (c : Config) (cs : List Config) : turns outer (c :: cs) =
    turns outer cs ++ (c.first? (fun s t => t.turn?.map (·, s)) outer.length).toList := deeds_cons c cs

variable {cs : List Config} {el : ElementId} {event : String} {gone left : List OnceCall}
  {ls : List (Nat × ListenerCall)} {ran : Nat}

/-- The call that comes next is one of the dispatch. -/
theorem calls_of_agenda (hc : c.agenda = t :: .deliver left ls ran :: outer) :
    calls outer (c :: cs) = calls outer cs ++ t.called?.toList := by
  rw [calls_cons, first?_of_agenda hc (List.length_cons ..)]

/-- Inside a call the dispatch makes none itself. -/
theorem calls_of_inside (h : Inside (fun u => u.called? = none) (.deliver left ls ran :: outer) c.agenda) :
    calls outer (c :: cs) = calls outer cs := by
  have hnone : c.first? (fun _ t => t.called?) (outer.length + 1) = none := h.first?_eq_none fun u _ hu => hu
  rw [calls_cons, hnone]
  exact List.append_nil _

theorem turns_of_agenda (hc : c.agenda = t :: outer) :
    turns outer (c :: cs) = turns outer cs ++ (t.turn?.map (·, c.stage)).toList := by
  rw [turns_cons, first?_of_agenda hc rfl]

/-- With more than a delivery before what waits, it is the turn of no listener. -/
theorem turns_of_length (h : outer.length + 1 < c.agenda.length) : turns outer (c :: cs) = turns outer cs := by
  rw [turns_cons, first?_of_length (by omega)]
  exact List.append_nil _

/-- The tally stays as it is while a call goes on. -/
theorem Tally.goes_on (h : Tally s el event outer gone left ls d later)
    (hturns : turns outer (d :: later) = turns outer later)
    (hcalls : calls outer (c :: d :: later) = calls outer (d :: later)) :
    Tally s el event outer gone left ls c (d :: later) where
  once := h.once
  listeners := by rw [hturns]; exact h.listeners
  first := by rw [hturns]; exact h.first
  made := by rw [hcalls, hturns]; exact h.made

/-- The dispatch makes the next of the calls that waited for its event. -/
theorem Tally.makes {o : OnceCall} (h : Tally s el event outer gone (o :: left) ls d later)
    (hturns : turns outer (d :: later) = turns outer later)
    (hcalls : calls outer (c :: d :: later) = calls outer (d :: later) ++ [.inl o]) :
    Tally s el event outer (gone ++ [o]) left ls c (d :: later) := by
  have hnone : turns outer later = [] := by
    by_contra hne
    cases h.first hne
  refine ⟨by rw [h.once, List.append_assoc]; rfl, by rw [hturns]; exact h.listeners, ?_, ?_⟩
  · rw [hturns, hnone]
    exact fun hne => absurd rfl hne
  · rw [hcalls, h.made, hturns, hnone]
    simp

/-- The turn of a listener comes, which is called if it is still registered. -/
theorem Tally.turns {e : Nat × ListenerCall} (h : Tally s el event outer gone [] (e :: ls) d later)
    (hturns : Dispatch.turns outer (d :: later) = Dispatch.turns outer later ++ [(e, d.stage)])
    (hcalls : calls outer (c :: d :: later) =
      calls outer (d :: later) ++ if isHeard (e, d.stage) then [.inr e.2] else []) :
    Tally s el event outer gone [] ls c (d :: later) := by
  refine ⟨h.once, ?_, fun _ => rfl, ?_⟩
  · rw [hturns, h.listeners]
    simp
  · rw [hcalls, h.made, hturns, List.filter_append, List.map_append, List.append_assoc, List.filter_singleton]
    cases isHeard (e, d.stage) <;> rfl

/-- Of the calls that waited for the event the next one is made. -/
theorem Tally.next_once {call : OnceCall} (h : Tally s el event outer gone left ls c later)
    (hc : c.first? (fun _ t => t.called?) (outer.length + 1) = some (.inl call)) :
    ((s.page.awaiting el event).map Waiting.call)[(calls outer later).length]? = some call := by
  have hnext : (calls outer (c :: later))[(calls outer later).length]? = some (.inl call) := by
    rw [calls_cons, hc, Option.toList_some]
    exact List.getElem?_concat_length
  rw [h.made] at hnext
  rw [h.once]
  rcases Nat.lt_or_ge (calls outer later).length gone.length with hlt | hge
  · rw [List.getElem?_append_left (by rwa [List.length_map]), List.getElem?_map, Option.map_eq_some_iff] at hnext
    obtain ⟨o, ho, heq⟩ := hnext
    rw [List.getElem?_append_left hlt, ho, Sum.inl.inj heq]
  · -- the calls of listeners come later
    rw [List.getElem?_append_right (by rwa [List.length_map]), List.getElem?_map, Option.map_eq_some_iff] at hnext
    obtain ⟨turn, -, heq⟩ := hnext
    cases heq

/-- **A delivery makes its next call**, or passes over a listener that is gone, or is over and answers how many calls it
has made. -/
theorem Tally.delivers {s₀ : Stage} (hd : d.agenda = .deliver left ls ran :: outer)
    (h : Tally s₀ el event outer gone left ls d later) (hran : ran = (calls outer (d :: later)).length) :
    ∃ gone left' ls', Tally s₀ el event outer gone left' ls' (.after d.stage (.deliver left ls ran) outer) (d :: later) ∧
      Stands outer left' ls' (calls outer (.after d.stage (.deliver left ls ran) outer :: d :: later)).length
        (.after d.stage (.deliver left ls ran) outer) := by
  have hturns := @turns_of_agenda _ outer d later hd
  cases left with
  | cons o left =>
    have hafter : (Config.after d.stage (.deliver (o :: left) ls ran) outer).agenda =
        .callOnce o :: .deliver left ls (ran + 1) :: outer := rfl
    have hcalls := @calls_of_agenda _ outer _ (d :: later) left ls (ran + 1) hafter
    rw [show Option.toList _ = [] from rfl, List.append_nil] at hturns
    refine ⟨_, left, ls, h.makes hturns hcalls, .calling (.callOnce o) (.inl o) rfl ?_⟩
    rw [hcalls, List.length_append, ← hran]
    exact hafter
  | nil =>
    cases ls with
    | nil =>
      have hcalls : calls outer (.after d.stage (.deliver [] [] ran) outer :: d :: later) = calls outer (d :: later) := by
        rw [calls_cons, first?_of_length (by simp [Config.after, Task.carryOut, deliver]; omega)]
        exact List.append_nil _
      rw [show Option.toList _ = [] from rfl, List.append_nil] at hturns
      refine ⟨gone, [], [], h.goes_on hturns hcalls, .ended rfl rfl rfl ?_⟩
      rw [hcalls, ← hran]
      rfl
    | cons e ls =>
      by_cases hheard : d.stage.page.isRegistered e.1 = true
      · have hafter : (Config.after d.stage (.deliver [] (e :: ls) ran) outer).agenda =
            .callListener e.2 :: .deliver [] ls (ran + 1) :: outer := by
          simp only [Config.after, Task.carryOut, deliver, hheard, if_true]
          rfl
        have hcalls := @calls_of_agenda _ outer _ (d :: later) [] ls (ran + 1) hafter
        refine ⟨gone, [], ls, h.turns hturns (hcalls.trans ?_), .calling (.callListener e.2) (.inr e.2) rfl ?_⟩
        · rw [isHeard, if_pos hheard]
          rfl
        · rw [hcalls, List.length_append, ← hran]
          exact hafter
      · have hafter : (Config.after d.stage (.deliver [] (e :: ls) ran) outer).agenda = .deliver [] ls ran :: outer := by
          simp only [Config.after, Task.carryOut, deliver, hheard]
          rfl
        have hcalls := @calls_of_inside outer _ (d :: later) [] ls ran (.inl hafter)
        refine ⟨gone, [], ls, h.turns hturns (hcalls.trans ?_), .inside (.inl ?_)⟩
        · rw [isHeard, if_neg hheard, List.append_nil]
        · rw [hcalls, ← hran]
          exact hafter

end Dispatch

variable {manners : Manners} {b : Config} {earlier : List Config} {el : ElementId} {event : String}

/-- **A dispatch makes the calls that it gathered, in their order**, and whatever these do, it goes on with the next. -/
theorem Course.delivering (hb : b.agenda = .dispatch el event :: outer)
    (h : Course manners (c :: (later ++ b :: earlier))) (hover : ∀ d ∈ later, d.awaits outer) :
    ∃ gone left ls, Tally b.stage el event outer gone left ls c later ∧
      Stands outer left ls (calls outer (c :: later)).length c := by
  refine Course.during (I := fun c later => ∃ gone left ls, Tally b.stage el event outer gone left ls c later ∧
    Stands outer left ls (calls outer (c :: later)).length c) hb ?_ ?_ h hover
  · -- the dispatch has just gathered its calls
    have hfirst : calls outer [.after b.stage (.dispatch el event) outer] = [] := calls_of_inside (.inl rfl)
    refine ⟨[], _, _, ⟨rfl, rfl, fun hne => absurd rfl hne, hfirst⟩, .inside ?_⟩
    rw [hfirst]
    exact .inl rfl
  intro s u us later hcourse ⟨gone, left, ls, htally, hstands⟩
  -- a call that has been made goes on inside
  have hgoes_on : ∀ ran, ran = (calls outer (⟨s, u :: (us ++ outer)⟩ :: later)).length →
      outer.length + 1 < (u :: (us ++ outer)).length →
      Inside (fun u => u.called? = none) (.deliver left ls ran :: outer) (Config.after s u (us ++ outer)).agenda →
      ∃ gone left ls, Tally b.stage el event outer gone left ls (.after s u (us ++ outer))
          (⟨s, u :: (us ++ outer)⟩ :: later) ∧
        Stands outer left ls (calls outer (.after s u (us ++ outer) :: ⟨s, u :: (us ++ outer)⟩ :: later)).length
          (.after s u (us ++ outer)) := by
    intro ran hran hlong hinside
    have hcalls := @calls_of_inside outer _ (⟨s, u :: (us ++ outer)⟩ :: later) left ls ran hinside
    refine ⟨gone, left, ls, htally.goes_on (turns_of_length hlong) hcalls, .inside ?_⟩
    rw [hcalls, ← hran]
    exact hinside
  generalize hran : (calls outer (⟨s, u :: (us ++ outer)⟩ :: later)).length = ran at hstands
  cases hstands with
  | calling t call ht hc =>
    obtain ⟨-, hrest⟩ := List.cons.inj hc
    exact hgoes_on ran hran.symm (by rw [hrest]; simp) (.of_turn called?_of_getLast? hrest)
  | inside hc =>
    by_cases hturn : u :: (us ++ outer) = .deliver left ls ran :: outer
    · obtain ⟨rfl, hrest⟩ := List.cons.inj hturn
      rw [hrest] at htally hran ⊢
      exact htally.delivers rfl hran.symm
    · exact hgoes_on ran hran.symm (hc.length_lt hturn) (hc.after (fun _ _ _ _ => called?_of_getLast?) hturn)
  | ended _ _ hc =>
    have := congrArg List.length hc
    simp only [List.length_cons, List.length_append] at this
    omega

end

end Stagecraft
