import Stagecraft.Proofs.State.Captured
/-!
# Reactions that can be run

What a description leaves in the action of a reaction can be run as it stands: it comes apart into the effects that were
written for the reaction, and each of them is understood.
-/
namespace Stagecraft

open Text (Clean)

theorem EffectKind.keyword_of_ofKeyword? {word : String} {kind : EffectKind} (h : ofKeyword? word = some kind) :
    kind.keyword = word := by
  unfold ofKeyword? at h
  split at h <;> cases h <;> rfl

/-- An effect that is written plainly is of the kind that its first word names, and it is all that is written. -/
theorem StateClause.Plain.parse {text : String} (h : (StateClause.effect text).Plain) :
    ∃ kind : EffectKind, (Text.wordsOf text).head? = some kind.keyword ∧ Effect.parse? text = some ⟨kind, text⟩ := by
  obtain ⟨⟨htrimmed, -⟩, word, hword, hkind⟩ := h
  obtain ⟨kind, hkind⟩ := Option.isSome_iff_exists.1 hkind
  refine ⟨kind, ?_, ?_⟩
  · rw [EffectKind.keyword_of_ofKeyword? hkind]
    exact hword
  · rw [Effect.parse?, Option.mem_def.1 hword]
    simp only [hkind, Option.map_some, htrimmed]

/-- A reaction that can be run as it stands: if there is an action, it holds effects, each of which is understood as it
is written, and where the reaction leads to is a name. -/
structure Reaction.Runnable (r : Reaction) : Prop where
  several : r.encoding = .several
  action : r.action = none ∨ r.actions ≠ []
  understood : ∀ text ∈ r.actions, ∃ kind : EffectKind, (Text.wordsOf text).head? = some kind.keyword ∧
    Effect.parse? text = some ⟨kind, text⟩
  goto : ∀ state ∈ r.goto, state ≠ "" ∧ Text.trimmed state = state ∧ ':' ∉ state.toList

namespace Description

/-! ## Clauses come to a reaction -/

/-- Only the effects among the clauses come to the action. -/
theorem action_foldl {cs : List StateClause} : ∀ {r r' : Reaction}, r.action = r'.action →
    (cs.foldl Reaction.add r).action = (((effects cs).map StateClause.effect).foldl Reaction.add r').action := by
  induction cs with
  | nil => exact fun h => h
  | cons c cs ih =>
    intro r r' h
    cases c with
    | effect text =>
      have hadd : (r.add (.effect text)).action = (r'.add (.effect text)).action := by
        simp only [Reaction.add, Reaction.addEffect, h]
        split
        · rfl
        · exact h
      rw [show effects (.effect text :: cs) = text :: effects cs from rfl, List.map_cons, List.foldl_cons,
        List.foldl_cons, ih hadd]
    | on | goto | loop => exact ih h

theorem encoding_foldl (cs : List StateClause) : ∀ r : Reaction, (cs.foldl Reaction.add r).encoding = r.encoding := by
  induction cs with
  | nil => exact fun _ => rfl
  | cons c cs ih =>
    intro r
    refine (ih _).trans ?_
    cases c with
    | effect text =>
      simp only [Reaction.add, Reaction.addEffect]
      split <;> rfl
    | on | goto | loop => rfl

/-- Where a reaction leads to is said by one of its clauses. -/
theorem goto_foldl {cs : List StateClause} : ∀ {r : Reaction},
    (cs.foldl Reaction.add r).goto = r.goto ∨ .goto (cs.foldl Reaction.add r).goto ∈ cs := by
  induction cs with
  | nil => exact .inl rfl
  | cons c cs ih =>
    intro r
    rcases @ih (r.add c) with h | h
    · cases c with
      | goto state => exact .inr (by rw [List.foldl_cons, h]; exact List.mem_cons_self)
      | effect text =>
        refine .inl ?_
        rw [List.foldl_cons, h]
        simp only [Reaction.add, Reaction.addEffect]
        split <;> rfl
      | on | loop => exact .inl h
    · exact .inr (List.mem_cons_of_mem _ h)

section
variable {on : Occasion} {cs : List StateClause}

theorem clean_of_sound (h : ∀ c ∈ cs, c.Sound) {t : String} (ht : t ∈ effects cs) : Clean t ∧ t ≠ "" := by
  obtain ⟨hclean, word, hword, -⟩ := h _ (mem_effects.1 ht)
  exact ⟨hclean, by rintro rfl; cases hword⟩

theorem action_ofClauses (h : ∀ c ∈ cs, c.Sound) : (Reaction.ofClauses on cs).action =
    if effects cs = [] then none else some (String.join ((effects cs).map (":" ++ ·))) := by
  have hfilled : ∀ t ∈ effects cs, Text.filled t = some t := fun t ht =>
    (clean_of_sound h ht).1.filled (clean_of_sound h ht).2
  have heq : (Reaction.ofClauses on cs).action = _ := @action_foldl cs { on } { on } rfl
  rw [heq, foldl_effects hfilled]
  split
  · rfl
  · rw [Option.getD_none, String.empty_append]

/-- **The action of a reaction comes apart into the effects that its clauses ask for.** -/
theorem actions_ofClauses (h : ∀ c ∈ cs, c.Sound) : (Reaction.ofClauses on cs).actions = effects cs := by
  refine actions_of_join ?_ fun t ht => clean_of_sound h ht
  rw [action_ofClauses h]
  split
  · rename_i hnone
    rw [hnone]
    rfl
  · rfl

/-- **Clauses that can be read again come to a reaction that can be run.** -/
theorem runnable_ofClauses (h : ∀ c ∈ cs, c.Sound) : (Reaction.ofClauses on cs).Runnable where
  several := encoding_foldl cs { on }
  action := by
    rw [actions_ofClauses h, action_ofClauses h]
    by_cases hnone : effects cs = []
    · exact .inl (if_pos hnone)
    · exact .inr hnone
  understood t ht := by
    rw [actions_ofClauses h] at ht
    exact StateClause.Plain.parse (h _ (mem_effects.1 ht))
  goto state hstate := by
    rcases @goto_foldl cs { on } with hnone | hmem
    · rw [Reaction.ofClauses, hnone] at hstate
      cases hstate
    · obtain ⟨⟨htrimmed, hcolon⟩, hne⟩ := h _ hmem state hstate
      exact ⟨hne, htrimmed, hcolon⟩

end

/-! ## Sections of a description -/

/-- The clauses are those before the first `on` and those of the sections behind it. -/
theorem mem_of_mem_sections : ∀ {cs : List StateClause}, (∀ c ∈ (sections cs).1, c ∈ cs) ∧
    ∀ e ∈ (sections cs).2, ∀ c ∈ e.2, c ∈ cs
  | [] => ⟨nofun, nofun⟩
  | .on _ :: cs => by
    obtain ⟨hhead, hrest⟩ := @mem_of_mem_sections cs
    refine ⟨nofun, fun e he c hc => List.mem_cons_of_mem _ ?_⟩
    rcases List.mem_cons.1 he with rfl | he
    · exact hhead c hc
    · exact hrest e he c hc
  | .goto _ :: cs | .loop _ :: cs | .effect _ :: cs => by
    obtain ⟨hhead, hrest⟩ := @mem_of_mem_sections cs
    refine ⟨fun c hc => ?_, fun e he c hc => List.mem_cons_of_mem _ (hrest e he c hc)⟩
    rcases List.mem_cons.1 hc with rfl | hc
    · exact List.mem_cons_self
    · exact List.mem_cons_of_mem _ (hhead c hc)

theorem effects_sections : ∀ cs : List StateClause,
    effects (sections cs).1 ++ (sections cs).2.flatMap (fun e => effects e.2) = effects cs
  | [] => rfl
  | .on _ :: cs => effects_sections cs
  | .goto _ :: cs => effects_sections cs
  | .loop _ :: cs => effects_sections cs
  | .effect text :: cs => congrArg (text :: ·) (effects_sections cs)

section
variable (src : String)

/-- A preamble that is left out has no effects. -/
theorem effects_preamble (h : (preamble (clausesOf src)).isWritten = false) :
    effects (sections (clausesOf src)).1 = [] := by
  have hsound : ∀ c ∈ (sections (clausesOf src)).1, c.Sound := fun c hc =>
    sound_of_mem_clausesOf (mem_of_mem_sections.1 c hc)
  by_contra hne
  rw [← @actions_ofClauses .entry _ hsound] at hne
  have haction := Reaction.hasAction_of_actions hne
  rw [Reaction.isWritten, show (preamble (clausesOf src)).hasAction = true from haction] at h
  cases h

/-- The parts of a description that come to its reactions: the clauses before the first `on`, unless they are left out,
and those behind each `on`. -/
def parts : List (Occasion × List StateClause) :=
  if namesEntry (Token.ofText src) && !(preamble (clausesOf src)).isWritten then (sections (clausesOf src)).2
  else (.entry, (sections (clausesOf src)).1) :: (sections (clausesOf src)).2

theorem reactions_parts : (read src).reactions = (parts src).map fun e => Reaction.ofClauses e.1 e.2 := by
  change reactionsOf (namesEntry (Token.ofText src)) (clausesOf src) = _
  rw [reactionsOf, parts, preamble]
  simp only
  split
  · rfl
  · rfl

theorem effects_parts : (parts src).flatMap (fun e => effects e.2) = effects (clausesOf src) := by
  rw [← effects_sections, parts]
  split
  · rename_i hleft
    simp only [Bool.and_eq_true, Bool.not_eq_true'] at hleft
    rw [effects_preamble src hleft.2]
    rfl
  · rfl

theorem sound_of_mem_parts {e : Occasion × List StateClause} (he : e ∈ parts src) : ∀ c ∈ e.2, c.Sound := by
  intro c hc
  refine @sound_of_mem_clausesOf src c ?_
  rw [parts] at he
  split at he
  · exact mem_of_mem_sections.2 e he c hc
  · rcases List.mem_cons.1 he with rfl | he
    · exact mem_of_mem_sections.1 c hc
    · exact mem_of_mem_sections.2 e he c hc

/-- **Every reaction of a description can be run.** -/
theorem runnable_of_mem_read {r : Reaction} (hr : r ∈ (read src).reactions) : r.Runnable := by
  rw [reactions_parts] at hr
  obtain ⟨e, he, rfl⟩ := List.mem_map.1 hr
  exact runnable_ofClauses (sound_of_mem_parts src he)

/-- The effects of the reactions are those of their own parts of the description. -/
theorem actions_read : (read src).reactions.map Reaction.actions = (parts src).map fun e => effects e.2 := by
  rw [reactions_parts, List.map_map]
  exact List.map_congr_left fun e he => actions_ofClauses (sound_of_mem_parts src he)

/-- **All effects of a description come to its reactions**, in the order in which they are written. -/
theorem flatMap_actions_read : (read src).reactions.flatMap Reaction.actions = effects (clausesOf src) := by
  rw [List.flatMap_def, actions_read, ← List.flatMap_def, effects_parts]

end

end Description
end Stagecraft
