import Mathlib.Data.List.Chain
import Stagecraft.Proofs.Style.ClassName
import Stagecraft.Style.Animation
/-!
# How rules are spelled

A key and a body are made of labels and of the numbers of an animation, each number in full.  No label looks like an
infinity or like something that is not a number; so a rule shows an infinity exactly if the animation has one.
-/
namespace Stagecraft

/-! ## The numbers of an animation -/

/-- The numbers that say what changes. -/
def Change.numbers : Change → List Binary32
  | .enter _ offset scale => offset.value :: scale.toList
  | .transform x y skew scale =>
    x.toList.map Length.value ++ (y.toList.map Length.value ++ (skew.toList.map Degrees.value ++ scale.toList))

def Timing.numbers (t : Timing) : List Binary32 := [t.duration.value, t.delay.value]

def Animation.numbers (a : Animation) : List Binary32 := a.change.numbers ++ a.timing.numbers

/-! ## What an infinity looks like -/

namespace Binary32

theorem plainZero_of_infinite {x : Binary32} (h : x.isFinite = false) : x.plainZero = x := by
  have hrank : x.rank.val = infinityRank := by simpa [isFinite] using h
  have hzero : x.isZero = false := by
    rw [isZero, hrank]
    decide
  rw [plainZero, hzero, if_neg Bool.false_ne_true]

theorem isFinite_plainZero (x : Binary32) : x.plainZero.isFinite = x.isFinite := by
  unfold plainZero
  split <;> rfl

/-- An infinity is written `inf`. -/
theorem infinity_infix_text {x : Binary32} (h : x.isFinite = false) : "inf".toList <:+: x.text.toList := by
  rw [text, magnitude, h, if_neg Bool.false_ne_true, String.toList_ofList]
  split
  · exact List.infix_cons (List.infix_refl _)
  · exact List.infix_refl _

theorem isDigit_or_point_of_mem_chars {d : Decimal} {c : Char} (h : c ∈ d.chars) : c.isDigit = true ∨ c = '.' := by
  have hpadded : ∀ {k : Nat} {c : Char}, c ∈ List.replicate k '0' ++ Text.digits d.ratio.1 → c.isDigit = true := by
    intro k c hc
    rcases List.mem_append.1 hc with hc | hc
    · rw [List.eq_of_mem_replicate hc]
      decide
    · exact isDigit_of_mem_digits hc
  unfold Decimal.chars at h
  simp only at h
  split at h
  · exact .inl (isDigit_of_mem_digits h)
  · rcases List.mem_append.1 h with h | h
    · exact .inl (hpadded (List.mem_of_mem_take h))
    · rcases List.mem_cons.1 h with rfl | h
      · exact .inr rfl
      · exact .inl (hpadded (List.mem_of_mem_drop h))

/-- A finite number is written without letters. -/
theorem isAlpha_of_mem_text {x : Binary32} (h : x.isFinite = true) {c : Char} (hc : c ∈ x.text.toList) :
    c.isAlpha = false := by
  have hchars : ∀ {d : Decimal} {c : Char}, c ∈ d.chars → c.isAlpha = false := by
    intro d c hc
    rcases isDigit_or_point_of_mem_chars hc with hc | rfl
    · rw [Bool.eq_false_iff]
      intro halpha
      rw [Stylesheet.isDigit_of_isAlpha halpha] at hc
      cases hc
    · decide
  rw [text, magnitude, h, if_pos rfl, String.toList_ofList] at hc
  split at hc
  · rcases List.mem_cons.1 hc with rfl | hc
    · decide
    · exact hchars hc
  · exact hchars hc

/-- No number is written with an `N`. -/
theorem ne_of_mem_text {x : Binary32} {c : Char} (hc : c ∈ x.text.toList) : c ≠ 'N' := by
  rintro rfl
  cases hx : x.isFinite with
  | true => exact absurd (isAlpha_of_mem_text hx hc) (by decide)
  | false =>
    rw [text, magnitude, hx, if_neg Bool.false_ne_true, String.toList_ofList] at hc
    split at hc <;> exact absurd hc (by decide)

end Binary32

namespace Animation

/-! ## Labels and numbers -/

/-- A piece of a rule that is the same in all rules of its kind.  It has no `N`, and an `f` only behind an `s`. -/
def isLabel (cs : List Char) : Bool :=
  cs.all (· ≠ 'N') && cs.head? ≠ some 'f' && decide (cs.IsChain fun c d => d = 'f' → c = 's')

/-- A text made of labels and of numbers from a list. -/
inductive Spelled (xs : List Binary32) : List Char → Prop
  | label {cs : List Char} : isLabel cs = true → Spelled xs cs
  | number {x : Binary32} : x ∈ xs → Spelled xs x.text.toList
  /-- A length or an angle of zero is written without its sign. -/
  | plain {x : Binary32} : x ∈ xs → Spelled xs x.plainZero.text.toList
  | append {a b : List Char} : Spelled xs a → Spelled xs b → Spelled xs (a ++ b)

namespace Spelled

variable {xs ys : List Binary32} {cs : List Char}

theorem mono (h : Spelled xs cs) (hsub : xs ⊆ ys) : Spelled ys cs := by
  induction h with
  | label h => exact .label h
  | number h => exact .number (hsub h)
  | plain h => exact .plain (hsub h)
  | append _ _ iha ihb => exact iha.append ihb

theorem seconds {t : Seconds} (h : t.value ∈ xs) : Spelled xs t.css.toList := by
  rw [Seconds.css, String.toList_append]
  exact (number h).append (.label (by decide))

theorem degrees {a : Degrees} (h : a.value ∈ xs) : Spelled xs a.css.toList := by
  rw [Degrees.css, String.toList_append]
  exact (plain h).append (.label (by decide))

theorem length {l : Length} (h : l.value ∈ xs) : Spelled xs l.css.toList := by
  rw [Length.css, String.toList_append]
  refine (plain h).append (.label ?_)
  cases l.unit <;> decide

/-- A value that may be missing, behind its label. -/
theorem part {α : Type} {label : String} {css : α → String} {v : Option α} (hlabel : isLabel label.toList = true)
    (h : ∀ a ∈ v, Spelled xs (css a).toList) : Spelled xs (v.elim "" fun a => label ++ css a).toList := by
  cases v with
  | none => exact .label (by decide : isLabel "".toList = true)
  | some a =>
    rw [Option.elim_some, String.toList_append]
    exact (Spelled.label hlabel).append (h a rfl)

theorem intercalate {sep : String} (hsep : isLabel sep.toList = true) : ∀ {us : List String},
    (∀ u ∈ us, Spelled xs u.toList) → Spelled xs (sep.intercalate us).toList
  | [], _ => by
    rw [String.intercalate_nil]
    exact .label (by decide)
  | [u], h => by
    rw [String.toList_intercalate, List.map_singleton, List.intercalate_singleton]
    exact h u List.mem_cons_self
  | u :: v :: us, h => by
    have hrest : Spelled xs (sep.intercalate (v :: us)).toList :=
      intercalate hsep fun w hw => h w (List.mem_cons_of_mem _ hw)
    rw [String.toList_intercalate] at hrest ⊢
    rw [List.map_cons, List.map_cons, List.intercalate_cons_cons]
    exact ((h u List.mem_cons_self).append (.label hsep)).append hrest

/-- What is spelled has no `N`, whatever its numbers are. -/
theorem ne_of_mem (h : Spelled xs cs) : ∀ c ∈ cs, c ≠ 'N' := by
  induction h with
  | label h =>
    simp only [isLabel, Bool.and_eq_true, List.all_eq_true, decide_eq_true_eq] at h
    exact h.1.1
  | number | plain => exact fun c hc => Binary32.ne_of_mem_text hc
  | append _ _ iha ihb => exact fun c hc => (List.mem_append.1 hc).elim (iha c) (ihb c)

/-- What is spelled with finite numbers has an `f` only behind an `s`. -/
theorem calm (h : Spelled xs cs) (hxs : ∀ x ∈ xs, x.isFinite = true) :
    cs.head? ≠ some 'f' ∧ cs.IsChain fun c d => d = 'f' → c = 's' := by
  have hnumber : ∀ {x : Binary32}, x.isFinite = true →
      x.text.toList.head? ≠ some 'f' ∧ x.text.toList.IsChain fun c d => d = 'f' → c = 's' := by
    intro x hx
    have hf : 'f' ∉ x.text.toList := fun hmem => absurd (Binary32.isAlpha_of_mem_text hx hmem) (by decide)
    refine ⟨fun h => hf (List.mem_of_mem_head? h), ?_⟩
    have hpairs : x.text.toList.Pairwise fun c d => d = 'f' → c = 's' :=
      List.pairwise_of_forall_mem_list fun c _ d hd heq => absurd (heq ▸ hd) hf
    exact hpairs.isChain
  induction h with
  | label h =>
    simp only [isLabel, Bool.and_eq_true, decide_eq_true_eq] at h
    exact ⟨h.1.2, h.2⟩
  | number h => exact hnumber (hxs _ h)
  | plain h => exact hnumber ((Binary32.isFinite_plainZero _).trans (hxs _ h))
  | @append a b _ _ iha ihb =>
    refine ⟨?_, List.isChain_append.2 ⟨iha.2, ihb.2, fun c _ d hd hf => absurd (hf ▸ hd) ihb.1⟩⟩
    cases ha : a.head? with
    | none => rw [List.head?_append, ha, Option.none_or]; exact ihb.1
    | some c => rw [List.head?_append, ha, Option.some_or, ← ha]; exact iha.1

theorem not_infinity (h : Spelled xs cs) (hxs : ∀ x ∈ xs, x.isFinite = true) : ¬ "inf".toList <:+: cs := by
  rintro ⟨before, after, rfl⟩
  exact absurd (h.calm hxs).2.left_of_append.right_of_append (by decide)

theorem not_nan (h : Spelled xs cs) : ¬ "NaN".toList <:+: cs := by
  intro hnan
  exact h.ne_of_mem 'N' (hnan.subset (by decide)) rfl

end Spelled

/-! ## Rules -/

theorem spelled_timing (t : Timing) : Spelled t.numbers t.css.toList := by
  simp only [Timing.css, String.toList_append]
  have hduration : Spelled t.numbers t.duration.css.toList := .seconds List.mem_cons_self
  have hdelay : Spelled t.numbers t.delay.css.toList := .seconds (List.mem_cons_of_mem _ List.mem_cons_self)
  have heasing : Spelled t.numbers t.easing.css.toList := .label (by cases t.easing <;> decide)
  exact (((hduration.append (.label (by decide))).append heasing).append (.label (by decide))).append hdelay

section
variable {xs : List Binary32}

/-- A value in brackets behind the name of its function. -/
theorem spelled_call {name css : String} (hname : isLabel name.toList = true) (h : Spelled xs css.toList) :
    Spelled xs (name ++ css ++ ")").toList := by
  rw [String.toList_append, String.toList_append]
  exact ((Spelled.label hname).append h).append (.label (by decide))

theorem spelled_functions (c : Change) : ∀ f ∈ functions c, Spelled c.numbers f.toList := by
  intro f hf
  cases c with
  | enter axis offset scale =>
    rcases List.mem_cons.1 hf with rfl | hf
    · have hname : isLabel ("translate" ++ axis.letter ++ "(").toList = true := by cases axis <;> decide
      exact spelled_call hname (.length List.mem_cons_self)
    · simp only [Option.mem_toList, Option.map_eq_some_iff] at hf
      obtain ⟨s, hs, rfl⟩ := hf
      exact spelled_call (by decide) (.number (List.mem_cons_of_mem _ (Option.mem_toList.2 hs)))
  | transform x y skew scale =>
    simp only [functions, List.mem_append, Option.mem_toList, Option.map_eq_some_iff] at hf
    rcases hf with ((⟨a, ha, rfl⟩ | ⟨l, hl, rfl⟩) | ⟨l, hl, rfl⟩) | ⟨s, hs, rfl⟩
    · exact spelled_call (by decide) (.degrees (by simp [Change.numbers, ha]))
    · exact spelled_call (by decide) (.length (by simp [Change.numbers, hl]))
    · exact spelled_call (by decide) (.length (by simp [Change.numbers, hl]))
    · exact spelled_call (by decide) (.number (by simp [Change.numbers, hs]))

end

theorem spelled_placeKey (c : Change) : Spelled c.numbers (placeKey c).toList := by
  cases c with
  | enter axis offset scale =>
    have hname : isLabel ("translate" ++ axis.letter ++ "_").toList = true := by cases axis <;> decide
    have hoffset : Spelled (Change.enter axis offset scale).numbers offset.css.toList := .length List.mem_cons_self
    rw [placeKey, String.toList_append, String.toList_append, String.toList_append]
    refine (((Spelled.label hname).append hoffset).append (.label (by decide))).append (.part (by decide) fun s hs => ?_)
    exact .number (List.mem_cons_of_mem _ (Option.mem_toList.2 hs))
  | transform x y skew scale =>
    simp only [placeKey, String.toList_append]
    refine ((((Spelled.label (by decide)).append (.part (by decide) fun a ha => ?_)).append
      (.part (by decide) fun l hl => ?_)).append (.part (by decide) fun l hl => ?_)).append
      (.part (by decide) fun s hs => ?_)
    · exact .degrees (by simp [Change.numbers, Option.mem_def.1 ha])
    · exact .length (by simp [Change.numbers, Option.mem_def.1 hl])
    · exact .length (by simp [Change.numbers, Option.mem_def.1 hl])
    · exact .number (by simp [Change.numbers, Option.mem_def.1 hs])

theorem spelled_place_body (c : Change) : Spelled c.numbers (place c).body.toList := by
  have hfunctions : Spelled c.numbers (" ".intercalate (functions c)).toList :=
    .intercalate (by decide) (spelled_functions c)
  cases c with
  | enter =>
    simp only [place, String.toList_append]
    exact ((Spelled.label (by decide)).append hfunctions).append (.label (by decide))
  | transform =>
    simp only [place]
    split
    · exact .label (by decide)
    · rw [String.toList_append, String.toList_append]
      exact ((Spelled.label (by decide)).append hfunctions).append (.label (by decide))

theorem isLabel_of_mem_properties {c : Change} {p : String} (h : p ∈ properties c) : isLabel p.toList = true := by
  cases c with
  | enter => simp only [properties, List.mem_cons, List.not_mem_nil, or_false] at h; rcases h with rfl | rfl <;> decide
  | transform => simp only [properties, List.mem_singleton] at h; rw [h]; decide

/-- **Keys and bodies are made of labels and of the numbers of their animation.** -/
theorem spelled_requests {a : Animation} {r : Request} (hr : r ∈ a.requests) :
    Spelled a.numbers r.key.toList ∧ Spelled a.numbers r.body.toList := by
  have hplace : a.change.numbers ⊆ a.numbers := List.subset_append_left _ _
  have htiming : Spelled a.numbers a.timing.css.toList := (spelled_timing a.timing).mono (List.subset_append_right _ _)
  simp only [requests, List.mem_cons, List.not_mem_nil, or_false] at hr
  rcases hr with rfl | rfl
  · constructor
    · have hproperties : isLabel ("_" ++ "_".intercalate (properties a.change) ++ "_").toList = true := by
        cases a.change with
        | enter => exact show isLabel ("_" ++ "_".intercalate ["transform", "opacity"] ++ "_").toList = true by decide
        | transform => exact show isLabel ("_" ++ "_".intercalate ["transform"] ++ "_").toList = true by decide
      rw [transition, String.toList_append]
      exact (Spelled.label hproperties).append htiming
    · simp only [transition, String.toList_append]
      refine ((Spelled.label (by decide)).append (.intercalate (by decide) fun u hu => ?_)).append (.label (by decide))
      obtain ⟨p, hp, rfl⟩ := List.mem_map.1 hu
      rw [String.toList_append, String.toList_append]
      exact ((Spelled.label (isLabel_of_mem_properties hp)).append (.label (by decide))).append htiming
  · exact ⟨(spelled_placeKey a.change).mono hplace, (spelled_place_body a.change).mono hplace⟩

/-! ## Where an infinity shows -/

theorem infix_intercalate (sep : String) : ∀ {us : List String} {u : String}, u ∈ us →
    u.toList <:+: (sep.intercalate us).toList
  | [v], u, h => by
    have htext : (sep.intercalate [v]).toList = v.toList := by
      rw [String.toList_intercalate, List.map_singleton, List.intercalate_singleton]
    exact ⟨[], [], by rw [List.mem_singleton.1 h, htext, List.nil_append, List.append_nil]⟩
  | v :: w :: us, u, h => by
    rw [String.toList_intercalate, List.map_cons, List.map_cons, List.intercalate_cons_cons]
    rcases List.mem_cons.1 h with rfl | h
    · exact ⟨[], _, by rw [List.nil_append, List.append_assoc]⟩
    · have hrest := infix_intercalate sep h
      rw [String.toList_intercalate, List.map_cons] at hrest
      exact hrest.trans (List.suffix_append _ _).isInfix

theorem infix_call (name css : String) : css.toList <:+: (name ++ css ++ ")").toList := by
  rw [String.toList_append, String.toList_append]
  exact ⟨name.toList, ")".toList, rfl⟩

section
variable {x : Binary32} (hx : x.isFinite = false)
include hx

theorem infinity_infix_length {unit : LengthUnit} : "inf".toList <:+: (Length.css ⟨x, unit⟩).toList := by
  rw [Length.css, String.toList_append, Binary32.plainZero_of_infinite hx]
  exact (Binary32.infinity_infix_text hx).trans (List.prefix_append _ _).isInfix

theorem infinity_infix_degrees : "inf".toList <:+: (Degrees.css ⟨x⟩).toList := by
  rw [Degrees.css, String.toList_append, Binary32.plainZero_of_infinite hx]
  exact (Binary32.infinity_infix_text hx).trans (List.prefix_append _ _).isInfix

theorem infinity_infix_seconds : "inf".toList <:+: (Seconds.css ⟨x⟩).toList := by
  rw [Seconds.css, String.toList_append]
  exact (Binary32.infinity_infix_text hx).trans (List.prefix_append _ _).isInfix

theorem infinity_infix_timing {t : Timing} (h : x ∈ t.numbers) : "inf".toList <:+: t.css.toList := by
  simp only [Timing.numbers, List.mem_cons, List.not_mem_nil, or_false] at h
  rw [Timing.css, String.toList_append, String.toList_append]
  rcases h with rfl | rfl
  · refine (infinity_infix_seconds hx).trans ⟨[], " ".toList ++ t.easing.css.toList ++ " ".toList ++ t.delay.css.toList, ?_⟩
    simp only [String.toList_append, List.nil_append, List.append_assoc]
  · exact (infinity_infix_seconds hx).trans (List.suffix_append _ _).isInfix

theorem infinity_infix_function {c : Change} (h : x ∈ c.numbers) :
    ∃ f ∈ functions c, "inf".toList <:+: f.toList := by
  cases c with
  | enter axis offset scale =>
    rcases List.mem_cons.1 h with rfl | h
    · exact ⟨_, List.mem_cons_self, (infinity_infix_length hx).trans (infix_call _ _)⟩
    · refine ⟨"scale(" ++ x.text ++ ")", ?_, (Binary32.infinity_infix_text hx).trans (infix_call _ _)⟩
      simp [functions, Option.mem_toList.1 h]
  | transform tx ty skew scale =>
    simp only [Change.numbers, List.mem_append, List.mem_map, Option.mem_toList] at h
    rcases h with ⟨l, hl, rfl⟩ | ⟨l, hl, rfl⟩ | ⟨b, hb, rfl⟩ | h
    · exact ⟨"translateX(" ++ l.css ++ ")", by simp [functions, hl], (infinity_infix_length hx).trans (infix_call _ _)⟩
    · exact ⟨"translateY(" ++ l.css ++ ")", by simp [functions, hl], (infinity_infix_length hx).trans (infix_call _ _)⟩
    · exact ⟨"skewX(" ++ b.css ++ ")", by simp [functions, hb], (infinity_infix_degrees hx).trans (infix_call _ _)⟩
    · exact ⟨"scale(" ++ x.text ++ ")", by simp [functions, h], (Binary32.infinity_infix_text hx).trans (infix_call _ _)⟩

theorem infinity_infix_body {a : Animation} (h : x ∈ a.numbers) :
    ∃ r ∈ a.requests, "inf".toList <:+: r.body.toList := by
  rcases List.mem_append.1 h with h | h
  · obtain ⟨f, hf, hinf⟩ := infinity_infix_function hx h
    refine ⟨place a.change, List.mem_cons_of_mem _ List.mem_cons_self, ?_⟩
    have hfunctions := hinf.trans (infix_intercalate " " hf)
    cases hchange : a.change with
    | enter axis offset scale =>
      rw [hchange] at hfunctions
      simp only [place, String.toList_append]
      exact hfunctions.trans ⟨_, _, rfl⟩
    | transform tx ty skew scale =>
      rw [hchange] at hfunctions hf
      have hne : ¬ (functions (.transform tx ty skew scale)).isEmpty = true := by
        rw [List.isEmpty_iff]
        exact List.ne_nil_of_mem hf
      simp only [place, if_neg hne, String.toList_append]
      exact hfunctions.trans ⟨_, _, rfl⟩
  · refine ⟨a.transition, List.mem_cons_self, ?_⟩
    have hproperty : ∃ p, p ∈ properties a.change := by
      cases a.change <;> exact ⟨_, List.mem_cons_self⟩
    obtain ⟨p, hp⟩ := hproperty
    have hentry : "inf".toList <:+: (p ++ " " ++ a.timing.css).toList := by
      rw [String.toList_append]
      exact (infinity_infix_timing hx h).trans (List.suffix_append _ _).isInfix
    have hmem : p ++ " " ++ a.timing.css ∈ (properties a.change).map fun p => p ++ " " ++ a.timing.css :=
      List.mem_map.2 ⟨p, hp, rfl⟩
    have hentries := hentry.trans (infix_intercalate ", " hmem)
    simp only [transition, String.toList_append]
    exact hentries.trans ⟨_, _, rfl⟩

end

/-- **A rule shows an infinity exactly if a number of its animation is infinite.** -/
theorem shows_infinity_iff (a : Animation) :
    (∃ r ∈ a.requests, "inf".toList <:+: r.body.toList) ↔ ∃ x ∈ a.numbers, x.isFinite = false := by
  constructor
  · rintro ⟨r, hr, hinf⟩
    by_contra hnone
    refine (spelled_requests hr).2.not_infinity (fun x hx => ?_) hinf
    cases hfinite : x.isFinite with
    | true => rfl
    | false => exact absurd ⟨x, hx, hfinite⟩ hnone
  · rintro ⟨x, hx, hinfinite⟩
    exact infinity_infix_body hinfinite hx

end Animation
end Stagecraft
