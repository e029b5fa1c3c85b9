import Stagecraft.Proofs.Style.Distinct
import Stagecraft.Motion.Reader
/-!
# Animations of the same values

Two animations are the same in value if they agree field by field, with numbers compared as numbers: the two zeros are
one number.  Lengths and angles are written without the sign of a zero, but a factor and a time are written with it.  So
animations of the same values have the same classes except where such a zero has its sign in one of them only.
-/
namespace Stagecraft

/-! ## The same in value -/

/-- Two values that may be missing: both are, or neither, and then they are the same. -/
def sameOrMissing {α : Type} (same : α → α → Bool) : Option α → Option α → Bool
  | none, none => true
  | some a, some a' => same a a'
  | _, _ => false

def Length.same (l l' : Length) : Bool := l.value.same l'.value && l.unit = l'.unit

def Seconds.same (t t' : Seconds) : Bool := t.value.same t'.value

def Degrees.same (a a' : Degrees) : Bool := a.value.same a'.value

def Timing.same (t t' : Timing) : Bool := t.duration.same t'.duration && t.delay.same t'.delay && t.easing = t'.easing

namespace Change

/-- The same kind of change, of the same values. -/
def same : Change → Change → Bool
  | .enter axis offset scale, .enter axis' offset' scale' =>
    axis = axis' && offset.same offset' && sameOrMissing Binary32.same scale scale'
  | .transform x y skew scale, .transform x' y' skew' scale' =>
    sameOrMissing Length.same x x' && sameOrMissing Length.same y y' && sameOrMissing Degrees.same skew skew'
      && sameOrMissing Binary32.same scale scale'
  | _, _ => false

/-- The factor that an element is scaled by. -/
def scale : Change → Option Binary32
  | .enter _ _ scale => scale
  | .transform _ _ _ scale => scale

end Change

def Animation.same (a a' : Animation) : Bool := a.change.same a'.change && a.timing.same a'.timing

/-! ## What is written for the same values -/

namespace Binary32

theorem eq_or_zeros_of_same {x y : Binary32} (h : x.same y = true) : x = y ∨ x.isZero = true ∧ y.isZero = true := by
  simpa [same] using h

theorem rank_eq_of_same {x y : Binary32} (h : x.same y = true) : x.rank = y.rank := by
  rcases eq_or_zeros_of_same h with rfl | ⟨hx, hy⟩
  · rfl
  · simp only [isZero, beq_iff_eq] at hx hy
    exact Fin.ext (hx.trans hy.symm)

/-- Without the signs of zeros the same values are one. -/
theorem plainZero_eq_of_same {x y : Binary32} (h : x.same y = true) : x.plainZero = y.plainZero := by
  have hrank := rank_eq_of_same h
  rcases eq_or_zeros_of_same h with rfl | ⟨hx, hy⟩
  · rfl
  · rw [plainZero, plainZero, if_pos hx, if_pos hy, hrank]

/-- **The same values have the same text exactly if they have the same sign.** -/
theorem text_eq_iff_of_same {x y : Binary32} (h : x.same y = true) : x.text = y.text ↔ x = y := by
  refine ⟨fun htext => ?_, fun heq => by rw [heq]⟩
  have hrank := rank_eq_of_same h
  have hmagnitude : x.magnitude = y.magnitude := by rw [magnitude, magnitude, isFinite, isFinite, hrank]
  have hchars := congrArg String.toList htext
  rw [text, text, String.toList_ofList, String.toList_ofList, hmagnitude] at hchars
  obtain ⟨sx, rx⟩ := x
  obtain ⟨sy, ry⟩ := y
  obtain rfl : rx = ry := hrank
  -- a sign makes a text longer
  have hlength := congrArg List.length hchars
  cases sx <;> cases sy <;> simp at hlength ⊢

end Binary32

namespace Animation

theorem length_css_eq_of_same {l l' : Length} (h : l.same l' = true) : l.css = l'.css := by
  simp only [Length.same, Bool.and_eq_true, decide_eq_true_eq] at h
  rw [Length.css, Length.css, Binary32.plainZero_eq_of_same h.1, h.2]

theorem degrees_css_eq_of_same {a a' : Degrees} (h : a.same a' = true) : a.css = a'.css := by
  rw [Degrees.css, Degrees.css, Binary32.plainZero_eq_of_same h]

theorem seconds_css_eq_iff_of_same {t t' : Seconds} (h : t.same t' = true) : t.css = t'.css ↔ t = t' := by
  obtain ⟨x⟩ := t
  obtain ⟨x'⟩ := t'
  rw [Seconds.css, Seconds.css, String.append_left_inj, Binary32.text_eq_iff_of_same h, Seconds.mk.injEq]

/-- What is written of values that may be missing is the same if it is for those that are there. -/
theorem map_eq_of_same {α : Type} {same : α → α → Bool} {css : α → String}
    (hcss : ∀ a a', same a a' = true → css a = css a') :
    ∀ {v v' : Option α}, sameOrMissing same v v' = true → v.map css = v'.map css
  | none, none, _ => rfl
  | some a, some a', h => by rw [Option.map_some, Option.map_some, hcss a a' h]
  | none, some _, h => by cases h
  | some _, none, h => by cases h

theorem factor_text_eq_iff_of_same : ∀ {scale scale' : Option Binary32},
    sameOrMissing Binary32.same scale scale' = true →
      (scale.map Binary32.text = scale'.map Binary32.text ↔ scale = scale')
  | none, none, _ => by simp
  | some x, some x', h => by
    rw [Option.map_some, Option.map_some, Option.some.injEq, Option.some.injEq, Binary32.text_eq_iff_of_same h]
  | none, some _, h => by cases h
  | some _, none, h => by cases h

/-- A part of a key is determined by what is written of its value. -/
theorem part_eq_of_map {α : Type} {label : String} {css : α → String} {v v' : Option α} (h : v.map css = v'.map css) :
    part label css v = part label css v' := by
  cases v <;> cases v' <;> simp_all [part]

theorem name_eq_iff_class (r r' : Request) :
    r.name = r'.name ↔ Stylesheet.classOf r.key.toList = Stylesheet.classOf r'.key.toList := by
  rw [Request.name, Request.name, ← String.toList_inj, Stylesheet.toList_classKey, Stylesheet.toList_classKey]

/-! ## The classes of the same values -/

/-- **The class for the place** tells a factor of zero with a sign from one without. -/
theorem place_name_eq_iff_of_same {c c' : Change} (h : c.same c' = true) :
    (place c).name = (place c').name ↔ c.scale = c'.scale := by
  rw [name_eq_iff_class]
  cases c with
  | enter axis offset scale =>
    cases c' with
    | transform => cases h
    | enter axis' offset' scale' =>
      simp only [Change.same, Bool.and_eq_true, decide_eq_true_eq] at h
      obtain ⟨⟨rfl, hoffset⟩, hscale⟩ := h
      rw [show (place (.enter axis offset scale)).key = placeKey (.enter axis offset scale) from rfl,
        show (place (.enter axis offset' scale')).key = placeKey (.enter axis offset' scale') from rfl,
        classOf_placeKey_enter, classOf_placeKey_enter, length_css_eq_of_same hoffset,
        Change.scale, Change.scale, ← factor_text_eq_iff_of_same hscale]
      refine ⟨fun heq => scale_inj ?_, fun heq => by rw [part_eq_of_map heq]⟩
      have heq := List.append_cancel_left (List.append_cancel_left heq)
      exact List.append_cancel_left (List.append_cancel_left (List.cons.inj heq).2)
  | transform x y skew scale =>
    cases c' with
    | enter => cases h
    | transform x' y' skew' scale' =>
      simp only [Change.same, Bool.and_eq_true] at h
      obtain ⟨⟨⟨hx, hy⟩, hskew⟩, hscale⟩ := h
      have hlength := fun l l' => @length_css_eq_of_same l l'
      have hangle := fun b b' => @degrees_css_eq_of_same b b'
      rw [show (place (.transform x y skew scale)).key = placeKey (.transform x y skew scale) from rfl,
        show (place (.transform x' y' skew' scale')).key = placeKey (.transform x' y' skew' scale') from rfl,
        classOf_placeKey_transform, classOf_placeKey_transform,
        part_eq_of_map (map_eq_of_same hangle hskew),
        part_eq_of_map (map_eq_of_same hlength hx), part_eq_of_map (map_eq_of_same hlength hy),
        Change.scale, Change.scale, ← factor_text_eq_iff_of_same hscale]
      refine ⟨fun heq => scale_inj ?_, fun heq => by rw [part_eq_of_map heq]⟩
      have heq := List.append_cancel_left (List.append_cancel_left heq)
      exact List.append_cancel_left (List.append_cancel_left heq)

theorem isEntry_eq_of_same {c c' : Change} (h : c.same c' = true) : isEntry c = isEntry c' := by
  cases c <;> cases c' <;> first | rfl | cases h

/-- **The class for the transition** tells a time of zero with a sign from one without. -/
theorem transition_name_eq_iff_of_same {a a' : Animation} (h : a.same a' = true) :
    a.transition.name = a'.transition.name ↔
      a.timing.duration = a'.timing.duration ∧ a.timing.delay = a'.timing.delay := by
  simp only [same, Timing.same, Bool.and_eq_true, decide_eq_true_eq] at h
  obtain ⟨hchange, ⟨hduration, hdelay⟩, heasing⟩ := h
  rw [name_eq_iff_class, classOf_transition, classOf_transition, isEntry_eq_of_same hchange,
    ← seconds_css_eq_iff_of_same hduration, ← seconds_css_eq_iff_of_same hdelay]
  constructor
  · intro heq
    obtain ⟨hd, -, hl⟩ := timing_parts_eq (List.append_cancel_left (List.append_cancel_left heq))
    exact ⟨hd, hl⟩
  · rintro ⟨hd, hl⟩
    rw [Timing.css, Timing.css, hd, hl, heasing]

/-- **Animations of the same values share their classes exactly if no zero in them differs in its sign.**  Those that
count are the duration and the delay for the class of the transition, and the factor for the class of the place; an
offset, a coordinate or an angle of zero is written alike with and without a sign. -/
theorem same_values_share_classes {a a' : Animation} (h : a.same a' = true) :
    (a.transition.name = a'.transition.name ↔
      a.timing.duration = a'.timing.duration ∧ a.timing.delay = a'.timing.delay) ∧
    ((place a.change).name = (place a'.change).name ↔ a.change.scale = a'.change.scale) := by
  have hchange := h
  rw [same, Bool.and_eq_true] at hchange
  exact ⟨transition_name_eq_iff_of_same h, place_name_eq_iff_of_same hchange.1⟩

/-- Two entries of the same values, from two sides over a distance of zero: they share the class for the place.  The
second takes a negative zero of seconds, and has a class of its own for the transition.  Two transforms that shrink to
nothing, one of them by a little too much: a class of its own for the place. -/
theorem same_values_share_classes_zeros :
    let left := enter (.parse "enter left move 0px over 0s") {}
    let right := enter (.parse "enter right move 0px over -0s") {}
    let gone := transform (.parse "transform scale -100") {}
    let beyond := transform (.parse "transform scale -100.001") {}
    left.same right = true ∧ gone.same beyond = true ∧
      (place left.change).name = (place right.change).name ∧ left.transition.name ≠ right.transition.name ∧
      gone.transition.name = beyond.transition.name ∧ (place gone.change).name ≠ (place beyond.change).name := by
  intro left right gone beyond
  have hentries : left.same right = true := by decide +kernel
  have htransforms : gone.same beyond = true := by decide +kernel
  obtain ⟨hmoves, hplaces⟩ := same_values_share_classes hentries
  obtain ⟨htransitions, hscales⟩ := same_values_share_classes htransforms
  refine ⟨hentries, htransforms, hplaces.2 (by decide +kernel), fun h => ?_, htransitions.2 (by decide +kernel),
    fun h => ?_⟩
  · exact absurd (hmoves.1 h).1 (by decide +kernel)
  · exact absurd (hscales.1 h) (by decide +kernel)

end Animation
end Stagecraft
