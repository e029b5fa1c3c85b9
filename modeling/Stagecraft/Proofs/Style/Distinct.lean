import Stagecraft.Proofs.Style.ClassName
import Stagecraft.Style.Animation
/-!
# Classes of animations are distinct

The keys of animations are labels, numbers and units in a fixed order, so a class name of theirs reads back: two rules
that animations ask for share a class only if they have the same body.
-/
namespace Stagecraft
namespace Animation

open Stylesheet (classOf classOf_append classOf_number_inj run_inj Stops)

/-! ## Values with a unit -/

/-- Whether no letter comes first. -/
def Ends (r : List Char) : Prop := ∀ c ∈ r.head?, c.isAlpha = false

theorem ends_nil : Ends [] := fun c hc => by cases hc

theorem ends_underscore (r : List Char) : Ends ('_' :: r) := fun c hc => by
  obtain rfl : '_' = c := by simpa using hc
  decide

/-- A number with a unit that never varies. -/
theorem classOf_quantity_inj (unit : String) (hu : ∀ r, Stops (classOf unit.toList ++ r)) (x x' : Binary32)
    {r r' : List Char}
    (h : classOf (x.text.toList ++ unit.toList) ++ r = classOf (x'.text.toList ++ unit.toList) ++ r') :
    x.text = x'.text ∧ r = r' := by
  rw [classOf_append, classOf_append, List.append_assoc, List.append_assoc] at h
  obtain ⟨htext, hrest⟩ := classOf_number_inj x.written_text x'.written_text (hu r) (hu r') h
  exact ⟨String.toList_injective htext, List.append_cancel_left hrest⟩

theorem stops_cons {c : Char} (hc : c.isAlpha = true) (r : List Char) : Stops (c :: r) := fun d hd => by
  obtain rfl : c = d := by simpa using hd
  exact hc

theorem classOf_seconds_inj (t t' : Seconds) {r r' : List Char}
    (h : classOf t.css.toList ++ r = classOf t'.css.toList ++ r') : t.css = t'.css ∧ r = r' := by
  simp only [Seconds.css, String.toList_append] at h ⊢
  obtain ⟨htext, rfl⟩ := classOf_quantity_inj "s" (fun r => stops_cons (by decide) _) t.value t'.value h
  exact ⟨by rw [htext], rfl⟩

theorem classOf_degrees_inj (a a' : Degrees) {r r' : List Char}
    (h : classOf a.css.toList ++ r = classOf a'.css.toList ++ r') : a.css = a'.css ∧ r = r' := by
  simp only [Degrees.css, String.toList_append] at h ⊢
  obtain ⟨htext, rfl⟩ :=
    classOf_quantity_inj "deg" (fun r => stops_cons (by decide) _) a.value.plainZero a'.value.plainZero h
  exact ⟨by rw [htext], rfl⟩

theorem isAlpha_of_mem_suffix (u : LengthUnit) : ∀ c ∈ classOf u.suffix.toList, c.isAlpha = true := by
  have h : (classOf u.suffix.toList).all Char.isAlpha = true := by cases u <;> decide
  exact List.all_eq_true.1 h

theorem stops_suffix (u : LengthUnit) (r : List Char) : Stops (classOf u.suffix.toList ++ r) := by
  cases u <;> exact stops_cons (by decide) _

theorem classOf_suffix_inj {u u' : LengthUnit} (h : classOf u.suffix.toList = classOf u'.suffix.toList) : u = u' := by
  revert h
  cases u <;> cases u' <;> decide

/-- A length is read up to where its unit ends. -/
theorem classOf_length_inj (l l' : Length) {r r' : List Char} (hr : Ends r) (hr' : Ends r')
    (h : classOf l.css.toList ++ r = classOf l'.css.toList ++ r') : l.css = l'.css ∧ r = r' := by
  simp only [Length.css, String.toList_append, classOf_append, List.append_assoc] at h ⊢
  obtain ⟨htext, hrest⟩ := classOf_number_inj (Binary32.written_text _) (Binary32.written_text _)
    (stops_suffix l.unit r) (stops_suffix l'.unit r') h
  obtain ⟨hsuffix, rfl⟩ := run_inj (isAlpha_of_mem_suffix l.unit) (isAlpha_of_mem_suffix l'.unit) hr hr' hrest
  rw [String.toList_injective htext, classOf_suffix_inj hsuffix]
  exact ⟨rfl, rfl⟩

/-- A factor is the last thing in a key. -/
theorem classOf_factor_inj (x x' : Binary32) (h : classOf x.text.toList ++ [] = classOf x'.text.toList ++ []) :
    x.text = x'.text ∧ ([] : List Char) = [] :=
  ⟨String.toList_injective (classOf_number_inj x.written_text x'.written_text (fun c hc => by cases hc)
    (fun c hc => by cases hc) h).1, rfl⟩

/-! ## Parts of a key that may be missing -/

/-- The class of a value behind its label, or nothing. -/
def part {α : Type} (label : String) (css : α → String) (v : Option α) : List Char :=
  classOf (v.elim "" fun a => label ++ css a).toList

/-- **A part that may be missing reads back**, if what follows it does not begin with its label. -/
theorem part_inj {α : Type} {label : String} {css : α → String} {v v' : Option α} {r r' : List Char}
    (hr : ¬ classOf label.toList <+: r) (hr' : ¬ classOf label.toList <+: r')
    (hvalue : ∀ a a', classOf (css a).toList ++ r = classOf (css a').toList ++ r' → css a = css a' ∧ r = r')
    (h : part label css v ++ r = part label css v' ++ r') : v.map css = v'.map css ∧ r = r' := by
  have hsome : ∀ a, part label css (some a) = classOf label.toList ++ classOf (css a).toList := fun a => by
    rw [part, Option.elim_some, String.toList_append, classOf_append]
  have hnone : part label css none = [] := rfl
  cases v with
  | none =>
    cases v' with
    | none => exact ⟨rfl, h⟩
    | some a' =>
      rw [hnone, hsome, List.nil_append, List.append_assoc] at h
      exact absurd ⟨_, h.symm⟩ hr
  | some a =>
    cases v' with
    | none =>
      rw [hnone, hsome, List.nil_append, List.append_assoc] at h
      exact absurd ⟨_, h⟩ hr'
    | some a' =>
      rw [hsome, hsome, List.append_assoc, List.append_assoc] at h
      obtain ⟨hcss, hrest⟩ := hvalue a a' (List.append_cancel_left h)
      exact ⟨by rw [Option.map_some, Option.map_some, hcss], hrest⟩

theorem not_prefix_part {α : Type} {label other : String} {css : α → String} {v : Option α} {r : List Char}
    (hother : ∀ s, ¬ classOf label.toList <+: classOf other.toList ++ s) (hr : ¬ classOf label.toList <+: r) :
    ¬ classOf label.toList <+: part other css v ++ r := by
  cases v with
  | none => exact hr
  | some a =>
    rw [part, Option.elim_some, String.toList_append, classOf_append, List.append_assoc]
    exact hother _

theorem ends_part {α : Type} {label : String} {css : α → String} {v : Option α} {r : List Char}
    (hlabel : ∀ s, Ends (classOf label.toList ++ s)) (hr : Ends r) : Ends (part label css v ++ r) := by
  cases v with
  | none => exact hr
  | some a =>
    rw [part, Option.elim_some, String.toList_append, classOf_append, List.append_assoc]
    exact hlabel _

/-! ## Places -/

theorem classOf_placeKey_enter (axis : Axis) (offset : Length) (scale : Option Binary32) :
    classOf (placeKey (.enter axis offset scale)).toList =
      classOf "translate".toList ++ (classOf axis.letter.toList ++ '_' ::
        (classOf offset.css.toList ++ (classOf "_hidden".toList ++ (part "_scale" Binary32.text scale ++ [])))) := by
  have hblank : classOf "_".toList = ['_'] := by decide
  show classOf ("translate" ++ axis.letter ++ "_" ++ offset.css ++ "_hidden" ++
    (scale.elim "" fun s => "_scale" ++ s.text)).toList = _
  simp only [part, String.toList_append, classOf_append, List.append_assoc, List.append_nil, hblank,
    List.singleton_append]

theorem classOf_placeKey_transform (x y : Option Length) (skew : Option Degrees) (scale : Option Binary32) :
    classOf (placeKey (.transform x y skew scale)).toList =
      classOf "transform".toList ++ (part "_skew" Degrees.css skew ++ (part "_x" Length.css x ++
        (part "_y" Length.css y ++ (part "_scale" Binary32.text scale ++ [])))) := by
  show classOf ("transform" ++ (skew.elim "" fun a => "_skew" ++ a.css) ++ (x.elim "" fun l => "_x" ++ l.css) ++
    (y.elim "" fun l => "_y" ++ l.css) ++ (scale.elim "" fun s => "_scale" ++ s.text)).toList = _
  simp only [part, String.toList_append, classOf_append, List.append_assoc, List.append_nil]

theorem not_scale_prefix_nil : ¬ classOf "_scale".toList <+: [] := by decide

/-- A label begins differently from every label behind it. -/
theorem not_prefix_y (scale : Option Binary32) :
    ¬ classOf "_y".toList <+: part "_scale" Binary32.text scale ++ [] :=
  not_prefix_part (fun s h => by simp [classOf, Stylesheet.classChars] at h) (by decide)

theorem not_prefix_x (y : Option Length) (scale : Option Binary32) :
    ¬ classOf "_x".toList <+: part "_y" Length.css y ++ (part "_scale" Binary32.text scale ++ []) :=
  not_prefix_part (fun s h => by simp [classOf, Stylesheet.classChars] at h)
    (not_prefix_part (fun s h => by simp [classOf, Stylesheet.classChars] at h) (by decide))

theorem not_prefix_skew (x y : Option Length) (scale : Option Binary32) :
    ¬ classOf "_skew".toList <+:
      part "_x" Length.css x ++ (part "_y" Length.css y ++ (part "_scale" Binary32.text scale ++ [])) :=
  not_prefix_part (fun s h => by simp [classOf, Stylesheet.classChars] at h)
    (not_prefix_part (fun s h => by simp [classOf, Stylesheet.classChars] at h)
      (not_prefix_part (fun s h => by simp [classOf, Stylesheet.classChars] at h) (by decide)))

theorem ends_scale (scale : Option Binary32) : Ends (part "_scale" Binary32.text scale ++ []) :=
  ends_part (fun _ => ends_underscore _) ends_nil

theorem ends_y (y : Option Length) (scale : Option Binary32) :
    Ends (part "_y" Length.css y ++ (part "_scale" Binary32.text scale ++ [])) :=
  ends_part (fun _ => ends_underscore _) (ends_scale scale)

theorem ends_hidden (r : List Char) : Ends (classOf "_hidden".toList ++ r) := ends_underscore _

theorem scale_inj {scale scale' : Option Binary32}
    (h : part "_scale" Binary32.text scale ++ [] = part "_scale" Binary32.text scale' ++ []) :
    scale.map Binary32.text = scale'.map Binary32.text :=
  (part_inj not_scale_prefix_nil not_scale_prefix_nil classOf_factor_inj h).1

theorem axis_eq_of_class {axis axis' : Axis} {r r' : List Char}
    (h : classOf axis.letter.toList ++ r = classOf axis'.letter.toList ++ r') : axis = axis' ∧ r = r' := by
  have hX : classOf Axis.x.letter.toList = ['X'] := by decide
  have hY : classOf Axis.y.letter.toList = ['Y'] := by decide
  cases axis <;> cases axis' <;> simp only [hX, hY, List.cons_append, List.nil_append, List.cons.injEq] at h
  · exact ⟨rfl, h.2⟩
  · exact absurd h.1 (by decide)
  · exact absurd h.1 (by decide)
  · exact ⟨rfl, h.2⟩

theorem map_eq_map_of_css {α β : Type} {css : α → String} (f : String → β) {v v' : Option α}
    (h : v.map css = v'.map css) : (v.map fun a => f (css a)) = v'.map fun a => f (css a) := by
  have hcomp : ∀ w : Option α, (w.map fun a => f (css a)) = (w.map css).map f := fun w => by
    rw [Option.map_map]
    rfl
  rw [hcomp, hcomp, h]

theorem functions_eq_of_enter {axis axis' : Axis} {offset offset' : Length} {scale scale' : Option Binary32}
    (h : classOf (placeKey (.enter axis offset scale)).toList =
      classOf (placeKey (.enter axis' offset' scale')).toList) :
    functions (.enter axis offset scale) = functions (.enter axis' offset' scale') := by
  rw [classOf_placeKey_enter, classOf_placeKey_enter] at h
  obtain ⟨rfl, hoffset⟩ := axis_eq_of_class (List.append_cancel_left h)
  obtain ⟨hcss, hscale⟩ := classOf_length_inj offset offset' (ends_hidden _) (ends_hidden _) (List.cons.inj hoffset).2
  have hfactor := scale_inj (List.append_cancel_left hscale)
  rw [functions, functions, hcss, map_eq_map_of_css (fun s => "scale(" ++ s ++ ")") hfactor]

theorem functions_eq_of_transform {x x' y y' : Option Length} {skew skew' : Option Degrees}
    {scale scale' : Option Binary32}
    (h : classOf (placeKey (.transform x y skew scale)).toList =
      classOf (placeKey (.transform x' y' skew' scale')).toList) :
    functions (.transform x y skew scale) = functions (.transform x' y' skew' scale') := by
  rw [classOf_placeKey_transform, classOf_placeKey_transform] at h
  obtain ⟨hskew, hrest⟩ := part_inj (not_prefix_skew x y scale) (not_prefix_skew x' y' scale')
    (fun a a' => classOf_degrees_inj a a') (List.append_cancel_left h)
  obtain ⟨hx, hrest⟩ := part_inj (not_prefix_x y scale) (not_prefix_x y' scale')
    (fun l l' => classOf_length_inj l l' (ends_y y scale) (ends_y y' scale')) hrest
  obtain ⟨hy, hrest⟩ := part_inj (not_prefix_y scale) (not_prefix_y scale')
    (fun l l' => classOf_length_inj l l' (ends_scale scale) (ends_scale scale')) hrest
  have hfactor := scale_inj hrest
  rw [functions, functions, map_eq_map_of_css (fun s => "skewX(" ++ s ++ ")") hskew,
    map_eq_map_of_css (fun s => "translateX(" ++ s ++ ")") hx,
    map_eq_map_of_css (fun s => "translateY(" ++ s ++ ")") hy,
    map_eq_map_of_css (fun s => "scale(" ++ s ++ ")") hfactor]

/-- An entry and a transform part ways at the fifth letter. -/
theorem enter_ne_transform {axis : Axis} {offset : Length} {scale scale' : Option Binary32} {x y : Option Length}
    {skew : Option Degrees} :
    classOf (placeKey (.enter axis offset scale)).toList ≠ classOf (placeKey (.transform x y skew scale')).toList := by
  rw [classOf_placeKey_enter, classOf_placeKey_transform]
  intro h
  have htranslate : classOf "translate".toList = 't' :: 'r' :: 'a' :: 'n' :: 's' :: 'l' :: ['a', 't', 'e'] := by decide
  have htransform : classOf "transform".toList = 't' :: 'r' :: 'a' :: 'n' :: 's' :: 'f' :: ['o', 'r', 'm'] := by decide
  rw [htranslate, htransform] at h
  simp at h

/-- **Places with one class have one rule.** -/
theorem place_body_eq {c c' : Change} (h : (place c).name = (place c').name) : (place c).body = (place c').body := by
  have hclass : classOf (placeKey c).toList = classOf (placeKey c').toList := by
    have := congrArg String.toList h
    rwa [Request.name, Request.name, Stylesheet.toList_classKey, Stylesheet.toList_classKey] at this
  cases c with
  | enter axis offset scale =>
    cases c' with
    | enter axis' offset' scale' => simp only [place, functions_eq_of_enter hclass]
    | transform x y skew scale' => exact absurd hclass enter_ne_transform
  | transform x y skew scale =>
    cases c' with
    | enter axis offset scale' => exact absurd hclass.symm enter_ne_transform
    | transform x' y' skew' scale' => simp only [place, functions_eq_of_transform hclass]

/-! ## Transitions -/

theorem classOf_timing (t : Timing) :
    classOf t.css.toList = classOf t.duration.css.toList ++ '_' :: (classOf t.easing.css.toList ++ '_' ::
      (classOf t.delay.css.toList ++ [])) := by
  simp only [Timing.css, String.toList_append, classOf_append, List.append_assoc, List.append_nil]
  rfl

theorem isAlpha_of_mem_easing (e : Easing) : ∀ c ∈ classOf e.css.toList, c.isAlpha = true := by
  have h : (classOf e.css.toList).all Char.isAlpha = true := by cases e <;> decide
  exact List.all_eq_true.1 h

theorem classOf_easing_inj {e e' : Easing} (h : classOf e.css.toList = classOf e'.css.toList) : e = e' := by
  revert h
  cases e <;> cases e' <;> decide

/-- **A timing in a class reads back**, part by part. -/
theorem timing_parts_eq {t t' : Timing} (h : classOf t.css.toList = classOf t'.css.toList) :
    t.duration.css = t'.duration.css ∧ t.easing = t'.easing ∧ t.delay.css = t'.delay.css := by
  rw [classOf_timing, classOf_timing] at h
  obtain ⟨hduration, hrest⟩ := classOf_seconds_inj t.duration t'.duration h
  obtain ⟨heasing, hrest⟩ := run_inj (isAlpha_of_mem_easing t.easing) (isAlpha_of_mem_easing t'.easing)
    (ends_underscore _) (ends_underscore _) (List.cons.inj hrest).2
  obtain ⟨hdelay, -⟩ := classOf_seconds_inj t.delay t'.delay (List.cons.inj hrest).2
  exact ⟨hduration, classOf_easing_inj heasing, hdelay⟩

theorem timing_css_eq {t t' : Timing} (h : classOf t.css.toList = classOf t'.css.toList) : t.css = t'.css := by
  obtain ⟨hduration, heasing, hdelay⟩ := timing_parts_eq h
  rw [Timing.css, Timing.css, hduration, heasing, hdelay]

/-- Whether an animation is an entry. -/
def isEntry : Change → Bool
  | .enter .. => true
  | .transform .. => false

theorem properties_eq {c c' : Change} (h : isEntry c = isEntry c') : properties c = properties c' := by
  cases c <;> cases c' <;> first | rfl | cases h

theorem classOf_transition (a : Animation) :
    classOf a.transition.key.toList = classOf "_transform_".toList ++
      ((if isEntry a.change then "opacity_".toList else []) ++ classOf a.timing.css.toList) := by
  have hhead : classOf ("_" ++ "_".intercalate (properties a.change) ++ "_").toList =
      classOf "_transform_".toList ++ if isEntry a.change then "opacity_".toList else [] := by
    cases a.change with
    | enter =>
      show classOf ("_" ++ "_".intercalate ["transform", "opacity"] ++ "_").toList =
        classOf "_transform_".toList ++ "opacity_".toList
      decide
    | transform =>
      show classOf ("_" ++ "_".intercalate ["transform"] ++ "_").toList = classOf "_transform_".toList ++ []
      decide
  rw [transition, String.toList_append, classOf_append, hhead, List.append_assoc]

/-- A time does not begin like the name of a property. -/
theorem timing_ne_opacity (t : Timing) (r : List Char) : classOf t.css.toList ≠ "opacity_".toList ++ r := by
  obtain ⟨c, cs, hc, hhead⟩ := Stylesheet.head_classOf_number t.duration.value.written_text
  have ho : "opacity_".toList = 'o' :: ['p', 'a', 'c', 'i', 't', 'y', '_'] := by decide
  rw [classOf_timing, Seconds.css, String.toList_append, classOf_append, hc, ho]
  intro h
  obtain rfl : c = 'o' := (List.cons.inj h).1
  revert hhead
  decide

/-- **Transitions with one class have one rule.** -/
theorem transition_body_eq {a a' : Animation} (h : a.transition.name = a'.transition.name) :
    a.transition.body = a'.transition.body := by
  have hclass : classOf a.transition.key.toList = classOf a'.transition.key.toList := by
    have := congrArg String.toList h
    rwa [Request.name, Request.name, Stylesheet.toList_classKey, Stylesheet.toList_classKey] at this
  rw [classOf_transition, classOf_transition] at hclass
  have hrest := List.append_cancel_left hclass
  have hboth : properties a.change = properties a'.change ∧ a.timing.css = a'.timing.css := by
    cases ha : isEntry a.change <;> cases ha' : isEntry a'.change <;>
      simp only [ha, ha', Bool.false_eq_true, if_true, if_false, List.nil_append] at hrest
    · exact ⟨properties_eq (ha.trans ha'.symm), timing_css_eq hrest⟩
    · exact absurd hrest (timing_ne_opacity _ _)
    · exact absurd hrest.symm (timing_ne_opacity _ _)
    · exact ⟨properties_eq (ha.trans ha'.symm), timing_css_eq (List.append_cancel_left hrest)⟩
  simp only [transition, hboth]

/-! ## All rules -/

/-- A transition has a class that begins with an underscore, and a place one that begins with a letter. -/
theorem transition_name_ne_place (a : Animation) (c : Change) : a.transition.name ≠ (place c).name := by
  intro h
  have hclass : classOf a.transition.key.toList = classOf (placeKey c).toList := by
    have := congrArg String.toList h
    rwa [Request.name, Request.name, Stylesheet.toList_classKey, Stylesheet.toList_classKey] at this
  have h_ : classOf "_transform_".toList = '_' :: classOf "transform_".toList := by decide
  have ht : classOf "translate".toList = 't' :: classOf "ranslate".toList := by decide
  have ht' : classOf "transform".toList = 't' :: classOf "ransform".toList := by decide
  cases c with
  | enter axis offset scale =>
    rw [classOf_transition, classOf_placeKey_enter, h_, ht] at hclass
    exact absurd (List.cons.inj hclass).1 (by decide)
  | transform x y skew scale =>
    rw [classOf_transition, classOf_placeKey_transform, h_, ht'] at hclass
    exact absurd (List.cons.inj hclass).1 (by decide)

/-- **Rules that animations ask for share a class only if they share their body.** -/
theorem body_eq_of_name_eq {a a' : Animation} {r r' : Request} (hr : r ∈ a.requests) (hr' : r' ∈ a'.requests)
    (h : r.name = r'.name) : r.body = r'.body := by
  simp only [requests, List.mem_cons, List.not_mem_nil, or_false] at hr hr'
  rcases hr with rfl | rfl <;> rcases hr' with rfl | rfl
  · exact transition_body_eq h
  · exact absurd h (transition_name_ne_place _ _)
  · exact absurd h.symm (transition_name_ne_place _ _)
  · exact place_body_eq h

end Animation
end Stagecraft
