import Stagecraft.Proofs.Motion.Sound
import Stagecraft.Style.Animation
/-!
# Directions are signs

A side is an axis and a sign.  A transform takes for each axis the last distance that a move gives for it, and a motion that
is turned round, with its distances negated, is the same motion.
-/
namespace Stagecraft

/-- Whether a move has a side on the horizontal or the vertical axis, and a distance. -/
def Move.isOn (vertical : Bool) (v : Move) : Bool :=
  (v.side.any fun side => side.isVertical == vertical) && v.distance.isSome

/-! ## Turning round -/

/-- A move with a side goes to the other side, over the negated distance; a move without one stays as it is. -/
def Move.mirrored (v : Move) : Move :=
  match v.side with
  | some side => ⟨some side.opposite, v.distance.map Length.neg⟩
  | none => v

/-- The other side and the negated distance, each where it is given. -/
def Move.flipped (v : Move) : Move := ⟨v.side.map Side.opposite, v.distance.map Length.neg⟩

def Twist.mirrored (t : Twist) : Twist := ⟨t.side.opposite, t.angle.neg⟩

/-- The motion with each sided move and the twist turned round. -/
def Motion.mirrored (m : Motion) : Motion :=
  { m with moves := m.moves.map Move.mirrored, twist := m.twist.map Twist.mirrored }

/-- The motion with every side turned round and every distance negated. -/
def Motion.flipped (m : Motion) : Motion :=
  { m with enter := m.enter.map Side.opposite, moves := m.moves.map Move.flipped }

namespace Motion

theorem distance_flipped (m : Motion) : m.flipped.distance = m.distance.map Length.neg := by
  rw [distance, distance, flipped, ← List.map_reverse, List.findSome?_map, List.map_findSome?]
  rfl

theorem moveSide_flipped (m : Motion) : m.flipped.moveSide = m.moveSide.map Side.opposite := by
  rw [moveSide, moveSide, flipped, ← List.map_reverse, List.findSome?_map, List.map_findSome?]
  rfl

end Motion

theorem Length.neg_neg (l : Length) : l.neg.neg = l := by
  rw [neg, neg, Binary32.neg_neg]

theorem Degrees.neg_neg (a : Degrees) : a.neg.neg = a := by
  rw [neg, neg, Binary32.neg_neg]

/-- A number has the text of its negation exactly if it is a zero, once a zero is written without its sign. -/
theorem Binary32.plainZero_neg_text_iff (x : Binary32) :
    x.neg.plainZero.text = x.plainZero.text ↔ x.isZero = true := by
  cases hzero : x.isZero with
  | true =>
    have hneg : x.neg.isZero = true := hzero
    rw [plainZero, plainZero, if_pos hneg, if_pos hzero]
    exact iff_of_true rfl rfl
  | false =>
    have hneg : x.neg.isZero = false := hzero
    rw [plainZero, plainZero, hneg, hzero, if_neg Bool.false_ne_true, if_neg Bool.false_ne_true]
    refine iff_of_false (fun htext => ?_) Bool.false_ne_true
    -- one of the two has a sign in front of the same digits
    have hlength := congrArg (fun s => s.toList.length) htext
    have hmagnitude : x.neg.magnitude = x.magnitude := rfl
    simp only [text, String.toList_ofList, hmagnitude] at hlength
    obtain ⟨negative, rank⟩ := x
    cases negative <;> simp [neg] at hlength

namespace Animation

/-! ## Coordinates -/

theorem signed_opposite (side : Side) (l : Length) : signed side.opposite l.neg = signed side l := by
  cases side <;> first | rfl | exact Length.neg_neg l

/-- A distance is negated for the left and the top. -/
theorem signed_eq (side : Side) (l : Length) : signed side l = if side = .left ∨ side = .top then l.neg else l := by
  cases side <;> rfl

theorem coordinate?_eq_none {vertical : Bool} {v : Move} (h : v.isOn vertical = false) :
    coordinate? vertical v = none := by
  obtain ⟨side, distance⟩ := v
  cases side with
  | none => rfl
  | some side =>
    cases distance with
    | none => rfl
    | some l =>
      simp only [Move.isOn, Option.any_some, Option.isSome_some, Bool.and_true] at h
      simp only [coordinate?, h, if_neg Bool.false_ne_true]

theorem coordinate?_mirrored (vertical : Bool) (v : Move) : coordinate? vertical v.mirrored = coordinate? vertical v := by
  obtain ⟨side, distance⟩ := v
  cases side with
  | none => rfl
  | some side =>
    cases distance with
    | none => rfl
    | some l =>
      simp only [Move.mirrored, coordinate?, Option.map_some, signed_opposite, Side.isVertical_opposite]

/-- The moves behind one that sets no coordinate on an axis leave what it has. -/
theorem translation_append {vertical : Bool} {before after : List Move}
    (h : ∀ v ∈ after, coordinate? vertical v = none) :
    translation vertical (before ++ after) = translation vertical before := by
  rw [translation, List.reverse_append, List.findSome?_append, List.findSome?_eq_none_iff.2, Option.none_or]
  · rfl
  · exact fun v hv => h v (List.mem_reverse.1 hv)

/-- A move that sets one overrides all before it. -/
theorem translation_concat {vertical : Bool} {before : List Move} {v : Move} {l : Length}
    (h : coordinate? vertical v = some l) : translation vertical (before ++ [v]) = some l := by
  rw [translation, List.reverse_concat, List.findSome?_cons, h]

theorem translation_mirrored (vertical : Bool) (vs : List Move) :
    translation vertical (vs.map Move.mirrored) = translation vertical vs := by
  rw [translation, ← List.map_reverse, List.findSome?_map]
  exact congrArg (fun f => vs.reverse.findSome? f) (funext (coordinate?_mirrored vertical))

end Animation

/-- The coordinate that a transform sets on the horizontal or the vertical axis. -/
def Change.coordinate (vertical : Bool) : Change → Option Length
  | .enter .. => none
  | .transform x y _ _ => if vertical then y else x

namespace Animation

theorem coordinate_transform (vertical : Bool) (m : Motion) (settings : Settings) :
    (transform m settings).change.coordinate vertical = translation vertical m.moves := by
  cases vertical <;> rfl

/-! ## Twists -/

theorem skew_mirrored_of_horizontal {t : Twist} (h : t.side.isVertical = false) : skew t.mirrored = skew t := by
  obtain ⟨side, angle⟩ := t
  cases side with
  | left => exact Degrees.neg_neg angle
  | right => rfl
  | top => cases h
  | bottom => cases h

theorem skew_mirrored_of_vertical {t : Twist} (h : t.side.isVertical = true) : skew t.mirrored = (skew t).neg := by
  obtain ⟨side, angle⟩ := t
  cases side with
  | left => cases h
  | right => cases h
  | top => rfl
  | bottom => rfl

theorem skew_mirrored_css_iff (t : Twist) :
    (skew t.mirrored).css = (skew t).css ↔ (t.side.isVertical = true → t.angle.value.isZero = true) := by
  cases h : t.side.isVertical with
  | false => exact iff_of_true (by rw [skew_mirrored_of_horizontal h]) nofun
  | true =>
    have hskew : skew t = t.angle := by
      rw [skew, if_neg]
      intro hside
      rw [hside] at h
      cases h
    rw [skew_mirrored_of_vertical h, hskew, Degrees.css, Degrees.css, String.append_left_inj, Degrees.neg,
      Binary32.plainZero_neg_text_iff]
    exact ⟨fun hzero _ => hzero, fun hzero => hzero rfl⟩

/-- A skew stands in a rule by its text only. -/
theorem place_skew_iff {x y : Option Length} {skew skew' : Degrees} {scale : Option Binary32} :
    place (.transform x y (some skew') scale) = place (.transform x y (some skew) scale) ↔ skew'.css = skew.css := by
  constructor
  · intro h
    have hkey : placeKey (.transform x y (some skew') scale) = placeKey (.transform x y (some skew) scale) :=
      congrArg Request.key h
    simp only [placeKey, Option.elim_some, String.append_left_inj, String.append_right_inj] at hkey
    exact hkey
  · intro h
    have hkey : placeKey (.transform x y (some skew') scale) = placeKey (.transform x y (some skew) scale) := by
      simp only [placeKey, Option.elim_some, h]
    have hfunctions : functions (.transform x y (some skew') scale) = functions (.transform x y (some skew) scale) := by
      simp only [functions, Option.map_some, h]
    rw [place, place, hkey, hfunctions]

/-! ## Motions turned round -/

/-- **A transform and its mirror image have the same rules** unless it is twisted to the top or to the bottom: such a twist
skews by its angle whichever of the two it goes to. -/
theorem requests_mirrored_iff (m : Motion) (settings : Settings) :
    (transform m.mirrored settings).requests = (transform m settings).requests ↔
      ∀ t ∈ m.twist, t.side.isVertical = true → t.angle.value.isZero = true := by
  have hplace : (transform m.mirrored settings).requests = (transform m settings).requests ↔
      place (transform m.mirrored settings).change = place (transform m settings).change := by
    rw [requests, requests, List.cons.injEq, List.cons.injEq]
    exact ⟨fun h => h.2.1, fun h => ⟨rfl, h, rfl⟩⟩
  rw [hplace]
  simp only [transform, Motion.mirrored, translation_mirrored]
  cases m.twist with
  | none => exact iff_of_true rfl nofun
  | some t =>
    simp only [Option.map_some, Option.mem_def, Option.some.injEq, forall_eq']
    exact place_skew_iff.trans (skew_mirrored_css_iff t)

/-- **An entry turned round is the same entry**, if it has a side and a distance of its own. -/
theorem enter_flipped {m : Motion} (settings : Settings) (hside : (m.enter.or m.moveSide).isSome = true)
    (hdistance : m.distance.isSome = true) : enter m.flipped settings = enter m settings := by
  obtain ⟨side, hside⟩ := Option.isSome_iff_exists.1 hside
  obtain ⟨l, hl⟩ := Option.isSome_iff_exists.1 hdistance
  have hturned : m.flipped.enter.or m.flipped.moveSide = some side.opposite := by
    rw [Motion.moveSide_flipped, show m.flipped.enter = m.enter.map Side.opposite from rfl, ← Option.map_or, hside,
      Option.map_some]
  have haxis : Axis.ofSide side.opposite = Axis.ofSide side := by
    rw [Axis.ofSide, Side.isVertical_opposite, Axis.ofSide]
  rw [enter, enter, hturned, hside, Motion.distance_flipped, hl]
  simp only [Option.map_some, Option.getD_some, signed_opposite, haxis]
  rfl

/-- **A direction is only a sign.**  On each axis a transform has the last distance that a move gives for it, negated for the
left and the top, whatever other moves there are; and nothing if no move gives one.  Its mirror image has the same rules
exactly if it is not twisted to the top or to the bottom by more than nothing, and no text describes such a twist.  An entry
with a side and a distance is the same with every side turned round and every distance negated. -/
theorem directions_are_signs (m : Motion) (settings : Settings) :
    (∀ (before after : List Move) side distance, m.moves = before ++ ⟨some side, some distance⟩ :: after →
      (∀ v ∈ after, v.isOn side.isVertical = false) →
        (transform m settings).change.coordinate side.isVertical =
          some (if side = .left ∨ side = .top then distance.neg else distance)) ∧
    (∀ vertical, (∀ v ∈ m.moves, v.isOn vertical = false) →
      (transform m settings).change.coordinate vertical = none) ∧
    ((transform m.mirrored settings).requests = (transform m settings).requests ↔
      ∀ t ∈ m.twist, t.side.isVertical = true → t.angle.value.isZero = true) ∧
    (∀ src, ∀ t ∈ (Motion.parse src).twist, t.side.isVertical = false) ∧
    ((m.enter.or m.moveSide).isSome = true → m.distance.isSome = true →
      enter m.flipped settings = enter m settings) := by
  refine ⟨?_, ?_, requests_mirrored_iff m settings, fun src => (Motion.sound_parse src).turn, enter_flipped settings⟩
  · intro before after side distance hmoves hafter
    have hset : coordinate? side.isVertical ⟨some side, some distance⟩ = some (signed side distance) := by
      simp only [coordinate?, beq_self_eq_true, ↓reduceIte]
    rw [coordinate_transform, hmoves, List.append_cons, translation_append fun v hv => coordinate?_eq_none (hafter v hv),
      translation_concat hset, signed_eq]
  · intro vertical h
    rw [coordinate_transform, ← List.nil_append m.moves, translation_append fun v hv => coordinate?_eq_none (h v hv)]
    rfl

/-- A motion with moves of all kinds, and an entry over a distance of zero. -/
theorem directions_are_signs_turned :
    let length (n : Nat) : Length := ⟨.ofRatio false n 1, .px⟩
    let m : Motion :=
      { moves := [⟨some .bottom, some (length 1)⟩, ⟨some .left, some (length 40)⟩, ⟨none, some (length 3)⟩,
          ⟨some .right, none⟩, ⟨some .top, some (length 2)⟩],
        twist := some ⟨.right, ⟨.ofRatio false 15 1⟩⟩ }
    let away : Motion := { enter := some .bottom, moves := [⟨none, some (length 0)⟩, ⟨some .left, none⟩] }
    (transform m {}).change.coordinate false = some (length 40).neg ∧
    (transform m {}).change.coordinate true = some (length 2).neg ∧
    (transform away {}).change.coordinate true = none ∧
    (transform m.mirrored {}).requests = (transform m {}).requests ∧ enter away.flipped {} = enter away {} := by
  intro length m away
  have hm := directions_are_signs m {}
  have haway := directions_are_signs away {}
  have hturn : ∀ t ∈ m.twist, t.side.isVertical = true → t.angle.value.isZero = true := by
    intro t ht hvertical
    cases ht
    cases hvertical
  refine ⟨?_, ?_, haway.2.1 true ?_, hm.2.2.1.2 hturn, haway.2.2.2.2 rfl rfl⟩
  · exact hm.1 (m.moves.take 1) (m.moves.drop 2) .left (length 40) rfl (by simp [m, Move.isOn, Side.isVertical])
  · exact hm.1 (m.moves.take 4) [] .top (length 2) rfl nofun
  · simp [away, Move.isOn, Side.isVertical]

end Animation
end Stagecraft
