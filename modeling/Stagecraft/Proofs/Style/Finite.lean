import Stagecraft.Proofs.Motion.Sound
import Stagecraft.Proofs.Style.SameValues
import Stagecraft.Proofs.Style.Spelled
/-!
# Where compiled rules are finite

Every number that a motion text or a setting gives is finite, and it stays so on its way into a rule, but for the factor of
a scaling: to keep four places of it, it is multiplied by ten thousand, and the product of a great power is an infinity.
-/
namespace Stagecraft

/-- Settings whose lengths and times have been read from words. -/
structure Settings.Read (settings : Settings) : Prop where
  defaultDistance : ∃ u, Length.parse? u = some settings.defaultDistance
  enterDuration : ∃ u, Seconds.parse? u = some settings.enterDuration
  transformDuration : ∃ u, Seconds.parse? u = some settings.transformDuration
  delay : ∃ u, Seconds.parse? u = some settings.delay

namespace Binary32

theorem scale_of_infinite {x : Binary32} (h : x.isFinite = false) (num den : Nat) : x.scale num den = x := by
  rw [scale, h, if_neg Bool.false_ne_true]

theorem round_of_infinite {x : Binary32} (h : x.isFinite = false) : x.round = x := by
  rw [round, h, if_neg Bool.false_ne_true]

theorem isFinite_neg (x : Binary32) : x.neg.isFinite = x.isFinite := rfl

/-- What is rounded to four places is finite exactly if its product with ten thousand is. -/
theorem isFinite_fourPlaces (x : Binary32) :
    ((x.scale 10000 1).round.scale 1 10000).isFinite = (x.scale 10000 1).isFinite := by
  cases h : (x.scale 10000 1).isFinite with
  | true => exact isFinite_scale (isFinite_round h) (by decide) (by decide)
  | false => rw [round_of_infinite h, scale_of_infinite h, h]

end Binary32

namespace Animation

open Binary32

/-! ## The factor -/

/-- The greatest power, in percent, with a finite factor. -/
def greatestPower : Binary32 := .ofRatio false 3402823400000000000000000000000000000 1

/-- The next power after the greatest. -/
def nextPower : Binary32 := ⟨false, ⟨greatestPower.rank.val + 1, by decide +kernel⟩⟩

/-- The change of the factor for a power. -/
def deltaOf (power : Binary32) : Binary32 := power.scale hundredth.grainCount unitGrains

theorem isFinite_deltaOf {power : Binary32} (h : power.isFinite = true) : (deltaOf power).isFinite = true :=
  isFinite_scale h (by decide) (by decide +kernel)

theorem rank_deltaOf_mono {p q : Binary32} (h : p.rank.val ≤ q.rank.val) : (deltaOf p).rank.val ≤ (deltaOf q).rank.val :=
  rank_scale_mono (by decide) h

/-- Up to the greatest power the product with ten thousand is finite. -/
theorem isFinite_product {power delta : Binary32} (hpower : power.isFinite = true)
    (hdelta : delta.rank = (deltaOf power).rank) (h : power.rank.val ≤ greatestPower.rank.val) :
    (delta.addOne.scale 10000 1).isFinite = true := by
  have hfinite : delta.isFinite = true := by
    rw [isFinite, hdelta]
    exact isFinite_deltaOf hpower
  have hgrains : delta.grainCount ≤ (deltaOf greatestPower).grainCount := by
    rw [grainCount, hdelta]
    exact grains_mono (rank_deltaOf_mono h)
  let sum := ofRatio false ((deltaOf greatestPower).grainCount + unitGrains) unitGrains
  have hsum : delta.addOne.rank.val ≤ sum.rank.val :=
    Nat.le_trans (rank_addOne_le hfinite)
      (nearestRank_mono (by decide) (by decide) (Nat.mul_le_mul_right _ (Nat.add_le_add_right hgrains _)))
  have hproduct : (sum.scale 10000 1).isFinite = true := by decide +kernel
  exact isFinite_of_rank_le hproduct (rank_scale_mono (by decide) hsum)

/-- From the next power on it is not. -/
theorem not_isFinite_product {power delta : Binary32} (hpower : power.isFinite = true)
    (hdelta : delta.rank = (deltaOf power).rank) (h : greatestPower.rank.val < power.rank.val) :
    (delta.addOne.scale 10000 1).isFinite = false := by
  have hfinite : delta.isFinite = true := by
    rw [isFinite, hdelta]
    exact isFinite_deltaOf hpower
  have hgrains : (deltaOf nextPower).grainCount ≤ delta.grainCount := by
    rw [grainCount, grainCount, hdelta]
    exact grains_mono (rank_deltaOf_mono (Nat.succ_le_of_lt h))
  let difference := ofRatio false ((deltaOf nextPower).grainCount - unitGrains) unitGrains
  have hdifference : difference.rank.val ≤ delta.addOne.rank.val :=
    Nat.le_trans (nearestRank_mono (by decide) (by decide) (Nat.mul_le_mul_right _ (Nat.sub_le_sub_right hgrains _)))
      (le_rank_addOne hfinite)
  have hproduct : (difference.scale 10000 1).isFinite = false := by decide +kernel
  rw [Bool.eq_false_iff]
  intro hcontra
  rw [isFinite_of_rank_le hcontra (rank_scale_mono (by decide) hdifference)] at hproduct
  cases hproduct

/-- **The factor for a power is finite exactly up to the greatest power.** -/
theorem isFinite_scaleFactor_iff {s : Scaling} {x : Binary32} (hs : s.power.isFinite = true)
    (h : scaleFactor s = some x) : x.isFinite = true ↔ s.power.rank ≤ greatestPower.rank := by
  unfold scaleFactor at h
  split at h
  · cases h
  · simp only [Option.some.injEq] at h
    rw [← h, isFinite_fourPlaces]
    -- up and down differ in the sign of the change only
    generalize hdelta : (if s.direction = some ScaleDirection.up then _ else _ : Binary32) = delta
    have hrank : delta.rank = (deltaOf s.power).rank := by
      rw [← hdelta]
      split <;> rfl
    rcases Nat.lt_or_ge greatestPower.rank.val s.power.rank.val with hlt | hle
    · rw [not_isFinite_product hs hrank hlt]
      exact iff_of_false Bool.false_ne_true (Nat.not_le_of_lt hlt)
    · exact iff_of_true (isFinite_product hs hrank hle) hle

/-- Nothing is scaled by a power of zero, and that is no great power. -/
theorem le_greatestPower_of_scaleFactor_none {s : Scaling} (h : scaleFactor s = none) :
    s.power.rank ≤ greatestPower.rank := by
  unfold scaleFactor at h
  split at h
  · rename_i hzero
    rw [isZero, beq_iff_eq] at hzero
    rw [Fin.le_def, hzero]
    exact Nat.zero_le _
  · cases h

/-- A motion without a factor that is not finite is one whose power is not beyond the greatest. -/
theorem factor_isFinite_iff {m : Motion} (hm : m.Sound) :
    (∀ x ∈ m.scaling.bind scaleFactor, x.isFinite = true) ↔
      ∀ s ∈ m.scaling, s.power.rank ≤ greatestPower.rank := by
  cases hscaling : m.scaling with
  | none => exact iff_of_true nofun nofun
  | some s =>
    have hfinite := hm.power s hscaling
    simp only [Option.bind_some, Option.mem_def, Option.some.injEq, forall_eq']
    cases hfactor : scaleFactor s with
    | none => exact iff_of_true nofun (le_greatestPower_of_scaleFactor_none hfactor)
    | some x => simpa using isFinite_scaleFactor_iff hfinite hfactor

/-! ## The other numbers -/

theorem isFinite_signed (side : Side) (l : Length) : (signed side l).value.isFinite = l.value.isFinite := by
  unfold signed
  split <;> rfl

theorem isFinite_skew (t : Twist) : (skew t).value.isFinite = t.angle.value.isFinite := by
  unfold skew
  split <;> rfl

/-- A coordinate is the distance of a move, up to its sign. -/
theorem exists_of_translation {vertical : Bool} {moves : List Move} {l : Length}
    (h : translation vertical moves = some l) :
    ∃ m ∈ moves, ∃ side distance, m.distance = some distance ∧ l = signed side distance := by
  obtain ⟨m, hm, hcoordinate⟩ := List.exists_of_findSome?_eq_some h
  refine ⟨m, List.mem_reverse.1 hm, ?_⟩
  unfold coordinate? at hcoordinate
  split at hcoordinate
  · rename_i side distance _ hdistance
    split at hcoordinate
    · exact ⟨side, distance, hdistance, (Option.some.inj hcoordinate).symm⟩
    · cases hcoordinate
  · cases hcoordinate

section
variable {m : Motion} {settings : Settings} (hm : m.Sound) (hsettings : settings.Read)
include hm hsettings

theorem isFinite_timing {duration : Seconds} (hduration : ∃ u, Seconds.parse? u = some duration) :
    ∀ x ∈ (timingOf m duration settings).numbers, x.isFinite = true := by
  intro x hx
  simp only [Timing.numbers, timingOf, List.mem_cons, List.not_mem_nil, or_false] at hx
  rcases hx with rfl | rfl
  · cases h : m.duration with
    | none => exact Seconds.isFinite_of_parse? hduration.choose_spec
    | some t => exact hm.duration t h
  · cases h : m.delay with
    | none => exact Seconds.isFinite_of_parse? hsettings.delay.choose_spec
    | some t => exact hm.delay t h

theorem enter_isFinite_or_factor :
    ∀ x ∈ (enter m settings).numbers, x.isFinite = true ∨ x ∈ (enter m settings).change.scale := by
  intro x hx
  rcases List.mem_append.1 hx with hx | hx
  · rcases List.mem_cons.1 hx with rfl | hx
    · left
      rw [isFinite_signed]
      cases h : m.distance with
      | none => exact Length.isFinite_of_parse? hsettings.defaultDistance.choose_spec
      | some l => exact hm.isFinite_distance h
    · exact .inr (Option.mem_toList.1 hx)
  · exact .inl (isFinite_timing hm hsettings hsettings.enterDuration x hx)

theorem transform_isFinite_or_factor :
    ∀ x ∈ (transform m settings).numbers, x.isFinite = true ∨ x ∈ (transform m settings).change.scale := by
  have hcoordinate : ∀ {vertical : Bool} {l : Length}, translation vertical m.moves = some l →
      l.value.isFinite = true := by
    intro vertical l h
    obtain ⟨v, hv, side, distance, hdistance, rfl⟩ := exists_of_translation h
    rw [isFinite_signed]
    exact hm.distance v hv distance hdistance
  intro x hx
  rcases List.mem_append.1 hx with hx | hx
  · simp only [transform, Change.numbers, List.mem_append, List.mem_map, Option.mem_toList] at hx
    rcases hx with ⟨l, hl, rfl⟩ | ⟨l, hl, rfl⟩ | ⟨b, hb, rfl⟩ | hx
    · exact .inl (hcoordinate hl)
    · exact .inl (hcoordinate hl)
    · obtain ⟨t, ht, rfl⟩ := Option.map_eq_some_iff.1 hb
      exact .inl ((isFinite_skew t).trans (hm.angle t ht))
    · exact .inr hx
  · exact .inl (isFinite_timing hm hsettings hsettings.transformDuration x hx)

end

/-- The factor of an animation is among its numbers. -/
theorem scale_subset_numbers {a : Animation} {x : Binary32} (h : x ∈ a.change.scale) : x ∈ a.numbers := by
  refine List.mem_append_left _ ?_
  cases hchange : a.change with
  | enter axis offset scale =>
    rw [hchange] at h
    exact List.mem_cons_of_mem _ (Option.mem_toList.2 h)
  | transform tx ty skew scale =>
    rw [hchange] at h
    simp only [Change.numbers, List.mem_append, Option.mem_toList]
    exact .inr (.inr (.inr h))

/-! ## Rules -/

/-- **Compiled rules are finite exactly up to the greatest power.**  Keys and bodies are made of labels and of the numbers
of the animation, and none shows anything that is not a number.  All those numbers but the factor are always finite; the
factor is, and no body shows an infinity, exactly if the power of the scaling is at most the greatest.  Beyond it just the
rounding to four places overflows: one and the change for the power have a finite sum, upwards and downwards. -/
theorem rules_finite_up_to_greatest_power {settings : Settings} (hsettings : settings.Read) (src : String)
    {a : Animation} (ha : a = enter (.parse src) settings ∨ a = transform (.parse src) settings) :
    (∀ r ∈ a.requests, Spelled a.numbers r.key.toList ∧ Spelled a.numbers r.body.toList) ∧
    (∀ r ∈ a.requests, ¬ "NaN".toList <:+: r.key.toList ∧ ¬ "NaN".toList <:+: r.body.toList) ∧
    (∀ x ∈ a.numbers, x.isFinite = true ∨ a.change.scale = some x) ∧
    ((∀ x ∈ a.numbers, x.isFinite = true) ↔
      ∀ s ∈ (Motion.parse src).scaling, s.power.rank ≤ greatestPower.rank) ∧
    ((∀ r ∈ a.requests, ¬ "inf".toList <:+: r.body.toList) ↔
      ∀ s ∈ (Motion.parse src).scaling, s.power.rank ≤ greatestPower.rank) ∧
    (∀ s ∈ (Motion.parse src).scaling,
      (deltaOf s.power).addOne.isFinite = true ∧ (deltaOf s.power).neg.addOne.isFinite = true) := by
  have hsound := Motion.sound_parse src
  have hnumbers : ∀ x ∈ a.numbers, x.isFinite = true ∨ x ∈ a.change.scale := by
    rcases ha with rfl | rfl
    · exact enter_isFinite_or_factor hsound hsettings
    · exact transform_isFinite_or_factor hsound hsettings
  have hscale : a.change.scale = (Motion.parse src).scaling.bind scaleFactor := by
    rcases ha with rfl | rfl <;> rfl
  have hfinite : (∀ x ∈ a.numbers, x.isFinite = true) ↔
      ∀ s ∈ (Motion.parse src).scaling, s.power.rank ≤ greatestPower.rank := by
    rw [← factor_isFinite_iff hsound, ← hscale]
    exact ⟨fun h x hx => h x (scale_subset_numbers hx), fun h x hx => (hnumbers x hx).elim id (h x)⟩
  refine ⟨fun r hr => spelled_requests hr, fun r hr => ?_, hnumbers, hfinite, ?_, fun s hs => ?_⟩
  · exact ⟨(spelled_requests hr).1.not_nan, (spelled_requests hr).2.not_nan⟩
  · have hshown := not_congr (shows_infinity_iff a)
    simp only [not_exists, not_and, Bool.not_eq_false] at hshown
    exact hshown.trans hfinite
  · have hdelta := isFinite_deltaOf (hsound.power s hs)
    exact ⟨isFinite_addOne hdelta, isFinite_addOne ((isFinite_neg _).trans hdelta)⟩

/-- The greatest power itself, and ten to the thirty-seventh. -/
theorem rules_finite_up_to_greatest_power_ends :
    let greatest := transform (.parse "transform scale 3402823400000000000000000000000000000") {}
    let beyond := transform (.parse "transform scale 10000000000000000000000000000000000000") {}
    (∀ r ∈ greatest.requests, ¬ "inf".toList <:+: r.body.toList) ∧
    ¬ (∀ r ∈ beyond.requests, ¬ "inf".toList <:+: r.body.toList) ∧
    (place beyond.change).body = "transform: scale(inf);" := by
  intro greatest beyond
  have hsettings : ({} : Settings).Read :=
    ⟨⟨"100%", by decide +kernel⟩, ⟨"0.7s", by decide +kernel⟩, ⟨"1s", by decide +kernel⟩, ⟨"0s", by decide +kernel⟩⟩
  refine ⟨(rules_finite_up_to_greatest_power hsettings _ (.inr rfl)).2.2.2.2.1.2 (by decide +kernel), fun h => ?_,
    by decide +kernel⟩
  exact absurd ((rules_finite_up_to_greatest_power hsettings _ (.inr rfl)).2.2.2.2.1.1 h) (by decide +kernel)

end Animation
end Stagecraft
