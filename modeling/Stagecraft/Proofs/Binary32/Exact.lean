import Stagecraft.Proofs.Binary32.Order
import Stagecraft.Proofs.Binary32.Written
import Stagecraft.Proofs.Text.Numeral
/-!
# Numbers written and read back

A finite value is its own nearest value.  On the finest grid it is a point itself, so the search for a decimal that
`nearestRank` takes back to its rank never ends without one.
-/
namespace Stagecraft
namespace Binary32

/-! ## A finite value is its own nearest value -/

theorem roundEven_mul (k : Nat) {den : Nat} (hden : 0 < den) : roundEven (k * den) den = k := by
  unfold roundEven
  simp only
  rw [Nat.mul_mod_left, Nat.mul_zero, if_pos hden, Nat.mul_div_cancel k hden]

/-- Numerator and denominator may be multiplied by the same number. -/
theorem nearestRank_mul {k num den : Nat} (hk : 0 < k) (hden : 0 < den) :
    nearestRank (k * num) (k * den) = nearestRank num den := by
  have hmul : 0 < k * den := Nat.mul_pos hk hden
  refine Nat.le_antisymm (nearestRank_mono hmul hden ?_) (nearestRank_mono hden hmul ?_)
  · exact Nat.le_of_eq (by ring)
  · exact Nat.le_of_eq (by ring)

/-- The digits of a value that is not in the first block fill one block. -/
theorem log2_grains {m : Nat} (hm : m < block) (e : Nat) : Nat.log2 ((block + m) * 2 ^ e) = 23 + e := by
  have hne : (block + m) * 2 ^ e ≠ 0 := Nat.ne_of_gt (Nat.mul_pos (by rw [block]; omega) (Nat.two_pow_pos e))
  have hblock : block = 2 ^ 23 := rfl
  rw [Nat.log2_eq_iff hne, Nat.pow_succ, Nat.pow_add, ← hblock]
  refine ⟨Nat.mul_le_mul_right _ (Nat.le_add_right _ _), ?_⟩
  rw [Nat.mul_right_comm]
  exact Nat.mul_lt_mul_of_pos_right (by omega) (Nat.two_pow_pos e)

/-- **The value nearest to a value is the value itself.** -/
theorem nearestRank_grains {rank : Nat} (h : rank < infinityRank) : nearestRank (grains rank) unitGrains = rank := by
  have hunit : 0 < unitGrains := by decide
  have hm := Nat.mod_lt rank (by decide : 0 < block)
  have hrank := Nat.div_add_mod rank block
  rw [nearestRank, Nat.mul_div_cancel _ hunit]
  generalize rank / block = q at hrank
  generalize rank % block = m at hm hrank
  subst hrank
  rw [grains_eq q hm]
  cases q with
  | zero =>
    -- in the first block a grain is a rank
    have hlog : Nat.log2 m - 23 = 0 := by
      rcases Nat.eq_zero_or_pos m with rfl | hpos
      · rw [Nat.log2_zero]
      · have := (Nat.log2_lt (Nat.ne_of_gt hpos)).2 (show m < 2 ^ 23 from hm)
        omega
    rw [if_pos rfl, hlog, Nat.pow_eq, Nat.pow_zero, Nat.mul_one, roundEven_mul m hunit]
    omega
  | succ e =>
    have hround : roundEven ((block + m) * 2 ^ e * unitGrains) (unitGrains * 2 ^ e) = block + m := by
      rw [Nat.mul_assoc, Nat.mul_comm (2 ^ e)]
      exact roundEven_mul _ (Nat.mul_pos hunit (Nat.two_pow_pos e))
    rw [if_neg (Nat.succ_ne_zero e), Nat.add_sub_cancel, log2_grains hm, Nat.add_sub_cancel_left, Nat.pow_eq, hround]
    have hplace : e * block + (block + m) = block * (e + 1) + m := by ring
    rw [hplace, Nat.min_eq_right h.le]

theorem ofRatio_grainCount {x : Binary32} (h : x.isFinite = true) : ofRatio x.negative x.grainCount unitGrains = x := by
  have hrank := nearestRank_grains (isFinite_iff.1 h)
  obtain ⟨negative, rank, hlt⟩ := x
  simp only [ofRatio, grainCount] at hrank ⊢
  simp only [hrank]

theorem scale_one_one (x : Binary32) : x.scale 1 1 = x := by
  unfold scale
  split
  · rename_i h
    rw [Nat.mul_one, Nat.mul_one, ofRatio_grainCount h]
  · rfl

/-! ## The shortest decimal reads back -/

theorem readsBack_of_neighbour? {rank : Nat} {near : Bool} {low high d : Decimal}
    (h : neighbour? rank near low high = some d) : d.readsBack rank = true := by
  unfold neighbour? at h
  split at h
  · rename_i hlow
    cases h
    exact (Bool.and_eq_true_iff.1 hlow).1
  · split at h
    · rename_i hhigh
      cases h
      exact hhigh
    · cases h

/-- Where the low one reads back there is an answer. -/
theorem isSome_neighbour? {rank : Nat} {low : Decimal} (h : low.readsBack rank = true) (near : Bool) (high : Decimal) :
    (neighbour? rank near low high).isSome = true := by
  unfold neighbour?
  rw [h]
  cases high.readsBack rank <;> cases near <;> rfl

theorem ratio_fraction (steps places : Nat) : Decimal.ratio ⟨steps, -(places : Int)⟩ = (steps, 10 ^ places) := by
  have hup : (-(places : Int)).toNat = 0 := by omega
  have hdown : (- -(places : Int)).toNat = places := by omega
  rw [Decimal.ratio, hup, hdown, Nat.pow_eq, Nat.pow_eq, Nat.pow_zero, Nat.mul_one]

/-- On a grid that the grains lie on a value is a point. -/
theorem isSome_onGrid? {rank places : Nat} (h : rank < infinityRank) (hfine : unitGrains ∣ 10 ^ places) :
    (onGrid? rank (-(places : Int))).isSome = true := by
  have hup : (-(places : Int)).toNat = 0 := by omega
  have hdown : (- -(places : Int)).toNat = places := by omega
  obtain ⟨k, hk⟩ := hfine
  have hpos : 0 < k := Nat.pos_of_ne_zero fun hzero => by
    rw [hzero, Nat.mul_zero] at hk
    exact absurd hk (Nat.ne_of_gt (Nat.pow_pos (by decide)))
  rw [onGrid?, hup, hdown, Nat.pow_eq, Nat.pow_eq, Nat.pow_zero, Nat.mul_one]
  refine isSome_neighbour? ?_ _ _
  have hsteps : grains rank * 10 ^ places / unitGrains = k * grains rank := by
    rw [hk, Nat.mul_left_comm, Nat.mul_div_cancel_left _ (by decide), Nat.mul_comm]
  rw [Decimal.readsBack, ratio_fraction, beq_iff_eq, hsteps, hk, Nat.mul_comm unitGrains,
    nearestRank_mul hpos (by decide), nearestRank_grains h]

/-- **The shortest decimal of a finite value reads back as that value.** -/
theorem readsBack_shortest {rank : Nat} (h : rank < infinityRank) : (shortest rank).readsBack rank = true := by
  have hmem : -((149 : Nat) : Int) ∈ grids := by decide
  have hfine : unitGrains ∣ 10 ^ 149 := ⟨5 ^ 149, Nat.mul_pow 2 5 149⟩
  unfold shortest
  cases hfound : grids.findSome? (onGrid? rank) with
  | some d =>
    obtain ⟨g, -, hg⟩ := List.exists_of_findSome?_eq_some hfound
    exact readsBack_of_neighbour? hg
  | none =>
    have hnone := List.findSome?_eq_none_iff.1 hfound _ hmem
    have hsome := isSome_onGrid? h hfine
    rw [hnone] at hsome
    cases hsome

end Binary32
end Stagecraft
