import Stagecraft.Binary32.Basic
import Mathlib.Tactic.Positivity
import Mathlib.Tactic.Ring
/-!
# Rounding keeps the order

A greater rank is a greater value, and a greater quotient is never rounded to a smaller rank.  So what the operations make
of a whole range of values can be read off its ends; in particular, where they overflow.
-/
namespace Stagecraft
namespace Binary32

/-! ## Ranks and values -/

/-- The value of a rank by the number of its block and its place there. -/
theorem grains_eq (q : Nat) {m : Nat} (hm : m < block) :
    grains (block * q + m) = if q = 0 then m else (block + m) * 2 ^ (q - 1) := by
  have hq : (block * q + m) / block = q := by
    rw [Nat.mul_add_div (by decide), Nat.div_eq_of_lt hm, Nat.add_zero]
  rw [grains, spacing, hq]
  cases q with
  | zero => simp
  | succ q =>
    have hplace : block * (q + 1) + m - q * block = block + m := by
      rw [Nat.mul_succ, Nat.mul_comm q]
      omega
    rw [if_neg (Nat.succ_ne_zero q), Nat.add_sub_cancel, hplace]
    rfl

/-- **A greater rank is a greater value.** -/
theorem grains_mono {r r' : Nat} (h : r ≤ r') : grains r ≤ grains r' := by
  have hblock : 0 < block := by decide
  have hm := Nat.mod_lt r hblock
  have hm' := Nat.mod_lt r' hblock
  have hdiv : r / block ≤ r' / block := Nat.div_le_div_right h
  have hr := Nat.div_add_mod r block
  have hr' := Nat.div_add_mod r' block
  generalize r / block = q at hdiv hr
  generalize r' / block = q' at hdiv hr'
  generalize r % block = m at hm hr
  generalize r' % block = m' at hm' hr'
  subst hr hr'
  rw [grains_eq q hm, grains_eq q' hm']
  rcases hdiv.eq_or_lt with rfl | hlt
  · -- in one block the places decide
    have hle : m ≤ m' := Nat.add_le_add_iff_left.1 h
    split
    · exact hle
    · exact Nat.mul_le_mul_right _ (Nat.add_le_add_left hle _)
  · -- a block begins above all values of the blocks before it
    rw [if_neg (by omega : ¬ q' = 0)]
    have hstart : block * 2 ^ (q' - 1) ≤ (block + m') * 2 ^ (q' - 1) :=
      Nat.mul_le_mul_right _ (Nat.le_add_right _ _)
    refine Nat.le_trans ?_ hstart
    split
    · exact Nat.le_trans hm.le (Nat.le_mul_of_pos_right _ (Nat.two_pow_pos _))
    · calc (block + m) * 2 ^ (q - 1) ≤ (block * 2) * 2 ^ (q - 1) := Nat.mul_le_mul_right _ (by omega)
        _ = block * 2 ^ (q - 1 + 1) := by rw [Nat.mul_assoc, Nat.pow_succ']
        _ ≤ block * 2 ^ (q' - 1) := Nat.mul_le_mul_left _ (Nat.pow_le_pow_right (by decide) (by omega))

/-! ## Rounding to a whole number -/

/-- What is rounded up past `k` lies above the middle between `k` and its successor, or on it where `k` is odd. -/
theorem succ_le_roundEven_iff {num den k : Nat} (hden : 0 < den) :
    k + 1 ≤ roundEven num den ↔
      (2 * k + 1) * den < 2 * num ∨ (2 * k + 1) * den = 2 * num ∧ k % 2 = 1 := by
  have hnum := Nat.div_add_mod num den
  have hr := Nat.mod_lt num hden
  unfold roundEven
  simp only
  generalize num / den = q at hnum
  generalize num % den = r at hnum hr
  subst hnum
  have hmiddle : (2 * k + 1) * den = 2 * (den * k) + den := by ring
  rw [hmiddle]
  rcases Nat.lt_trichotomy k q with hlt | rfl | hlt
  · have hle : den * k + den ≤ den * q := by
      rw [← Nat.mul_succ]
      exact Nat.mul_le_mul_left den hlt
    split <;> [skip; split] <;> omega
  · split <;> [skip; split] <;> omega
  · have hle : den * q + den ≤ den * k := by
      rw [← Nat.mul_succ]
      exact Nat.mul_le_mul_left den hlt
    split <;> [skip; split] <;> omega

theorem roundEven_mono {num den num' den' : Nat} (hden : 0 < den) (hden' : 0 < den')
    (h : num * den' ≤ num' * den) : roundEven num den ≤ roundEven num' den' := by
  cases hk : roundEven num den with
  | zero => exact Nat.zero_le _
  | succ k =>
    have hle : k + 1 ≤ roundEven num den := hk.ge
    rw [succ_le_roundEven_iff hden] at hle
    rw [succ_le_roundEven_iff hden']
    have hscaled : 2 * num * den' ≤ 2 * num' * den := by
      rw [Nat.mul_assoc, Nat.mul_assoc]
      exact Nat.mul_le_mul_left 2 h
    have hmiddle : (2 * k + 1) * den' * den = (2 * k + 1) * den * den' := by ring
    rcases hle with hlt | ⟨heq, hodd⟩
    · left
      refine Nat.lt_of_mul_lt_mul_right (a := den) ?_
      calc (2 * k + 1) * den' * den = (2 * k + 1) * den * den' := hmiddle
        _ < 2 * num * den' := Nat.mul_lt_mul_of_pos_right hlt hden'
        _ ≤ 2 * num' * den := hscaled
    · have hle : (2 * k + 1) * den' ≤ 2 * num' := by
        refine Nat.le_of_mul_le_mul_right (c := den) ?_ hden
        calc (2 * k + 1) * den' * den = (2 * k + 1) * den * den' := hmiddle
          _ = 2 * num * den' := by rw [heq]
          _ ≤ 2 * num' * den := hscaled
      exact hle.lt_or_eq.imp_right fun heq => ⟨heq, hodd⟩

/-! ## Rounding to a rank -/

theorem quotient_mono {num den num' den' : Nat} (hden : 0 < den) (hden' : 0 < den')
    (h : num * den' ≤ num' * den) : num * unitGrains / den ≤ num' * unitGrains / den' := by
  rw [Nat.le_div_iff_mul_le hden']
  refine Nat.le_of_mul_le_mul_right (c := den) ?_ hden
  calc num * unitGrains / den * den' * den = num * unitGrains / den * den * den' := by ring
    _ ≤ num * unitGrains * den' := Nat.mul_le_mul_right _ (Nat.div_mul_le_self _ _)
    _ = num * den' * unitGrains := by ring
    _ ≤ num' * den * unitGrains := Nat.mul_le_mul_right _ h
    _ = num' * unitGrains * den := by ring

theorem log2_mono {n n' : Nat} (h : n ≤ n') : Nat.log2 n ≤ Nat.log2 n' := by
  by_cases hn : n = 0
  · rw [hn, Nat.log2_zero]
    exact Nat.zero_le _
  · rw [Nat.le_log2 (by omega)]
    exact Nat.le_trans (Nat.log2_self_le hn) h

/-- The digits of a rounded value make up at most two blocks. -/
theorem roundEven_le_two_blocks {num den : Nat} (hden : 0 < den) :
    roundEven num (den * 2 ^ (Nat.log2 (num / den) - 23)) ≤ 2 * block := by
  set s := Nat.log2 (num / den) - 23 with hs
  have hquotient : num / den < 2 ^ (s + 24) :=
    Nat.lt_of_lt_of_le Nat.lt_log2_self (Nat.pow_le_pow_right (by decide) (by omega))
  rw [Nat.div_lt_iff_lt_mul hden] at hquotient
  have hnum : num < 2 * block * (den * 2 ^ s) := by
    calc num < 2 ^ (s + 24) * den := hquotient
      _ = 2 * block * (den * 2 ^ s) := by rw [Nat.pow_add, block]; ring
  have hpos : 0 < den * 2 ^ s := by positivity
  refine Nat.le_of_not_lt fun hgt => ?_
  have hup : (2 * (2 * block) + 1) * (den * 2 ^ s) ≤ 2 * num :=
    ((succ_le_roundEven_iff hpos).1 (Nat.succ_le_of_lt hgt)).elim Nat.le_of_lt fun h => h.1.le
  generalize den * 2 ^ s = d at hup hnum
  rw [block] at hup hnum
  omega

/-- Where the spacing is more than one grain, they fill at least one. -/
theorem block_le_roundEven {num den : Nat} (hden : 0 < den) (h : 23 < Nat.log2 (num / den)) :
    block ≤ roundEven num (den * 2 ^ (Nat.log2 (num / den) - 23)) := by
  have hne : num / den ≠ 0 := by
    intro hzero
    rw [hzero, Nat.log2_zero] at h
    omega
  set s := Nat.log2 (num / den) - 23 with hs
  have hquotient : 2 ^ (s + 23) ≤ num / den := by
    rw [show s + 23 = Nat.log2 (num / den) by omega]
    exact Nat.log2_self_le hne
  rw [Nat.le_div_iff_mul_le hden] at hquotient
  have hnum : block * (den * 2 ^ s) ≤ num := by
    calc block * (den * 2 ^ s) = 2 ^ (s + 23) * den := by rw [Nat.pow_add, block]; ring
      _ ≤ num := hquotient
  have hpos : 0 < den * 2 ^ s := by positivity
  refine (succ_le_roundEven_iff (k := block - 1) hpos).2 (.inl ?_)
  generalize den * 2 ^ s = d at hnum hpos
  rw [block] at hnum ⊢
  omega

/-- **A greater quotient is never rounded to a smaller rank.** -/
theorem nearestRank_mono {num den num' den' : Nat} (hden : 0 < den) (hden' : 0 < den')
    (h : num * den' ≤ num' * den) : nearestRank num den ≤ nearestRank num' den' := by
  unfold nearestRank
  refine min_le_min_left _ ?_
  have hlog := log2_mono (quotient_mono hden hden' h)
  rcases (Nat.sub_le_sub_right hlog 23).eq_or_lt with heq | hlt
  · rw [heq]
    refine Nat.add_le_add_left (roundEven_mono ?_ ?_ ?_) _
    · exact Nat.mul_pos hden (Nat.two_pow_pos _)
    · exact Nat.mul_pos hden' (Nat.two_pow_pos _)
    · generalize Nat.pow 2 _ = p
      calc num * unitGrains * (den' * p) = num * den' * (unitGrains * p) := by ring
        _ ≤ num' * den * (unitGrains * p) := Nat.mul_le_mul_right _ h
        _ = num' * unitGrains * (den * p) := by ring
  · -- the next block begins where the digits of this one end
    have hupper := @roundEven_le_two_blocks (num * unitGrains) den hden
    have hlower := @block_le_roundEven (num' * unitGrains) den' hden' (by omega)
    simp only [Nat.pow_eq]
    generalize roundEven _ _ = a at hupper ⊢
    generalize roundEven _ _ = b at hlower ⊢
    generalize Nat.log2 _ - 23 = s at hlt ⊢
    generalize Nat.log2 _ - 23 = s' at hlt ⊢
    rw [block] at *
    omega

/-! ## What stays finite -/

/-- The greatest finite value, in grains. -/
def greatest : Nat := grains (infinityRank - 1)

theorem isFinite_iff {x : Binary32} : x.isFinite = true ↔ x.rank.val < infinityRank := by
  have hrank := x.rank.isLt
  rw [isFinite, bne_iff_ne]
  omega

theorem isFinite_of_rank_le {x y : Binary32} (hy : y.isFinite = true) (h : x.rank.val ≤ y.rank.val) :
    x.isFinite = true :=
  isFinite_iff.2 (Nat.lt_of_le_of_lt h (isFinite_iff.1 hy))

theorem grainCount_mono {x y : Binary32} (h : x.rank.val ≤ y.rank.val) : x.grainCount ≤ y.grainCount := grains_mono h

theorem grainCount_le {x : Binary32} (h : x.isFinite = true) : x.grainCount ≤ greatest :=
  grains_mono (Nat.le_pred_of_lt (isFinite_iff.1 h))

/-- One more than the greatest finite value is rounded back to it. -/
theorem isFinite_ofRatio {negative : Bool} {num den : Nat} (hden : 0 < den)
    (h : num * unitGrains ≤ (greatest + unitGrains) * den) : (ofRatio negative num den).isFinite = true := by
  have hcorner : nearestRank (greatest + unitGrains) unitGrains < infinityRank := by decide +kernel
  exact isFinite_iff.2 (Nat.lt_of_le_of_lt (nearestRank_mono hden (by decide) h) hcorner)

/-- What is made smaller stays finite. -/
theorem isFinite_scale {x : Binary32} {num den : Nat} (hx : x.isFinite = true) (hden : 0 < den) (h : num ≤ den) :
    (x.scale num den).isFinite = true := by
  rw [scale, if_pos hx]
  refine isFinite_ofRatio (Nat.mul_pos (by decide) hden) ?_
  calc x.grainCount * num * unitGrains ≤ (greatest + unitGrains) * den * unitGrains :=
        Nat.mul_le_mul_right _ (Nat.mul_le_mul (Nat.le_add_right_of_le (grainCount_le hx)) h)
    _ = (greatest + unitGrains) * (unitGrains * den) := by ring

theorem isFinite_round {x : Binary32} (hx : x.isFinite = true) : x.round.isFinite = true := by
  rw [round, if_pos hx]
  refine isFinite_ofRatio Nat.one_pos ?_
  have hgrains := grainCount_le hx
  calc (2 * x.grainCount + unitGrains) / (2 * unitGrains) * unitGrains
      ≤ (2 * (greatest + unitGrains)) / (2 * unitGrains) * unitGrains :=
        Nat.mul_le_mul_right _ (Nat.div_le_div_right (by omega))
    _ = (greatest + unitGrains) / unitGrains * unitGrains := by rw [Nat.mul_div_mul_left _ _ (by decide)]
    _ ≤ (greatest + unitGrains) * 1 := by
        rw [Nat.mul_one]
        exact Nat.div_mul_le_self _ _

/-- Adding one adds at most one to the absolute value. -/
theorem rank_addOne_le {x : Binary32} (hx : x.isFinite = true) :
    x.addOne.rank.val ≤ nearestRank (x.grainCount + unitGrains) unitGrains := by
  have hunit : 0 < unitGrains := by decide
  have hle : ∀ {n}, n ≤ x.grainCount + unitGrains →
      nearestRank n unitGrains ≤ nearestRank (x.grainCount + unitGrains) unitGrains := fun h =>
    nearestRank_mono hunit hunit (Nat.mul_le_mul_right _ h)
  rw [addOne, if_neg (by simp [hx])]
  split
  · exact hle (by omega)
  split
  · exact hle (by omega)
  · exact hle (by omega)

/-- Adding one takes at most one from the absolute value. -/
theorem le_rank_addOne {x : Binary32} (hx : x.isFinite = true) :
    nearestRank (x.grainCount - unitGrains) unitGrains ≤ x.addOne.rank.val := by
  have hunit : 0 < unitGrains := by decide
  have hle : ∀ {n}, x.grainCount - unitGrains ≤ n →
      nearestRank (x.grainCount - unitGrains) unitGrains ≤ nearestRank n unitGrains := fun h =>
    nearestRank_mono hunit hunit (Nat.mul_le_mul_right _ h)
  rw [addOne, if_neg (by simp [hx])]
  split
  · exact hle (by omega)
  split
  · exact hle (by omega)
  · exact hle (by omega)

theorem isFinite_addOne {x : Binary32} (hx : x.isFinite = true) : x.addOne.isFinite = true := by
  refine isFinite_of_rank_le (y := ofRatio false (x.grainCount + unitGrains) unitGrains) ?_ (rank_addOne_le hx)
  exact isFinite_ofRatio (by decide) (Nat.mul_le_mul_right _ (Nat.add_le_add_right (grainCount_le hx) _))

/-- Scaling keeps the order of absolute values. -/
theorem rank_scale_mono {x y : Binary32} {num den : Nat} (hden : 0 < den) (h : x.rank.val ≤ y.rank.val) :
    (x.scale num den).rank.val ≤ (y.scale num den).rank.val := by
  by_cases hy : y.isFinite = true
  · have hpos : 0 < unitGrains * den := Nat.mul_pos (by decide) hden
    rw [scale, scale, if_pos (isFinite_of_rank_le hy h), if_pos hy]
    exact nearestRank_mono hpos hpos (Nat.mul_le_mul_right _ (Nat.mul_le_mul_right _ (grainCount_mono h)))
  · -- nothing is greater than an infinity
    have hrank : y.rank.val = infinityRank := by simpa [isFinite] using hy
    rw [scale.eq_def y, if_neg hy, hrank]
    exact Nat.le_of_lt_succ (Fin.isLt _)

end Binary32
end Stagecraft
