import DeepFlow.Foundation.ExpectedGrowth
import DeepFlow.Risk.Growth

/-!
# What a stake is expected to grow by

`kellyFraction` is the share that expected log growth is largest at, and `sizePosition` stays below
it, so every positive stake grows the capital and every cap that cuts it costs growth.
-/

namespace DeepFlow.Risk
open DeepFlow.Config Foundation

variable {probability price uncertainty bankroll availableCapital : ℚ} {limits : RiskLimits}

/-- Expected log growth of staking a share of the bankroll at a price. -/
noncomputable def stakeGrowth (probability price : ℚ) (share : ℝ) : ℝ :=
  expectedGrowth probability (netOdds price : ℚ) share

theorem odds_pos (range : InRange probability price) : (0 : ℝ) < (netOdds price : ℚ) := by
  exact_mod_cast netOdds_pos range.1

theorem chance_le (range : InRange probability price) : (probability : ℝ) ≤ 1 := by
  exact_mod_cast range.2.2

theorem optimalShare_cast (win odds : ℚ) : optimalShare (win : ℝ) (odds : ℝ) = (optimalShare win odds : ℚ) := by
  simp [optimalShare]

theorem kellyFraction_optimal (range : InRange probability price) :
    kellyFraction probability price = .ok (max 0 (optimalShare probability (netOdds price))) := by
  rw [optimalShare_netOdds range.1]
  rcases le_or_gt probability price with noEdge | edge
  · have none : (probability - price) / (1 - price) ≤ 0 :=
      div_nonpos_of_nonpos_of_nonneg (sub_nonpos.mpr noEdge) (sub_nonneg.mpr range.1.2.le)
    rw [kellyFraction_no_edge range noEdge, max_eq_left none]
  · rw [kellyFraction_edge range edge, max_eq_right (kelly_pos range edge).le]

theorem kellyFraction_range (range : InRange probability price) :
    ∃ kelly, kellyFraction probability price = .ok kelly ∧ 0 ≤ kelly ∧ kelly ≤ 1 ∧
      (kelly = 1 ↔ probability = 1) ∧ (kelly = 0 ↔ probability ≤ price) := by
  have gain : 0 < 1 - price := sub_pos.mpr range.1.2
  rcases le_or_gt probability price with noEdge | edge
  · have uncertain : probability ≠ 1 := (noEdge.trans_lt range.1.2).ne
    refine ⟨0, kellyFraction_no_edge range noEdge, le_rfl, zero_le_one, ?_, ?_⟩
    · exact iff_of_false zero_ne_one uncertain
    · exact iff_of_true rfl noEdge
  · have positive := kelly_pos range edge
    refine ⟨_, kellyFraction_edge range edge, positive.le, ?_, ?_, ?_⟩
    · rw [div_le_one gain, sub_le_sub_iff_right]
      exact range.2.2
    · rw [div_eq_one_iff_eq gain.ne', sub_left_inj]
    · exact iff_of_false positive.ne' (not_le.mpr edge)

/-- `kellyFraction` returns the one share of the capital at which expected log growth is largest: none
of it without an edge, and all of it only on a certainty. -/
theorem kelly_maximises_growth (probability price : ℚ) (range : InRange probability price) :
    ∃ kelly, kellyFraction probability price = .ok kelly ∧
      0 ≤ kelly ∧ kelly ≤ 1 ∧ (kelly = 1 ↔ probability = 1) ∧ (kelly = 0 ↔ probability ≤ price) ∧
      ∀ share : ℝ, 0 ≤ share → share < 1 → share ≠ kelly →
        stakeGrowth probability price share < stakeGrowth probability price kelly := by
  obtain ⟨kelly, raw, nonneg, whole, certain, none⟩ := kellyFraction_range range
  refine ⟨kelly, raw, nonneg, whole, certain, none, ?_⟩
  obtain rfl := Except.ok.inj (raw.symm.trans (kellyFraction_optimal range))
  intro share floor below other
  rw [Rat.cast_max, Rat.cast_zero, ← optimalShare_cast] at other ⊢
  exact expectedGrowth_maximal (odds_pos range) (chance_le range) floor below other

theorem kelly_maximises_growth_default :
    ∃ kelly, kellyFraction (95 / 100) (90 / 100) = .ok kelly ∧ 0 ≤ kelly ∧ kelly ≤ 1 ∧
      ∀ share : ℝ, 0 ≤ share → share < 1 → share ≠ kelly →
        stakeGrowth (95 / 100) (90 / 100) share < stakeGrowth (95 / 100) (90 / 100) kelly := by
  obtain ⟨kelly, raw, nonneg, whole, -, -, most⟩ :=
    kelly_maximises_growth (95 / 100) (90 / 100) ⟨by norm_num, by norm_num⟩
  exact ⟨kelly, raw, nonneg, whole, most⟩

theorem staked_share_range (availableCapital : ℚ) (limits : RiskLimits) (range : InRange probability price)
    (certain : 0 ≤ uncertainty) (funded : 0 < bankroll) :
    ∃ result, sizePosition probability price uncertainty bankroll limits availableCapital = .ok result ∧
      0 ≤ result.stakeUsdc / bankroll ∧
      result.stakeUsdc / bankroll ≤ max 0 (optimalShare probability (netOdds price)) := by
  rw [optimalShare_netOdds range.1]
  rcases le_or_gt probability price with noEdge | edge
  · refine ⟨_, sizePosition_no_edge uncertainty bankroll availableCapital limits range noEdge, ?_, ?_⟩
    · rw [zero_div]
    · rw [zero_div]
      exact le_max_left _ _
  · obtain ⟨result, sized, stake⟩ := sizePosition_edge uncertainty bankroll availableCapital limits range edge
    obtain ⟨result', sized', share⟩ : ∃ result', sizePosition probability price uncertainty bankroll limits
        availableCapital = .ok result' ∧ result'.stakeUsdc / bankroll ≤ (probability - price) / (1 - price) :=
      staked_share_le range edge certain funded
    obtain rfl := Except.ok.inj (sized.symm.trans sized')
    refine ⟨result, sized, div_nonneg ?_ funded.le, share.trans (le_max_right _ _)⟩
    have desired : 0 ≤ min (bankroll * appliedFraction ((probability - price) / (1 - price)) uncertainty limits)
        limits.maxPositionUsdc := desired_nonneg funded.le (appliedFraction_nonneg (kelly_pos range edge))
    rw [stake, capitalClamp_eq desired]
    exact le_min desired (le_max_left _ _)

/-! Up to the optimum, growth rises with the share. -/

section Share
variable {share : ℚ} (range : InRange probability price)
  (below : share ≤ max 0 (optimalShare probability (netOdds price)))
include range below

theorem stakeGrowth_rises {smaller : ℝ} (floor : 0 ≤ smaller) (less : smaller < share) :
    stakeGrowth probability price smaller < stakeGrowth probability price share := by
  have positive : 0 < share := by exact_mod_cast floor.trans_lt less
  have within : (share : ℝ) ≤ optimalShare (probability : ℝ) (netOdds price : ℚ) := by
    rw [optimalShare_cast]
    exact_mod_cast (le_max_iff.mp below).resolve_left (not_le.mpr positive)
  exact expectedGrowth_lt (odds_pos range) (chance_le range) floor less within

theorem stakeGrowth_pos (positive : 0 < share) : 0 < stakeGrowth probability price share := by
  have grown := stakeGrowth_rises range below le_rfl (by exact_mod_cast positive)
  rwa [stakeGrowth, expectedGrowth_zero] at grown

theorem stakeGrowth_le_kelly (nonneg : 0 ≤ share) : stakeGrowth probability price share ≤
    stakeGrowth probability price (max 0 (optimalShare probability (netOdds price)) : ℚ) := by
  have nonneg' : (0 : ℝ) ≤ share := by exact_mod_cast nonneg
  have within : (share : ℝ) ≤ (max 0 (optimalShare probability (netOdds price)) : ℚ) := by exact_mod_cast below
  rcases le_total (optimalShare probability (netOdds price)) 0 with none | some
  · rw [max_eq_left none] at within ⊢
    exact (congrArg _ (le_antisymm within (by exact_mod_cast nonneg))).le
  · rw [max_eq_right some] at within ⊢
    have optimum : (share : ℝ) ≤ optimalShare (probability : ℝ) (netOdds price : ℚ) := by rwa [optimalShare_cast]
    rw [← optimalShare_cast]
    exact expectedGrowth_le (odds_pos range) (chance_le range) nonneg' optimum le_rfl

end Share

/-- Every positive stake is expected to grow the capital, no stake by more than the Kelly fraction
would, and any smaller one by less: each cap that cuts the stake is paid for in growth. -/
theorem sizing_grows (probability price uncertainty bankroll availableCapital : ℚ) (limits : RiskLimits)
    (range : InRange probability price) (certain : 0 ≤ uncertainty) (funded : 0 < bankroll) :
    ∃ kelly result, kellyFraction probability price = .ok kelly ∧
      sizePosition probability price uncertainty bankroll limits availableCapital = .ok result ∧
      (0 < result.stakeUsdc → 0 < stakeGrowth probability price (result.stakeUsdc / bankroll : ℚ)) ∧
      stakeGrowth probability price (result.stakeUsdc / bankroll : ℚ) ≤ stakeGrowth probability price kelly ∧
      ∀ smaller : ℝ, 0 ≤ smaller → smaller < (result.stakeUsdc / bankroll : ℚ) →
        stakeGrowth probability price smaller < stakeGrowth probability price (result.stakeUsdc / bankroll : ℚ) := by
  obtain ⟨result, sized, nonneg, below⟩ := staked_share_range availableCapital limits range certain funded
  refine ⟨_, result, kellyFraction_optimal range, sized, ?_, stakeGrowth_le_kelly range below nonneg, ?_⟩
  · intro staked
    exact stakeGrowth_pos range below (div_pos staked funded)
  · intro smaller floor less
    exact stakeGrowth_rises range below floor less

theorem sizing_grows_default :
    ∃ kelly result, kellyFraction (95 / 100) (90 / 100) = .ok kelly ∧
      sizePosition (95 / 100) (90 / 100) (1 / 100) 1000 .default 800 = .ok result ∧
      stakeGrowth (95 / 100) (90 / 100) (result.stakeUsdc / 1000 : ℚ) ≤ stakeGrowth (95 / 100) (90 / 100) kelly := by
  obtain ⟨kelly, result, raw, sized, -, most, -⟩ := sizing_grows (95 / 100) (90 / 100) (1 / 100) 1000 800 .default
    ⟨by norm_num, by norm_num⟩ (by norm_num) (by norm_num)
  exact ⟨kelly, result, raw, sized, most⟩

end DeepFlow.Risk
