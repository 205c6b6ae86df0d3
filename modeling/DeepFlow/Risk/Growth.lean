import DeepFlow.Foundation.LogGrowth
import DeepFlow.Risk.Sizing

/-!
# Sizing and log growth

`kellyFraction` is the closed form of the share that maximises expected log growth, and every step
of `sizePosition` only shrinks it, so the stake stays on the side where growth still rises.
-/

namespace DeepFlow.Risk
open DeepFlow.Config Foundation

variable {probability price uncertainty bankroll availableCapital : ℚ} {limits : RiskLimits}

def netOdds (price : ℚ) : ℚ := (1 - price) / price

theorem netOdds_pos (range : 0 < price ∧ price < 1) : 0 < netOdds price :=
  div_pos (sub_pos.mpr range.2) range.1

theorem optimalShare_netOdds (range : 0 < price ∧ price < 1) :
    optimalShare probability (netOdds price) = (probability - price) / (1 - price) := by
  have cost : price ≠ 0 := range.1.ne'
  have gain : 1 - price ≠ 0 := (sub_pos.mpr range.2).ne'
  unfold optimalShare netOdds
  field_simp
  ring

theorem marginalGrowth_nonpos (range : InRange probability price) (noEdge : probability ≤ price) {share : ℚ}
    (nonneg : 0 ≤ share) (below : share < 1) : marginalGrowth probability (netOdds price) share ≤ 0 := by
  have optimum : optimalShare probability (netOdds price) ≤ 0 := by
    rw [optimalShare_netOdds range.1]
    exact div_nonpos_of_nonpos_of_nonneg (sub_nonpos.mpr noEdge) (sub_nonneg.mpr range.1.2.le)
  rw [← not_lt, marginalGrowth_pos_iff (netOdds_pos range.1) nonneg below]
  exact not_lt.mpr (optimum.trans nonneg)

theorem staked_share_le (range : InRange probability price) (edge : price < probability)
    (certain : 0 ≤ uncertainty) (funded : 0 < bankroll) :
    ∃ result, sizePosition probability price uncertainty bankroll limits availableCapital = .ok result ∧
      result.stakeUsdc / bankroll ≤ (probability - price) / (1 - price) := by
  obtain ⟨result, sized, stake⟩ := sizePosition_edge uncertainty bankroll availableCapital limits range edge
  have raw := kelly_pos range edge
  refine ⟨result, sized, ?_⟩
  have desired : 0 ≤ min (bankroll * appliedFraction ((probability - price) / (1 - price)) uncertainty limits)
      limits.maxPositionUsdc := desired_nonneg funded.le (appliedFraction_nonneg raw)
  rw [div_le_iff₀' funded, stake]
  calc capitalClamp _ availableCapital
      ≤ bankroll * appliedFraction ((probability - price) / (1 - price)) uncertainty limits :=
        (capitalClamp_le desired).trans (min_le_left _ _)
    _ ≤ _ := mul_le_mul_of_nonneg_left (appliedFraction_le_raw raw certain) funded.le

/-- `kellyFraction` is where expected log growth peaks, and no stake goes past it. -/
theorem sizing_below_growth_optimum (probability price : ℚ) (range : InRange probability price) :
    ∃ kelly, kellyFraction probability price = .ok kelly ∧
      (price < probability → ∀ share, 0 ≤ share → share < 1 →
        (0 < marginalGrowth probability (netOdds price) share ↔ share < kelly) ∧
        (marginalGrowth probability (netOdds price) share = 0 ↔ share = kelly) ∧
        (marginalGrowth probability (netOdds price) share < 0 ↔ kelly < share)) ∧
      (kelly = 0 → ∀ share, 0 ≤ share → share < 1 →
        marginalGrowth probability (netOdds price) share ≤ 0) ∧
      ∀ (uncertainty bankroll availableCapital : ℚ) (limits : RiskLimits),
        0 ≤ uncertainty → uncertainty ≤ 1 → 0 < bankroll →
        ∃ result, sizePosition probability price uncertainty bankroll limits availableCapital = .ok result ∧
          result.stakeUsdc / bankroll ≤ kelly ∧
          (0 < result.stakeUsdc →
            (1 - probability) * (1 + netOdds price * (result.stakeUsdc / bankroll)) ≤
              probability * netOdds price * (1 - result.stakeUsdc / bankroll)) := by
  have odds := netOdds_pos range.1
  rcases le_or_gt probability price with noEdge | edge
  · refine ⟨0, kellyFraction_no_edge range noEdge, fun edge => absurd edge (not_lt.mpr noEdge), ?_, ?_⟩
    · intro _ share nonneg below
      exact marginalGrowth_nonpos range noEdge nonneg below
    · intro uncertainty bankroll availableCapital limits _ _ _
      refine ⟨_, sizePosition_no_edge uncertainty bankroll availableCapital limits range noEdge, ?_, ?_⟩
      · rw [zero_div]
      · exact fun staked => absurd staked (lt_irrefl 0)
  · have raw := kelly_pos range edge
    refine ⟨_, kellyFraction_edge range edge, ?_, fun none => absurd none raw.ne', ?_⟩
    · intro _ share nonneg below
      rw [← optimalShare_netOdds range.1]
      exact ⟨marginalGrowth_pos_iff odds nonneg below, marginalGrowth_eq_zero_iff odds nonneg below,
        marginalGrowth_neg_iff odds nonneg below⟩
    · intro uncertainty bankroll availableCapital limits certain _ funded
      obtain ⟨result, sized, share⟩ := staked_share_le range edge certain funded
      refine ⟨result, sized, share, fun _ => (growing_iff odds).mpr ?_⟩
      rw [optimalShare_netOdds range.1]
      exact share

theorem sizing_below_growth_optimum_default :
    ∃ kelly, kellyFraction (95 / 100) (90 / 100) = .ok kelly ∧
      ∃ result, sizePosition (95 / 100) (90 / 100) (1 / 100) 1000 .default 800 = .ok result ∧
        result.stakeUsdc / 1000 ≤ kelly := by
  obtain ⟨kelly, raw, -, -, sizes⟩ :=
    sizing_below_growth_optimum (95 / 100) (90 / 100) ⟨by norm_num, by norm_num⟩
  obtain ⟨result, sized, share, -⟩ :=
    sizes (1 / 100) 1000 800 .default (by norm_num) (by norm_num) (by norm_num)
  exact ⟨kelly, raw, result, sized, share⟩

end DeepFlow.Risk
