import DeepFlow.Risk.Sizing

/-!
# The capital state of the risk engine

The engine owns the bankroll that spans trades and reports what may be deployed after the reserve.
Sizing against that pair keeps every cap as long as the balance has not gone negative: of the four
clamps in `sizePosition` only the last stops at zero, and only when it is the one that binds.
-/

namespace DeepFlow.Risk
open DeepFlow.Config

structure BankrollState where
  balanceUsdc : ℚ := 0
  peakBalanceUsdc : ℚ := 0
  deriving DecidableEq, Repr

def BankrollState.drawdownFraction (bankroll : BankrollState) : ℚ :=
  if bankroll.peakBalanceUsdc ≤ 0 then 0
  else max 0 ((bankroll.peakBalanceUsdc - bankroll.balanceUsdc) / bankroll.peakBalanceUsdc)

structure RiskEngine where
  limits : RiskLimits
  bankroll : BankrollState := {}

def RiskEngine.availableCapital (engine : RiskEngine) : ℚ :=
  let reserve := engine.bankroll.balanceUsdc * engine.limits.reservedCapitalFraction
  max 0 (engine.bankroll.balanceUsdc - reserve)

theorem BankrollState.drawdownFraction_nonneg (bankroll : BankrollState) : 0 ≤ bankroll.drawdownFraction := by
  unfold drawdownFraction
  split
  · exact le_rfl
  · exact le_max_left _ _

theorem BankrollState.drawdownFraction_le_one_iff {bankroll : BankrollState}
    (peaked : 0 < bankroll.peakBalanceUsdc) : bankroll.drawdownFraction ≤ 1 ↔ 0 ≤ bankroll.balanceUsdc := by
  rw [drawdownFraction, if_neg (not_le.mpr peaked), max_le_iff, div_le_one peaked, sub_le_self_iff]
  exact and_iff_right zero_le_one

/-! ### Sizing against the engine's own capital -/

structure SizedSafely (engine : RiskEngine) (probability price stake : ℚ) : Prop where
  nonneg : 0 ≤ stake
  available : stake ≤ engine.availableCapital
  absolute : stake ≤ engine.limits.maxPositionUsdc
  fraction : stake ≤ max 0 engine.bankroll.balanceUsdc *
    min engine.limits.kellyHardCap engine.limits.maxPositionFraction
  noEdge : probability ≤ price → stake = 0
  reserve : 0 ≤ engine.bankroll.balanceUsdc →
    engine.limits.reservedCapitalFraction * engine.bankroll.balanceUsdc ≤ engine.bankroll.balanceUsdc - stake

section Engine
variable {engine : RiskEngine} {probability price uncertainty : ℚ}

theorem availableCapital_nonneg : 0 ≤ engine.availableCapital := le_max_left _ _

theorem availableCapital_funded (funded : 0 ≤ engine.bankroll.balanceUsdc) :
    engine.availableCapital =
      engine.bankroll.balanceUsdc - engine.bankroll.balanceUsdc * engine.limits.reservedCapitalFraction :=
  max_eq_right (sub_nonneg.mpr (mul_le_of_le_one_right funded engine.limits.reservedCapitalFraction_range.2))

theorem capLimit_nonneg : 0 ≤ min engine.limits.kellyHardCap engine.limits.maxPositionFraction :=
  le_min engine.limits.kellyHardCap_range.1.le engine.limits.maxPositionFraction_range.1.le

theorem sizedSafely_zero : SizedSafely engine probability price 0 where
  nonneg := le_rfl
  available := availableCapital_nonneg
  absolute := engine.limits.maxPositionUsdc_pos.le
  fraction := mul_nonneg (le_max_left _ _) capLimit_nonneg
  noEdge := fun _ => rfl
  reserve := by
    intro funded
    rw [sub_zero]
    exact mul_le_of_le_one_left funded engine.limits.reservedCapitalFraction_range.2

/-- The stake that the engine's own capital leaves of the applied fraction. -/
def ownStake (engine : RiskEngine) (applied : ℚ) : ℚ :=
  capitalClamp (min (engine.bankroll.balanceUsdc * applied) engine.limits.maxPositionUsdc)
    engine.availableCapital

theorem ownStake_zero : ownStake engine 0 = 0 := by
  rw [ownStake, mul_zero, min_eq_left engine.limits.maxPositionUsdc_pos.le,
    capitalClamp_of_nonneg availableCapital_nonneg, min_eq_left availableCapital_nonneg]

theorem ownStake_funded {applied : ℚ} (edge : price < probability) (funded : 0 ≤ engine.bankroll.balanceUsdc)
    (nonneg : 0 ≤ applied)
    (capped : applied ≤ min engine.limits.kellyHardCap engine.limits.maxPositionFraction) :
    SizedSafely engine probability price (ownStake engine applied) := by
  have clamped : ownStake engine applied =
      min (min (engine.bankroll.balanceUsdc * applied) engine.limits.maxPositionUsdc) engine.availableCapital :=
    capitalClamp_of_nonneg availableCapital_nonneg
  have deployed : ownStake engine applied ≤ engine.availableCapital := clamped ▸ min_le_right _ _
  have desired : ownStake engine applied ≤ min (engine.bankroll.balanceUsdc * applied) engine.limits.maxPositionUsdc :=
    clamped ▸ min_le_left _ _
  constructor
  case nonneg =>
    rw [clamped]
    exact le_min (desired_nonneg funded nonneg) availableCapital_nonneg
  case available => exact deployed
  case absolute => exact desired.trans (min_le_right _ _)
  case fraction =>
    calc ownStake engine applied
        ≤ engine.bankroll.balanceUsdc * applied := desired.trans (min_le_left _ _)
      _ ≤ _ := by rw [max_eq_right funded]; exact mul_le_mul_of_nonneg_left capped funded
  case noEdge => exact fun noEdge => absurd edge (not_lt.mpr noEdge)
  case reserve =>
    intro _
    rw [availableCapital_funded funded] at deployed
    linarith

/-- An overdrawn balance passes through all four clamps with its sign. -/
theorem ownStake_overdrawn {applied : ℚ} (overdrawn : engine.bankroll.balanceUsdc < 0) (positive : 0 < applied) :
    ownStake engine applied < 0 := by
  have negative : min (engine.bankroll.balanceUsdc * applied) engine.limits.maxPositionUsdc < 0 :=
    min_lt_of_left_lt (mul_neg_of_neg_of_pos overdrawn positive)
  rw [ownStake, capitalClamp_of_nonneg availableCapital_nonneg]
  exact min_lt_of_left_lt negative

/-- Every input is sized, and safely so exactly when the balance is not negative or nothing is staked
for want of an edge or of certainty. -/
theorem sized_safely_iff (engine : RiskEngine) (probability price uncertainty : ℚ)
    (range : InRange probability price) :
    ∃ result, sizePosition probability price uncertainty engine.bankroll.balanceUsdc engine.limits
        engine.availableCapital = .ok result ∧
      (SizedSafely engine probability price result.stakeUsdc ↔
        0 ≤ engine.bankroll.balanceUsdc ∨ probability ≤ price ∨ 1 ≤ uncertainty) := by
  rcases le_or_gt probability price with noEdge | edge
  · exact ⟨_, sizePosition_no_edge _ _ _ _ range noEdge, iff_of_true sizedSafely_zero (.inr (.inl noEdge))⟩
  · obtain ⟨result, sized, stake⟩ := sizePosition_edge uncertainty engine.bankroll.balanceUsdc
      engine.availableCapital engine.limits range edge
    refine ⟨result, sized, ?_⟩
    have raw := kelly_pos range edge
    rw [stake]
    constructor
    · intro safe
      by_contra violated
      simp only [not_or, not_le] at violated
      obtain ⟨overdrawn, _, certain⟩ := violated
      exact absurd safe.nonneg (not_le.mpr (ownStake_overdrawn overdrawn (appliedFraction_pos raw certain)))
    · rintro (funded | noEdge | total)
      · exact ownStake_funded edge funded (appliedFraction_nonneg raw) appliedFraction_le
      · exact absurd edge (not_lt.mpr noEdge)
      · rw [appliedFraction_total total]
        change SizedSafely engine probability price (ownStake engine 0)
        rw [ownStake_zero]
        exact sizedSafely_zero

theorem sized_safely_funded :
    ∃ result, sizePosition (95 / 100) (90 / 100) (1 / 100) 1000 .default 800 = .ok result ∧
      SizedSafely ⟨.default, ⟨1000, 1000⟩⟩ (95 / 100) (90 / 100) result.stakeUsdc := by
  obtain ⟨result, sized, safe⟩ := sized_safely_iff ⟨.default, ⟨1000, 1000⟩⟩ (95 / 100) (90 / 100) (1 / 100)
    ⟨by norm_num, by norm_num⟩
  have available : RiskEngine.availableCapital ⟨.default, ⟨1000, 1000⟩⟩ = 800 := by
    norm_num [RiskEngine.availableCapital, RiskLimits.default]
  exact ⟨result, available ▸ sized, safe.mpr (.inl (by norm_num))⟩

theorem overdrawn_stake_negative :
    InRange (95 / 100) (90 / 100) ∧
    ∃ result, sizePosition (95 / 100) (90 / 100) 0 (-100) .default
        (RiskEngine.availableCapital ⟨.default, ⟨-100, 0⟩⟩) = .ok result ∧
      result.stakeUsdc = -2 ∧
      ¬ SizedSafely ⟨.default, ⟨-100, 0⟩⟩ (95 / 100) (90 / 100) result.stakeUsdc := by
  refine ⟨⟨by norm_num, by norm_num⟩, ⟨-2, 1 / 2, 2 / 100, .maxPositionFraction⟩, by decide +kernel, rfl, ?_⟩
  intro safe
  exact absurd safe.nonneg (by norm_num)

end Engine

end DeepFlow.Risk
