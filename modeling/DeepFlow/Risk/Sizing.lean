import Mathlib.Algebra.Order.Field.Basic
import Mathlib.Tactic.Linarith
import DeepFlow.Config.Thresholds

/-!
# Position sizing

Capped fractional Kelly: the raw fraction is cut by the estimate's uncertainty, scaled down, and
then clamped by four caps in turn. The constraint reported is the last one that shrank the number.
-/

namespace DeepFlow.Risk
open DeepFlow.Config

inductive BindingConstraint where
  | noEdge | kellyUncertaintyHaircut | fractionalKelly | kellyHardCap | maxPositionFraction
  | maxPositionUsdc | availableCapital
  deriving DecidableEq, Repr

def BindingConstraint.value : BindingConstraint → String
  | noEdge => "no_edge"
  | kellyUncertaintyHaircut => "kelly_uncertainty_haircut"
  | fractionalKelly => "fractional_kelly"
  | kellyHardCap => "kelly_hard_cap"
  | maxPositionFraction => "max_position_fraction"
  | maxPositionUsdc => "max_position_usdc"
  | availableCapital => "available_capital"

structure SizingResult where
  stakeUsdc : ℚ
  kellyFractionRaw : ℚ
  kellyFractionApplied : ℚ
  bindingConstraint : BindingConstraint
  deriving DecidableEq, Repr

/-- The `ValueError` of an input out of range: its text and the value it reports. -/
structure RangeError where
  message : String
  got : ℚ
  deriving DecidableEq, Repr

def kellyFraction (probability price : ℚ) : Except RangeError ℚ :=
  if ¬ (0 < price ∧ price < 1) then .error ⟨"price must be in (0, 1), got ", price⟩
  else if ¬ (0 ≤ probability ∧ probability ≤ 1) then
    .error ⟨"probability must be in [0, 1], got ", probability⟩
  else
    let edge := probability - price
    .ok (if edge ≤ 0 then 0 else edge / (1 - price))

/-- `if running > bound: running = bound; constraint = name`. -/
def clamp (bound : ℚ) (name : BindingConstraint) (running : ℚ × BindingConstraint) :
    ℚ × BindingConstraint :=
  if running.1 > bound then (bound, name) else running

def sizePosition (probability price uncertainty bankroll : ℚ) (limits : RiskLimits)
    (availableCapital : ℚ) : Except RangeError SizingResult :=
  match kellyFraction probability price with
  | .error error => .error error
  | .ok raw =>
    if raw ≤ 0 then .ok ⟨0, raw, 0, .noEdge⟩
    else
      let haircut := max 0 (1 - uncertainty)
      let applied := raw * haircut
      let scaled := applied * limits.kellyFraction
      let constraint :=
        if scaled < applied then BindingConstraint.fractionalKelly else .kellyUncertaintyHaircut
      let fraction := clamp limits.maxPositionFraction .maxPositionFraction
        (clamp limits.kellyHardCap .kellyHardCap (scaled, constraint))
      let stake := clamp limits.maxPositionUsdc .maxPositionUsdc (bankroll * fraction.1, fraction.2)
      -- Only this clamp also stops at zero.
      let stake :=
        if stake.1 > availableCapital then (max 0 availableCapital, .availableCapital) else stake
      .ok ⟨stake.1, raw, fraction.1, stake.2⟩

/-! ### The chain of clamps -/

section Chain
variable {probability price uncertainty availableCapital : ℚ} {limits : RiskLimits}

theorem clamp_fst (bound : ℚ) (name : BindingConstraint) (running : ℚ × BindingConstraint) :
    (clamp bound name running).1 = min running.1 bound := by
  unfold clamp
  split
  · next above => exact (min_eq_right above.le).symm
  · next below => exact (min_eq_left (not_lt.mp below)).symm

def InRange (probability price : ℚ) : Prop :=
  (0 < price ∧ price < 1) ∧ 0 ≤ probability ∧ probability ≤ 1

theorem kellyFraction_no_edge (range : InRange probability price) (noEdge : probability ≤ price) :
    kellyFraction probability price = .ok 0 := by
  simp [kellyFraction, range.1, range.2, noEdge]

theorem kellyFraction_edge (range : InRange probability price) (edge : price < probability) :
    kellyFraction probability price = .ok ((probability - price) / (1 - price)) := by
  simp [kellyFraction, range.1, range.2, edge]

theorem kelly_pos (range : InRange probability price) (edge : price < probability) :
    0 < (probability - price) / (1 - price) :=
  div_pos (sub_pos.mpr edge) (sub_pos.mpr range.1.2)

/-- The fraction of the bankroll after the Kelly steps and the two fraction caps. -/
def appliedFraction (raw uncertainty : ℚ) (limits : RiskLimits) : ℚ :=
  min (min (raw * max 0 (1 - uncertainty) * limits.kellyFraction) limits.kellyHardCap)
    limits.maxPositionFraction

def capitalClamp (stake availableCapital : ℚ) : ℚ :=
  if stake > availableCapital then max 0 availableCapital else stake

theorem capitalClamp_fst (running : ℚ × BindingConstraint) :
    (if running.1 > availableCapital then (max 0 availableCapital, .availableCapital) else running).1 =
      capitalClamp running.1 availableCapital := by
  unfold capitalClamp
  split <;> rfl

theorem sizePosition_no_edge (uncertainty bankroll availableCapital : ℚ) (limits : RiskLimits)
    (range : InRange probability price) (noEdge : probability ≤ price) :
    sizePosition probability price uncertainty bankroll limits availableCapital =
      .ok ⟨0, 0, 0, .noEdge⟩ := by
  simp [sizePosition, kellyFraction_no_edge range noEdge]

theorem sizePosition_edge (uncertainty bankroll availableCapital : ℚ) (limits : RiskLimits)
    (range : InRange probability price) (edge : price < probability) :
    ∃ result, sizePosition probability price uncertainty bankroll limits availableCapital = .ok result ∧
      result.stakeUsdc = capitalClamp
        (min (bankroll * appliedFraction ((probability - price) / (1 - price)) uncertainty limits)
          limits.maxPositionUsdc) availableCapital := by
  have positive := not_le.mpr (kelly_pos range edge)
  simp only [sizePosition, kellyFraction_edge range edge, if_neg positive]
  exact ⟨_, rfl, (capitalClamp_fst _).trans (by simp only [clamp_fst, appliedFraction])⟩

theorem appliedFraction_nonneg {raw : ℚ} (positive : 0 < raw) : 0 ≤ appliedFraction raw uncertainty limits :=
  le_min (le_min (mul_nonneg (mul_nonneg positive.le (le_max_left _ _)) limits.kellyFraction_range.1.le)
    limits.kellyHardCap_range.1.le) limits.maxPositionFraction_range.1.le

theorem desired_nonneg {bankroll applied : ℚ} (funded : 0 ≤ bankroll) (nonneg : 0 ≤ applied) :
    0 ≤ min (bankroll * applied) limits.maxPositionUsdc :=
  le_min (mul_nonneg funded nonneg) limits.maxPositionUsdc_pos.le

theorem appliedFraction_pos {raw : ℚ} (positive : 0 < raw) (certain : uncertainty < 1) :
    0 < appliedFraction raw uncertainty limits :=
  lt_min (lt_min (mul_pos (mul_pos positive (lt_max_of_lt_right (sub_pos.mpr certain)))
    limits.kellyFraction_range.1) limits.kellyHardCap_range.1) limits.maxPositionFraction_range.1

theorem appliedFraction_total {raw : ℚ} (total : 1 ≤ uncertainty) :
    appliedFraction raw uncertainty limits = 0 := by
  rw [appliedFraction, max_eq_left (sub_nonpos.mpr total), mul_zero, zero_mul,
    min_eq_left limits.kellyHardCap_range.1.le, min_eq_left limits.maxPositionFraction_range.1.le]

theorem appliedFraction_le {raw : ℚ} :
    appliedFraction raw uncertainty limits ≤ min limits.kellyHardCap limits.maxPositionFraction :=
  min_le_min_right _ (min_le_right _ _)

theorem appliedFraction_le_raw {raw : ℚ} (positive : 0 < raw) (nonneg : 0 ≤ uncertainty) :
    appliedFraction raw uncertainty limits ≤ raw := by
  have haircut : max 0 (1 - uncertainty) ≤ 1 := max_le zero_le_one (by linarith)
  have haircutNonneg : 0 ≤ max 0 (1 - uncertainty) := le_max_left _ _
  calc appliedFraction raw uncertainty limits
      ≤ raw * max 0 (1 - uncertainty) * limits.kellyFraction := (min_le_left _ _).trans (min_le_left _ _)
    _ ≤ raw * max 0 (1 - uncertainty) :=
      mul_le_of_le_one_right (mul_nonneg positive.le haircutNonneg) limits.kellyFraction_range.2
    _ ≤ raw := mul_le_of_le_one_right positive.le haircut

theorem capitalClamp_le {stake : ℚ} (nonneg : 0 ≤ stake) : capitalClamp stake availableCapital ≤ stake := by
  unfold capitalClamp
  split
  · next above => exact max_le nonneg above.le
  · exact le_rfl

theorem capitalClamp_eq {stake : ℚ} (nonneg : 0 ≤ stake) :
    capitalClamp stake availableCapital = min stake (max 0 availableCapital) := by
  unfold capitalClamp
  split
  · next above => exact (min_eq_right (max_le nonneg above.le)).symm
  · next below => exact (min_eq_left ((not_lt.mp below).trans (le_max_right _ _))).symm

theorem capitalClamp_of_nonneg {stake : ℚ} (funded : 0 ≤ availableCapital) :
    capitalClamp stake availableCapital = min stake availableCapital := by
  unfold capitalClamp
  split
  · next above => rw [max_eq_right funded, min_eq_right above.le]
  · next below => rw [min_eq_left (not_lt.mp below)]

end Chain

end DeepFlow.Risk
