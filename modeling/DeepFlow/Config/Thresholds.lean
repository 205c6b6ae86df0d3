import Mathlib.Algebra.Order.Ring.Rat
import Mathlib.Tactic.NormNum

/-!
Risk limits. A `Decimal` is modelled by the rational it denotes, and the range checks of a field
are fields of the structure, so that every `RiskLimits` is one its validators accept.
-/

namespace DeepFlow.Config

structure RiskLimits where
  maxPositionUsdc : ℚ := 500
  maxPositionUsdc_pos : 0 < maxPositionUsdc := by norm_num
  maxPositionFraction : ℚ := 2 / 100
  maxPositionFraction_range : 0 < maxPositionFraction ∧ maxPositionFraction ≤ 1 := by norm_num
  reservedCapitalFraction : ℚ := 20 / 100
  reservedCapitalFraction_range : 0 ≤ reservedCapitalFraction ∧ reservedCapitalFraction ≤ 1 := by norm_num
  kellyFraction : ℚ := 25 / 100
  kellyFraction_range : 0 < kellyFraction ∧ kellyFraction ≤ 1 := by norm_num
  kellyHardCap : ℚ := 5 / 100
  kellyHardCap_range : 0 < kellyHardCap ∧ kellyHardCap ≤ 1 := by norm_num

def RiskLimits.default : RiskLimits := {}

end DeepFlow.Config
