import Mathlib.Algebra.Order.Field.Basic
import Mathlib.Tactic.FieldSimp
import Mathlib.Tactic.Linarith
import Mathlib.Tactic.Positivity
import Mathlib.Tactic.Ring

/-!
# Marginal log growth

A bet wins `odds` times its stake with chance `win` and loses the stake otherwise. Staking the
share `f` of the capital has expected log growth `win * log (1 + odds * f) + (1 - win) * log (1 - f)`;
its derivative in `f` is rational, and its sign is that of the distance to the one share where the
numerator vanishes.
-/

namespace Foundation

variable {K : Type*} [Field K]

def marginalGrowth (win odds share : K) : K := win * odds / (1 + odds * share) - (1 - win) / (1 - share)

def optimalShare (win odds : K) : K := (win * odds - (1 - win)) / odds

variable {win odds share : K}

theorem marginal_numerator (nonzero : odds ≠ 0) :
    win * odds * (1 - share) - (1 - win) * (1 + odds * share) = odds * (optimalShare win odds - share) := by
  have closed : odds * optimalShare win odds = win * odds - (1 - win) := by
    unfold optimalShare
    field_simp
  rw [mul_sub odds, closed]
  ring

variable [LinearOrder K] [IsStrictOrderedRing K]

theorem growing_iff (positive : 0 < odds) :
    (1 - win) * (1 + odds * share) ≤ win * odds * (1 - share) ↔ share ≤ optimalShare win odds := by
  rw [← sub_nonneg, marginal_numerator positive.ne', mul_nonneg_iff_of_pos_left positive, sub_nonneg]

section Sign

theorem marginal_denominator_pos (positive : 0 < odds) (nonneg : 0 ≤ share) (below : share < 1) :
    0 < (1 + odds * share) * (1 - share) := by
  have gain : 0 < 1 + odds * share := by positivity
  have loss : 0 < 1 - share := sub_pos.mpr below
  exact mul_pos gain loss

theorem marginalGrowth_eq (positive : 0 < odds) (nonneg : 0 ≤ share) (below : share < 1) :
    marginalGrowth win odds share =
      odds * (optimalShare win odds - share) / ((1 + odds * share) * (1 - share)) := by
  have gain : 1 + odds * share ≠ 0 := by positivity
  have loss : 1 - share ≠ 0 := (sub_pos.mpr below).ne'
  unfold marginalGrowth
  rw [div_sub_div _ _ gain loss, ← marginal_numerator positive.ne']
  ring

theorem marginalGrowth_pos_iff (positive : 0 < odds) (nonneg : 0 ≤ share) (below : share < 1) :
    0 < marginalGrowth win odds share ↔ share < optimalShare win odds := by
  have denominator := marginal_denominator_pos positive nonneg below
  rw [marginalGrowth_eq positive nonneg below, div_pos_iff_of_pos_right denominator,
    mul_pos_iff_of_pos_left positive, sub_pos]

theorem marginalGrowth_eq_zero_iff (positive : 0 < odds) (nonneg : 0 ≤ share) (below : share < 1) :
    marginalGrowth win odds share = 0 ↔ share = optimalShare win odds := by
  have denominator := marginal_denominator_pos positive nonneg below
  rw [marginalGrowth_eq positive nonneg below, div_eq_zero_iff, or_iff_left denominator.ne',
    mul_eq_zero, or_iff_right positive.ne', sub_eq_zero, eq_comm]

theorem marginalGrowth_neg_iff (positive : 0 < odds) (nonneg : 0 ≤ share) (below : share < 1) :
    marginalGrowth win odds share < 0 ↔ optimalShare win odds < share := by
  have rising : 0 < marginalGrowth win odds share ↔ _ := marginalGrowth_pos_iff positive nonneg below
  have flat : marginalGrowth win odds share = 0 ↔ _ := marginalGrowth_eq_zero_iff positive nonneg below
  rw [← not_le, ← not_le, le_iff_lt_or_eq, le_iff_lt_or_eq, rising, ← flat, @eq_comm K 0]

end Sign

end Foundation
