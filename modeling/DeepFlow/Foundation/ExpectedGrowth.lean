import Mathlib
import DeepFlow.Foundation.LogGrowth

/-!
# Expected log growth

`marginalGrowth` is the derivative of expected log growth, so growth rises up to the optimal share
and falls beyond it. A bet that is certain to be won has its optimum at the whole capital, where no
derivative exists; there growth is the logarithm alone.
-/

namespace Foundation
open Set

noncomputable def expectedGrowth (win odds share : ℝ) : ℝ :=
  win * Real.log (1 + odds * share) + (1 - win) * Real.log (1 - share)

variable {win odds share share' : ℝ}

@[simp] theorem expectedGrowth_zero : expectedGrowth win odds 0 = 0 := by simp [expectedGrowth]

theorem expectedGrowth_certain : expectedGrowth 1 odds share = Real.log (1 + odds * share) := by simp [expectedGrowth]

theorem optimalShare_lt_one (positive : 0 < odds) (chance : win < 1) : optimalShare win odds < 1 := by
  rw [optimalShare, div_lt_one positive]
  nlinarith

theorem hasDerivAt_expectedGrowth (positive : 0 < odds) (nonneg : 0 ≤ share) (below : share < 1) :
    HasDerivAt (expectedGrowth win odds) (marginalGrowth win odds share) share := by
  have gain : 1 + odds * share ≠ 0 := by positivity
  have loss : 1 - share ≠ 0 := (sub_pos.mpr below).ne'
  have won : HasDerivAt (fun f => Real.log (1 + odds * f)) (odds / (1 + odds * share)) share := by
    have linear : HasDerivAt (fun f => 1 + odds * f) odds share := by
      simpa using ((hasDerivAt_id share).const_mul odds).const_add 1
    exact linear.log gain
  have lost : HasDerivAt (fun f => Real.log (1 - f)) (-1 / (1 - share)) share :=
    ((hasDerivAt_id share).const_sub 1).log loss
  refine ((won.const_mul win).add (lost.const_mul (1 - win))).congr_deriv ?_
  unfold marginalGrowth
  ring

theorem continuousOn_expectedGrowth (positive : 0 < odds) {shares : Set ℝ} (inside : shares ⊆ Ico 0 1) :
    ContinuousOn (expectedGrowth win odds) shares := fun _ member =>
  (hasDerivAt_expectedGrowth positive (inside member).1 (inside member).2).continuousAt.continuousWithinAt

/-- Short of a certain win, growth rises up to the optimal share. -/
theorem expectedGrowth_rises (positive : 0 < odds) (chance : win < 1) :
    StrictMonoOn (expectedGrowth win odds) (Icc 0 (optimalShare win odds)) := by
  have below : optimalShare win odds < 1 := optimalShare_lt_one positive chance
  have inside : Icc 0 (optimalShare win odds) ⊆ Ico 0 1 := Icc_subset_Ico_right below
  refine strictMonoOn_of_deriv_pos (convex_Icc ..) (continuousOn_expectedGrowth positive inside) ?_
  intro share member
  rw [interior_Icc] at member
  have less : share < 1 := member.2.trans below
  rw [(hasDerivAt_expectedGrowth positive member.1.le less).deriv]
  exact (marginalGrowth_pos_iff positive member.1.le less).mpr member.2

/-- It falls from there on; without an edge it falls from the start. -/
theorem expectedGrowth_falls (positive : 0 < odds) :
    StrictAntiOn (expectedGrowth win odds) (Ico (max 0 (optimalShare win odds)) 1) := by
  have inside : Ico (max 0 (optimalShare win odds)) 1 ⊆ Ico 0 1 := Ico_subset_Ico_left (le_max_left _ _)
  refine strictAntiOn_of_deriv_neg (convex_Ico ..) (continuousOn_expectedGrowth positive inside) ?_
  intro share member
  rw [interior_Ico] at member
  have nonneg : 0 ≤ share := (le_max_left _ _).trans member.1.le
  rw [(hasDerivAt_expectedGrowth positive nonneg member.2).deriv]
  exact (marginalGrowth_neg_iff positive nonneg member.2).mpr ((le_max_right _ _).trans_lt member.1)

theorem certain_rises (positive : 0 < odds) (nonneg : 0 ≤ share) (less : share < share') :
    expectedGrowth 1 odds share < expectedGrowth 1 odds share' := by
  rw [expectedGrowth_certain, expectedGrowth_certain]
  apply Real.log_lt_log
  · positivity
  · linarith [mul_lt_mul_of_pos_left less positive]

/-- Growth rises with the share as long as the share stays below the optimum. -/
theorem expectedGrowth_lt (positive : 0 < odds) (chance : win ≤ 1) (nonneg : 0 ≤ share) (less : share < share')
    (below : share' ≤ optimalShare win odds) : expectedGrowth win odds share < expectedGrowth win odds share' := by
  rcases chance.lt_or_eq with uncertain | rfl
  · exact expectedGrowth_rises positive uncertain ⟨nonneg, less.le.trans below⟩ ⟨nonneg.trans less.le, below⟩ less
  · exact certain_rises positive nonneg less

theorem expectedGrowth_le (positive : 0 < odds) (chance : win ≤ 1) (nonneg : 0 ≤ share) (less : share ≤ share')
    (below : share' ≤ optimalShare win odds) : expectedGrowth win odds share ≤ expectedGrowth win odds share' := by
  rcases less.lt_or_eq with strict | rfl
  · exact (expectedGrowth_lt positive chance nonneg strict below).le
  · exact le_rfl

/-- The optimal share, or nothing when it is negative, is the one that growth is largest at. -/
theorem expectedGrowth_maximal (positive : 0 < odds) (chance : win ≤ 1) (nonneg : 0 ≤ share) (below : share < 1)
    (other : share ≠ max 0 (optimalShare win odds)) :
    expectedGrowth win odds share < expectedGrowth win odds (max 0 (optimalShare win odds)) := by
  rcases other.lt_or_gt with less | more
  · have optimum : 0 < optimalShare win odds :=
      nonneg.trans_lt ((lt_max_iff.mp less).resolve_left (not_lt.mpr nonneg))
    rw [max_eq_right optimum.le] at less ⊢
    exact expectedGrowth_lt positive chance nonneg less le_rfl
  · exact expectedGrowth_falls positive ⟨le_rfl, more.trans below⟩ ⟨more.le, below⟩ more

end Foundation
