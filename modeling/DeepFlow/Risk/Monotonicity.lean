import DeepFlow.Risk.Binding

/-!
# Sizing is monotone

A better opportunity, a larger bankroll or a looser limit never makes `sizePosition` stake less.
Clamps may fire for one of the two inputs and not for the other, so the comparison is made step by
step along the chain.
-/

namespace DeepFlow.Risk
open DeepFlow.Config Foundation

variable {probability price uncertainty bankroll availableCapital : ℚ} {limits : RiskLimits}

/-- The arguments of `sizePosition`. -/
structure SizingInput where
  probability : ℚ
  price : ℚ
  uncertainty : ℚ
  bankroll : ℚ
  limits : RiskLimits
  availableCapital : ℚ

def SizingInput.size (input : SizingInput) : Except RangeError SizingResult :=
  sizePosition input.probability input.price input.uncertainty input.bankroll input.limits input.availableCapital

/-- No argument is worse. In particular one of them may be better and the others the same. -/
structure NoWorse (input input' : SizingInput) : Prop where
  probability : input.probability ≤ input'.probability
  price : input'.price ≤ input.price
  uncertainty : input'.uncertainty ≤ input.uncertainty
  bankroll : input.bankroll ≤ input'.bankroll
  availableCapital : input.availableCapital ≤ input'.availableCapital
  kellyFraction : input.limits.kellyFraction ≤ input'.limits.kellyFraction
  kellyHardCap : input.limits.kellyHardCap ≤ input'.limits.kellyHardCap
  maxPositionFraction : input.limits.maxPositionFraction ≤ input'.limits.maxPositionFraction
  maxPositionUsdc : input.limits.maxPositionUsdc ≤ input'.limits.maxPositionUsdc

theorem kelly_mono {probability' price' : ℚ} (range : InRange probability price)
    (range' : InRange probability' price') (likelier : probability ≤ probability') (cheaper : price' ≤ price) :
    (probability - price) / (1 - price) ≤ (probability' - price') / (1 - price') := by
  have gain : 0 < 1 - price := sub_pos.mpr range.1.2
  have gain' : 0 < 1 - price' := sub_pos.mpr range'.1.2
  -- What is left of the whole is the chance of a loss over the gain, and price moves both one way.
  have rest : (1 - probability') / (1 - price') ≤ (1 - probability) / (1 - price) :=
    div_le_div₀ (sub_nonneg.mpr range.2.2) (sub_le_sub_left likelier 1) gain (sub_le_sub_left cheaper 1)
  calc (probability - price) / (1 - price)
      = 1 - (1 - probability) / (1 - price) := by
        rw [eq_sub_iff_add_eq, ← add_div, sub_add_sub_cancel', div_self gain.ne']
    _ ≤ 1 - (1 - probability') / (1 - price') := sub_le_sub_left rest 1
    _ = (probability' - price') / (1 - price') := by
        rw [sub_eq_iff_eq_add, ← add_div, sub_add_sub_cancel', div_self gain'.ne']

/-- Where the chain starts. -/
def scaledKelly (raw uncertainty : ℚ) (limits : RiskLimits) : ℚ :=
  raw * max 0 (1 - uncertainty) * limits.kellyFraction

theorem scaledKelly_nonneg {raw : ℚ} (positive : 0 ≤ raw) : 0 ≤ scaledKelly raw uncertainty limits :=
  mul_nonneg (mul_nonneg positive (le_max_left _ _)) limits.kellyFraction_range.1.le

theorem scaledKelly_mono {raw raw' uncertainty' : ℚ} {limits' : RiskLimits} (positive : 0 ≤ raw) (larger : raw ≤ raw')
    (surer : uncertainty' ≤ uncertainty) (looser : limits.kellyFraction ≤ limits'.kellyFraction) :
    scaledKelly raw uncertainty limits ≤ scaledKelly raw' uncertainty' limits' := by
  have haircut : max 0 (1 - uncertainty) ≤ max 0 (1 - uncertainty') := max_le_max_left 0 (sub_le_sub_left surer 1)
  have haircutNonneg : 0 ≤ max 0 (1 - uncertainty) := le_max_left _ _
  have positive' : 0 ≤ raw' * max 0 (1 - uncertainty') := mul_nonneg (positive.trans larger) (le_max_left _ _)
  exact mul_le_mul (mul_le_mul larger haircut haircutNonneg (positive.trans larger)) looser
    limits.kellyFraction_range.1.le positive'

theorem sizingChain_nonneg (funded : 0 ≤ bankroll) :
    ∀ step ∈ sizingChain bankroll limits (max 0 availableCapital), step.Nonneg := by
  simp only [sizingChain, List.forall_mem_cons]
  exact ⟨limits.kellyHardCap_range.1.le, limits.maxPositionFraction_range.1.le, funded, limits.maxPositionUsdc_pos.le,
    le_max_left _ _, List.forall_mem_nil _⟩

/-- With capital that may be negative the last clamp is at zero. -/
theorem sizePosition_runChain (uncertainty availableCapital : ℚ) (limits : RiskLimits)
    (range : InRange probability price) (edge : price < probability) (funded : 0 ≤ bankroll)
    (name : BindingConstraint) :
    ∃ result, sizePosition probability price uncertainty bankroll limits availableCapital = .ok result ∧
      result.stakeUsdc = (runChain (sizingChain bankroll limits (max 0 availableCapital))
        (scaledKelly ((probability - price) / (1 - price)) uncertainty limits, name)).1 := by
  obtain ⟨result, sized, stake⟩ := sizePosition_edge uncertainty bankroll availableCapital limits range edge
  have desired : 0 ≤ min (bankroll * appliedFraction ((probability - price) / (1 - price)) uncertainty limits)
      limits.maxPositionUsdc := desired_nonneg funded (appliedFraction_nonneg (kelly_pos range edge))
  refine ⟨result, sized, ?_⟩
  rw [stake, capitalClamp_eq desired, runChain_fst]
  rfl

/-- A sizing with better arguments never stakes less. -/
theorem sizing_monotone (input input' : SizingInput) (range : InRange input.probability input.price)
    (range' : InRange input'.probability input'.price) (funded : 0 ≤ input.bankroll) (improved : NoWorse input input') :
    ∃ result result', input.size = .ok result ∧ input'.size = .ok result' ∧ result.stakeUsdc ≤ result'.stakeUsdc := by
  have funded' : 0 ≤ input'.bankroll := funded.trans improved.bankroll
  rcases le_or_gt input.probability input.price with noEdge | edge
  · have sized := sizePosition_no_edge input.uncertainty input.bankroll input.availableCapital input.limits range noEdge
    -- Nothing was staked, and no stake is negative.
    rcases le_or_gt input'.probability input'.price with noEdge' | edge'
    · exact ⟨_, _, sized, sizePosition_no_edge _ _ _ _ range' noEdge', le_rfl⟩
    · obtain ⟨result', sized', stake'⟩ := sizePosition_runChain input'.uncertainty input'.availableCapital
        input'.limits range' edge' funded' .noEdge
      refine ⟨_, result', sized, sized', ?_⟩
      rw [stake']
      exact runChain_nonneg (sizingChain_nonneg funded') (scaledKelly_nonneg (kelly_pos range' edge').le)
  · have edge' : input'.price < input'.probability := (improved.price.trans_lt edge).trans_le improved.probability
    obtain ⟨result, sized, stake⟩ := sizePosition_runChain input.uncertainty input.availableCapital
      input.limits range edge funded .noEdge
    obtain ⟨result', sized', stake'⟩ := sizePosition_runChain input'.uncertainty input'.availableCapital
      input'.limits range' edge' funded' .noEdge
    have raw := (kelly_pos range edge).le
    refine ⟨result, result', sized, sized', ?_⟩
    rw [stake, stake']
    apply runChain_looser _ (sizingChain_nonneg funded) (scaledKelly_nonneg raw)
    · exact scaledKelly_mono raw (kelly_mono range range' improved.probability improved.price)
        improved.uncertainty improved.kellyFraction
    · exact .cons (.clamp improved.kellyHardCap _ _) (.cons (.clamp improved.maxPositionFraction _ _)
        (.cons (.rescale improved.bankroll) (.cons (.clamp improved.maxPositionUsdc _ _)
          (.cons (.clamp (max_le_max_left 0 improved.availableCapital) _ _) .nil))))

/-- A dearer price takes the edge away, and with it the stake. -/
theorem sizing_monotone_dearer :
    ∃ result result',
      SizingInput.size ⟨95 / 100, 96 / 100, 1 / 100, 1000, .default, 800⟩ = .ok result ∧
      SizingInput.size ⟨95 / 100, 90 / 100, 1 / 100, 1000, .default, 800⟩ = .ok result' ∧
      result.stakeUsdc ≤ result'.stakeUsdc :=
  sizing_monotone ⟨95 / 100, 96 / 100, 1 / 100, 1000, .default, 800⟩
    ⟨95 / 100, 90 / 100, 1 / 100, 1000, .default, 800⟩ ⟨by norm_num, by norm_num⟩ ⟨by norm_num, by norm_num⟩
    (by norm_num) ⟨by norm_num, by norm_num, by norm_num, by norm_num, by norm_num, le_rfl, le_rfl, le_rfl, le_rfl⟩

end DeepFlow.Risk
