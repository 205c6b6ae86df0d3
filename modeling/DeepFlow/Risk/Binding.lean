import DeepFlow.Foundation.ClampChain
import DeepFlow.Risk.Sizing
import Mathlib.Tactic.Ring

/-!
# The binding constraint

`sizePosition` is a chain of named clamps with a change of unit, from a share of the bankroll to
USDC, in the middle. The stake is the least of the bounds and the name says which one set it.
-/

namespace DeepFlow.Risk
open DeepFlow.Config Foundation

variable {probability price uncertainty bankroll availableCapital : ℚ} {limits : RiskLimits}

def ownBound (raw uncertainty bankroll : ℚ) (limits : RiskLimits) (availableCapital : ℚ) :
    BindingConstraint → ℚ
  | .noEdge => 0
  | .kellyUncertaintyHaircut => bankroll * raw * (1 - uncertainty)
  | .fractionalKelly => bankroll * raw * (1 - uncertainty) * limits.kellyFraction
  | .kellyHardCap => bankroll * limits.kellyHardCap
  | .maxPositionFraction => bankroll * limits.maxPositionFraction
  | .maxPositionUsdc => limits.maxPositionUsdc
  | .availableCapital => availableCapital

/-- The running value before and after each step, in the order that `sizePosition` documents. -/
def sizingTrace (raw uncertainty bankroll : ℚ) (limits : RiskLimits) (availableCapital : ℚ) :
    List (BindingConstraint × ℚ × ℚ) :=
  let applied := raw * (1 - uncertainty)
  let scaled := applied * limits.kellyFraction
  let capped := min scaled limits.kellyHardCap
  let fraction := min capped limits.maxPositionFraction
  let stake := min (bankroll * fraction) limits.maxPositionUsdc
  [(.kellyUncertaintyHaircut, raw, applied), (.fractionalKelly, applied, scaled),
    (.kellyHardCap, scaled, capped), (.maxPositionFraction, capped, fraction),
    (.maxPositionUsdc, bankroll * fraction, stake), (.availableCapital, stake, min stake availableCapital)]

/-- One of the four caps is raised and everything else stays. -/
inductive Raised (limits : RiskLimits) (availableCapital : ℚ) :
    BindingConstraint → RiskLimits → ℚ → Prop where
  | kellyHardCap (higher : ℚ) (raised : limits.kellyHardCap ≤ higher) (valid : 0 < higher ∧ higher ≤ 1) :
      Raised limits availableCapital .kellyHardCap
        { limits with kellyHardCap := higher, kellyHardCap_range := valid } availableCapital
  | maxPositionFraction (higher : ℚ) (raised : limits.maxPositionFraction ≤ higher)
      (valid : 0 < higher ∧ higher ≤ 1) :
      Raised limits availableCapital .maxPositionFraction
        { limits with maxPositionFraction := higher, maxPositionFraction_range := valid } availableCapital
  | maxPositionUsdc (higher : ℚ) (raised : limits.maxPositionUsdc ≤ higher) (valid : 0 < higher) :
      Raised limits availableCapital .maxPositionUsdc
        { limits with maxPositionUsdc := higher, maxPositionUsdc_pos := valid } availableCapital
  | availableCapital (higher : ℚ) (raised : availableCapital ≤ higher) :
      Raised limits availableCapital .availableCapital limits higher

def sizingChain (bankroll : ℚ) (limits : RiskLimits) (availableCapital : ℚ) :
    List (ClampStep ℚ BindingConstraint) :=
  [.clamp limits.kellyHardCap .kellyHardCap, .clamp limits.maxPositionFraction .maxPositionFraction,
    .rescale bankroll, .clamp limits.maxPositionUsdc .maxPositionUsdc,
    .clamp availableCapital .availableCapital]

def kellySteps (raw uncertainty : ℚ) (limits : RiskLimits) : ℚ × BindingConstraint :=
  let applied := raw * (1 - uncertainty)
  let scaled := applied * limits.kellyFraction
  (scaled, if scaled < applied then .fractionalKelly else .kellyUncertaintyHaircut)

theorem sizePosition_chain (bankroll : ℚ) (limits : RiskLimits) (range : InRange probability price)
    (edge : price < probability) (certain : uncertainty ≤ 1) (capital : 0 ≤ availableCapital) :
    ∃ result, sizePosition probability price uncertainty bankroll limits availableCapital = .ok result ∧
      (result.stakeUsdc, result.bindingConstraint) =
        runChain (sizingChain bankroll limits availableCapital)
          (kellySteps ((probability - price) / (1 - price)) uncertainty limits) := by
  have positive := not_le.mpr (kelly_pos range edge)
  have haircut : max 0 (1 - uncertainty) = 1 - uncertainty := max_eq_right (sub_nonneg.mpr certain)
  have deployed : max 0 availableCapital = availableCapital := max_eq_right capital
  simp only [sizePosition, kellyFraction_edge range edge, if_neg positive, haircut, deployed]
  exact ⟨_, rfl, rfl⟩

theorem kellySteps_reduce (limits : RiskLimits) {raw : ℚ} (positive : 0 ≤ raw)
    (certain : 0 ≤ uncertainty ∧ uncertainty ≤ 1) :
    raw * (1 - uncertainty) ≤ raw ∧
      raw * (1 - uncertainty) * limits.kellyFraction ≤ raw * (1 - uncertainty) := by
  have haircut : 0 ≤ 1 - uncertainty := sub_nonneg.mpr certain.2
  have shrinks : 1 - uncertainty ≤ 1 := sub_le_self 1 certain.1
  exact ⟨mul_le_of_le_one_right positive shrinks,
    mul_le_of_le_one_right (mul_nonneg positive haircut) limits.kellyFraction_range.2⟩

theorem chain_stake (raw : ℚ) (funded : 0 ≤ bankroll) :
    (runChain (sizingChain bankroll limits availableCapital) (kellySteps raw uncertainty limits)).1 =
      min (bankroll * raw * (1 - uncertainty) * limits.kellyFraction)
        (min (bankroll * limits.kellyHardCap) (min (bankroll * limits.maxPositionFraction)
          (min limits.maxPositionUsdc availableCapital))) := by
  rw [runChain_fst]
  simp only [sizingChain, kellySteps, List.foldl_cons, List.foldl_nil, ClampStep.value,
    mul_min_of_nonneg _ _ funded, min_assoc, mul_assoc]

theorem chain_name (raw : ℚ) :
    (runChain (sizingChain bankroll limits availableCapital) (kellySteps raw uncertainty limits)).2 =
      lastReducing .kellyUncertaintyHaircut (sizingTrace raw uncertainty bankroll limits availableCapital) := by
  rw [runChain_snd, sizingTrace, lastReducing_cons, lastReducing_cons, ite_self]
  rfl

theorem chain_own {raw stake : ℚ} {name : BindingConstraint} (nonneg : 0 ≤ raw)
    (certain : 0 ≤ uncertainty ∧ uncertainty ≤ 1)
    (sized : runChain (sizingChain bankroll limits availableCapital) (kellySteps raw uncertainty limits) =
      (stake, name)) :
    ownBound raw uncertainty bankroll limits availableCapital name = stake := by
  have unit : chainUnit (sizingChain bankroll limits availableCapital) = bankroll := by
    simp only [sizingChain, chainUnit, one_mul]
  have scaled := (kellySteps_reduce limits nonneg certain).2
  rcases runChain_named (sizingChain bankroll limits availableCapital)
    (kellySteps raw uncertainty limits) with same | named
  · obtain ⟨rfl, rfl⟩ := Prod.mk.inj (sized.symm.trans same)
    rw [unit]
    show ownBound _ _ _ _ _ (if raw * (1 - uncertainty) * limits.kellyFraction < raw * (1 - uncertainty)
      then .fractionalKelly else .kellyUncertaintyHaircut) =
        bankroll * (raw * (1 - uncertainty) * limits.kellyFraction)
    split
    · unfold ownBound
      ring
    · next unscaled =>
      rw [le_antisymm scaled (not_lt.mp unscaled), ownBound, mul_assoc]
  · rw [sized] at named
    simp only [sizingChain, chainBounds, chainUnit, one_mul, List.mem_cons, List.not_mem_nil, or_false,
      Prod.mk.injEq] at named
    rcases named with ⟨rfl, rfl⟩ | ⟨rfl, rfl⟩ | ⟨rfl, rfl⟩ | ⟨rfl, rfl⟩ <;> rfl

theorem chain_raised {start : ℚ × BindingConstraint} {cap : BindingConstraint} {limits' : RiskLimits}
    {availableCapital' : ℚ} (funded : 0 ≤ bankroll)
    (raised : Raised limits availableCapital cap limits' availableCapital')
    (spared : (runChain (sizingChain bankroll limits availableCapital) start).2 ≠ cap) :
    runChain (sizingChain bankroll limits' availableCapital') start =
      runChain (sizingChain bankroll limits availableCapital) start := by
  have monotonic : ∀ step ∈ sizingChain bankroll limits availableCapital, step.Monotonic := by
    simpa [sizingChain, ClampStep.Monotonic] using funded
  unfold sizingChain at monotonic
  cases raised with
  | kellyHardCap higher raised valid =>
    exact runChain_raised [] _ (fun step member => monotonic step (by simp_all)) raised spared
  | maxPositionFraction higher raised valid =>
    exact runChain_raised [_] _ (fun step member => monotonic step (by simp_all)) raised spared
  | maxPositionUsdc higher raised valid =>
    exact runChain_raised [_, _, _] _ (fun step member => monotonic step (by simp_all)) raised spared
  | availableCapital higher raised =>
    exact runChain_raised [_, _, _, _] [] (by simp) raised spared

/-- The stake is the least of the five bounds, the name is that of the last step that lowered the
running value, and no other cap matters. -/
theorem stake_binding (probability price uncertainty bankroll availableCapital : ℚ) (limits : RiskLimits)
    (range : InRange probability price) (edge : price < probability)
    (certain : 0 ≤ uncertainty ∧ uncertainty ≤ 1) (funded : 0 ≤ bankroll)
    (capital : 0 ≤ availableCapital) :
    ∃ raw result, kellyFraction probability price = .ok raw ∧
      sizePosition probability price uncertainty bankroll limits availableCapital = .ok result ∧
      result.stakeUsdc = min (bankroll * raw * (1 - uncertainty) * limits.kellyFraction)
        (min (bankroll * limits.kellyHardCap) (min (bankroll * limits.maxPositionFraction)
          (min limits.maxPositionUsdc availableCapital))) ∧
      result.bindingConstraint = lastReducing .kellyUncertaintyHaircut
        (sizingTrace raw uncertainty bankroll limits availableCapital) ∧
      ownBound raw uncertainty bankroll limits availableCapital result.bindingConstraint =
        result.stakeUsdc ∧
      ∀ cap limits' availableCapital', Raised limits availableCapital cap limits' availableCapital' →
        cap ≠ result.bindingConstraint →
        ∃ result', sizePosition probability price uncertainty bankroll limits' availableCapital' = .ok result' ∧
          result'.stakeUsdc = result.stakeUsdc ∧ result'.bindingConstraint = result.bindingConstraint := by
  obtain ⟨result, sized, chain⟩ := sizePosition_chain bankroll limits range edge certain.2 capital
  have nonneg := (kelly_pos range edge).le
  have stake := congrArg Prod.fst chain
  have name := congrArg Prod.snd chain
  refine ⟨_, result, kellyFraction_edge range edge, sized, ?_, ?_, ?_, ?_⟩
  · exact stake.trans (chain_stake _ funded)
  · exact name.trans (chain_name _)
  · exact chain_own nonneg certain chain.symm
  · intro cap limits' availableCapital' raised other
    have capital' : 0 ≤ availableCapital' := by
      cases raised with
      | availableCapital higher raised => exact capital.trans raised
      | _ => exact capital
    have kelly : limits'.kellyFraction = limits.kellyFraction := by
      cases raised <;> rfl
    obtain ⟨result', sized', chain'⟩ := sizePosition_chain bankroll limits' range edge certain.2 capital'
    have start : kellySteps ((probability - price) / (1 - price)) uncertainty limits' =
        kellySteps ((probability - price) / (1 - price)) uncertainty limits := by
      unfold kellySteps
      rw [kelly]
    have spared := fun same => other (Eq.symm (name.trans same))
    rw [start, chain_raised funded raised spared, ← chain] at chain'
    exact ⟨result', sized', Prod.mk.inj chain'⟩

theorem stake_binding_default :
    ∃ result, sizePosition (95 / 100) (90 / 100) (1 / 100) 1000 .default 800 = .ok result ∧
      result.bindingConstraint = .maxPositionFraction ∧
      ∃ result', sizePosition (95 / 100) (90 / 100) (1 / 100) 1000 .default 900 = .ok result' ∧
        result'.stakeUsdc = result.stakeUsdc := by
  obtain ⟨raw, result, -, sized, -, -, -, others⟩ := stake_binding (95 / 100) (90 / 100) (1 / 100) 1000 800
    .default ⟨by norm_num, by norm_num⟩ (by norm_num) (by norm_num) (by norm_num) (by norm_num)
  have name : (sizePosition (95 / 100) (90 / 100) (1 / 100) 1000 .default 800).map
      SizingResult.bindingConstraint = .ok .maxPositionFraction := by decide +kernel
  rw [sized] at name
  have binds : result.bindingConstraint = .maxPositionFraction := Except.ok.inj name
  obtain ⟨result', sized', same, -⟩ := others .availableCapital .default 900
    (.availableCapital 900 (by norm_num)) (by rw [binds]; decide)
  exact ⟨result, sized, binds, result', sized', same⟩

end DeepFlow.Risk
