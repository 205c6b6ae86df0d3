import DeepFlow.Core.OrderBook
import DeepFlow.Foundation.Rounding
import DeepFlow.Risk.Limits
import DeepFlow.Risk.Monotonicity

/-!
# Sizing in decimal arithmetic

`sizePosition` with every operation rounded by the decimal context, as it runs. Comparisons, `max`
and the clamps are exact, so the caps hold to the last digit, and the result differs from that of
exact arithmetic by a few units in the last of 28 digits. Exponents are idealised: they have no limits
here, where a `Decimal` underflows or overflows about 10 ^ -10^6 and 10 ^ 10^6.
-/

namespace DeepFlow.Risk
open DeepFlow.Config DeepFlow.Core Foundation

namespace InContext
variable (context : Rounding ℚ)

def kellyFraction (probability price : ℚ) : Except RangeError ℚ :=
  if ¬ (0 < price ∧ price < 1) then .error ⟨"price must be in (0, 1), got ", price⟩
  else if ¬ (0 ≤ probability ∧ probability ≤ 1) then
    .error ⟨"probability must be in [0, 1], got ", probability⟩
  else
    let edge := context.sub probability price
    .ok (if edge ≤ 0 then 0 else context.div edge (context.sub 1 price))

def sizePosition (probability price uncertainty bankroll : ℚ) (limits : RiskLimits)
    (availableCapital : ℚ) : Except RangeError SizingResult :=
  match kellyFraction context probability price with
  | .error error => .error error
  | .ok raw =>
    if raw ≤ 0 then .ok ⟨0, raw, 0, .noEdge⟩
    else
      let haircut := max 0 (context.sub 1 uncertainty)
      let applied := context.mul raw haircut
      let scaled := context.mul applied limits.kellyFraction
      let constraint :=
        if scaled < applied then BindingConstraint.fractionalKelly else .kellyUncertaintyHaircut
      let fraction := clamp limits.maxPositionFraction .maxPositionFraction
        (clamp limits.kellyHardCap .kellyHardCap (scaled, constraint))
      let stake := clamp limits.maxPositionUsdc .maxPositionUsdc (context.mul bankroll fraction.1, fraction.2)
      let stake :=
        if stake.1 > availableCapital then (max 0 availableCapital, .availableCapital) else stake
      .ok ⟨stake.1, raw, fraction.1, stake.2⟩

def availableCapital (engine : RiskEngine) : ℚ :=
  let reserve := context.mul engine.bankroll.balanceUsdc engine.limits.reservedCapitalFraction
  max 0 (context.sub engine.bankroll.balanceUsdc reserve)

/-- In exact arithmetic this is the sizing of the model without rounding. -/
theorem sizePosition_exact : sizePosition .exact = Risk.sizePosition := rfl

theorem availableCapital_exact : availableCapital .exact = RiskEngine.availableCapital := rfl

/-! ### One spec for every context -/

def rawFraction (probability price : ℚ) : ℚ :=
  context.div (context.sub probability price) (context.sub 1 price)

def appliedFraction (raw uncertainty : ℚ) (limits : RiskLimits) : ℚ :=
  min (min (context.mul (context.mul raw (max 0 (context.sub 1 uncertainty))) limits.kellyFraction)
    limits.kellyHardCap) limits.maxPositionFraction

/-- The stake before the clamp to the capital at hand. -/
def desiredStake (bankroll applied : ℚ) (limits : RiskLimits) : ℚ :=
  min (context.mul bankroll applied) limits.maxPositionUsdc

variable {context} {probability price uncertainty bankroll available : ℚ} {limits : RiskLimits}

theorem rawFraction_pos (range : InRange probability price) (edge : price < probability) :
    0 < rawFraction context probability price :=
  Rounding.round_pos (div_pos (Rounding.round_pos (sub_pos.mpr edge)) (Rounding.round_pos (sub_pos.mpr range.1.2)))

theorem kellyFraction_edge (range : InRange probability price) (edge : price < probability) :
    kellyFraction context probability price = .ok (rawFraction context probability price) := by
  have positive : ¬ context.sub probability price ≤ 0 := by rwa [Rounding.sub_nonpos_iff, not_le]
  simp [kellyFraction, range.1, range.2, positive, rawFraction]

theorem sizePosition_no_edge (context : Rounding ℚ) (uncertainty bankroll available : ℚ) (limits : RiskLimits)
    (range : InRange probability price) (noEdge : probability ≤ price) :
    sizePosition context probability price uncertainty bankroll limits available = .ok ⟨0, 0, 0, .noEdge⟩ := by
  have nonpos : context.sub probability price ≤ 0 := Rounding.sub_nonpos_iff.mpr noEdge
  simp [sizePosition, kellyFraction, range.1, range.2, nonpos]

theorem ite_named {chosen : Prop} [Decidable chosen] {first second : ℚ × BindingConstraint}
    (named : first.2 ≠ .noEdge) (named' : second.2 ≠ .noEdge) : (if chosen then first else second).2 ≠ .noEdge := by
  split
  · exact named
  · exact named'

/-- What a sizing with an edge returns. -/
structure Sized (context : Rounding ℚ) (probability price uncertainty bankroll : ℚ) (limits : RiskLimits)
    (available : ℚ) (result : SizingResult) : Prop where
  raw : result.kellyFractionRaw = rawFraction context probability price
  applied : result.kellyFractionApplied = appliedFraction context result.kellyFractionRaw uncertainty limits
  stake : result.stakeUsdc = capitalClamp (desiredStake context bankroll result.kellyFractionApplied limits) available
  named : result.bindingConstraint ≠ .noEdge

theorem sizePosition_edge (context : Rounding ℚ) (uncertainty bankroll available : ℚ) (limits : RiskLimits)
    (range : InRange probability price) (edge : price < probability) :
    ∃ result, sizePosition context probability price uncertainty bankroll limits available = .ok result ∧
      Sized context probability price uncertainty bankroll limits available result := by
  have positive : ¬ rawFraction context probability price ≤ 0 := not_le.mpr (rawFraction_pos range edge)
  simp only [sizePosition, kellyFraction_edge range edge, if_neg positive]
  refine ⟨_, rfl, rfl, ?_, ?_, ?_⟩
  · simp only [clamp_fst, appliedFraction]
  · exact (capitalClamp_fst _).trans (by simp only [clamp_fst, desiredStake])
  · apply ite_named (by simp)
    apply ite_named (by simp)
    apply ite_named (by simp)
    apply ite_named (by simp)
    dsimp only
    split <;> decide

/-! ### Against exact arithmetic -/

section Close
variable (context)

theorem haircut_near (uncertainty : ℚ) :
    Near context.tolerance (max 0 (context.sub 1 uncertainty)) (max 0 (1 - uncertainty)) := by
  rcases le_total 0 (1 - uncertainty) with certain | total
  · rw [max_eq_right certain, max_eq_right (show 0 ≤ context.sub 1 uncertainty from Rounding.round_nonneg certain)]
    exact context.round_near certain
  · rw [max_eq_left total, max_eq_left (show context.sub 1 uncertainty ≤ 0 from Rounding.round_nonpos total)]
    constructor <;> simp

def rawTolerance : Tolerance ℚ := (context.tolerance.div context.tolerance).mul context.tolerance

def appliedTolerance : Tolerance ℚ :=
  ((rawTolerance context).mul context.tolerance |>.mul context.tolerance).mul context.tolerance

def stakeTolerance : Tolerance ℚ := (appliedTolerance context).mul context.tolerance

theorem rawFraction_near (range : InRange probability price) (edge : price < probability) :
    Near (rawTolerance context) (rawFraction context probability price) ((probability - price) / (1 - price)) := by
  have profit : 0 < probability - price := sub_pos.mpr edge
  have gain : 0 < 1 - price := sub_pos.mpr range.1.2
  exact ((context.round_near profit.le).div (context.round_near gain.le) profit.le gain).round context
    (div_pos profit gain).le

theorem appliedFraction_near {raw raw' : ℚ} (uncertainty : ℚ) (limits : RiskLimits)
    (near : Near (rawTolerance context) raw raw') (nonneg : 0 ≤ raw') :
    Near (appliedTolerance context) (appliedFraction context raw uncertainty limits)
      (Risk.appliedFraction raw' uncertainty limits) := by
  have haircut : 0 ≤ max 0 (1 - uncertainty) := le_max_left _ _
  have kelly := limits.kellyFraction_range.1.le
  have cut := (near.mul (haircut_near context uncertainty) nonneg haircut).round context (mul_nonneg nonneg haircut)
  have scaled := (cut.scale kelly).round context (mul_nonneg kelly (mul_nonneg nonneg haircut))
  rw [mul_comm limits.kellyFraction, mul_comm limits.kellyFraction] at scaled
  exact (scaled.min limits.kellyHardCap_range.1.le).min limits.maxPositionFraction_range.1.le

theorem stake_near {applied applied' : ℚ} (near : Near (appliedTolerance context) applied applied')
    (nonneg : 0 ≤ applied') (funded : 0 ≤ bankroll) :
    Near (stakeTolerance context) (capitalClamp (desiredStake context bankroll applied limits) available)
      (capitalClamp (min (bankroll * applied') limits.maxPositionUsdc) available) := by
  have staked : Near (stakeTolerance context) (desiredStake context bankroll applied limits)
      (min (bankroll * applied') limits.maxPositionUsdc) :=
    ((near.scale funded).round context (mul_nonneg funded nonneg)).min limits.maxPositionUsdc_pos.le
  have desired : 0 ≤ min (bankroll * applied') limits.maxPositionUsdc := desired_nonneg funded nonneg
  rw [capitalClamp_eq desired, capitalClamp_eq (staked.nonneg desired)]
  exact staked.min (le_max_left 0 available)

end Close

end InContext

/-- The context that `Decimal` arithmetic runs in unless told otherwise, but for its exponent limits. -/
def decimalContext : Rounding ℚ := .significant PRECISION (by decide)

/-- Two results of one sizing, of which the second was rounded on the way. -/
structure Agrees (slack : ℚ) (exact rounded : SizingResult) : Prop where
  noEdge : rounded.bindingConstraint = .noEdge ↔ exact.bindingConstraint = .noEdge
  raw : |rounded.kellyFractionRaw - exact.kellyFractionRaw| ≤ slack * exact.kellyFractionRaw
  applied : |rounded.kellyFractionApplied - exact.kellyFractionApplied| ≤ slack * exact.kellyFractionApplied
  stake : |rounded.stakeUsdc - exact.stakeUsdc| ≤ slack * exact.stakeUsdc

section Decimal
variable {probability price uncertainty bankroll availableCapital : ℚ} {limits : RiskLimits}

/-- Seven roundings, each off by at most half a unit in the twenty-eighth digit. -/
def SLACK : ℚ := 4 / 10 ^ 27

theorem rawTolerance_slack : 1 - SLACK ≤ (InContext.rawTolerance decimalContext).low ∧
    (InContext.rawTolerance decimalContext).high ≤ 1 + SLACK := by decide +kernel

theorem appliedTolerance_slack : 1 - SLACK ≤ (InContext.appliedTolerance decimalContext).low ∧
    (InContext.appliedTolerance decimalContext).high ≤ 1 + SLACK := by decide +kernel

theorem stakeTolerance_slack : 1 - SLACK ≤ (InContext.stakeTolerance decimalContext).low ∧
    (InContext.stakeTolerance decimalContext).high ≤ 1 + SLACK := by decide +kernel

theorem stake_nonneg {context : Rounding ℚ} {result : SizingResult} (range : InRange probability price)
    (edge : price < probability) (funded : 0 ≤ bankroll)
    (sized : InContext.Sized context probability price uncertainty bankroll limits availableCapital result) :
    0 ≤ result.kellyFractionRaw ∧ 0 ≤ result.kellyFractionApplied ∧ 0 ≤ result.stakeUsdc := by
  have raw : 0 ≤ result.kellyFractionRaw := sized.raw ▸ (InContext.rawFraction_pos range edge).le
  have haircut : 0 ≤ max 0 (context.sub 1 uncertainty) := le_max_left _ _
  have applied : 0 ≤ result.kellyFractionApplied := by
    rw [sized.applied]
    refine le_min (le_min ?_ limits.kellyHardCap_range.1.le) limits.maxPositionFraction_range.1.le
    exact Rounding.round_nonneg (mul_nonneg (Rounding.round_nonneg (mul_nonneg raw haircut))
      limits.kellyFraction_range.1.le)
  have desired : 0 ≤ InContext.desiredStake context bankroll result.kellyFractionApplied limits :=
    le_min (Rounding.round_nonneg (mul_nonneg funded applied)) limits.maxPositionUsdc_pos.le
  refine ⟨raw, applied, ?_⟩
  rw [sized.stake, capitalClamp_eq desired]
  exact le_min desired (le_max_left _ _)

theorem sized_agrees {exact rounded : SizingResult} (range : InRange probability price) (edge : price < probability)
    (funded : 0 ≤ bankroll)
    (sized : InContext.Sized .exact probability price uncertainty bankroll limits availableCapital exact)
    (sized' : InContext.Sized decimalContext probability price uncertainty bankroll limits availableCapital rounded) :
    Agrees SLACK exact rounded := by
  obtain ⟨rawNonneg, appliedNonneg, stakeNonneg⟩ := stake_nonneg range edge funded sized
  have raw : Near (InContext.rawTolerance decimalContext) rounded.kellyFractionRaw exact.kellyFractionRaw := by
    rw [sized.raw, sized'.raw]
    exact InContext.rawFraction_near decimalContext range edge
  have applied : Near (InContext.appliedTolerance decimalContext) rounded.kellyFractionApplied
      exact.kellyFractionApplied := by
    rw [sized.applied, sized'.applied]
    exact InContext.appliedFraction_near decimalContext uncertainty limits raw rawNonneg
  have stake : Near (InContext.stakeTolerance decimalContext) rounded.stakeUsdc exact.stakeUsdc := by
    rw [sized.stake, sized'.stake]
    exact InContext.stake_near decimalContext applied appliedNonneg funded
  exact
    { noEdge := iff_of_false sized'.named sized.named
      raw := raw.abs_sub_le rawNonneg rawTolerance_slack.1 rawTolerance_slack.2
      applied := applied.abs_sub_le appliedNonneg appliedTolerance_slack.1 appliedTolerance_slack.2
      stake := stake.abs_sub_le stakeNonneg stakeTolerance_slack.1 stakeTolerance_slack.2 }

theorem Agrees.refl {slack : ℚ} {result : SizingResult} (zero : result = ⟨0, 0, 0, .noEdge⟩) :
    Agrees slack result result := by
  subst zero
  constructor <;> simp

theorem kellyFraction_raises {context : Rounding ℚ} (outside : ¬ InRange probability price) :
    ∃ error, kellyFraction probability price = .error error ∧
      InContext.kellyFraction context probability price = .error error := by
  unfold kellyFraction InContext.kellyFraction
  by_cases open' : 0 < price ∧ price < 1
  · have beyond : ¬ (0 ≤ probability ∧ probability ≤ 1) := fun inside => outside ⟨open', inside⟩
    simp only [open', beyond]
    exact ⟨_, rfl, rfl⟩
  · simp only [open', not_false_eq_true]
    exact ⟨_, rfl, rfl⟩

/-- As long as no exponent meets its limits, what runs in decimals agrees with exact arithmetic to four
parts in ten to the twenty-seven, and raises the same errors. -/
theorem decimal_sizing_agrees (probability price uncertainty bankroll : ℚ) (limits : RiskLimits) (availableCapital : ℚ)
    (funded : 0 ≤ bankroll) :
    (∃ error, sizePosition probability price uncertainty bankroll limits availableCapital = .error error ∧
      InContext.sizePosition decimalContext probability price uncertainty bankroll limits availableCapital =
        .error error) ∨
    ∃ exact rounded, sizePosition probability price uncertainty bankroll limits availableCapital = .ok exact ∧
      InContext.sizePosition decimalContext probability price uncertainty bankroll limits availableCapital =
        .ok rounded ∧ Agrees SLACK exact rounded := by
  by_cases range : InRange probability price
  · right
    rcases le_or_gt probability price with noEdge | edge
    · exact ⟨_, _, sizePosition_no_edge _ _ _ _ range noEdge, InContext.sizePosition_no_edge _ _ _ _ _ range noEdge,
        Agrees.refl rfl⟩
    · obtain ⟨exact, same, sized⟩ :=
        InContext.sizePosition_edge .exact uncertainty bankroll availableCapital limits range edge
      obtain ⟨rounded, same', sized'⟩ :=
        InContext.sizePosition_edge decimalContext uncertainty bankroll availableCapital limits range edge
      rw [InContext.sizePosition_exact] at same
      exact ⟨exact, rounded, same, same', sized_agrees range edge funded sized sized'⟩
  · left
    obtain ⟨error, raised, raised'⟩ := kellyFraction_raises range
    refine ⟨error, ?_, ?_⟩
    · rw [sizePosition, raised]
    · rw [InContext.sizePosition, raised']

theorem decimal_sizing_agrees_repeating :
    (∃ error, sizePosition (97 / 100) (93 / 100) (7 / 100) 1000 .default 800 = .error error ∧
      InContext.sizePosition decimalContext (97 / 100) (93 / 100) (7 / 100) 1000 .default 800 = .error error) ∨
    ∃ exact rounded, sizePosition (97 / 100) (93 / 100) (7 / 100) 1000 .default 800 = .ok exact ∧
      InContext.sizePosition decimalContext (97 / 100) (93 / 100) (7 / 100) 1000 .default 800 = .ok rounded ∧
      Agrees SLACK exact rounded :=
  decimal_sizing_agrees (97 / 100) (93 / 100) (7 / 100) 1000 .default 800 (by norm_num)

end Decimal

/-! ### Caps and order survive rounding -/

section AnyContext
variable {context : Rounding ℚ} {probability price uncertainty bankroll availableCapital : ℚ} {limits : RiskLimits}
  {engine : RiskEngine}

/-- The caps of a sizing against the engine's own capital. Only the reserve may give way, by the
rounding of the two operations that compute it. -/
structure KeepsCaps (context : Rounding ℚ) (engine : RiskEngine) (probability price : ℚ) (result : SizingResult) :
    Prop where
  nonneg : 0 ≤ result.stakeUsdc
  available : result.stakeUsdc ≤ InContext.availableCapital context engine
  absolute : result.stakeUsdc ≤ engine.limits.maxPositionUsdc
  applied : result.kellyFractionApplied ≤ min engine.limits.kellyHardCap engine.limits.maxPositionFraction
  share : result.stakeUsdc ≤ context.mul engine.bankroll.balanceUsdc
    (min engine.limits.kellyHardCap engine.limits.maxPositionFraction)
  noEdge : probability ≤ price → result.stakeUsdc = 0
  reserve : engine.limits.reservedCapitalFraction * engine.bankroll.balanceUsdc ≤
    engine.bankroll.balanceUsdc - result.stakeUsdc + 2 * context.unit * engine.bankroll.balanceUsdc

theorem reserve_kept {stake : ℚ} (funded : 0 ≤ engine.bankroll.balanceUsdc)
    (deployed : stake ≤ InContext.availableCapital context engine) :
    engine.limits.reservedCapitalFraction * engine.bankroll.balanceUsdc ≤
      engine.bankroll.balanceUsdc - stake + 2 * context.unit * engine.bankroll.balanceUsdc := by
  obtain ⟨unitNonneg, unitSmall⟩ := context.unit_range
  obtain ⟨fractionNonneg, fractionSmall⟩ := engine.limits.reservedCapitalFraction_range
  unfold InContext.availableCapital at deployed
  dsimp only at deployed
  generalize engine.bankroll.balanceUsdc = balance at *
  generalize engine.limits.reservedCapitalFraction = fraction at *
  have kept : fraction * balance ≤ balance := mul_le_of_le_one_left funded fractionSmall
  have slack : 0 ≤ context.unit * balance := mul_nonneg unitNonneg funded
  rcases le_total (balance - context.mul balance fraction) 0 with nothing | something
  · have none : context.sub balance (context.mul balance fraction) ≤ 0 := Rounding.round_nonpos nothing
    rw [max_eq_left none] at deployed
    linarith
  · have some : 0 ≤ context.sub balance (context.mul balance fraction) := Rounding.round_nonneg something
    rw [max_eq_right some] at deployed
    have reserve : (1 - context.unit) * (balance * fraction) ≤ context.mul balance fraction :=
      (context.round_near (mul_nonneg funded fractionNonneg)).lower
    have rest : context.sub balance (context.mul balance fraction) ≤
        (1 + context.unit) * (balance - context.mul balance fraction) := (context.round_near something).upper
    -- What the two roundings can take from the reserve is of second order or a part of the balance.
    have second : context.unit * (context.unit * (balance * fraction)) ≤ context.unit * balance := by
      apply mul_le_mul_of_nonneg_left _ unitNonneg
      calc context.unit * (balance * fraction) ≤ balance * fraction :=
            mul_le_of_le_one_left (mul_nonneg funded fractionNonneg) unitSmall.le
        _ = fraction * balance := mul_comm _ _
        _ ≤ balance := kept
    have grown : (1 + context.unit) * ((1 - context.unit) * (balance * fraction)) ≤
        (1 + context.unit) * context.mul balance fraction :=
      mul_le_mul_of_nonneg_left reserve (add_nonneg zero_le_one unitNonneg)
    linarith

theorem keepsCaps_zero (funded : 0 ≤ engine.bankroll.balanceUsdc) :
    KeepsCaps context engine probability price ⟨0, 0, 0, .noEdge⟩ where
  nonneg := le_rfl
  available := le_max_left _ _
  absolute := engine.limits.maxPositionUsdc_pos.le
  applied := capLimit_nonneg
  share := Rounding.round_nonneg (mul_nonneg funded capLimit_nonneg)
  noEdge := fun _ => rfl
  reserve := reserve_kept funded (le_max_left _ _)

/-- Rounding takes nothing from the caps, in a context of any precision; the reserve is kept up to two
units of the balance. -/
theorem rounded_sizing_keeps_caps (context : Rounding ℚ) (engine : RiskEngine) (probability price uncertainty : ℚ)
    (range : InRange probability price) (funded : 0 ≤ engine.bankroll.balanceUsdc) :
    ∃ result, InContext.sizePosition context probability price uncertainty engine.bankroll.balanceUsdc engine.limits
        (InContext.availableCapital context engine) = .ok result ∧
      KeepsCaps context engine probability price result := by
  rcases le_or_gt probability price with noEdge | edge
  · exact ⟨_, InContext.sizePosition_no_edge _ _ _ _ _ range noEdge, keepsCaps_zero funded⟩
  · obtain ⟨result, same, sized⟩ := InContext.sizePosition_edge context uncertainty engine.bankroll.balanceUsdc
      (InContext.availableCapital context engine) engine.limits range edge
    obtain ⟨-, appliedNonneg, stakeNonneg⟩ := stake_nonneg range edge funded sized
    have desiredNonneg : 0 ≤ InContext.desiredStake context engine.bankroll.balanceUsdc result.kellyFractionApplied
        engine.limits :=
      le_min (Rounding.round_nonneg (mul_nonneg funded appliedNonneg)) engine.limits.maxPositionUsdc_pos.le
    have capped : result.kellyFractionApplied ≤ min engine.limits.kellyHardCap engine.limits.maxPositionFraction := by
      rw [sized.applied]
      exact min_le_min_right _ (min_le_right _ _)
    have desired : result.stakeUsdc ≤ InContext.desiredStake context engine.bankroll.balanceUsdc
        result.kellyFractionApplied engine.limits := sized.stake ▸ capitalClamp_le desiredNonneg
    have deployed : result.stakeUsdc ≤ InContext.availableCapital context engine := by
      rw [sized.stake, capitalClamp_eq desiredNonneg, max_eq_right (show 0 ≤ InContext.availableCapital context engine
        from le_max_left _ _)]
      exact min_le_right _ _
    refine ⟨result, same, ?_⟩
    exact
      { nonneg := stakeNonneg
        available := deployed
        absolute := desired.trans (min_le_right _ _)
        applied := capped
        share := (desired.trans (min_le_left _ _)).trans (context.mono (mul_le_mul_of_nonneg_left capped funded))
        noEdge := fun noEdge => absurd edge (not_lt.mpr noEdge)
        reserve := reserve_kept funded deployed }

theorem rounded_sizing_keeps_caps_default :
    ∃ result, InContext.sizePosition decimalContext (95 / 100) (90 / 100) (1 / 100) 1000 .default
        (InContext.availableCapital decimalContext ⟨.default, ⟨1000, 1000⟩⟩) = .ok result ∧
      KeepsCaps decimalContext ⟨.default, ⟨1000, 1000⟩⟩ (95 / 100) (90 / 100) result :=
  rounded_sizing_keeps_caps decimalContext ⟨.default, ⟨1000, 1000⟩⟩ (95 / 100) (90 / 100) (1 / 100)
    ⟨by norm_num, by norm_num⟩ (by norm_num)

def SizingInput.sizeIn (context : Rounding ℚ) (input : SizingInput) : Except RangeError SizingResult :=
  InContext.sizePosition context input.probability input.price input.uncertainty input.bankroll input.limits
    input.availableCapital

theorem appliedFraction_mono {raw raw' uncertainty' : ℚ} {limits' : RiskLimits} (rawNonneg : 0 ≤ raw)
    (larger : raw ≤ raw')
    (surer : uncertainty' ≤ uncertainty) (kelly : limits.kellyFraction ≤ limits'.kellyFraction)
    (hardCap : limits.kellyHardCap ≤ limits'.kellyHardCap)
    (fraction : limits.maxPositionFraction ≤ limits'.maxPositionFraction) :
    InContext.appliedFraction context raw uncertainty limits ≤
      InContext.appliedFraction context raw' uncertainty' limits' := by
  have haircut : max 0 (context.sub 1 uncertainty) ≤ max 0 (context.sub 1 uncertainty') :=
    max_le_max_left 0 (context.mono (sub_le_sub_left surer 1))
  have haircutNonneg : 0 ≤ max 0 (context.sub 1 uncertainty) := le_max_left _ _
  have cut : context.mul raw (max 0 (context.sub 1 uncertainty)) ≤
      context.mul raw' (max 0 (context.sub 1 uncertainty')) :=
    context.mono (mul_le_mul larger haircut haircutNonneg (rawNonneg.trans larger))
  have cutNonneg : 0 ≤ context.mul raw (max 0 (context.sub 1 uncertainty)) :=
    Rounding.round_nonneg (mul_nonneg rawNonneg haircutNonneg)
  have scaled := context.mono (mul_le_mul cut kelly limits.kellyFraction_range.1.le (cutNonneg.trans cut))
  exact min_le_min (min_le_min scaled hardCap) fraction

/-- At one price, better arguments never make the rounded sizing stake less. -/
theorem rounded_sizing_monotone (context : Rounding ℚ) (input input' : SizingInput)
    (range : InRange input.probability input.price) (range' : InRange input'.probability input'.price)
    (funded : 0 ≤ input.bankroll) (improved : NoWorse input input') (samePrice : input'.price = input.price) :
    ∃ result result', input.sizeIn context = .ok result ∧ input'.sizeIn context = .ok result' ∧
      result.stakeUsdc ≤ result'.stakeUsdc := by
  have funded' : 0 ≤ input'.bankroll := funded.trans improved.bankroll
  rcases le_or_gt input'.probability input'.price with noEdge' | edge'
  · have noEdge : input.probability ≤ input.price := (improved.probability.trans noEdge').trans improved.price
    exact ⟨_, _, InContext.sizePosition_no_edge _ _ _ _ _ range noEdge,
      InContext.sizePosition_no_edge _ _ _ _ _ range' noEdge', le_rfl⟩
  obtain ⟨result', same', sized'⟩ := InContext.sizePosition_edge context input'.uncertainty input'.bankroll
    input'.availableCapital input'.limits range' edge'
  obtain ⟨-, appliedNonneg', stakeNonneg'⟩ := stake_nonneg range' edge' funded' sized'
  rcases le_or_gt input.probability input.price with noEdge | edge
  · exact ⟨_, result', InContext.sizePosition_no_edge _ _ _ _ _ range noEdge, same', stakeNonneg'⟩
  obtain ⟨result, same, sized⟩ := InContext.sizePosition_edge context input.uncertainty input.bankroll
    input.availableCapital input.limits range edge
  obtain ⟨rawNonneg, appliedNonneg, -⟩ := stake_nonneg range edge funded sized
  have raw : result.kellyFractionRaw ≤ result'.kellyFractionRaw := by
    rw [sized.raw, sized'.raw, InContext.rawFraction, InContext.rawFraction, samePrice]
    apply context.mono
    apply div_le_div_of_nonneg_right
    · exact context.mono (sub_le_sub_right improved.probability _)
    · exact Rounding.round_nonneg (sub_nonneg.mpr range.1.2.le)
  have applied : result.kellyFractionApplied ≤ result'.kellyFractionApplied := by
    rw [sized.applied, sized'.applied]
    exact appliedFraction_mono rawNonneg raw improved.uncertainty improved.kellyFraction improved.kellyHardCap
      improved.maxPositionFraction
  have desired : InContext.desiredStake context input.bankroll result.kellyFractionApplied input.limits ≤
      InContext.desiredStake context input'.bankroll result'.kellyFractionApplied input'.limits :=
    min_le_min (context.mono (mul_le_mul improved.bankroll applied appliedNonneg funded')) improved.maxPositionUsdc
  have desiredNonneg : 0 ≤ InContext.desiredStake context input.bankroll result.kellyFractionApplied input.limits :=
    le_min (Rounding.round_nonneg (mul_nonneg funded appliedNonneg)) input.limits.maxPositionUsdc_pos.le
  refine ⟨result, result', same, same', ?_⟩
  rw [sized.stake, sized'.stake, capitalClamp_eq desiredNonneg, capitalClamp_eq (desiredNonneg.trans desired)]
  exact min_le_min desired (max_le_max_left 0 improved.availableCapital)

theorem rounded_sizing_monotone_surer :
    ∃ result result',
      SizingInput.sizeIn decimalContext ⟨95 / 100, 90 / 100, 50 / 100, 1000, .default, 800⟩ = .ok result ∧
      SizingInput.sizeIn decimalContext ⟨96 / 100, 90 / 100, 1 / 100, 1000, .default, 800⟩ = .ok result' ∧
      result.stakeUsdc ≤ result'.stakeUsdc :=
  rounded_sizing_monotone decimalContext ⟨95 / 100, 90 / 100, 50 / 100, 1000, .default, 800⟩
    ⟨96 / 100, 90 / 100, 1 / 100, 1000, .default, 800⟩ ⟨by norm_num, by norm_num⟩ ⟨by norm_num, by norm_num⟩
    (by norm_num) ⟨by norm_num, le_rfl, by norm_num, le_rfl, le_rfl, le_rfl, le_rfl, le_rfl, le_rfl⟩ rfl

/-- The price is fixed there because it moves a numerator and a denominator that are rounded apart:
here the dearer of two prices has the larger raw fraction. -/
theorem dearer_price_larger_fraction :
    ∃ kelly kelly',
      InContext.kellyFraction decimalContext (950000000000000000000000000097 / 10 ^ 30)
        (180000000000000000000000007249 / 10 ^ 30) = .ok kelly ∧
      InContext.kellyFraction decimalContext (950000000000000000000000000097 / 10 ^ 30)
        (180000000000000000000000007251 / 10 ^ 30) = .ok kelly' ∧
      kelly < kelly' :=
  ⟨9390243902439024390243902434 / 10 ^ 28, 9390243902439024390243902435 / 10 ^ 28, by decide +kernel,
    by decide +kernel, by norm_num⟩

end AnyContext

end DeepFlow.Risk
