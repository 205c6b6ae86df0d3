import DeepFlow.Foundation.Outcomes
import DeepFlow.Risk.ExpectedGrowth
import DeepFlow.Risk.Limits

/-!
# A run of bets

The engine sizes one bet after another, each against the balance that those before it left. A
contract pays one on success and nothing otherwise.
-/

namespace DeepFlow.Risk
open DeepFlow.Config Foundation

/-- An estimate and the price it is held against. -/
structure Opportunity where
  probability : ℚ
  price : ℚ
  uncertainty : ℚ
  range : InRange probability price
  certain : 0 ≤ uncertainty

/-- The bet as the engine sizes it when it holds this balance. -/
def Opportunity.size (opportunity : Opportunity) (limits : RiskLimits) (balance : ℚ) : Except RangeError SizingResult :=
  let engine : RiskEngine := ⟨limits, { balanceUsdc := balance }⟩
  sizePosition opportunity.probability opportunity.price opportunity.uncertainty engine.bankroll.balanceUsdc
    engine.limits engine.availableCapital

/-- The balance after a bet is won or lost. -/
def settle (limits : RiskLimits) (balance : ℚ) (bet : Opportunity × Bool) : Except RangeError ℚ := do
  let result ← bet.1.size limits balance
  let payout := if bet.2 then result.stakeUsdc / bet.1.price else 0
  return balance - result.stakeUsdc + payout

def campaign (limits : RiskLimits) (balance : ℚ) (bets : List (Opportunity × Bool)) : Except RangeError ℚ :=
  bets.foldlM (settle limits) balance

section OneBet
variable {limits : RiskLimits} {balance : ℚ} {opportunity : Opportunity} {bet : Opportunity × Bool}

theorem size_funded (limits : RiskLimits) (opportunity : Opportunity) (funded : 0 ≤ balance) :
    ∃ result, opportunity.size limits balance = .ok result ∧
      SizedSafely ⟨limits, { balanceUsdc := balance }⟩ opportunity.probability opportunity.price result.stakeUsdc := by
  rcases le_or_gt opportunity.probability opportunity.price with noEdge | edge
  · exact ⟨_, sizePosition_no_edge _ _ _ _ opportunity.range noEdge, sizedSafely_zero⟩
  · obtain ⟨result, sized, stake⟩ := sizePosition_edge opportunity.uncertainty balance
      (RiskEngine.availableCapital ⟨limits, { balanceUsdc := balance }⟩) limits opportunity.range edge
    refine ⟨result, sized, ?_⟩
    rw [stake]
    exact ownStake_funded edge funded (appliedFraction_nonneg (kelly_pos opportunity.range edge)) appliedFraction_le

def Opportunity.stake (opportunity : Opportunity) (limits : RiskLimits) (balance : ℚ) : ℚ :=
  match opportunity.size limits balance with
  | .ok result => result.stakeUsdc
  | .error _ => 0

def settled (limits : RiskLimits) (balance : ℚ) (bet : Opportunity × Bool) : ℚ :=
  balance - bet.1.stake limits balance + if bet.2 then bet.1.stake limits balance / bet.1.price else 0

theorem stake_of_size {result : SizingResult} (sized : opportunity.size limits balance = .ok result) :
    opportunity.stake limits balance = result.stakeUsdc := by
  rw [Opportunity.stake, sized]

theorem stake_safe (limits : RiskLimits) (opportunity : Opportunity) (funded : 0 ≤ balance) :
    SizedSafely ⟨limits, { balanceUsdc := balance }⟩ opportunity.probability opportunity.price
      (opportunity.stake limits balance) := by
  obtain ⟨result, sized, safe⟩ := size_funded limits opportunity funded
  rwa [stake_of_size sized]

theorem settle_eq (funded : 0 ≤ balance) : settle limits balance bet = .ok (settled limits balance bet) := by
  obtain ⟨result, sized, -⟩ := size_funded limits bet.1 funded
  simp only [settle, settled, sized, stake_of_size sized]
  rfl

theorem settled_lost : settled limits balance (opportunity, false) = balance - opportunity.stake limits balance :=
  add_zero _

theorem settled_won : settled limits balance (opportunity, true) =
    balance + netOdds opportunity.price * opportunity.stake limits balance := by
  have cost : opportunity.price ≠ 0 := opportunity.range.1.1.ne'
  simp only [settled, netOdds, if_true]
  field_simp
  ring

theorem le_settled_won (funded : 0 ≤ balance) : balance ≤ settled limits balance (opportunity, true) := by
  rw [settled_won]
  have staked : 0 ≤ opportunity.stake limits balance := (stake_safe limits opportunity funded).nonneg
  exact le_add_of_nonneg_right (mul_nonneg (netOdds_pos opportunity.range.1).le staked)

end OneBet

/-! ### What is left in the worst case -/

/-- The share of a balance that a lost bet leaves at least. -/
def keptShare (limits : RiskLimits) : ℚ :=
  max limits.reservedCapitalFraction (1 - min limits.kellyHardCap limits.maxPositionFraction)

section Losses
variable {limits : RiskLimits} {balance : ℚ} {opportunity : Opportunity} {bets : List (Opportunity × Bool)}

theorem keptShare_nonneg : 0 ≤ keptShare limits := le_max_of_le_left limits.reservedCapitalFraction_range.1

theorem keptShare_le (funded : 0 ≤ balance) :
    balance * keptShare limits ≤ settled limits balance (opportunity, false) := by
  have safe := stake_safe limits opportunity funded
  have reserved : limits.reservedCapitalFraction * balance ≤ balance - opportunity.stake limits balance :=
    safe.reserve funded
  have capped : opportunity.stake limits balance ≤
      max 0 balance * min limits.kellyHardCap limits.maxPositionFraction := safe.fraction
  rw [max_eq_right funded] at capped
  rw [settled_lost, keptShare, mul_max_of_nonneg _ _ funded]
  exact max_le (by linarith) (by linarith)

theorem settled_nonneg (funded : 0 ≤ balance) (won : Bool) : 0 ≤ settled limits balance (opportunity, won) := by
  cases won with
  | true => exact funded.trans (le_settled_won funded)
  | false => exact (mul_nonneg funded keptShare_nonneg).trans (keptShare_le funded)

theorem campaign_eq (funded : 0 ≤ balance) :
    campaign limits balance bets = .ok (bets.foldl (settled limits) balance) := by
  induction bets generalizing balance with
  | nil => rfl
  | cons bet bets ih =>
    rw [campaign, List.foldlM_cons, settle_eq funded]
    exact ih (settled_nonneg funded bet.2)

theorem kept_after (funded : 0 ≤ balance) :
    balance * keptShare limits ^ bets.countP (!·.2) ≤ bets.foldl (settled limits) balance := by
  induction bets generalizing balance with
  | nil => simp
  | cons bet bets ih =>
    obtain ⟨opportunity, won⟩ := bet
    refine le_trans ?_ (ih (settled_nonneg funded won))
    cases won with
    | true =>
      rw [List.countP_cons_of_neg (by simp)]
      exact mul_le_mul_of_nonneg_right (le_settled_won funded) (pow_nonneg keptShare_nonneg _)
    | false =>
      rw [List.countP_cons_of_pos (by simp), pow_succ', ← mul_assoc]
      exact mul_le_mul_of_nonneg_right (keptShare_le funded) (pow_nonneg keptShare_nonneg _)

theorem lost_after (funded : 0 ≤ balance) :
    balance - bets.countP (!·.2) * limits.maxPositionUsdc ≤ bets.foldl (settled limits) balance := by
  induction bets generalizing balance with
  | nil => simp
  | cons bet bets ih =>
    obtain ⟨opportunity, won⟩ := bet
    refine le_trans ?_ (ih (settled_nonneg funded won))
    cases won with
    | true =>
      rw [List.countP_cons_of_neg (by simp)]
      exact sub_le_sub_right (le_settled_won funded) _
    | false =>
      have absolute : opportunity.stake limits balance ≤ limits.maxPositionUsdc :=
        (stake_safe limits opportunity funded).absolute
      rw [List.countP_cons_of_pos (by simp), settled_lost, Nat.cast_add_one, add_one_mul]
      linarith

/-- However the bets turn out, every one of them is sized, and each one lost costs at most the share
that the caps allow, the absolute cap and all but the reserve. -/
theorem campaign_survives (limits : RiskLimits) (balance : ℚ) (bets : List (Opportunity × Bool))
    (funded : 0 < balance) :
    let losses := bets.countP (!·.2)
    ∃ final, campaign limits balance bets = .ok final ∧ balance * keptShare limits ^ losses ≤ final ∧
      balance - losses * limits.maxPositionUsdc ≤ final ∧
      BankrollState.drawdownFraction ⟨final, balance⟩ ≤ 1 - keptShare limits ^ losses := by
  intro losses
  have kept : balance * keptShare limits ^ losses ≤ bets.foldl (settled limits) balance := kept_after funded.le
  refine ⟨_, campaign_eq funded.le, kept, lost_after funded.le, ?_⟩
  have share : keptShare limits ≤ 1 := max_le limits.reservedCapitalFraction_range.2
    (sub_le_self _ (le_min limits.kellyHardCap_range.1.le limits.maxPositionFraction_range.1.le))
  rw [BankrollState.drawdownFraction, if_neg (not_le.mpr funded)]
  apply max_le
  · exact sub_nonneg.mpr (pow_le_one₀ keptShare_nonneg share)
  · rw [div_le_iff₀ funded]
    linarith

def Opportunity.favourite : Opportunity where
  probability := 95 / 100
  price := 90 / 100
  uncertainty := 1 / 100
  range := ⟨by norm_num, by norm_num⟩
  certain := by norm_num

theorem campaign_survives_eight_losses : ∃ final,
    campaign .default 1000 (List.replicate 8 (.favourite, false)) = .ok final ∧
      BankrollState.drawdownFraction ⟨final, 1000⟩ ≤ 15 / 100 := by
  obtain ⟨final, ran, -, -, drawdown⟩ :=
    campaign_survives .default 1000 (List.replicate 8 (.favourite, false)) (by norm_num)
  have losses : (List.replicate 8 (Opportunity.favourite, false)).countP (!·.2) = 8 := rfl
  have kept : keptShare .default = 98 / 100 := by norm_num [keptShare, RiskLimits.default]
  rw [losses, kept] at drawdown
  exact ⟨final, ran, drawdown.trans (by norm_num)⟩

end Losses

/-! ### What is to be expected -/

section Growth
variable {limits : RiskLimits} {balance : ℚ} {opportunity : Opportunity}

theorem stake_share (limits : RiskLimits) (opportunity : Opportunity) (funded : 0 < balance) :
    0 ≤ opportunity.stake limits balance / balance ∧
    opportunity.stake limits balance / balance ≤
      max 0 (optimalShare opportunity.probability (netOdds opportunity.price)) := by
  obtain ⟨result, sized, nonneg, below⟩ := staked_share_range
    (RiskEngine.availableCapital ⟨limits, { balanceUsdc := balance }⟩) limits opportunity.range opportunity.certain
    funded
  have same : opportunity.stake limits balance = result.stakeUsdc := stake_of_size sized
  exact same ▸ ⟨nonneg, below⟩

theorem stake_pos_iff (funded : 0 < balance) : 0 < opportunity.stake limits balance ↔
    limits.reservedCapitalFraction < 1 ∧ opportunity.price < opportunity.probability ∧ opportunity.uncertainty < 1 := by
  have available : RiskEngine.availableCapital ⟨limits, { balanceUsdc := balance }⟩ =
    balance - balance * limits.reservedCapitalFraction := availableCapital_funded funded.le
  have deployable : 0 < balance - balance * limits.reservedCapitalFraction ↔ limits.reservedCapitalFraction < 1 := by
    rw [sub_pos, mul_lt_iff_lt_one_right funded]
  rcases le_or_gt opportunity.probability opportunity.price with noEdge | edge
  · have none : opportunity.stake limits balance = 0 :=
      stake_of_size (sizePosition_no_edge _ _ _ _ opportunity.range noEdge)
    simp [none, noEdge.not_gt]
  · obtain ⟨result, sized, stake⟩ := sizePosition_edge opportunity.uncertainty balance
      (RiskEngine.availableCapital ⟨limits, { balanceUsdc := balance }⟩) limits opportunity.range edge
    have raw := kelly_pos opportunity.range edge
    rw [stake_of_size sized, stake, capitalClamp_of_nonneg availableCapital_nonneg, available, lt_min_iff, deployable,
      and_comm]
    refine and_congr_right fun _ => ?_
    rw [and_iff_right edge]
    constructor
    · intro staked
      by_contra total
      rw [appliedFraction_total (not_lt.mp total), mul_zero, min_eq_left limits.maxPositionUsdc_pos.le] at staked
      exact lt_irrefl 0 staked
    · intro certain
      exact lt_min (mul_pos funded (appliedFraction_pos raw certain)) limits.maxPositionUsdc_pos

/-- Short of a certain win, something is left. -/
theorem stake_share_lt (limits : RiskLimits) (funded : 0 < balance) (uncertain : opportunity.probability ≠ 1) :
    opportunity.stake limits balance / balance < 1 := by
  refine (stake_share limits opportunity funded).2.trans_lt (max_lt one_pos ?_)
  have chance : opportunity.probability < 1 := opportunity.range.2.2.lt_of_ne uncertain
  rw [optimalShare_netOdds opportunity.range.1, div_lt_one (sub_pos.mpr opportunity.range.1.2)]
  exact sub_lt_sub_right chance _

/-- The logarithm of the balance is expected to grow by what the staked share is worth. -/
theorem settled_growth (funded : 0 < balance) :
    mix (opportunity.probability : ℝ) (Real.log (settled limits balance (opportunity, true)))
        (Real.log (settled limits balance (opportunity, false))) =
      Real.log balance + stakeGrowth opportunity.probability opportunity.price
        (opportunity.stake limits balance / balance : ℚ) := by
  have positive : (balance : ℝ) ≠ 0 := by exact_mod_cast funded.ne'
  have share := stake_share limits opportunity funded
  generalize share_eq : opportunity.stake limits balance / balance = f at share
  have staked : opportunity.stake limits balance = balance * f := by rw [← share_eq]; field_simp
  have won : settled limits balance (opportunity, true) = balance * (1 + netOdds opportunity.price * f) := by
    rw [settled_won, staked]
    ring
  have lost : settled limits balance (opportunity, false) = balance * (1 - f) := by
    rw [settled_lost, staked]
    ring
  have gain : (1 + (netOdds opportunity.price : ℝ) * f) ≠ 0 := by
    have odds := netOdds_pos opportunity.range.1
    exact_mod_cast (show (0 : ℚ) < 1 + netOdds opportunity.price * f by nlinarith [mul_nonneg odds.le share.1]).ne'
  rw [won, lost, stakeGrowth, expectedGrowth]
  push_cast
  rw [Real.log_mul positive gain]
  rcases eq_or_ne opportunity.probability 1 with certain | uncertain
  · simp [mix, certain]
  · have left : (1 - (f : ℝ)) ≠ 0 := by
      have below := stake_share_lt limits funded uncertain
      rw [share_eq] at below
      exact_mod_cast (sub_pos.mpr below).ne'
    rw [Real.log_mul positive left, mix]
    ring

theorem settled_balances : Keeps (fun o : Opportunity => (o.probability : ℝ)) (settled limits) (0 < ·) where
  chance o := by exact_mod_cast o.range.2
  won funded _ := funded.trans_le (le_settled_won funded.le)
  lost {balance o} funded uncertain := by
    have below : o.stake limits balance / balance < 1 := stake_share_lt limits funded (by exact_mod_cast uncertain)
    rw [settled_lost]
    exact sub_pos.mpr ((div_lt_one funded).mp below)

/-- What a stake of the Kelly fraction would grow by. -/
noncomputable def Opportunity.kellyGrowth (opportunity : Opportunity) : ℝ :=
  match kellyFraction opportunity.probability opportunity.price with
  | .ok kelly => stakeGrowth opportunity.probability opportunity.price kelly
  | .error _ => 0

theorem stake_growth_nonneg (funded : 0 < balance) : 0 ≤ stakeGrowth opportunity.probability opportunity.price
    (opportunity.stake limits balance / balance : ℚ) := by
  obtain ⟨nonneg, below⟩ := stake_share limits opportunity funded
  rcases nonneg.eq_or_lt with none | staked
  · simp [← none, stakeGrowth]
  · exact (stakeGrowth_pos opportunity.range below staked).le

theorem stake_growth_le_kelly (funded : 0 < balance) : stakeGrowth opportunity.probability opportunity.price
    (opportunity.stake limits balance / balance : ℚ) ≤ opportunity.kellyGrowth := by
  obtain ⟨nonneg, below⟩ := stake_share limits opportunity funded
  rw [Opportunity.kellyGrowth, kellyFraction_optimal opportunity.range]
  exact stakeGrowth_le_kelly opportunity.range below nonneg

/-- Over any run of opportunities, taken one after another with the estimates for chances, the
logarithm of the balance is expected to grow, if the limits let any capital be staked and there is
an opportunity with an edge and some certainty; otherwise it stays what it is. It never grows by
more than staking the Kelly fractions would make it. -/
theorem campaign_grows (limits : RiskLimits) (balance : ℚ) (opportunities : List Opportunity) (funded : 0 < balance) :
    ∃ final : List Bool → ℚ,
      (∀ outcomes, campaign limits balance (opportunities.zip outcomes) = .ok (final outcomes)) ∧
      let growth := expectation (opportunities.map fun o => (o.probability : ℝ))
        (fun outcomes => Real.log (final outcomes)) - Real.log balance
      0 ≤ growth ∧ growth ≤ (opportunities.map Opportunity.kellyGrowth).sum ∧
      (0 < growth ↔ limits.reservedCapitalFraction < 1 ∧
        ∃ o ∈ opportunities, o.price < o.probability ∧ o.uncertainty < 1) := by
  let win : Opportunity → ℝ := fun o => o.probability
  let value : ℚ → ℝ := fun balance => Real.log balance
  have grows : ∀ (o : Opportunity) (balance : ℚ), 0 < balance → value balance ≤
      mix (win o) (value (settled limits balance (o, true))) (value (settled limits balance (o, false))) := by
    intro o balance funded
    rw [settled_growth funded]
    exact le_add_of_nonneg_right (stake_growth_nonneg funded)
  have least : value balance ≤ expectedAfter win (settled limits) value balance opportunities :=
    self_le_expectedAfter settled_balances grows opportunities funded
  have most : expectedAfter win (settled limits) value balance opportunities ≤
      value balance + (opportunities.map Opportunity.kellyGrowth).sum := by
    refine expectedAfter_le settled_balances _ ?_ funded
    intro o _ balance funded
    rw [settled_growth funded]
    exact add_le_add_right (stake_growth_le_kelly funded) _
  refine ⟨fun outcomes => (opportunities.zip outcomes).foldl (settled limits) balance, fun _ => campaign_eq funded.le,
    sub_nonneg.mpr least, sub_le_iff_le_add'.mpr most, ?_⟩
  rw [sub_pos]
  constructor
  · intro grown
    by_contra idle
    refine absurd grown (not_lt.mpr ?_)
    have still : expectedAfter win (settled limits) value balance opportunities ≤
        value balance + (opportunities.map fun _ => 0).sum := by
      refine expectedAfter_le settled_balances _ ?_ funded
      intro o member balance funded
      have none : o.stake limits balance = 0 := by
        refine le_antisymm (not_lt.mp fun staked => idle ?_) (stake_safe limits o funded.le).nonneg
        obtain ⟨free, edge, certain⟩ := (stake_pos_iff funded).mp staked
        exact ⟨free, o, member, edge, certain⟩
      simp [settled, none]
    exact still.trans_eq (by simp [value])
  · rintro ⟨free, o, member, edge, certain⟩
    refine lt_expectedAfter settled_balances grows member ?_ funded
    intro balance funded
    have staked : 0 < o.stake limits balance := (stake_pos_iff funded).mpr ⟨free, edge, certain⟩
    rw [settled_growth funded]
    exact lt_add_of_pos_right _ (stakeGrowth_pos o.range (stake_share limits o funded).2 (div_pos staked funded))

theorem campaign_grows_favourite : ∃ final : List Bool → ℚ,
    (∀ outcomes, campaign .default 1000 (List.zip [.favourite, .favourite] outcomes) = .ok (final outcomes)) ∧
      0 < expectation [((95 / 100 : ℚ) : ℝ), ((95 / 100 : ℚ) : ℝ)] (fun outcomes => Real.log (final outcomes)) -
        Real.log (1000 : ℚ) := by
  obtain ⟨final, ran, -, -, grows⟩ := campaign_grows .default 1000 [.favourite, .favourite] (by norm_num)
  have reserve : RiskLimits.default.reservedCapitalFraction < 1 := by norm_num [RiskLimits.default]
  have edge : Opportunity.favourite.price < Opportunity.favourite.probability ∧
      Opportunity.favourite.uncertainty < 1 := by
    norm_num [Opportunity.favourite]
  exact ⟨final, ran, grows.mpr ⟨reserve, _, List.mem_cons_self, edge⟩⟩

end Growth
end DeepFlow.Risk
