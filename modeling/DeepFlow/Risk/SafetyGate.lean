import Mathlib.Data.Finset.SDiff
import Mathlib.Data.Fintype.Defs
import DeepFlow.Foundation.Dict
import DeepFlow.Foundation.Iteration

/-!
# Safety gate

Every trade passes the same checklist. `evaluate` runs every registered check, records a failure
for a check that raises and for every id that labels no result, and approves when no mandatory
result failed.
-/

namespace DeepFlow.Risk
open Foundation

inductive CheckId where
  | marketValid | resolutionValid | classificationValid | dataFresh | modelAvailable
  | probabilityValid | positiveNetEv | liquiditySufficient | spreadAcceptable | slippageAcceptable
  | capitalAvailable | exposureAcceptable | noDuplicateOrder | executionHealthy | riskApproved
  deriving DecidableEq, Repr

namespace CheckId

def members : List CheckId :=
  [marketValid, resolutionValid, classificationValid, dataFresh, modelAvailable,
    probabilityValid, positiveNetEv, liquiditySufficient, spreadAcceptable, slippageAcceptable,
    capitalAvailable, exposureAcceptable, noDuplicateOrder, executionHealthy, riskApproved]

instance : Fintype CheckId := ⟨⟨members, by decide⟩, fun c => by cases c <;> decide⟩

def inOrder (ids : Finset CheckId) : Iteration ids :=
  ⟨members.filter fun c => decide (c ∈ ids), List.Nodup.filter _ (by decide), fun c => by
    have listed : c ∈ members := by cases c <;> decide
    simp [listed]⟩

def value : CheckId → String
  | marketValid => "MARKET_VALID"
  | resolutionValid => "RESOLUTION_VALID"
  | classificationValid => "CLASSIFICATION_VALID"
  | dataFresh => "DATA_FRESH"
  | modelAvailable => "MODEL_AVAILABLE"
  | probabilityValid => "PROBABILITY_VALID"
  | positiveNetEv => "POSITIVE_NET_EV"
  | liquiditySufficient => "LIQUIDITY_SUFFICIENT"
  | spreadAcceptable => "SPREAD_ACCEPTABLE"
  | slippageAcceptable => "SLIPPAGE_ACCEPTABLE"
  | capitalAvailable => "CAPITAL_AVAILABLE"
  | exposureAcceptable => "EXPOSURE_ACCEPTABLE"
  | noDuplicateOrder => "NO_DUPLICATE_ORDER"
  | executionHealthy => "EXECUTION_HEALTHY"
  | riskApproved => "RISK_APPROVED"

end CheckId

structure CheckResult where
  check : CheckId
  passed : Bool
  detail : String := ""
  mandatory : Bool := true
  deriving DecidableEq, Repr

structure GateDecision where
  approved : Bool
  results : List CheckResult
  deriving DecidableEq, Repr

namespace GateDecision

def failures (self : GateDecision) : List CheckResult := self.results.filter fun r => !r.passed

def blockingFailures (self : GateDecision) : List CheckResult :=
  self.failures.filter CheckResult.mandatory

def reason (self : GateDecision) : String :=
  if self.approved then "all checks passed"
  else "; ".intercalate (self.blockingFailures.map fun r =>
    r.check.value ++ ": " ++ if r.detail = "" then "failed" else r.detail)

end GateDecision

structure GateContext (ω : Type) where
  payload : Dict String ω := ∅

/-- An exception caught by the gate, by its `repr`. -/
structure PyException where
  repr : String
  deriving DecidableEq, Repr

/-- A check over the evaluation context. It returns a result or raises, and may leave the context
changed for the checks after it. -/
abbrev CheckFn (ω : Type) := GateContext ω → Except PyException CheckResult × GateContext ω

structure SafetyGate (ω : Type) where
  checks : List (CheckId × CheckFn ω) := []

def entry (checkId : CheckId) : Except PyException CheckResult → CheckResult
  | .ok result => result
  | .error exc =>
    { check := checkId, passed := false, detail := "check raised: " ++ exc.repr, mandatory := true }

def notRegistered (checkId : CheckId) : CheckResult :=
  { check := checkId, passed := false, detail := "check not registered", mandatory := true }

namespace SafetyGate
variable {ω : Type}

/-- The constructor, with or without a list of checks. -/
def init (checks : Option (List (CheckId × CheckFn ω))) : SafetyGate ω := ⟨checks.getD []⟩

def register (self : SafetyGate ω) (checkId : CheckId) (fn : CheckFn ω) : SafetyGate ω :=
  ⟨self.checks ++ [(checkId, fn)]⟩

/-- What each registered function did, under the id it is registered for. -/
def outcomes : List (CheckId × CheckFn ω) → GateContext ω →
    List (CheckId × Except PyException CheckResult) × GateContext ω
  | [], context => ([], context)
  | (checkId, fn) :: rest, context =>
    let (outcome, context) := fn context
    let (later, context) := outcomes rest context
    ((checkId, outcome) :: later, context)

/-- Run all registered checks. `iterate` is the order in which the set of missing ids is walked. -/
def evaluate (iterate : ∀ missing : Finset CheckId, Iteration missing) (self : SafetyGate ω)
    (context : GateContext ω) : GateDecision :=
  let results := (outcomes self.checks context).1.map fun o => entry o.1 o.2
  let missing := Finset.univ \ (results.map CheckResult.check).toFinset
  let results := results ++ (iterate missing).order.map notRegistered
  { approved := !results.any fun r => r.mandatory && !r.passed, results }

variable {gate : SafetyGate ω} {context : GateContext ω}
  {iterate : ∀ missing : Finset CheckId, Iteration missing} {r : CheckResult} {c : CheckId}

/-! ### Evidence -/

theorem mem_results : r ∈ (gate.evaluate iterate context).results ↔
    (∃ o ∈ (outcomes gate.checks context).1, entry o.1 o.2 = r) ∨
    ∃ c, (∀ o ∈ (outcomes gate.checks context).1, (entry o.1 o.2).check ≠ c) ∧ notRegistered c = r := by
  simp [evaluate, (iterate _).mem_order]

theorem approved_iff : (gate.evaluate iterate context).approved = true ↔
    ∀ r ∈ (gate.evaluate iterate context).results, r.mandatory = true → r.passed = true := by
  simp only [evaluate, Bool.not_eq_true', List.any_eq_false]
  refine forall₂_congr fun r _ => ?_
  cases r.mandatory <;> cases r.passed <;> simp

theorem approved_iff_blockingFailures : (gate.evaluate iterate context).approved = true ↔
    (gate.evaluate iterate context).blockingFailures = [] := by
  rw [approved_iff]
  simp only [GateDecision.blockingFailures, GateDecision.failures, List.filter_filter,
    List.filter_eq_nil_iff]
  refine forall₂_congr fun r _ => ?_
  cases r.mandatory <;> cases r.passed <;> simp

/-! ### Soundness of an approval -/

/-- Every registered function labels its result with the id it is registered under. -/
def Labelled (outcomes : List (CheckId × Except PyException CheckResult)) : Prop :=
  ∀ o ∈ outcomes, ∀ r, o.2 = .ok r → r.check = o.1

theorem approved_returned (approved : (gate.evaluate iterate context).approved = true)
    {o : CheckId × Except PyException CheckResult} (ran : o ∈ (outcomes gate.checks context).1) :
    ∃ r, o.2 = .ok r ∧ (r.mandatory = true → r.passed = true) := by
  have settled := approved_iff.mp approved _ (mem_results.mpr (Or.inl ⟨o, ran, rfl⟩))
  cases outcome : o.2 with
  | ok r => exact ⟨r, rfl, by simpa [outcome, entry] using settled⟩
  | error exc => simp [outcome, entry] at settled

theorem approved_covers (approved : (gate.evaluate iterate context).approved = true) (c : CheckId) :
    ∃ o ∈ (outcomes gate.checks context).1, (entry o.1 o.2).check = c := by
  by_contra unlabelled
  push Not at unlabelled
  have blocked := approved_iff.mp approved _ (mem_results.mpr (Or.inr ⟨c, unlabelled, rfl⟩))
  simp [notRegistered] at blocked

/-- An approval means that no check raised, that nothing declared mandatory failed, and, where
functions label their results with the ids they are registered under, that every id was checked by
a function whose result passed or was declared advisory. -/
theorem approved_sound (iterate : ∀ missing : Finset CheckId, Iteration missing)
    (gate : SafetyGate ω) (context : GateContext ω)
    (approved : (gate.evaluate iterate context).approved = true) :
    (∀ o ∈ (outcomes gate.checks context).1,
      ∃ r, o.2 = .ok r ∧ (r.mandatory = true → r.passed = true)) ∧
    (Labelled (outcomes gate.checks context).1 → ∀ c, ∃ r,
      (c, .ok r) ∈ (outcomes gate.checks context).1 ∧ (r.passed = true ∨ r.mandatory = false)) := by
  refine ⟨fun o ran => approved_returned approved ran, fun labelled c => ?_⟩
  obtain ⟨⟨id, outcome⟩, ran, label⟩ := approved_covers approved c
  obtain ⟨r, rfl, settled⟩ := approved_returned approved ran
  obtain rfl : id = c := (labelled _ ran r rfl).symm.trans label
  refine ⟨r, ran, ?_⟩
  cases mandatory : r.mandatory with
  | true => exact Or.inl (settled mandatory)
  | false => exact Or.inr rfl

end SafetyGate

/-- A gate in which every id is registered once and only `positiveNetEv` fails, as advice. -/
def advisoryGate : SafetyGate Unit :=
  ⟨CheckId.members.map fun c => (c, fun context =>
    (.ok { check := c, passed := decide (c ≠ .positiveNetEv), mandatory := decide (c ≠ .positiveNetEv) },
      context))⟩

theorem advisory_failure_approved :
    (advisoryGate.evaluate CheckId.inOrder {}).approved = true ∧
      ¬ ∃ r, (CheckId.positiveNetEv, .ok r) ∈ (SafetyGate.outcomes advisoryGate.checks {}).1 ∧
        r.passed = true := by
  refine ⟨by decide +kernel, ?_⟩
  rintro ⟨r, ran, passed⟩
  have only : ∀ o ∈ (SafetyGate.outcomes advisoryGate.checks {}).1, o.1 = .positiveNetEv →
      o.2 = .ok { check := .positiveNetEv, passed := false, mandatory := false } := by decide +kernel
  cases only _ ran rfl
  cases passed

theorem approved_sound_advisory :
    (∀ o ∈ (SafetyGate.outcomes advisoryGate.checks {}).1,
      ∃ r, o.2 = .ok r ∧ (r.mandatory = true → r.passed = true)) ∧
    ∀ c, ∃ r, (c, .ok r) ∈ (SafetyGate.outcomes advisoryGate.checks {}).1 ∧
      (r.passed = true ∨ r.mandatory = false) := by
  have sound := SafetyGate.approved_sound CheckId.inOrder advisoryGate {} (by decide +kernel)
  refine ⟨sound.1, sound.2 fun o ran r returned => ?_⟩
  have labelled : ∀ o ∈ (SafetyGate.outcomes advisoryGate.checks {}).1,
      (entry o.1 o.2).check = o.1 := by decide +kernel
  simpa only [returned, entry] using labelled o ran

end DeepFlow.Risk
