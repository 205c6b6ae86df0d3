import Mathlib.Data.Finset.Dedup
import DeepFlow.Risk.SafetyGate

/-!
# Gate evidence

Checks that only read the context see the same one wherever they are registered. The evidence of a
decision is then one result for each registered function and one for each id without a label, the
order of registration does not matter, and a real failure blocks whatever is registered after it.
-/

namespace DeepFlow.Risk
open Foundation

variable {ω : Type} {gate gate' : SafetyGate ω} {context : GateContext ω}
  {iterate iterate' : ∀ missing : Finset CheckId, Iteration missing}

def ReadsOnly (fn : CheckFn ω) : Prop := ∀ context, (fn context).2 = context

/-- The entry that a check leaves in the evidence. -/
def evidenceOf (context : GateContext ω) (check : CheckId × CheckFn ω) : CheckResult :=
  entry check.1 (check.2 context).1

/-- The check raises, or what it declares mandatory does not hold. -/
def Fails (context : GateContext ω) (check : CheckId × CheckFn ω) : Prop :=
  (∃ exc, (check.2 context).1 = .error exc) ∨
    ∃ r, (check.2 context).1 = .ok r ∧ r.mandatory = true ∧ r.passed = false

namespace SafetyGate

def registerAll (self : SafetyGate ω) (checks : List (CheckId × CheckFn ω)) : SafetyGate ω :=
  checks.foldl (fun gate check => gate.register check.1 check.2) self

theorem registerAll_checks (checks : List (CheckId × CheckFn ω)) :
    (gate.registerAll checks).checks = gate.checks ++ checks := by
  induction checks generalizing gate with
  | nil => exact (List.append_nil _).symm
  | cons check checks ih =>
    have first : gate.registerAll (check :: checks) = (gate.register check.1 check.2).registerAll checks := rfl
    rw [first, ih, register, List.append_assoc]
    rfl

theorem outcomes_cons (check : CheckId × CheckFn ω) (checks : List (CheckId × CheckFn ω)) :
    outcomes (check :: checks) context = ((check.1, (check.2 context).1) :: (outcomes checks (check.2 context).2).1,
      (outcomes checks (check.2 context).2).2) := rfl

theorem outcomes_append (checks further : List (CheckId × CheckFn ω)) :
    (outcomes (checks ++ further) context).1 =
      (outcomes checks context).1 ++ (outcomes further (outcomes checks context).2).1 := by
  induction checks generalizing context with
  | nil => rfl
  | cons check checks ih => exact congrArg _ ih

theorem outcomes_readsOnly {checks : List (CheckId × CheckFn ω)} (reads : ∀ check ∈ checks, ReadsOnly check.2) :
    outcomes checks context = (checks.map fun check => (check.1, (check.2 context).1), context) := by
  induction checks with
  | nil => rfl
  | cons check checks ih =>
    obtain ⟨first, rest⟩ := List.forall_mem_cons.mp reads
    rw [outcomes_cons, first context, ih rest]
    rfl

/-- The ids that label no entry of a registered function. -/
def unlabelled (checks : List (CheckId × CheckFn ω)) (context : GateContext ω) : Finset CheckId :=
  Finset.univ \ ((checks.map (evidenceOf context)).map CheckResult.check).toFinset

theorem mem_unlabelled {checks : List (CheckId × CheckFn ω)} {c : CheckId} :
    c ∈ unlabelled checks context ↔ ∀ check ∈ checks, (evidenceOf context check).check ≠ c := by
  simp [unlabelled]

theorem results_readsOnly (reads : ∀ check ∈ gate.checks, ReadsOnly check.2) :
    (gate.evaluate iterate context).results = gate.checks.map (evidenceOf context) ++
      (iterate (unlabelled gate.checks context)).order.map notRegistered := by
  have entries : ((outcomes gate.checks context).1.map fun o => entry o.1 o.2) =
      gate.checks.map (evidenceOf context) := by
    rw [outcomes_readsOnly reads, List.map_map]
    rfl
  unfold evaluate
  dsimp only
  rw [entries]
  rfl

theorem results_perm (reads : ∀ check ∈ gate.checks, ReadsOnly check.2) (permuted : gate'.checks.Perm gate.checks) :
    (gate'.evaluate iterate' context).results.Perm (gate.evaluate iterate context).results := by
  have reads' : ∀ check ∈ gate'.checks, ReadsOnly check.2 := fun check member =>
    reads check (permuted.mem_iff.mp member)
  have same : unlabelled gate'.checks context = unlabelled gate.checks context := by
    ext c
    simp only [mem_unlabelled, permuted.mem_iff]
  rw [results_readsOnly reads, results_readsOnly reads', same]
  refine (permuted.map _).append (List.Perm.map _ ?_)
  apply (List.perm_ext_iff_of_nodup (iterate' _).nodup (iterate _).nodup).mpr
  intro c
  rw [(iterate' _).mem_order, (iterate _).mem_order]

theorem approved_perm
    (permuted : (gate'.evaluate iterate' context).results.Perm (gate.evaluate iterate context).results) :
    (gate'.evaluate iterate' context).approved = (gate.evaluate iterate context).approved := by
  rw [Bool.eq_iff_iff, approved_iff, approved_iff]
  exact forall_congr' fun r => imp_congr_left permuted.mem_iff

theorem blocked_of_fails (reads : ∀ check ∈ gate.checks, ReadsOnly check.2) {check : CheckId × CheckFn ω}
    (registered : check ∈ gate.checks) (fails : Fails context check) {further : List (CheckId × CheckFn ω)}
    (extended : gate'.checks = gate.checks ++ further) : (gate'.evaluate iterate context).approved = false := by
  by_contra unblocked
  have approved := Bool.eq_true_of_not_eq_false unblocked
  have ran : (check.1, (check.2 context).1) ∈ (outcomes gate'.checks context).1 := by
    rw [extended, outcomes_append, outcomes_readsOnly reads]
    exact List.mem_append_left _ (List.mem_map_of_mem registered)
  obtain ⟨r, returned, settled⟩ := approved_returned approved ran
  rcases fails with raised | failed
  · obtain ⟨exc, raised⟩ := raised
    cases raised.symm.trans returned
  · obtain ⟨r', returned', mandatory, failed⟩ := failed
    cases returned'.symm.trans returned
    rw [settled mandatory] at failed
    cases failed

/-- What a decision records, and what it does not depend on. -/
structure Evidence (gate : SafetyGate ω) (context : GateContext ω)
    (iterate : ∀ missing : Finset CheckId, Iteration missing) : Prop where
  complete : ∃ missing : List CheckId, missing.Nodup ∧
    (∀ c, c ∈ missing ↔ ∀ check ∈ gate.checks, (evidenceOf context check).check ≠ c) ∧
    (gate.evaluate iterate context).results = gate.checks.map (evidenceOf context) ++ missing.map notRegistered ∧
    ∀ c ∈ missing, (notRegistered c).check = c ∧ (notRegistered c).passed = false ∧ (notRegistered c).mandatory = true
  consistent : (gate.evaluate iterate context).approved = true ↔
    (gate.evaluate iterate context).blockingFailures = []
  unordered : ∀ (gate' : SafetyGate ω) (iterate' : ∀ missing : Finset CheckId, Iteration missing),
    gate'.checks.Perm gate.checks →
    (gate'.evaluate iterate' context).approved = (gate.evaluate iterate context).approved ∧
      (gate'.evaluate iterate' context).results.Perm (gate.evaluate iterate context).results
  blocking : ∀ check ∈ gate.checks, Fails context check →
    ∀ (iterate' : ∀ missing : Finset CheckId, Iteration missing) (further : List (CheckId × CheckFn ω)),
      ((init (some (gate.checks ++ further))).evaluate iterate' context).approved = false ∧
      ((gate.registerAll further).evaluate iterate' context).approved = false

theorem evidence (gate : SafetyGate ω) (context : GateContext ω)
    (iterate : ∀ missing : Finset CheckId, Iteration missing)
    (reads : ∀ check ∈ gate.checks, ReadsOnly check.2) : Evidence gate context iterate where
  complete := by
    refine ⟨(iterate (unlabelled gate.checks context)).order, (iterate _).nodup, ?_, results_readsOnly reads, ?_⟩
    · intro c
      rw [(iterate _).mem_order, mem_unlabelled]
    · intro c _
      exact ⟨rfl, rfl, rfl⟩
  consistent := approved_iff_blockingFailures
  unordered _ _ permuted :=
    have same := results_perm reads permuted
    ⟨approved_perm same, same⟩
  blocking _ registered fails _ further :=
    ⟨blocked_of_fails reads registered fails rfl,
      blocked_of_fails reads registered fails (registerAll_checks further)⟩

end SafetyGate

/-- Its only check raises. -/
def raisingGate : SafetyGate Unit := ⟨[(.dataFresh, fun context => (.error ⟨"KeyError('age')"⟩, context))]⟩

theorem evidence_raising :
    ((raisingGate.registerAll advisoryGate.checks).evaluate CheckId.inOrder {}).approved = false :=
  ((SafetyGate.evidence raisingGate {} CheckId.inOrder (by simp [raisingGate, ReadsOnly])).blocking
    (.dataFresh, fun context => (.error ⟨"KeyError('age')"⟩, context)) List.mem_cons_self
    (Or.inl ⟨_, rfl⟩) CheckId.inOrder advisoryGate.checks).2

end DeepFlow.Risk
