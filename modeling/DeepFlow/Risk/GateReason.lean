import DeepFlow.Foundation.Joined
import DeepFlow.Foundation.Text
import DeepFlow.Risk.SafetyGate

/-!
# The reason on record

`reason` puts the blocking failures of a decision on one line, joined by `"; "`. The line tells them
apart again as long as no detail contains the separator.
-/

namespace DeepFlow.Risk
open Foundation

/-- What `reason` says of a failure after its check. -/
def CheckResult.shown (r : CheckResult) : String := if r.detail = "" then "failed" else r.detail

def CheckResult.line (r : CheckResult) : String := r.check.value ++ ": " ++ r.shown

/-- The lines that a reason is made of. -/
def reasonLines (reason : String) : List String := (cut ';' ' ' reason.toList).map String.ofList

section Lines
variable {r r' : CheckResult}

theorem checkId_value_plain : ∀ c : CheckId, ':' ∉ c.value.toList ∧ ';' ∉ c.value.toList := by
  intro c
  cases c <;> decide

theorem checkId_value_inj : ∀ c c' : CheckId, c.value = c'.value → c = c' := by decide +kernel

theorem line_toList : r.line.toList = delimited ':' [r.check.value.toList] (' ' :: r.shown.toList) := by
  simp [CheckResult.line, delimited]

/-- A line tells the check and what is said of it. -/
theorem line_inj (same : r.line = r'.line) : r.check = r'.check ∧ r.shown = r'.shown := by
  have texts := congrArg String.toList same
  rw [line_toList, line_toList] at texts
  obtain ⟨checks, details⟩ := delimited_inj texts rfl (by simp [(checkId_value_plain _).1])
    (by simp [(checkId_value_plain _).1])
  exact ⟨checkId_value_inj _ _ (String.toList_inj.mp (List.cons.inj checks).1),
    String.toList_inj.mp (List.cons.inj details).2⟩

theorem line_clean (clean : Clean ';' ' ' r.shown.toList) : Clean ';' ' ' r.line.toList := by
  have front : ';' ∉ r.check.value.toList ++ [':', ' '] := by simp [(checkId_value_plain _).2]
  have split : r.line.toList = r.check.value.toList ++ [':', ' '] ++ r.shown.toList := by simp [CheckResult.line]
  rw [split]
  exact clean.append front

end Lines

namespace SafetyGate
variable {ω : Type} {gate : SafetyGate ω} {context : GateContext ω}
  {iterate : ∀ missing : Finset CheckId, Iteration missing}

theorem reason_rejected {decision : GateDecision} (rejected : decision.approved = false) :
    decision.reason = "; ".intercalate (decision.blockingFailures.map CheckResult.line) := by
  rw [GateDecision.reason, rejected]
  rfl

theorem blocked_nonempty (rejected : (gate.evaluate iterate context).approved = false) :
    (gate.evaluate iterate context).blockingFailures ≠ [] := by
  intro none
  rw [approved_iff_blockingFailures.mpr none] at rejected
  cases rejected

/-- A rejection does not read like an approval: its first line names a check. -/
theorem reason_ne_passed (rejected : (gate.evaluate iterate context).approved = false) :
    (gate.evaluate iterate context).reason ≠ "all checks passed" := by
  obtain ⟨r, rest, failures⟩ := List.exists_cons_of_ne_nil (blocked_nonempty rejected)
  have names : ':' ∈ (gate.evaluate iterate context).reason.toList := by
    rw [reason_rejected rejected, failures, List.map_cons]
    have line : ':' ∈ r.line.toList := by simp [CheckResult.line]
    cases rest with
    | nil => simpa using line
    | cons next rest =>
      rw [List.map_cons, String.intercalate_cons_cons, String.toList_append, String.toList_append]
      exact List.mem_append_left _ (List.mem_append_left _ line)
  intro same
  rw [same] at names
  exact absurd names (by decide)

theorem reason_passed_iff : (gate.evaluate iterate context).reason = "all checks passed" ↔
    (gate.evaluate iterate context).approved = true := by
  cases verdict : (gate.evaluate iterate context).approved with
  | true => exact iff_of_true (by rw [GateDecision.reason, verdict]; rfl) rfl
  | false => exact iff_of_false (reason_ne_passed verdict) nofun

/-- No detail of a blocking failure contains what separates the lines. -/
def Legible (decision : GateDecision) : Prop := ∀ r ∈ decision.blockingFailures, Clean ';' ' ' r.shown.toList

theorem reason_lines (rejected : (gate.evaluate iterate context).approved = false)
    (legible : Legible (gate.evaluate iterate context)) :
    reasonLines (gate.evaluate iterate context).reason =
      (gate.evaluate iterate context).blockingFailures.map CheckResult.line := by
  let lines := (gate.evaluate iterate context).blockingFailures.map CheckResult.line
  have pieces : cut ';' ' ' ([';', ' '].intercalate (lines.map String.toList)) = lines.map String.toList := by
    refine cut_intercalate (by decide) ?_ ?_
    · simpa [lines] using blocked_nonempty rejected
    · intro piece member
      obtain ⟨line, listed, rfl⟩ := List.mem_map.mp member
      obtain ⟨r, failed, rfl⟩ := List.mem_map.mp listed
      exact line_clean (legible r failed)
  rw [reasonLines, reason_rejected rejected, String.toList_intercalate]
  change (cut ';' ' ' ([';', ' '].intercalate (lines.map String.toList))).map String.ofList = lines
  rw [pieces, List.map_map]
  simp [Function.comp_def]

/-- The same lines are the same checks with the same details. -/
theorem evidence_of_lines {failures failures' : List CheckResult}
    (same : failures.map CheckResult.line = failures'.map CheckResult.line) :
    failures.map (fun r => (r.check, r.shown)) = failures'.map fun r => (r.check, r.shown) := by
  induction failures generalizing failures' with
  | nil =>
    obtain rfl := List.map_eq_nil_iff.mp same.symm
    rfl
  | cons r rest ih =>
    obtain ⟨r', rest', rfl, line, lines⟩ := List.map_eq_cons_iff.mp same.symm
    obtain ⟨check, shown⟩ := line_inj line
    rw [List.map_cons, List.map_cons, check, shown, ih lines.symm]

/-- The reason on record says whether the decision approved, and of a rejection whose details do not
contain the separator it gives back every blocking failure in order: two such decisions with one
reason failed on the same checks, each shown with the same text. -/
theorem reason_decodes (gate gate' : SafetyGate ω) (context context' : GateContext ω)
    (iterate iterate' : ∀ missing : Finset CheckId, Iteration missing) :
    let decision := gate.evaluate iterate context
    let decision' := gate'.evaluate iterate' context'
    (decision.reason = "all checks passed" ↔ decision.approved = true) ∧
    (Legible decision → decision.approved = false →
      reasonLines decision.reason = decision.blockingFailures.map CheckResult.line) ∧
    (Legible decision → Legible decision' → decision.reason = decision'.reason →
      decision.approved = decision'.approved ∧
      decision.blockingFailures.map (fun r => (r.check, r.shown)) =
        decision'.blockingFailures.map fun r => (r.check, r.shown)) := by
  intro decision decision'
  refine ⟨reason_passed_iff, fun legible rejected => reason_lines rejected legible, ?_⟩
  intro legible legible' same
  have verdicts : decision.approved = decision'.approved := by
    rw [Bool.eq_iff_iff, ← reason_passed_iff, ← reason_passed_iff]
    exact Eq.congr_left same
  refine ⟨verdicts, ?_⟩
  cases verdict : decision.approved with
  | true =>
    have none : decision.blockingFailures = [] := approved_iff_blockingFailures.mp verdict
    have none' : decision'.blockingFailures = [] := approved_iff_blockingFailures.mp (verdicts ▸ verdict)
    rw [none, none']
  | false =>
    apply evidence_of_lines
    rw [← reason_lines verdict legible, ← reason_lines (verdicts ▸ verdict) legible']
    exact congrArg reasonLines same

end SafetyGate

-- One failure whose detail contains the separator reads like two.
example : GateDecision.reason ⟨false, [⟨.dataFresh, false, "stale; RISK_APPROVED: failed", true⟩]⟩ =
    GateDecision.reason ⟨false, [⟨.dataFresh, false, "stale", true⟩, ⟨.riskApproved, false, "", true⟩]⟩ := by
  decide +kernel

end DeepFlow.Risk
