import DeepFlow.Core.StateMachine

/-!
# What a lifecycle's history guarantees

The guard of `transition` sees one edge; the safety rules are about histories. `dataStale` and
`halted` are entered from every live state and lead back into the middle of the pipeline, so the
rules hold for exactly the runs whose resumptions agree with what was suspended.
-/

namespace DeepFlow.Core
open Foundation MarketState

variable {final : MarketLifecycle} {visits : List MarketState} {s : MarketState}

/-- The states that only suspend a market; what it was doing is not recorded in them. -/
def suspended : Finset MarketState := {dataStale, halted, reconciliationRequired}

def lastActive (visits : List MarketState) : Option MarketState :=
  lastWhere (fun s => decide (s ∉ suspended)) visits

theorem lastActive_current (walk : Walk Edge discovered visits s) (active : s ∉ suspended) :
    lastActive visits = some s := by
  obtain ⟨past, rfl⟩ := walk.last
  exact lastWhere_concat_pos (by simpa using active)

theorem lastActive_concat_suspended (suspension : s ∈ suspended) :
    lastActive (visits ++ [s]) = lastActive visits :=
  lastWhere_concat_neg (by simpa using suspension)

theorem lastActive_concat_active (active : s ∉ suspended) :
    lastActive (visits ++ [s]) = some s :=
  lastWhere_concat_pos (by simpa using active)

/-! ### Resolution validation -/

def pastValidation : Finset MarketState :=
  {monitored, candidate, signal, riskApproved, orderPending, partiallyFilled, filled, managed,
    exitPending}

def ValidatedFirst : List MarketState → Prop :=
  Always fun past s => s ∈ pastValidation → [classified, validated].Sublist past

/-- Whatever the market was suspended from had not been validated. -/
def Unvalidated (past : List MarketState) : Prop :=
  lastActive past = some discovered ∨ lastActive past = some classified

def ResumesValidated : List MarketState → Prop :=
  Always fun past s => s = monitored ∨ s = managed → ¬ Unvalidated past

theorem not_edge_discovered : ∀ source, ¬ Edge source discovered := by decide

theorem edge_classified : ∀ source, Edge source classified → source = discovered := by decide

theorem edge_validated : ∀ source, Edge source validated → source = classified := by decide

theorem unvalidated_edge : ∀ source target, Edge source target →
    source = discovered ∨ source = classified ∨ source ∈ suspended →
    target = classified ∨ target = validated ∨ target ∈ suspended ∨ target ∈ terminal ∨
      target = monitored ∨ target = managed := by decide

theorem trading_live : ∀ s ∈ pastValidation, s ∉ suspended ∧ s ∉ terminal := by decide

theorem terminal_final : ∀ source target, source ∈ terminal → ¬ Edge source target := by decide

theorem classified_validated (walk : Walk Edge discovered visits s) (member : validated ∈ visits) :
    [classified, validated].Sublist visits :=
  walk.entered_through (by decide) edge_validated member

theorem validated_not_unvalidated (walk : Walk Edge discovered visits s) :
    Always (fun past _ => validated ∈ past → ¬ Unvalidated past) visits := by
  refine (walk.always (fun visits _ => validated ∈ visits → ¬ Unvalidated visits) (fun _ _ => True) _
    (fun _ _ _ _ => trivial) (by simp) ?_).2
  intro past source target walk kept taken _
  refine ⟨fun member => ?_, kept⟩
  by_cases suspension : target ∈ suspended
  · have before : validated ∈ past := by
      rcases List.mem_append.mp member with before | now
      · exact before
      · rw [← List.mem_singleton.mp now] at suspension
        exact absurd suspension (by decide)
    simpa only [Unvalidated, lastActive_concat_suspended suspension] using kept before
  · simp only [Unvalidated, lastActive_concat_active suspension, Option.some.injEq]
    rintro (rfl | rfl)
    · exact not_edge_discovered _ taken
    · obtain rfl := edge_classified _ taken
      have before : validated ∈ past := by simpa using member
      exact kept before (Or.inl (lastActive_current walk (by decide)))

/-- While every resumption waits for validation, a market that was never validated is at the
start of the pipeline, suspended there, or gone. -/
theorem resumesValidated_first (walk : Walk Edge discovered visits s)
    (resumes : ResumesValidated visits) : ValidatedFirst visits := by
  refine (walk.always
    (fun visits s => validated ∈ visits ∨ s ∈ terminal ∨ Unvalidated visits ∧
      (s = discovered ∨ s = classified ∨ s ∈ suspended)) _ _ resumes
    ⟨Or.inr (Or.inr ⟨Or.inl rfl, Or.inl rfl⟩), by decide⟩ ?_).2
  intro past source target walk kept taken guarded
  rcases kept with member | gone | ⟨unvalidated, place⟩
  · exact ⟨Or.inl (List.mem_append_left _ member), fun _ => classified_validated walk member⟩
  · exact absurd taken (terminal_final _ _ gone)
  · rcases unvalidated_edge _ _ taken place with rfl | rfl | suspension | gone | resumed
    · exact ⟨Or.inr (Or.inr ⟨Or.inr (lastActive_concat_active (by decide)), Or.inr (Or.inl rfl)⟩),
        fun trading => absurd trading (by decide)⟩
    · exact ⟨Or.inl (by simp), fun trading => absurd trading (by decide)⟩
    · have same : lastActive (past ++ [target]) = lastActive past := lastActive_concat_suspended suspension
      exact ⟨Or.inr (Or.inr ⟨by simpa only [Unvalidated, same] using unvalidated,
        Or.inr (Or.inr suspension)⟩), fun trading => absurd suspension (trading_live _ trading).1⟩
    · exact ⟨Or.inr (Or.inl gone), fun trading => absurd gone (trading_live _ trading).2⟩
    · exact absurd unvalidated (guarded resumed)

/-- Resolution validation precedes trading in exactly the runs that never resume a market which
was suspended before it was validated. -/
theorem validated_first_iff (calls : List TransitionCall)
    (accepted : MarketLifecycle.run {} calls = .ok final) :
    ValidatedFirst final.visited ↔ ResumesValidated final.visited := by
  have walk := MarketLifecycle.run_walk accepted
  constructor
  · intro first past s future split resumed
    have trading : s ∈ pastValidation := by rcases resumed with rfl | rfl <;> decide
    have member : validated ∈ past := (first past s future split trading).subset (by simp)
    exact validated_not_unvalidated walk past s future split member
  · exact resumesValidated_first walk

theorem suspended_discovery_skips_validation :
    ∃ final, MarketLifecycle.run {} (callsTo [dataStale, monitored]) = .ok final ∧
      ¬ ValidatedFirst final.visited := by
  refine ⟨_, rfl, fun first => ?_⟩
  have sublist := first [discovered, dataStale] monitored [] rfl (by decide)
  exact absurd (sublist.subset (by simp : validated ∈ _)) (by decide)

theorem validated_first_resumed :
    ∃ final, MarketLifecycle.run {} (callsTo [classified, validated, halted, monitored]) = .ok final ∧
      (ValidatedFirst final.visited ↔ ResumesValidated final.visited) :=
  ⟨_, rfl, validated_first_iff (callsTo [classified, validated, halted, monitored]) rfl⟩

/-! ### Indeterminate executions -/

/-- After `executionUnknown` the next state other than `halted` is `reconciliationRequired`, so
nothing that treats the order as settled is reached without it. -/
def ReconciledFirst (visits : List MarketState) : Prop :=
  ∀ past future, visits = past ++ executionUnknown :: future →
    (∀ next, future.find? (fun s => decide (s ≠ halted)) = some next → next = reconciliationRequired) ∧
    ∀ between target rest, future = between ++ target :: rest →
      target = closed ∨ target = monitored ∨ target = managed ∨ target = orderPending →
      reconciliationRequired ∈ between

/-- A halt that interrupted an indeterminate execution is lifted without reconciling it. -/
def LiftsUnknownHalt (visits : List MarketState) : Prop :=
  ∃ past target future, visits = past ++ executionUnknown :: halted :: target :: future ∧
    (target = monitored ∨ target = managed ∨ target = closed)

theorem edge_executionUnknown : ∀ target, Edge executionUnknown target →
    target = reconciliationRequired ∨ target = halted := by decide

theorem edge_halted : ∀ target, Edge halted target →
    target = reconciliationRequired ∨ target = monitored ∨ target = managed ∨ target = closed := by decide

theorem settled_not_halted : ∀ target, target = closed ∨ target = monitored ∨ target = managed ∨
    target = orderPending → target ≠ halted ∧ target ≠ reconciliationRequired := by decide

theorem next_after_unknown {past future : List MarketState} {next : MarketState}
    (walk : Walk Edge discovered visits s) (split : visits = past ++ executionUnknown :: future)
    (lifted : ¬ LiftsUnknownHalt visits)
    (found : future.find? (fun s => decide (s ≠ halted)) = some next) : next = reconciliationRequired := by
  cases future with
  | nil => simp at found
  | cons target future =>
    rcases edge_executionUnknown target (walk.edge_between split) with rfl | rfl
    · simpa using found.symm
    · cases future with
      | nil => simp at found
      | cons target future =>
        have regrouped : visits = (past ++ [executionUnknown]) ++ halted :: target :: future := by
          rw [split]; simp
        have taken : Edge halted target := walk.edge_between regrouped
        rcases edge_halted target taken with rfl | resumed
        · simpa using found.symm
        · exact absurd ⟨past, target, future, split, resumed⟩ lifted

/-- An indeterminate execution is resolved by reconciliation in exactly the runs that lift a halt
entered from `executionUnknown` to nothing else. -/
theorem reconciled_first_iff (calls : List TransitionCall)
    (accepted : MarketLifecycle.run {} calls = .ok final) :
    ReconciledFirst final.visited ↔ ¬ LiftsUnknownHalt final.visited := by
  have walk := MarketLifecycle.run_walk accepted
  constructor
  · rintro first ⟨past, target, future, split, resumed⟩
    have other : target ≠ halted ∧ target ≠ reconciliationRequired :=
      settled_not_halted target (by rcases resumed with h | h | h <;> simp [h])
    refine other.2 ((first past _ split).1 target ?_)
    simp [other.1]
  · intro lifted past future split
    refine ⟨fun next found => next_after_unknown walk split lifted found, ?_⟩
    intro between target rest later settled
    obtain ⟨running, notRec⟩ := settled_not_halted target settled
    cases found : between.find? (fun s => decide (s ≠ halted)) with
    | some next =>
      have first : future.find? (fun s => decide (s ≠ halted)) = some next := by
        rw [later, List.find?_append, found]; rfl
      rw [← next_after_unknown walk split lifted first]
      exact List.mem_of_find?_eq_some found
    | none =>
      have first : future.find? (fun s => decide (s ≠ halted)) = some target := by
        rw [later, List.find?_append, found]; simp [running]
      exact absurd (next_after_unknown walk split lifted first) notRec

def toOrderPending : List MarketState :=
  [classified, validated, monitored, candidate, signal, riskApproved, orderPending]

theorem halted_unknown_closes :
    ∃ final, MarketLifecycle.run {} (callsTo (toOrderPending ++ [executionUnknown, halted, closed])) =
      .ok final ∧ ¬ ReconciledFirst final.visited := by
  refine ⟨_, rfl, fun first => ?_⟩
  have next := (first (discovered :: toOrderPending) [halted, closed] rfl).1 closed rfl
  exact absurd next (by decide)

theorem reconciled_first_halted :
    ∃ final, MarketLifecycle.run {}
        (callsTo (toOrderPending ++ [executionUnknown, halted, reconciliationRequired])) = .ok final ∧
      (ReconciledFirst final.visited ↔ ¬ LiftsUnknownHalt final.visited) :=
  ⟨_, rfl, reconciled_first_iff
    (callsTo (toOrderPending ++ [executionUnknown, halted, reconciliationRequired])) rfl⟩

/-! ### Positions -/

def HoldsPosition (past : List MarketState) : Prop := partiallyFilled ∈ past ∨ filled ∈ past

instance (past : List MarketState) : Decidable (HoldsPosition past) :=
  inferInstanceAs (Decidable (_ ∨ _))

def PositionKept : List MarketState → Prop :=
  Always fun past s =>
    (HoldsPosition past → s ∉ preExposure ∧ s ≠ marketInvalid) ∧
    (s = managed ∨ s = exitPending → HoldsPosition past)

/-- Out of a suspension, or out of an order that did not fill, the market goes on to `managed`
when it holds a position and to `monitored` when it does not. -/
def ResumesByPosition : List MarketState → Prop :=
  Always fun past s =>
    (s = monitored → past.getLast? = some orderPending ∨ past.getLast? = some dataStale ∨
      past.getLast? = some halted → ¬ HoldsPosition past) ∧
    (s = managed → past.getLast? = some dataStale ∨ past.getLast? = some halted → HoldsPosition past)

theorem HoldsPosition.concat {past : List MarketState} (holds : HoldsPosition past) :
    HoldsPosition (past ++ [s]) :=
  holds.imp (List.mem_append_left _) (List.mem_append_left _)

/-- What the current state alone says about the position. -/
def PositionAgrees (past : List MarketState) (s : MarketState) : Prop :=
  (s ∈ preExposure ∨ s = marketInvalid → ¬ HoldsPosition past) ∧
  (s = partiallyFilled ∨ s = filled ∨ s = managed ∨ s = exitPending → HoldsPosition past)

theorem edge_by_position : ∀ source target, Edge source target → source ≠ reconciliationRequired →
    (target ∈ preExposure ∨ target = marketInvalid → source ∈ preExposure ∨
      target = monitored ∧ (source = orderPending ∨ source = dataStale ∨ source = halted)) ∧
    (target = managed ∨ target = exitPending →
      (source = partiallyFilled ∨ source = filled ∨ source = managed ∨ source = exitPending) ∨
      target = managed ∧ (source = dataStale ∨ source = halted)) := by decide

theorem holdsPosition_concat_other {past : List MarketState}
    (other : s ≠ partiallyFilled ∧ s ≠ filled) : HoldsPosition (past ++ [s]) ↔ HoldsPosition past := by
  simp [HoldsPosition, other.1.symm, other.2.symm]

theorem unheld_not_fill : ∀ s, s ∈ preExposure ∨ s = marketInvalid →
    s ≠ partiallyFilled ∧ s ≠ filled := by decide

/-- A position is neither lost nor invented in exactly the runs, among those that need no
reconciliation, that resume by whether a fill was recorded. -/
theorem position_kept_iff (calls : List TransitionCall)
    (accepted : MarketLifecycle.run {} calls = .ok final)
    (settled : reconciliationRequired ∉ final.visited) :
    PositionKept final.visited ↔ ResumesByPosition final.visited := by
  have walk := MarketLifecycle.run_walk accepted
  constructor
  · intro kept
    refine kept.mono fun past s visit => ⟨?_, ?_⟩
    · rintro rfl _ holds
      exact (visit.1 holds).1 (by decide)
    · rintro rfl _
      exact visit.2 (Or.inl rfl)
  · intro resumes
    have guarded : Always (fun past s => s ≠ reconciliationRequired ∧ _ ∧ _) final.visited :=
      fun past s future split => ⟨fun same => settled (by rw [split, same]; simp),
        resumes past s future split⟩
    refine (walk.always (fun past s => s ≠ reconciliationRequired ∧ PositionAgrees past s) _ _ guarded
      ⟨⟨by decide, ?_⟩, ?_⟩ ?_).2
    · constructor <;> decide
    · constructor <;> decide
    intro past source target walk ⟨live, agrees⟩ taken ⟨notRec, toMonitored, toManaged⟩
    obtain ⟨before, rfl⟩ := walk.last
    simp only [List.getLast?_concat, Option.some.injEq] at toMonitored toManaged
    obtain ⟨unheld, held⟩ := edge_by_position source target taken live
    have drops : target ∈ preExposure ∨ target = marketInvalid → ¬ HoldsPosition (before ++ [source]) := by
      intro early
      rcases unheld early with inside | ⟨resumed, from_⟩
      · exact agrees.1 (Or.inl inside)
      · exact toMonitored resumed from_
    have keeps : target = managed ∨ target = exitPending → HoldsPosition (before ++ [source]) := by
      intro late
      rcases held late with inside | ⟨resumed, from_⟩
      · exact agrees.2 inside
      · exact toManaged resumed from_
    refine ⟨⟨notRec, fun early => ?_, fun late => ?_⟩, fun holds => ?_, keeps⟩
    · rw [holdsPosition_concat_other (unheld_not_fill target early)]
      exact drops early
    · rcases late with rfl | rfl | late
      · exact Or.inl (by simp)
      · exact Or.inr (by simp)
      · exact (keeps late).concat
    · exact ⟨fun inside => drops (Or.inl inside) holds, fun same => drops (Or.inr same) holds⟩

theorem stale_fill_forgotten :
    ∃ final, MarketLifecycle.run {} (callsTo (toOrderPending ++ [filled, dataStale, monitored])) =
      .ok final ∧ reconciliationRequired ∉ final.visited ∧ ¬ PositionKept final.visited := by
  refine ⟨_, rfl, by decide, fun kept => ?_⟩
  have visit := kept (discovered :: toOrderPending ++ [filled, dataStale]) monitored [] rfl
  exact absurd (visit.1 (by decide)).1 (by decide)

theorem position_kept_resumed :
    ∃ final, MarketLifecycle.run {} (callsTo (toOrderPending ++ [filled, dataStale, managed])) =
      .ok final ∧ (PositionKept final.visited ↔ ResumesByPosition final.visited) :=
  ⟨_, rfl, position_kept_iff (callsTo (toOrderPending ++ [filled, dataStale, managed])) rfl (by decide)⟩

end DeepFlow.Core
