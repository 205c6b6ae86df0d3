import DeepFlow.Core.LifecycleHistory

/-!
# Exposure along a lifecycle

An exposed market is meant to reach `closed` only through exit or reconciliation, and
`holdsExposure` is meant to tell shutdown what it cannot drop. Both rules look at one state, while an
order or a position outlives the state it was recorded in.
-/

namespace DeepFlow.Core
open Foundation MarketState

variable {final : MarketLifecycle} {visits : List MarketState} {s : MarketState}

/-! ### Closing -/

def interrupted : Finset MarketState := {dataStale, halted}

def lastRunning (visits : List MarketState) : Option MarketState :=
  lastWhere (fun s => decide (s ∉ interrupted)) visits

def committed : Finset MarketState := {orderPending, partiallyFilled, filled, managed}

def ClosesSettled : List MarketState → Prop :=
  Always fun past s => s = closed → ∀ last, lastRunning past = some last → last ∉ committed

/-- The three ways into `closed` that skip both the exit and the reconciliation: straight from
`managed`, and out of a halt of a committed market, whether or not its data was stale before. -/
def ClosesOver (visits : List MarketState) : Prop :=
  ∃ past source between future, visits = past ++ source :: (between ++ closed :: future) ∧
    source ∈ committed ∧
    (between = [] ∧ source = managed ∨ between = [halted] ∨ between = [dataStale, halted])

theorem committed_running : ∀ s ∈ committed, decide (s ∉ interrupted) = true := by decide

theorem edge_committed_closed : ∀ source ∈ committed, Edge source closed → source = managed := by
  decide

theorem edge_interrupted_closed : ∀ source ∈ interrupted, Edge source closed → source = halted := by
  decide

theorem edge_interrupted : ∀ source ∈ interrupted, ∀ target ∈ interrupted, Edge source target →
    source = dataStale ∧ target = halted := by decide

theorem interruption_before_closed {past between future : List MarketState} {source : MarketState}
    (walk : Walk Edge discovered visits s)
    (split : visits = past ++ source :: (between ++ closed :: future))
    (inside : ∀ t ∈ between, t ∈ interrupted) :
    between = [] ∨ between = [halted] ∨ between = [dataStale, halted] := by
  match between with
  | [] => exact Or.inl rfl
  | [first] =>
    have ending : visits = (past ++ [source]) ++ first :: closed :: future := by simpa using split
    rw [edge_interrupted_closed first (inside first (by simp)) (walk.edge_between ending)]
    exact Or.inr (Or.inl rfl)
  | [first, second] =>
    have ending : visits = (past ++ [source]) ++ first :: second :: closed :: future := by
      simpa using split
    obtain ⟨rfl, rfl⟩ := edge_interrupted first (inside first (by simp)) second
      (inside second (by simp)) (walk.edge_between ending)
    exact Or.inr (Or.inr rfl)
  | first :: second :: third :: rest =>
    have ending : visits = (past ++ [source]) ++ first :: second :: third :: (rest ++ closed :: future) := by
      simpa using split
    have later : visits = (past ++ [source, first]) ++ second :: third :: (rest ++ closed :: future) := by
      simpa using split
    -- `halted` does not go back to `dataStale`, so a third interruption has no way in.
    have halt := edge_interrupted first (inside first (by simp)) second (inside second (by simp))
      (walk.edge_between ending)
    have stale := edge_interrupted second (inside second (by simp)) third (inside third (by simp))
      (walk.edge_between later)
    rw [halt.2] at stale
    cases stale.1

/-- A committed market closes without exit or reconciliation in exactly the runs that take one of
the three ways. -/
theorem closes_settled_iff (calls : List TransitionCall)
    (accepted : MarketLifecycle.run {} calls = .ok final) :
    ClosesSettled final.visited ↔ ¬ ClosesOver final.visited := by
  have walk := MarketLifecycle.run_walk accepted
  constructor
  · intro settled jumps
    obtain ⟨past, source, between, future, split, holding, way⟩ := jumps
    have split' : final.visited = (past ++ source :: between) ++ closed :: future := by simpa using split
    have skipped : ∀ t ∈ between, decide (t ∉ interrupted) = false := by
      rcases way with ⟨rfl, -⟩ | rfl | rfl <;> decide
    have last : lastRunning (past ++ source :: between) = some source :=
      lastWhere_eq_some.mpr ⟨past, between, rfl, committed_running source holding, skipped⟩
    exact settled _ closed future split' rfl source last holding
  · intro avoided past t future split closes last found holding
    subst closes
    obtain ⟨before, between, rfl, -, skipped⟩ := lastWhere_eq_some.mp found
    have inside : ∀ t ∈ between, t ∈ interrupted := fun t member => by
      simpa using skipped t member
    have split' : final.visited = before ++ last :: (between ++ closed :: future) := by simpa using split
    refine avoided ⟨before, last, between, future, split', holding, ?_⟩
    rcases interruption_before_closed walk split' inside with rfl | halt | stale
    · exact Or.inl ⟨rfl, edge_committed_closed last holding (walk.edge_between split')⟩
    · exact Or.inr (Or.inl halt)
    · exact Or.inr (Or.inr stale)

theorem managed_closes_directly :
    ∃ final, MarketLifecycle.run {} (callsTo (toOrderPending ++ [filled, managed, closed])) = .ok final ∧
      ¬ ClosesSettled final.visited := by
  refine ⟨_, rfl, fun settled => ?_⟩
  have unsettled := settled (discovered :: toOrderPending ++ [filled, managed]) closed [] rfl rfl managed rfl
  exact unsettled (by decide)

theorem closes_settled_exited :
    ∃ final, MarketLifecycle.run {}
        (callsTo (toOrderPending ++ [filled, managed, exitPending, halted, closed])) = .ok final ∧
      (ClosesSettled final.visited ↔ ¬ ClosesOver final.visited) :=
  ⟨_, rfl, closes_settled_iff
    (callsTo (toOrderPending ++ [filled, managed, exitPending, halted, closed])) rfl⟩

/-! ### Shutdown -/

def failure : Finset MarketState := {dataStale, halted, executionUnknown, reconciliationRequired}

def lastOutcome (visits : List MarketState) : Option MarketState :=
  lastWhere (fun s => decide (s ∉ failure)) visits

/-- While an order or a position is outstanding, `holdsExposure` says so. -/
def ExposureReported (self : MarketLifecycle) : Prop :=
  ∀ s, lastOutcome self.visited = some s → s ∈ exposed → self.holdsExposure = true

def FailsExposed (visits : List MarketState) : Prop :=
  ∃ past source target future, visits = past ++ source :: target :: future ∧
    source ∈ exposed ∧ (target = dataStale ∨ target = halted ∨ target = executionUnknown)

theorem edge_exposed_failure : ∀ source ∈ exposed, ∀ target ∈ failure, Edge source target →
    target = dataStale ∨ target = halted ∨ target = executionUnknown := by decide

theorem exposed_outcome : ∀ s ∈ exposed, decide (s ∉ failure) = true := by decide

theorem failure_unreported : ∀ s ∈ failure, s ∉ exposed := by decide

theorem reported_of_not_failsExposed (walk : Walk Edge discovered visits s)
    (avoided : ¬ FailsExposed visits) {t : MarketState} (found : lastOutcome visits = some t)
    (holding : t ∈ exposed) : s ∈ exposed := by
  obtain ⟨past, skipped, split, -, failures⟩ := lastWhere_eq_some.mp found
  cases skipped with
  | nil =>
    obtain ⟨before, same⟩ := walk.last
    rw [split] at same
    obtain ⟨-, same⟩ := List.append_inj' same rfl
    cases same
    exact holding
  | cons first rest =>
    have failed : first ∈ failure := by simpa using failures first (by simp)
    exact absurd ⟨past, t, first, rest, split, holding,
      edge_exposed_failure t holding first failed (walk.edge_between split)⟩ avoided

/-- The flag is right at every state that a run passes through in exactly the runs that never
leave an exposed state into a failure state. -/
theorem exposure_reported_iff (calls : List TransitionCall)
    (accepted : MarketLifecycle.run {} calls = .ok final) :
    (∀ before after, calls = before ++ after → ∀ reached,
      MarketLifecycle.run {} before = .ok reached → ExposureReported reached) ↔
    ¬ FailsExposed final.visited := by
  constructor
  · intro reported fails
    obtain ⟨past, source, target, future, split, holding, failed⟩ := fails
    have split' : final.visited = (past ++ [source]) ++ target :: future := by simpa using split
    obtain ⟨before, after, reached, cut, first, visits⟩ := MarketLifecycle.run_reaches accepted split'
    have walk := MarketLifecycle.run_walk first
    have current : reached.state = target := by
      obtain ⟨earlier, same⟩ := walk.last
      rw [visits] at same
      obtain ⟨-, same⟩ := List.append_inj' same rfl
      exact (List.singleton_inj.mp same).symm
    have failure' : target ∈ failure := by rcases failed with rfl | rfl | rfl <;> decide
    have found : lastOutcome reached.visited = some source := by
      rw [visits]
      refine lastWhere_eq_some.mpr ⟨past, [target], by simp, exposed_outcome source holding, ?_⟩
      simpa using failure'
    have flag : reached.state ∈ exposed :=
      of_decide_eq_true (reported before after cut reached first source found holding)
    rw [current] at flag
    exact failure_unreported target failure' flag
  · intro avoided before after split reached first t found holding
    subst split
    obtain ⟨middle, first', second⟩ := MarketLifecycle.run_split accepted
    rw [first] at first'
    obtain rfl := Except.ok.inj first'
    have grown := MarketLifecycle.run_visited second
    have avoided' : ¬ FailsExposed reached.visited := by
      intro fails
      obtain ⟨past, source, target, future, inside, failing⟩ := fails
      refine avoided ⟨past, source, target, future ++ after.map TransitionCall.target, ?_, failing⟩
      rw [grown, inside]
      simp
    have current := reported_of_not_failsExposed (MarketLifecycle.run_walk first) avoided' found holding
    exact decide_eq_true current

theorem unknown_order_unreported :
    ∃ final, MarketLifecycle.run {} (callsTo (toOrderPending ++ [executionUnknown])) = .ok final ∧
      ¬ ExposureReported final := by
  refine ⟨_, rfl, fun reported => ?_⟩
  have flag := reported orderPending rfl (by decide)
  exact absurd flag (by decide)

theorem exposure_reported_filled :
    ∃ final, MarketLifecycle.run {} (callsTo (toOrderPending ++ [filled, managed, exitPending])) =
        .ok final ∧
      ((∀ before after, callsTo (toOrderPending ++ [filled, managed, exitPending]) = before ++ after →
          ∀ reached, MarketLifecycle.run {} before = .ok reached → ExposureReported reached) ↔
        ¬ FailsExposed final.visited) :=
  ⟨_, rfl, exposure_reported_iff (callsTo (toOrderPending ++ [filled, managed, exitPending])) rfl⟩

end DeepFlow.Core
