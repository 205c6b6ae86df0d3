import Mathlib.Data.Finset.SDiff
import DeepFlow.Core.StateMachine
import DeepFlow.Foundation.Reachability

/-!
# Where a lifecycle came from and where it can go

The walks of the transition table are the visits of accepted runs, so a search of the table settles
what every run to a state has been through and what can still become of a market.
-/

namespace DeepFlow.Core
open Foundation MarketState

variable {final : MarketLifecycle} {calls : List TransitionCall} {visits more : List MarketState} {s t : MarketState}

/-! ### Runs and walks -/

namespace MarketLifecycle

theorem run_append {self middle : MarketLifecycle} (more : List TransitionCall)
    (accepted : self.run calls = .ok middle) :
    self.run (calls ++ more) = middle.run more := by
  induction calls generalizing self with
  | nil =>
    cases accepted
    rfl
  | cons call calls ih =>
    rw [List.cons_append, run]
    rw [run] at accepted
    rcases self.transition_cases call.target call.reason call.now with ⟨_, same⟩ | ⟨_, same⟩
    · rw [same] at accepted ⊢
      exact ih accepted
    · rw [same] at accepted
      cases accepted

/-- Every walk on from where a lifecycle stands is a run of it. -/
theorem walk_run (self : MarketLifecycle) (walk : Walk Edge s (s :: more) t) (here : self.state = s) :
    ∃ after, self.run (callsTo more) = .ok after ∧ after.state = t ∧ after.visited = self.visited ++ more := by
  induction more generalizing self s with
  | nil =>
    obtain ⟨past, same⟩ := walk.last
    obtain ⟨-, rfl, -⟩ := Walk.singleton_split same
    exact ⟨self, rfl, here, (List.append_nil _).symm⟩
  | cons next more ih =>
    have taken : canTransition self.state next = true := here ▸ walk.first
    let moved : MarketLifecycle := ⟨next, self.history ++ [⟨self.state, next, "", 0⟩]⟩
    have step : self.run (callsTo (next :: more)) = moved.run (callsTo more) := by
      rw [callsTo, List.map_cons, run]
      simp only [transition, taken, if_pos]
      rfl
    obtain ⟨after, ran, there, visited⟩ := ih moved walk.rest rfl
    refine ⟨after, step.trans ran, there, ?_⟩
    rw [visited]
    simp [MarketLifecycle.visited, moved]

theorem passes_iff (gate : MarketState) :
    (∀ calls final, run {} calls = .ok final → final.state = s → gate ∈ final.visited) ↔
      ∀ visits, Walk Edge discovered visits s → gate ∈ visits := by
  constructor
  · intro passes visits walk
    obtain ⟨more, rfl⟩ := walk.head
    obtain ⟨final, ran, there, visited⟩ := walk_run {} walk rfl
    have passed := passes _ final ran there
    rwa [visited] at passed
  · intro passes calls final accepted there
    exact passes _ (there ▸ run_walk accepted)

end MarketLifecycle

open MarketLifecycle

/-! ### What lies behind a state -/

/-- The states that every run to a state has visited. -/
def unavoidable : MarketState → Finset MarketState
  | validated => {discovered, classified, validated}
  | candidate => {discovered, monitored, candidate}
  | signal => {discovered, monitored, candidate, signal}
  | riskApproved => {discovered, monitored, candidate, signal, riskApproved}
  | partiallyFilled => {discovered, orderPending, partiallyFilled}
  | filled => {discovered, orderPending, filled}
  -- Any other state is entered from `dataStale` or `halted`, or straight from `discovered`.
  | state => {discovered, state}

/-- Two ways to each state that share no more than they must. -/
def approaches : MarketState → List MarketState × List MarketState
  | discovered => ([], [])
  | classified => ([classified], [classified])
  | validated => ([classified, validated], [classified, validated])
  | monitored => ([dataStale, monitored], [halted, monitored])
  | candidate => ([dataStale, monitored, candidate], [halted, monitored, candidate])
  | signal => ([dataStale, monitored, candidate, signal], [halted, monitored, candidate, signal])
  | riskApproved => ([dataStale, monitored, candidate, signal, riskApproved],
      [halted, monitored, candidate, signal, riskApproved])
  | orderPending => ([dataStale, managed, orderPending],
      [halted, monitored, candidate, signal, riskApproved, orderPending])
  | partiallyFilled => ([dataStale, managed, orderPending, partiallyFilled],
      [halted, monitored, candidate, signal, riskApproved, orderPending, partiallyFilled])
  | filled => ([dataStale, managed, orderPending, filled],
      [halted, monitored, candidate, signal, riskApproved, orderPending, filled])
  | managed => ([dataStale, managed], [halted, managed])
  | exitPending => ([dataStale, managed, exitPending],
      [halted, monitored, candidate, signal, riskApproved, orderPending, partiallyFilled, exitPending])
  | closed => ([dataStale, managed, closed], [halted, closed])
  | dataStale => ([dataStale], [dataStale])
  | marketInvalid => ([marketInvalid], [marketInvalid])
  | executionUnknown => ([dataStale, managed, exitPending, executionUnknown],
      [halted, monitored, candidate, signal, riskApproved, orderPending, executionUnknown])
  | reconciliationRequired => ([dataStale, managed, orderPending, executionUnknown, reconciliationRequired],
      [halted, reconciliationRequired])
  | halted => ([halted], [halted])

theorem approaches_route :
    ∀ s, Route Edge discovered (approaches s).1 s ∧ Route Edge discovered (approaches s).2 s := by
  decide +kernel

theorem approaches_share : ∀ s, ∀ gate ∈ discovered :: (approaches s).1, gate ∈ discovered :: (approaches s).2 →
    gate ∈ unavoidable s := by decide +kernel

/-- The states that can be reached around `gate` are left only through it. -/
theorem around_closed : ∀ gate s t, gate ∉ unavoidable s → Edge s t → t ≠ gate → gate ∉ unavoidable t := by
  decide +kernel

theorem around_start : ∀ gate, discovered ≠ gate → gate ∉ unavoidable discovered := by decide

/-- Exactly these states lie behind each state in every run: an order needs no risk approval before
it, and a monitored market needs no validation. -/
theorem unavoidable_iff (s gate : MarketState) : gate ∈ unavoidable s ↔
    ∀ calls final, MarketLifecycle.run {} calls = .ok final → final.state = s → gate ∈ final.visited := by
  rw [passes_iff]
  constructor
  · intro behind visits walk
    by_contra missed
    have around : gate ∉ unavoidable s := by
      refine walk.stays (· ≠ gate) (gate ∉ unavoidable ·) ?_ (around_start gate) (around_closed gate)
      intro t member same
      exact missed (same ▸ member)
    exact around behind
  · intro passed
    obtain ⟨first, second⟩ := approaches_route s
    exact approaches_share s gate (passed _ first.walk) (passed _ second.walk)

/-! ### What can become of a market -/

def early : Finset MarketState := {discovered, classified, validated}

/-- The states that a market can still enter. -/
def ahead (s : MarketState) : Finset MarketState :=
  if s ∈ terminal then ∅
  else if s = discovered then Finset.univ \ {discovered}
  else if s = classified then Finset.univ \ {discovered, classified}
  else Finset.univ \ early

/-- Every market that is still live can be suspended and taken up again. -/
def toMonitored : MarketState → List MarketState
  | dataStale => [monitored]
  | halted => [monitored]
  | reconciliationRequired => [monitored]
  | executionUnknown => [halted, monitored]
  | _ => [dataStale, monitored]

def fromMonitored : MarketState → List MarketState
  | candidate => [candidate]
  | signal => [candidate, signal]
  | riskApproved => [candidate, signal, riskApproved]
  | orderPending => [dataStale, managed, orderPending]
  | partiallyFilled => [dataStale, managed, orderPending, partiallyFilled]
  | filled => [dataStale, managed, orderPending, filled]
  | managed => [dataStale, managed]
  | exitPending => [dataStale, managed, exitPending]
  | closed => [halted, closed]
  | dataStale => [dataStale]
  | marketInvalid => [marketInvalid]
  | executionUnknown => [dataStale, managed, orderPending, executionUnknown]
  | reconciliationRequired => [halted, reconciliationRequired]
  | halted => [halted]
  | _ => []

theorem toMonitored_route : ∀ s ∉ terminal, Route Edge s (toMonitored s) monitored := by decide +kernel

theorem fromMonitored_route : ∀ t ∉ early, Route Edge monitored (fromMonitored t) t := by decide +kernel

theorem early_route : ∀ s, ∀ t ∈ ahead s, t ∈ early →
    Route Edge s [t] t ∨ Route Edge s [classified, validated] t := by decide +kernel

theorem edge_ahead : ∀ s t, Edge s t → t ∈ ahead s := by decide +kernel

theorem ahead_closed : ∀ s t u, t ∈ ahead s → Edge t u → u ∈ ahead s := by decide +kernel

theorem ahead_live : ∀ s, ∀ t ∈ ahead s, s ∉ terminal := by decide +kernel

theorem detour_short : ∀ s t, (toMonitored s ++ fromMonitored t).length ≤ 6 := by decide +kernel

theorem ahead_walk (later : t ∈ ahead s) : ∃ more, more ≠ [] ∧ more.length ≤ 6 ∧ Walk Edge s (s :: more) t := by
  by_cases first : t ∈ early
  · rcases early_route s t later first with direct | through
    · exact ⟨[t], by simp, by simp, direct.walk⟩
    · exact ⟨[classified, validated], by simp, by simp, through.walk⟩
  · have there := (toMonitored_route s (ahead_live s t later)).walk
    have back := (fromMonitored_route t first).walk
    refine ⟨toMonitored s ++ fromMonitored t, ?_, detour_short s t, by simpa using there.trans back⟩
    cases s <;> simp [toMonitored]

theorem walk_ahead (walk : Walk Edge s (s :: more) t) (onward : more ≠ []) : t ∈ ahead s := by
  cases more with
  | nil => exact absurd rfl onward
  | cons next more =>
    refine walk.rest.stays (fun _ => True) (· ∈ ahead s) (fun _ _ => trivial) ?_ ?_
    · intro _
      exact edge_ahead s next walk.first
    · intro t u member taken _
      exact ahead_closed s t u member taken

/-- A run that has gone on is a walk from where it stood. -/
theorem run_onward {after : MarketLifecycle} {onward : List TransitionCall}
    (accepted : MarketLifecycle.run {} calls = .ok final)
    (continued : MarketLifecycle.run {} (calls ++ onward) = .ok after) :
    Walk Edge final.state (final.state :: onward.map TransitionCall.target) after.state := by
  obtain ⟨past, visits⟩ := (run_walk accepted).last
  have whole : after.visited = past ++ final.state :: onward.map TransitionCall.target := by
    have ran : final.run onward = .ok after := (run_append onward accepted).symm.trans continued
    rw [run_visited ran, visits]
    simp
  exact (run_walk continued).since whole

/-- A market that is neither closed nor invalid is never stuck: from any history, six accepted calls
lead to any state but the early ones, and no number of calls leads elsewhere. -/
theorem ahead_iff (calls : List TransitionCall) (final : MarketLifecycle)
    (accepted : MarketLifecycle.run {} calls = .ok final) (t : MarketState) :
    (t ∈ ahead final.state → ∃ onward after, onward ≠ [] ∧ onward.length ≤ 6 ∧
      MarketLifecycle.run {} (calls ++ onward) = .ok after ∧ after.state = t) ∧
    ∀ onward after, onward ≠ [] → MarketLifecycle.run {} (calls ++ onward) = .ok after →
      after.state ∈ ahead final.state := by
  constructor
  · intro later
    obtain ⟨more, further, short, walk⟩ := ahead_walk later
    obtain ⟨after, ran, there, -⟩ := walk_run final walk rfl
    refine ⟨callsTo more, after, by simpa [callsTo] using further, by simpa [callsTo] using short, ?_, there⟩
    rw [run_append _ accepted, ran]
  · intro onward after further continued
    exact walk_ahead (run_onward accepted continued) (by simpa using further)

theorem ahead_iff_filled : ∃ final,
    MarketLifecycle.run {} (callsTo [dataStale, managed, orderPending, filled]) = .ok final ∧
      ∃ onward after, onward ≠ [] ∧ onward.length ≤ 6 ∧
        MarketLifecycle.run {} (callsTo [dataStale, managed, orderPending, filled] ++ onward) = .ok after ∧
        after.state = riskApproved :=
  ⟨_, rfl, (ahead_iff _ _ rfl riskApproved).1 (show riskApproved ∈ ahead filled by decide)⟩

/-! ### Invalidation -/

theorem exposed_closed : ∀ s t, s ∉ preExposure ∧ s ≠ marketInvalid → Edge s t → t ≠ monitored →
    t ∉ preExposure ∧ t ≠ marketInvalid := by decide +kernel

theorem preExposure_invalid : ∀ s ∈ preExposure, Edge s marketInvalid := by decide

theorem not_edge_marketInvalid : ∀ t, ¬ Edge marketInvalid t := by decide

/-- Past the states before exposure, and only there, a market is declared invalid after it went back
to monitoring. -/
theorem invalidated_monitored_iff (s : MarketState) :
    (∀ calls final past between future, MarketLifecycle.run {} calls = .ok final →
      final.visited = past ++ s :: between ++ marketInvalid :: future → monitored ∈ between) ↔ s ∉ preExposure := by
  constructor
  · intro through early
    obtain ⟨route, -⟩ := approaches_route s
    have walk : Walk Edge discovered (discovered :: ((approaches s).1 ++ [marketInvalid])) marketInvalid :=
      route.walk.step (preExposure_invalid s early)
    obtain ⟨past, visits⟩ := route.walk.last
    obtain ⟨final, ran, -, visited⟩ := walk_run {} walk rfl
    have split : final.visited = past ++ s :: [] ++ marketInvalid :: [] := by
      rw [visited, ← visits]
      rfl
    exact absurd (through _ final past [] [] ran split) List.not_mem_nil
  · intro late calls final past between future accepted split
    by_contra missed
    have part : Walk Edge s (s :: (between ++ [marketInvalid])) marketInvalid := by
      have reached : Walk Edge discovered (past ++ s :: (between ++ [marketInvalid])) marketInvalid := by
        simpa using (run_walk accepted).upto split
      exact reached.since rfl
    have live : s ≠ marketInvalid := by
      rintro rfl
      cases between with
      | nil => exact not_edge_marketInvalid _ part.first
      | cons next between => exact not_edge_marketInvalid _ part.first
    have outside := part.stays (· ≠ monitored) (fun t => t ∉ preExposure ∧ t ≠ marketInvalid) ?_
      (fun _ => ⟨late, live⟩) exposed_closed
    · exact outside.2 rfl
    · intro t member same
      subst same
      simp only [List.mem_cons, List.mem_append, List.not_mem_nil, or_false] at member
      rcases member with here | inside | last
      · exact late (here ▸ by decide)
      · exact missed inside
      · cases last

end DeepFlow.Core
