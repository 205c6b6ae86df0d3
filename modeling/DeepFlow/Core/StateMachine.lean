import Mathlib.Data.Fintype.Defs
import Mathlib.Data.Finset.Insert
import Mathlib.Data.Finset.Lattice.Basic
import DeepFlow.Foundation.Walk

/-! The market lifecycle: the transition table and its one guarded state holder. -/

namespace DeepFlow.Core
open Foundation

inductive MarketState where
  | discovered | classified | validated | monitored | candidate | signal | riskApproved
  | orderPending | partiallyFilled | filled | managed | exitPending | closed
  | dataStale | marketInvalid | executionUnknown | reconciliationRequired | halted
  deriving DecidableEq, Repr

open MarketState

def MarketState.members : List MarketState :=
  [discovered, classified, validated, monitored, candidate, signal, riskApproved,
    orderPending, partiallyFilled, filled, managed, exitPending, closed,
    dataStale, marketInvalid, executionUnknown, reconciliationRequired, halted]

instance : Fintype MarketState :=
  ⟨⟨members, by decide⟩, fun s => by cases s <;> decide⟩

def preExposure : Finset MarketState :=
  {discovered, classified, validated, monitored, candidate, signal, riskApproved}

def exposed : Finset MarketState :=
  {orderPending, partiallyFilled, filled, managed, exitPending}

def terminal : Finset MarketState := {closed, marketInvalid}

def table : MarketState → Finset MarketState
  | discovered => {classified}
  | classified => {validated}
  | validated => {monitored}
  | monitored => {candidate}
  | candidate => {signal, monitored}
  | signal => {riskApproved, monitored}
  | riskApproved => {orderPending, monitored}
  | orderPending => {partiallyFilled, filled, monitored, executionUnknown}
  | partiallyFilled => {filled, managed, exitPending, executionUnknown}
  | filled => {managed}
  -- Adding to an existing position goes back to `orderPending`.
  | managed => {exitPending, orderPending, closed}
  | exitPending => {managed, closed, executionUnknown}
  | closed => ∅
  | dataStale => {monitored, managed, halted}
  | marketInvalid => ∅
  | executionUnknown => {reconciliationRequired, halted}
  | reconciliationRequired => {managed, monitored, closed, halted}
  | halted => {monitored, managed, reconciliationRequired, closed}

/-- The adjacency table with the edges that the two loops derive. -/
def legalTransitions (state : MarketState) : Finset MarketState :=
  let row := table state
  let row := if state ∈ preExposure then row ∪ {marketInvalid, dataStale, halted} else row
  if state ∈ exposed then row ∪ {dataStale, halted} else row

def canTransition (source target : MarketState) : Bool := decide (target ∈ legalTransitions source)

structure IllegalTransitionError where
  source : MarketState
  target : MarketState
  deriving DecidableEq, Repr

/-- A UTC timestamp in microseconds. -/
abbrev Datetime := Int

/-- One recorded move. `moment` is the source's field `at`. -/
structure Transition where
  source : MarketState
  target : MarketState
  reason : String
  moment : Datetime
  deriving DecidableEq, Repr

structure MarketLifecycle where
  state : MarketState := discovered
  history : List Transition := []
  deriving DecidableEq, Repr

namespace MarketLifecycle

/-- Move to `target`: the outcome of the call and the lifecycle it leaves behind. `now` is the
clock reading that the recorded move is stamped with. -/
def transition (self : MarketLifecycle) (target : MarketState) (reason : String) (now : Datetime) :
    Except IllegalTransitionError Transition × MarketLifecycle :=
  if canTransition self.state target then
    let move : Transition := ⟨self.state, target, reason, now⟩
    (.ok move, { state := target, history := self.history ++ [move] })
  else (.error ⟨self.state, target⟩, self)

def isTerminal (self : MarketLifecycle) : Bool := decide (self.state ∈ terminal)

def holdsExposure (self : MarketLifecycle) : Bool := decide (self.state ∈ exposed)

def visited (self : MarketLifecycle) : List MarketState :=
  discovered :: self.history.map Transition.target

theorem transition_cases (self : MarketLifecycle) (target : MarketState) (reason : String)
    (now : Datetime) :
    (canTransition self.state target = true ∧
      self.transition target reason now =
        (.ok ⟨self.state, target, reason, now⟩,
          ⟨target, self.history ++ [⟨self.state, target, reason, now⟩]⟩)) ∨
    (canTransition self.state target = false ∧
      self.transition target reason now = (.error ⟨self.state, target⟩, self)) := by
  unfold transition
  cases canTransition self.state target <;> simp

end MarketLifecycle

structure TransitionCall where
  target : MarketState
  reason : String := ""
  now : Datetime := 0
  deriving DecidableEq, Repr

def callsTo (targets : List MarketState) : List TransitionCall :=
  targets.map fun target => { target }

/-- A run of calls that are all accepted; the first refusal ends it with its error. -/
def MarketLifecycle.run : MarketLifecycle → List TransitionCall →
    Except IllegalTransitionError MarketLifecycle
  | self, [] => .ok self
  | self, call :: calls =>
    match self.transition call.target call.reason call.now with
    | (.ok _, next) => next.run calls
    | (.error refused, _) => .error refused

def Edge (source target : MarketState) : Prop := canTransition source target = true

instance : DecidableRel Edge := fun source target =>
  inferInstanceAs (Decidable (canTransition source target = true))

namespace MarketLifecycle

theorem run_cons {self final : MarketLifecycle} {call : TransitionCall} {calls : List TransitionCall}
    (accepted : self.run (call :: calls) = .ok final) :
    Edge self.state call.target ∧
      run ⟨call.target, self.history ++ [⟨self.state, call.target, call.reason, call.now⟩]⟩ calls =
        .ok final := by
  rw [run] at accepted
  rcases self.transition_cases call.target call.reason call.now with ⟨legal, same⟩ | ⟨_, same⟩
  · rw [same] at accepted
    exact ⟨legal, accepted⟩
  · rw [same] at accepted
    cases accepted

/-- An accepted run of a fresh lifecycle is a walk through the transition table. -/
theorem run_walk {calls : List TransitionCall} {final : MarketLifecycle}
    (accepted : run {} calls = .ok final) : Walk Edge discovered final.visited final.state := by
  suffices extend : ∀ (calls : List TransitionCall) (self : MarketLifecycle),
      Walk Edge discovered self.visited self.state → self.run calls = .ok final →
      Walk Edge discovered final.visited final.state from
    extend calls {} .start accepted
  intro calls
  induction calls with
  | nil =>
    intro self walk accepted
    cases accepted
    exact walk
  | cons call calls ih =>
    intro self walk accepted
    obtain ⟨legal, accepted⟩ := run_cons accepted
    refine ih _ ?_ accepted
    simpa [visited] using walk.step legal

theorem run_visited {self final : MarketLifecycle} {calls : List TransitionCall}
    (accepted : self.run calls = .ok final) :
    final.visited = self.visited ++ calls.map TransitionCall.target := by
  induction calls generalizing self with
  | nil =>
    cases accepted
    simp
  | cons call calls ih =>
    obtain ⟨-, accepted⟩ := run_cons accepted
    rw [ih accepted]
    simp [visited]

theorem run_split {self final : MarketLifecycle} {before after : List TransitionCall}
    (accepted : self.run (before ++ after) = .ok final) :
    ∃ middle, self.run before = .ok middle ∧ middle.run after = .ok final := by
  induction before generalizing self with
  | nil => exact ⟨self, rfl, accepted⟩
  | cons call before ih =>
    rw [List.cons_append, run] at accepted
    rcases self.transition_cases call.target call.reason call.now with ⟨_, same⟩ | ⟨_, same⟩
    · rw [same] at accepted
      obtain ⟨middle, first, second⟩ := ih accepted
      refine ⟨middle, ?_, second⟩
      rw [run, same]
      exact first
    · rw [same] at accepted
      cases accepted

/-- Every visit of a run is where some prefix of its calls ended. -/
theorem run_reaches {calls : List TransitionCall} {final : MarketLifecycle} {past future : List MarketState}
    {s : MarketState} (accepted : run {} calls = .ok final) (split : final.visited = past ++ s :: future) :
    ∃ before after reached, calls = before ++ after ∧ run {} before = .ok reached ∧
      reached.visited = past ++ [s] := by
  have whole : final.visited = discovered :: calls.map TransitionCall.target := run_visited accepted
  have cut : calls = calls.take past.length ++ calls.drop past.length := by simp
  rw [cut] at accepted
  obtain ⟨reached, first, -⟩ := run_split accepted
  refine ⟨_, _, reached, cut, first, ?_⟩
  have visits : reached.visited = final.visited.take (past.length + 1) := by
    rw [run_visited first, whole]
    simp [visited, List.map_take]
  rw [visits, split]
  simp [List.take_append]

end MarketLifecycle

end DeepFlow.Core
