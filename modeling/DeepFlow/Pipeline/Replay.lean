import DeepFlow.Pipeline.Discovery

/-!
# Replaying an audit trail

A recorded move holds everything its call was given, so the histories of a service are the calls that
it accepted, in order. Made again on a new service they rebuild every market. Only the times are new: a
call is not given its time, it reads the clock.
-/

namespace DeepFlow.Pipeline
open DeepFlow.Core Foundation MarketState DiscoveryService

variable {self final : MarketLifecycle} {calls : List TransitionCall} {id : String}

/-- The calls that made a history, each with the clock reading it was stamped with. -/
def recordedCalls (history : List Transition) : List TransitionCall :=
  history.map fun move => ⟨move.target, move.reason, move.moment⟩

/-- The arguments of a call of `transition`. -/
def arguments (call : TransitionCall) : MarketState × String := (call.target, call.reason)

/-- What a caller can hand to `transition` again. -/
def replay (history : List Transition) : List (MarketState × String) :=
  history.map fun move => (move.target, move.reason)

theorem recordedCalls_arguments (history : List Transition) :
    (recordedCalls history).map arguments = replay history := by
  rw [recordedCalls, List.map_map]
  rfl

/-- The calls that a lifecycle does not refuse. -/
def acceptedCalls : MarketLifecycle → List TransitionCall → List TransitionCall
  | _, [] => []
  | self, call :: calls =>
    match self.transition call.target call.reason call.now with
    | (.ok _, next) => call :: acceptedCalls next calls
    | (.error _, next) => acceptedCalls next calls

theorem attempt_concat (call : TransitionCall) :
    attempt (calls ++ [call]) = ((attempt calls).transition call.target call.reason call.now).2 := by
  unfold attempt
  rw [List.foldl_append]
  rfl

/-- A market is what its own calls make of a new lifecycle. -/
theorem lifecycle_after (calls : List DiscoveryCall) (id : String) :
    (after calls).lifecycle id = attempt (ownCalls id calls) := by
  induction calls using List.reverseRecOn with
  | nil => rfl
  | append_singleton calls call ih =>
    rw [after_concat, call_lifecycle, ih]
    by_cases own : call.conditionId = id
    · have more : ownCalls id (calls ++ [call]) = ownCalls id calls ++ [call.toTransitionCall] := by
        simp [ownCalls, own]
      rw [if_pos own.symm, more, attempt_concat]
    · have same : ownCalls id (calls ++ [call]) = ownCalls id calls := by simp [ownCalls, own]
      rw [if_neg (Ne.symm own), same]

/-- What a lifecycle records are the calls it accepts, and running these alone has the same end. -/
theorem records_accepted (calls : List TransitionCall) (self : MarketLifecycle) :
    ∃ moves, (calls.foldl (fun self call => (self.transition call.target call.reason call.now).2) self).history =
        self.history ++ moves ∧
      recordedCalls moves = acceptedCalls self calls ∧
      self.run (acceptedCalls self calls) =
        .ok (calls.foldl (fun self call => (self.transition call.target call.reason call.now).2) self) := by
  induction calls generalizing self with
  | nil => exact ⟨[], (List.append_nil _).symm, rfl, rfl⟩
  | cons call calls ih =>
    rw [List.foldl_cons, acceptedCalls]
    rcases self.transition_cases call.target call.reason call.now with ⟨_, same⟩ | ⟨_, same⟩
    · rw [same]
      obtain ⟨moves, history, replayed, ran⟩ :=
        ih ⟨call.target, self.history ++ [⟨self.state, call.target, call.reason, call.now⟩]⟩
      refine ⟨⟨self.state, call.target, call.reason, call.now⟩ :: moves, ?_, ?_, ?_⟩
      · rw [history, List.append_assoc]
        rfl
      · rw [recordedCalls, List.map_cons]
        exact congrArg _ replayed
      · simp only [MarketLifecycle.run, same]
        exact ran
    · rw [same]
      exact ih self

theorem attempt_records (calls : List TransitionCall) :
    recordedCalls (attempt calls).history = acceptedCalls {} calls ∧
      MarketLifecycle.run {} (recordedCalls (attempt calls).history) = .ok (attempt calls) := by
  obtain ⟨moves, history, replayed, ran⟩ := records_accepted calls {}
  have same : recordedCalls (attempt calls).history = acceptedCalls {} calls := by
    rw [← replayed]
    exact congrArg recordedCalls history
  exact ⟨same, same ▸ ran⟩

/-- An accepted run is an attempt in which nothing is refused. -/
theorem run_attempt (accepted : MarketLifecycle.run {} calls = .ok final) : attempt calls = final := by
  suffices fold : ∀ (calls : List TransitionCall) (self : MarketLifecycle), self.run calls = .ok final →
      calls.foldl (fun self call => (self.transition call.target call.reason call.now).2) self = final from
    fold calls {} accepted
  intro calls
  induction calls with
  | nil =>
    intro self accepted
    cases accepted
    rfl
  | cons call calls ih =>
    intro self accepted
    rw [MarketLifecycle.run] at accepted
    rw [List.foldl_cons]
    rcases self.transition_cases call.target call.reason call.now with ⟨_, same⟩ | ⟨_, same⟩
    · rw [same] at accepted ⊢
      exact ih _ accepted
    · rw [same] at accepted
      cases accepted

/-- Whether a run is accepted, and what it leaves, times apart, does not depend on the clock. -/
theorem run_arguments {timed other : MarketLifecycle} {replayed : List TransitionCall}
    (same : replayed.map arguments = calls.map arguments) (start : untimed other = untimed timed)
    (accepted : timed.run calls = .ok final) :
    ∃ restored, other.run replayed = .ok restored ∧ untimed restored = untimed final := by
  induction calls generalizing timed other replayed with
  | nil =>
    cases accepted
    rw [List.map_nil, List.map_eq_nil_iff] at same
    subst same
    exact ⟨other, rfl, start⟩
  | cons call calls ih =>
    obtain ⟨again, replayed, rfl, equal, same⟩ := List.map_eq_cons_iff.mp same
    obtain ⟨target, reason⟩ := Prod.mk.inj equal
    obtain ⟨state, history⟩ := Prod.mk.inj start
    obtain ⟨legal, accepted⟩ := MarketLifecycle.run_cons accepted
    -- The replayed call is made in the same state, so it is accepted as well.
    have allowed : canTransition other.state again.target = true := by
      rw [state, target]
      exact legal
    have moved : untimed ⟨again.target, other.history ++ [⟨other.state, again.target, again.reason, again.now⟩]⟩ =
        untimed ⟨call.target, timed.history ++ [⟨timed.state, call.target, call.reason, call.now⟩]⟩ := by
      simp only [untimed, List.map_append, List.map_singleton, history, state, target, reason]
    obtain ⟨restored, ran, agreed⟩ := ih same moved accepted
    refine ⟨restored, ?_, agreed⟩
    simp only [MarketLifecycle.run, MarketLifecycle.transition, allowed, if_pos]
    exact ran

/-- Every path through the table from `discovered` is the history of the run that replays it. -/
theorem path_replays {moves : List Transition} {state : MarketState} (path : Path discovered moves state) :
    attempt (recordedCalls moves) = ⟨state, moves⟩ := by
  induction moves using List.reverseRecOn generalizing state with
  | nil =>
    cases path
    rfl
  | append_singleton moves move ih =>
    obtain ⟨before, legal, rfl⟩ := path_concat.mp path
    have taken : canTransition move.source move.target = true := decide_eq_true legal
    rw [recordedCalls, List.map_append, List.map_singleton, attempt_concat]
    rw [recordedCalls] at ih
    rw [ih before]
    simp only [MarketLifecycle.transition, taken, if_pos]

theorem attempt_path (calls : List TransitionCall) : Path discovered (attempt calls).history (attempt calls).state := by
  induction calls using List.reverseRecOn with
  | nil => rfl
  | append_singleton calls call ih =>
    rw [attempt_concat]
    exact transition_path ih call.target call.reason call.now

/-- The histories that a market can have are the paths of the table. -/
theorem history_iff_path (id : String) (moves : List Transition) (state : MarketState) :
    (∃ calls, (after calls).lifecycle id = ⟨state, moves⟩) ↔ Path discovered moves state := by
  constructor
  · intro recorded
    obtain ⟨calls, same⟩ := recorded
    have path := attempt_path (ownCalls id calls)
    rwa [← lifecycle_after, same] at path
  · intro path
    let calls : List DiscoveryCall := (recordedCalls moves).map fun call => ⟨call, id⟩
    have own : ownCalls id calls = recordedCalls moves := by simp [ownCalls, calls, List.filter_map, Function.comp_def]
    exact ⟨calls, by rw [lifecycle_after, own, path_replays path]⟩

/-- A history is the calls that were accepted, each with the time of its call. Asked again of a new
service, those of different markets in any interleaving and whatever the clock shows by then, none is
refused, and every market is restored to its state, moves and reasons. -/
theorem audit_restores (calls : List DiscoveryCall) :
    (∀ id, recordedCalls ((after calls).lifecycle id).history = acceptedCalls {} (ownCalls id calls)) ∧
    ∀ replayed : List DiscoveryCall,
      (∀ id, (ownCalls id replayed).map arguments = replay ((after calls).lifecycle id).history) →
      ∀ id, MarketLifecycle.run {} (ownCalls id replayed) = .ok ((after replayed).lifecycle id) ∧
        untimed ((after replayed).lifecycle id) = untimed ((after calls).lifecycle id) := by
  constructor
  · intro id
    rw [lifecycle_after]
    exact (attempt_records (ownCalls id calls)).1
  · intro replayed trails id
    have recorded := (attempt_records (ownCalls id calls)).2
    have same : (ownCalls id replayed).map arguments =
        (recordedCalls (attempt (ownCalls id calls)).history).map arguments := by
      rw [trails, recordedCalls_arguments, lifecycle_after]
    obtain ⟨restored, ran, agreed⟩ := run_arguments same rfl recorded
    rw [lifecycle_after replayed, lifecycle_after calls, run_attempt ran]
    exact ⟨ran, agreed⟩

end DeepFlow.Pipeline
