import Mathlib.Data.List.Dedup
import DeepFlow.Core.StateMachine
import DeepFlow.Foundation.Dict
import DeepFlow.Foundation.Machine

/-!
# Discovered markets

The service hands out one lifecycle for each condition id, created on first sight. Whatever the
interleaving of calls, each market's history is the audit trail of its own calls.
-/

namespace DeepFlow.Pipeline
open DeepFlow.Core Foundation MarketState

structure DiscoveryService where
  lifecycles : Dict String MarketLifecycle := ∅

structure DiscoveryCall extends TransitionCall where
  conditionId : String
  deriving DecidableEq, Repr

namespace DiscoveryService

/-- `dict.setdefault`: the lifecycle, and the service that now holds it. -/
def lifecycleFor (self : DiscoveryService) (conditionId : String) : MarketLifecycle × DiscoveryService :=
  match self.lifecycles.get? conditionId with
  | some lifecycle => (lifecycle, self)
  | none => ({}, { lifecycles := self.lifecycles.set conditionId {} })

def monitoredCount (self : DiscoveryService) : Nat :=
  (self.lifecycles.entries.filter fun entry => decide (entry.2.state ≠ marketInvalid)).length

/-- `lifecycle_for(id).transition(target, reason)`; the lifecycle is moved where the service holds it. -/
def call (self : DiscoveryService) (call : DiscoveryCall) :
    Except IllegalTransitionError Transition × DiscoveryService :=
  let (lifecycle, service) := self.lifecycleFor call.conditionId
  let (outcome, moved) := lifecycle.transition call.target call.reason call.now
  (outcome, { lifecycles := service.lifecycles.set call.conditionId moved })

def after (calls : List DiscoveryCall) : DiscoveryService :=
  calls.foldl (fun self call => (self.call call).2) {}

def lifecycle (self : DiscoveryService) (conditionId : String) : MarketLifecycle :=
  (self.lifecycles.get? conditionId).getD {}

end DiscoveryService

/-- A lifecycle driven by calls of its own, the refused ones included. -/
def attempt (calls : List TransitionCall) : MarketLifecycle :=
  calls.foldl (fun self call => (self.transition call.target call.reason call.now).2) {}

def ownCalls (conditionId : String) (calls : List DiscoveryCall) : List TransitionCall :=
  (calls.filter fun call => decide (call.conditionId = conditionId)).map DiscoveryCall.toTransitionCall

open DiscoveryService

def Path : MarketState → List Transition → MarketState → Prop
  | source, [], target => source = target
  | source, move :: moves, target =>
    move.source = source ∧ move.target ∈ legalTransitions move.source ∧ Path move.target moves target

def untimed (self : MarketLifecycle) : MarketState × List (MarketState × MarketState × String) :=
  (self.state, self.history.map fun move => (move.source, move.target, move.reason))

structure AuditTrail (calls : List DiscoveryCall) : Prop where
  path : ∀ id, Path discovered ((after calls).lifecycle id).history ((after calls).lifecycle id).state
  grows : ∀ before later, calls = before ++ later → ∀ id,
    ((after before).lifecycle id).history <+: ((after calls).lifecycle id).history
  own : ∀ id (alone : List TransitionCall),
    alone.map (fun call => (call.target, call.reason)) =
      (ownCalls id calls).map (fun call => (call.target, call.reason)) →
    untimed (attempt alone) = untimed ((after calls).lifecycle id)
  accepted : ∀ before call later, calls = before ++ call :: later →
    ((∃ move, ((after before).call call).1 = .ok move) ↔
      call.target ∈ legalTransitions ((after before).lifecycle call.conditionId).state)
  recorded : ∀ before call later move, calls = before ++ call :: later →
    ((after before).call call).1 = .ok move →
    move = ⟨((after before).lifecycle call.conditionId).state, call.target, call.reason, call.now⟩ ∧
      ∀ id, (after (before ++ [call])).lifecycle id =
        if id = call.conditionId then ⟨call.target, ((after before).lifecycle id).history ++ [move]⟩
        else (after before).lifecycle id
  refused : ∀ before call later error, calls = before ++ call :: later →
    ((after before).call call).1 = .error error →
    ∀ id, (after (before ++ [call])).lifecycle id = (after before).lifecycle id
  terminal : ∀ before between call later, calls = before ++ between ++ call :: later →
    ((after before).lifecycle call.conditionId).isTerminal = true →
    ∃ error, ((after (before ++ between)).call call).1 = .error error
  monitored : (after calls).monitoredCount =
    ((calls.map DiscoveryCall.conditionId).dedup.filter fun id =>
      decide ((attempt (ownCalls id calls)).state ≠ marketInvalid)).length

/-! ### One call -/

section Call
variable {self : DiscoveryService} {id : String} {calls : List DiscoveryCall}

namespace DiscoveryService

theorem lifecycleFor_fst : (self.lifecycleFor id).1 = self.lifecycle id := by
  unfold lifecycleFor lifecycle
  split
  · next found => rw [found]; rfl
  · next missing => rw [missing]; rfl

theorem lifecycleFor_lifecycle (other : String) :
    (self.lifecycleFor id).2.lifecycle other = self.lifecycle other := by
  unfold lifecycleFor
  split
  · rfl
  · next missing =>
    unfold lifecycle
    rw [Dict.get?_set]
    split
    · next same => rw [same, missing]; rfl
    · rfl

theorem mem_lifecycleFor {other : String} :
    other ∈ (self.lifecycleFor id).2.lifecycles ↔ other = id ∨ other ∈ self.lifecycles := by
  unfold lifecycleFor
  split
  · next found =>
    have present : id ∈ self.lifecycles := Dict.mem_iff_get?.mpr ⟨_, found⟩
    exact ⟨Or.inr, fun member => by rcases member with rfl | member <;> assumption⟩
  · exact Dict.mem_set

theorem call_fst (call : DiscoveryCall) : (self.call call).1 =
    ((self.lifecycle call.conditionId).transition call.target call.reason call.now).1 := by
  rw [← lifecycleFor_fst]
  rfl

theorem call_lifecycle (call : DiscoveryCall) : (self.call call).2.lifecycle id =
    if id = call.conditionId then
      ((self.lifecycle id).transition call.target call.reason call.now).2
    else self.lifecycle id := by
  have moved : (self.call call).2.lifecycle id = (((self.lifecycleFor call.conditionId).2.lifecycles.set
      call.conditionId (((self.lifecycleFor call.conditionId).1.transition call.target call.reason
        call.now).2)).get? id).getD {} := rfl
  rw [moved, Dict.get?_set, lifecycleFor_fst]
  split
  · next same => rw [same]; rfl
  · exact lifecycleFor_lifecycle id

/-- An accepted call records its own move in its own market, and a refused one changes none. -/
theorem call_cases (self : DiscoveryService) (call : DiscoveryCall) :
    (call.target ∈ legalTransitions (self.lifecycle call.conditionId).state ∧
      ∃ move, move = ⟨(self.lifecycle call.conditionId).state, call.target, call.reason, call.now⟩ ∧
        (self.call call).1 = .ok move ∧ ∀ id, (self.call call).2.lifecycle id =
          if id = call.conditionId then ⟨call.target, (self.lifecycle id).history ++ [move]⟩ else self.lifecycle id) ∨
    (call.target ∉ legalTransitions (self.lifecycle call.conditionId).state ∧
      (∃ error, (self.call call).1 = .error error) ∧ ∀ id, (self.call call).2.lifecycle id = self.lifecycle id) := by
  simp only [call_fst, call_lifecycle]
  rcases (self.lifecycle call.conditionId).transition_cases call.target call.reason call.now with
    ⟨legal, moved⟩ | ⟨illegal, kept⟩
  · refine Or.inl ⟨of_decide_eq_true legal, _, rfl, congrArg Prod.fst moved, fun id => ?_⟩
    split
    · next own => rw [own, moved]
    · rfl
  · refine Or.inr ⟨of_decide_eq_false illegal, ⟨_, congrArg Prod.fst kept⟩, fun id => ?_⟩
    split
    · next own => rw [own, kept]
    · rfl

theorem mem_call (call : DiscoveryCall) :
    id ∈ (self.call call).2.lifecycles ↔ id = call.conditionId ∨ id ∈ self.lifecycles := by
  show id ∈ (self.lifecycleFor call.conditionId).2.lifecycles.set call.conditionId _ ↔ _
  rw [Dict.mem_set, mem_lifecycleFor, ← or_assoc, or_self]

theorem after_concat (call : DiscoveryCall) : after (calls ++ [call]) = ((after calls).call call).2 := by
  unfold after
  rw [List.foldl_append]
  rfl

theorem mem_after : id ∈ (after calls).lifecycles ↔ id ∈ calls.map DiscoveryCall.conditionId := by
  induction calls using List.reverseRecOn with
  | nil => simp [after]
  | append_singleton calls call ih =>
    rw [after_concat, mem_call, ih, List.map_append, List.mem_append, or_comm]
    simp

/-! ### Runs -/

theorem path_concat {source target : MarketState} {moves : List Transition} {move : Transition} :
    Path source (moves ++ [move]) target ↔ Path source moves move.source ∧
      move.target ∈ legalTransitions move.source ∧ move.target = target := by
  induction moves generalizing source with
  | nil => simp [Path, eq_comm]
  | cons first moves ih => simp only [List.cons_append, Path, ih, and_assoc]

theorem transition_path {lifecycle : MarketLifecycle} (path : Path discovered lifecycle.history lifecycle.state)
    (target : MarketState) (reason : String) (now : Datetime) :
    Path discovered (lifecycle.transition target reason now).2.history
      (lifecycle.transition target reason now).2.state := by
  rcases lifecycle.transition_cases target reason now with ⟨legal, same⟩ | ⟨_, same⟩
  · rw [same]
    exact path_concat.mpr ⟨path, of_decide_eq_true legal, rfl⟩
  · rw [same]
    exact path

theorem transition_grows (lifecycle : MarketLifecycle) (target : MarketState) (reason : String) (now : Datetime) :
    lifecycle.history <+: (lifecycle.transition target reason now).2.history := by
  rcases lifecycle.transition_cases target reason now with ⟨_, same⟩ | ⟨_, same⟩
  · rw [same]
    exact List.prefix_append _ _
  · rw [same]

theorem transition_terminal {lifecycle : MarketLifecycle} (ended : lifecycle.isTerminal = true)
    (target : MarketState) (reason : String) (now : Datetime) :
    lifecycle.transition target reason now = (.error ⟨lifecycle.state, target⟩, lifecycle) := by
  have final : ∀ source ∈ terminal, ∀ target, canTransition source target = false := by decide
  have refused := final lifecycle.state (of_decide_eq_true ended) target
  unfold MarketLifecycle.transition
  rw [refused]
  rfl

theorem after_append (before later : List DiscoveryCall) :
    after (before ++ later) = later.foldl (fun self call => (self.call call).2) (after before) := by
  unfold after
  rw [List.foldl_append]

theorem run_keeps (inv : MarketLifecycle → Prop)
    (kept : ∀ lifecycle target reason now, inv lifecycle →
      inv (MarketLifecycle.transition lifecycle target reason now).2)
    (later : List DiscoveryCall) (start : inv (self.lifecycle id)) :
    inv ((later.foldl (fun self call => (self.call call).2) self).lifecycle id) := by
  induction later generalizing self with
  | nil => exact start
  | cons call later ih =>
    refine ih ?_
    rw [call_lifecycle]
    split
    · exact kept _ _ _ _ start
    · exact start

def untimedMachine : Machine (MarketState × List (MarketState × MarketState × String)) (MarketState × String) :=
  Machine.total fun record asked =>
    if canTransition record.1 asked.1 then (asked.1, record.2 ++ [(record.1, asked.1, asked.2)]) else record

theorem untimed_transition (lifecycle : MarketLifecycle) (target : MarketState) (reason : String)
    (now : Datetime) : untimedMachine.step (untimed lifecycle) (target, reason) =
      some (untimed (lifecycle.transition target reason now).2) := by
  show some (if canTransition lifecycle.state target then _ else _) = _
  rcases lifecycle.transition_cases target reason now with ⟨legal, same⟩ | ⟨illegal, same⟩
  · rw [same, if_pos legal]
    simp [untimed]
  · rw [same, illegal]
    rfl

theorem store_projection (id : String) :
    Machine.Projection (Machine.total fun (self : DiscoveryService) call => (self.call call).2) untimedMachine
      (fun call => if call.conditionId = id then some (call.target, call.reason) else none)
      (fun self => untimed (self.lifecycle id)) where
  hidden := by
    intro self call next stepped unseen
    cases stepped
    have other : id ≠ call.conditionId := by
      intro same
      rw [if_pos same.symm] at unseen
      cases unseen
    show untimed ((self.call call).2.lifecycle id) = _
    rw [call_lifecycle, if_neg other]
  shown := by
    intro self call next asked stepped seen
    cases stepped
    obtain ⟨same, given⟩ := Option.ite_none_right_eq_some.mp seen
    cases given
    rw [untimed_transition _ _ _ call.now]
    show _ = some (untimed ((self.call call).2.lifecycle id))
    rw [call_lifecycle, if_pos same.symm]

theorem own_projection :
    Machine.Projection
      (Machine.total fun (self : MarketLifecycle) (call : TransitionCall) =>
        (self.transition call.target call.reason call.now).2)
      untimedMachine (fun call => some (call.target, call.reason)) untimed where
  hidden := by
    intro self call next _ unseen
    cases unseen
  shown := by
    intro self call next asked stepped seen
    cases stepped
    cases seen
    exact untimed_transition self call.target call.reason call.now

theorem ownCalls_asked (id : String) (calls : List DiscoveryCall) :
    (ownCalls id calls).map (fun call => (call.target, call.reason)) =
      calls.filterMap fun call =>
        if call.conditionId = id then some (call.target, call.reason) else none := by
  unfold ownCalls
  induction calls with
  | nil => rfl
  | cons call calls ih =>
    by_cases own : call.conditionId = id
    · rw [List.filter_cons_of_pos (by simpa using own), List.map_cons, List.map_cons, ih]
      simp only [List.filterMap_cons, if_pos own]
    · rw [List.filter_cons_of_neg (by simpa using own), ih]
      simp only [List.filterMap_cons, if_neg own]

/-- The calls on other markets, and the times of its own, leave no trace in a market's record. -/
theorem after_own (calls : List DiscoveryCall) (id : String) (alone : List TransitionCall)
    (same : alone.map (fun call => (call.target, call.reason)) =
      (ownCalls id calls).map (fun call => (call.target, call.reason))) :
    untimed (attempt alone) = untimed ((after calls).lifecycle id) := by
  have ran : Machine.run _ {} alone = some (attempt alone) := Machine.total_run
  have ran' : Machine.run _ {} calls = some (after calls) := Machine.total_run
  -- Both machines show the untimed record the same calls.
  have shown : alone.filterMap (fun call => some (call.target, call.reason)) =
      calls.filterMap fun call =>
        if call.conditionId = id then some (call.target, call.reason) else none := by
    rw [List.filterMap_eq_map', same, ownCalls_asked]
  have agreed := own_projection.agree (store_projection id) ran ran' rfl shown
  exact agreed

theorem monitoredCount_eq (self : DiscoveryService) : self.monitoredCount =
    (self.lifecycles.keys.filter fun id => decide ((self.lifecycle id).state ≠ marketInvalid)).length := by
  unfold monitoredCount Dict.keys
  rw [List.filter_map, List.length_map]
  congr 1
  apply List.filter_congr
  intro entry member
  have found : self.lifecycle entry.1 = entry.2 := by
    unfold lifecycle
    rw [Dict.get?_eq_some.mpr member]
    rfl
  rw [Function.comp_apply, found]

theorem keys_after (calls : List DiscoveryCall) :
    (after calls).lifecycles.keys.Perm (calls.map DiscoveryCall.conditionId).dedup := by
  refine (List.perm_ext_iff_of_nodup (after calls).lifecycles.distinct (List.nodup_dedup _)).mpr ?_
  intro id
  rw [List.mem_dedup, ← mem_after]
  rfl

theorem audit_trail (calls : List DiscoveryCall) : AuditTrail calls where
  path id := by
    have start : Path discovered (({} : DiscoveryService).lifecycle id).history
      (({} : DiscoveryService).lifecycle id).state := rfl
    exact run_keeps (fun lifecycle => Path discovered lifecycle.history lifecycle.state)
      (fun _ target reason now path => transition_path path target reason now) calls start
  grows before later split id := by
    rw [split, after_append]
    exact run_keeps (fun lifecycle => ((after before).lifecycle id).history <+: lifecycle.history)
      (fun lifecycle target reason now grown => grown.trans (transition_grows lifecycle target reason now))
      later (List.prefix_refl _)
  own id alone same := after_own calls id alone same
  accepted before call later _ := by
    rcases (after before).call_cases call with ⟨legal, move, _, taken, _⟩ | ⟨illegal, ⟨error, refusal⟩, _⟩
    · exact iff_of_true ⟨move, taken⟩ legal
    · rw [refusal]
      exact iff_of_false nofun illegal
  recorded before call later move _ taken := by
    rw [after_concat]
    rcases (after before).call_cases call with ⟨_, own, shape, recorded, moved⟩ | ⟨_, ⟨error, refusal⟩, _⟩
    · obtain rfl := Except.ok.inj (recorded.symm.trans taken)
      exact ⟨shape, moved⟩
    · rw [refusal] at taken
      cases taken
  refused before call later error _ refusal id := by
    rw [after_concat]
    rcases (after before).call_cases call with ⟨_, move, _, taken, _⟩ | ⟨_, _, kept⟩
    · rw [taken] at refusal
      cases refusal
    · exact kept id
  terminal before between call later _ ended := by
    have kept := run_keeps (fun lifecycle => lifecycle.isTerminal = true)
      (fun lifecycle target reason now ended => by rw [transition_terminal ended]; exact ended) between ended
    rw [← after_append] at kept
    rw [call_fst, transition_terminal kept]
    exact ⟨_, rfl⟩
  monitored := by
    rw [monitoredCount_eq, ((keys_after calls).filter _).length_eq]
    congr 2
    funext id
    have state : (attempt (ownCalls id calls)).state = ((after calls).lifecycle id).state :=
      congrArg Prod.fst (after_own calls id (ownCalls id calls) rfl)
    rw [state]

end DiscoveryService

end Call

end DeepFlow.Pipeline
