import Mathlib.Data.List.DropRight
import Mathlib.Data.Int.Order.Basic
import DeepFlow.Core.Enums
import DeepFlow.Core.StateMachine
import DeepFlow.Foundation.Dict
import DeepFlow.Foundation.Walk

/-!
# Circuit breakers

Breakers halt entries, never exits, and latch: a breaker stays open with the record of what first
tripped it until somebody resets it. The registry keeps only the open ones, so the specification is
about its call history.
-/

namespace DeepFlow.Risk
open DeepFlow.Core Foundation

structure BreakerTrip where
  reason : BreakerReason
  detail : String
  trippedAt : Datetime
  deriving DecidableEq, Repr

structure BreakerState where
  trips : Dict BreakerReason BreakerTrip := ∅

def BreakerState.isOpen (self : BreakerState) : Bool := !self.trips.entries.isEmpty

inductive AuditLine where
  | tripped (reason : BreakerReason) (detail : String)
  | reset (reason : BreakerReason) (actor : String)
  deriving DecidableEq, Repr

/-- `log` is what the registry has written to the audit log. -/
structure CircuitBreakerRegistry where
  state : BreakerState := {}
  log : List AuditLine := []

namespace CircuitBreakerRegistry

/-- `now` is what the clock reads. -/
def trip (self : CircuitBreakerRegistry) (reason : BreakerReason) (detail : String) (now : Datetime) :
    BreakerTrip × CircuitBreakerRegistry :=
  match self.state.trips.get? reason with
  | some existing => (existing, self)
  | none =>
    let trip : BreakerTrip := ⟨reason, detail, now⟩
    (trip, { state := { trips := self.state.trips.set reason trip }, log := self.log ++ [.tripped reason detail] })

def reset (self : CircuitBreakerRegistry) (reason : BreakerReason) (actor : String) :
    Bool × CircuitBreakerRegistry :=
  let removed := (self.state.trips.get? reason).isSome
  let state : BreakerState := { trips := self.state.trips.pop reason }
  if removed then (removed, { state, log := self.log ++ [.reset reason actor] })
  else (removed, { self with state })

def entriesAllowed (self : CircuitBreakerRegistry) : Bool := !self.state.isOpen

def exitsAllowed (_ : CircuitBreakerRegistry) : Bool := true

def openReasons (self : CircuitBreakerRegistry) : List BreakerReason := self.state.trips.keys

end CircuitBreakerRegistry

inductive BreakerCall where
  | trip (reason : BreakerReason) (detail : String) (now : Datetime)
  | reset (reason : BreakerReason) (actor : String)
  deriving DecidableEq, Repr

inductive BreakerResult where
  | tripped (trip : BreakerTrip)
  | removed (removed : Bool)
  deriving DecidableEq, Repr

def BreakerCall.reason : BreakerCall → BreakerReason
  | trip reason _ _ => reason
  | reset reason _ => reason

/-- What the call records if it finds its breaker closed. -/
def BreakerCall.record : BreakerCall → Option BreakerTrip
  | trip reason detail now => some ⟨reason, detail, now⟩
  | reset _ _ => none

def BreakerCall.reading : BreakerCall → Option Datetime
  | trip _ _ now => some now
  | reset _ _ => none

structure BreakerEvent where
  call : BreakerCall
  result : BreakerResult
  deriving DecidableEq, Repr

namespace CircuitBreakerRegistry

def call (self : CircuitBreakerRegistry) : BreakerCall → BreakerResult × CircuitBreakerRegistry
  | .trip reason detail now => (self.trip reason detail now).map .tripped id
  | .reset reason actor => (self.reset reason actor).map .removed id

def run (calls : List BreakerCall) : CircuitBreakerRegistry × List BreakerEvent :=
  calls.foldl (fun (self, events) call => ((self.call call).2, events ++ [⟨call, (self.call call).1⟩])) ({}, [])

def stored (self : CircuitBreakerRegistry) (reason : BreakerReason) : Option BreakerTrip :=
  self.state.trips.get? reason

end CircuitBreakerRegistry

/-! ### The history of a reason -/

def lastNaming (reason : BreakerReason) (calls : List BreakerCall) : Option BreakerCall :=
  lastWhere (fun call => decide (call.reason = reason)) calls

def BreakerEvent.resets (reason : BreakerReason) (event : BreakerEvent) : Bool :=
  decide (event.call.reason = reason ∧ event.result = .removed true)

def sinceReset (reason : BreakerReason) (events : List BreakerEvent) : List BreakerEvent :=
  events.rtakeWhile fun event => !event.resets reason

/-- The record of the first trip of `reason` since its last effective reset. -/
def firstTrip (reason : BreakerReason) (events : List BreakerEvent) : Option BreakerTrip :=
  (sinceReset reason events).findSome? fun event =>
    if event.call.reason = reason then event.call.record else none

structure Latches (calls : List BreakerCall) (registry : CircuitBreakerRegistry)
    (events : List BreakerEvent) : Prop where
  recorded : events.map BreakerEvent.call = calls
  opened : ∀ reason, (registry.stored reason).isSome ↔
    ∃ detail now, lastNaming reason calls = some (.trip reason detail now)
  entries : registry.entriesAllowed = true ↔ ∀ reason, registry.stored reason = none
  exits : registry.exitsAllowed = true
  firstCause : ∀ reason, registry.stored reason = firstTrip reason events
  retrips : ∀ reason, ∀ event ∈ sinceReset reason events, ∀ detail now,
    event.call = .trip reason detail now → (registry.stored reason).map .tripped = some event.result
  resets : ∀ reason actor, (registry.reset reason actor).1 = (registry.stored reason).isSome
  others : ∀ call other, other ≠ call.reason → (registry.call call).2.stored other = registry.stored other
  distinct : registry.openReasons.Nodup
  members : ∀ reason, reason ∈ registry.openReasons ↔ (registry.stored reason).isSome
  ordered : registry.openReasons.Pairwise fun earlier later => ∀ first second,
    registry.stored earlier = some first → registry.stored later = some second →
      first.trippedAt ≤ second.trippedAt

section Calls
variable {self : CircuitBreakerRegistry} {reason other : BreakerReason} {calls : List BreakerCall}
  {events : List BreakerEvent}

open CircuitBreakerRegistry

theorem trip_open {existing : BreakerTrip} (found : self.stored reason = some existing) (detail : String)
    (now : Datetime) : self.trip reason detail now = (existing, self) := by
  unfold trip
  rw [show self.state.trips.get? reason = some existing from found]

theorem trip_closed (missing : self.stored reason = none) (detail : String) (now : Datetime) :
    self.trip reason detail now = (⟨reason, detail, now⟩,
      ⟨⟨self.state.trips.set reason ⟨reason, detail, now⟩⟩, self.log ++ [.tripped reason detail]⟩) := by
  unfold trip
  rw [show self.state.trips.get? reason = none from missing]

theorem reset_result (actor : String) : (self.reset reason actor).1 = (self.stored reason).isSome := by
  unfold reset
  dsimp only
  split <;> rfl

theorem reset_trips (actor : String) :
    (self.reset reason actor).2.state.trips = self.state.trips.pop reason := by
  unfold reset
  dsimp only
  split <;> rfl

theorem call_trip (detail : String) (now : Datetime) :
    (self.call (.trip reason detail now)).1 = .tripped ((self.stored reason).getD ⟨reason, detail, now⟩) := by
  show BreakerResult.tripped (self.trip reason detail now).1 = _
  cases found : self.stored reason with
  | some existing => rw [trip_open found]; rfl
  | none => rw [trip_closed found]; rfl

theorem call_stored (call : BreakerCall) : (self.call call).2.stored other =
    if other = call.reason then call.record.map (self.stored other).getD else self.stored other := by
  cases call with
  | trip reason detail now =>
    show (self.trip reason detail now).2.stored other =
      if other = reason then some ((self.stored other).getD ⟨reason, detail, now⟩) else self.stored other
    cases found : self.stored reason with
    | some existing =>
      rw [trip_open found]
      by_cases same : other = reason
      · rw [if_pos same, same, found]; rfl
      · rw [if_neg same]
    | none =>
      rw [trip_closed found]
      show (self.state.trips.set reason ⟨reason, detail, now⟩).get? other = _
      rw [Dict.get?_set]
      by_cases same : other = reason
      · rw [if_pos same, if_pos same, same, found]; rfl
      · rw [if_neg same, if_neg same]; rfl
  | reset reason actor =>
    show (self.reset reason actor).2.state.trips.get? other = if other = reason then none else self.stored other
    rw [reset_trips, Dict.get?_pop]
    rfl

theorem run_concat (call : BreakerCall) : run (calls ++ [call]) =
    (((run calls).1.call call).2, (run calls).2 ++ [⟨call, ((run calls).1.call call).1⟩]) := by
  unfold run
  rw [List.foldl_append]
  rfl

theorem run_recorded (calls : List BreakerCall) : (run calls).2.map BreakerEvent.call = calls := by
  induction calls using List.reverseRecOn with
  | nil => rfl
  | append_singleton calls call ih =>
    rw [run_concat, List.map_append, ih]
    rfl

theorem run_opened (reason : BreakerReason) (calls : List BreakerCall) :
    ((run calls).1.stored reason).isSome ↔
      ∃ detail now, lastNaming reason calls = some (.trip reason detail now) := by
  induction calls using List.reverseRecOn with
  | nil => simp [run, stored, lastNaming, lastWhere]
  | append_singleton calls call ih =>
    rw [run_concat, call_stored, lastNaming]
    by_cases same : reason = call.reason
    · rw [if_pos same, lastWhere_concat_pos (by simpa using same.symm)]
      cases call with
      | trip named detail now =>
        obtain rfl : reason = named := same
        exact iff_of_true rfl ⟨detail, now, rfl⟩
      | reset named actor => simp [BreakerCall.record]
    · rw [if_neg same, lastWhere_concat_neg (by simpa using Ne.symm same)]
      exact ih

theorem sinceReset_concat (reason : BreakerReason) (event : BreakerEvent) :
    sinceReset reason (events ++ [event]) =
      if event.resets reason then [] else sinceReset reason events ++ [event] := by
  unfold sinceReset
  rw [List.rtakeWhile_concat]
  cases event.resets reason <;> rfl

theorem firstTrip_concat (reason : BreakerReason) (event : BreakerEvent) :
    firstTrip reason (events ++ [event]) = if event.resets reason then none
      else (firstTrip reason events).or (if event.call.reason = reason then event.call.record else none) := by
  unfold firstTrip
  rw [sinceReset_concat]
  cases event.resets reason with
  | true => rfl
  | false => simp [List.findSome?_append]

theorem call_resets (call : BreakerCall) : BreakerEvent.resets reason ⟨call, (self.call call).1⟩ =
    (decide (reason = call.reason) && call.record.isNone && (self.stored reason).isSome) := by
  cases call with
  | trip named detail now =>
    rw [call_trip]
    simp [BreakerEvent.resets, BreakerCall.record]
  | reset named actor =>
    show decide (named = reason ∧ BreakerResult.removed (self.reset named actor).1 = .removed true) = _
    rw [reset_result]
    by_cases same : reason = named
    · simp [same, BreakerCall.record, BreakerCall.reason]
    · simp [Ne.symm same, same, BreakerCall.reason]

theorem run_firstTrip (reason : BreakerReason) (calls : List BreakerCall) :
    (run calls).1.stored reason = firstTrip reason (run calls).2 := by
  induction calls using List.reverseRecOn with
  | nil => rfl
  | append_singleton calls call ih =>
    rw [run_concat, call_stored, firstTrip_concat, call_resets, ← ih]
    by_cases same : reason = call.reason
    -- A reset that finds the breaker closed is no boundary, but there is no trip before it either.
    · rw [if_pos same, if_pos same.symm]
      cases record : call.record <;> cases found : (run calls).1.stored reason <;> simp [same]
    · rw [if_neg same, if_neg (Ne.symm same)]
      simp [same]

theorem run_retrips (reason : BreakerReason) (calls : List BreakerCall) :
    ∀ event ∈ sinceReset reason (run calls).2, ∀ detail now, event.call = .trip reason detail now →
      ((run calls).1.stored reason).map .tripped = some event.result := by
  induction calls using List.reverseRecOn with
  | nil => simp [run, sinceReset]
  | append_singleton calls call ih =>
    intro event member detail now named
    rw [run_concat, sinceReset_concat] at member
    rw [run_concat, call_stored]
    split at member
    · exact absurd member List.not_mem_nil
    next kept =>
    rw [call_resets] at kept
    rcases List.mem_append.mp member with earlier | latest
    · have before := ih event earlier detail now named
      by_cases same : reason = call.reason
      · obtain ⟨existing, found, tripped⟩ := Option.map_eq_some_iff.mp before
        rw [if_pos same, found]
        cases record : call.record with
        | some new => exact congrArg some tripped
        | none => simp [same.symm, record, found] at kept
      · rw [if_neg same]
        exact before
    · obtain rfl := List.mem_singleton.mp latest
      subst named
      rw [call_trip, if_pos (show reason = (BreakerCall.trip reason detail now).reason from rfl)]
      rfl

def Stamped (readings : List Datetime) (entries : List (BreakerReason × BreakerTrip)) : Prop :=
  (∀ entry ∈ entries, entry.2.trippedAt ∈ readings) ∧
    entries.Pairwise fun first second => first.2.trippedAt ≤ second.2.trippedAt

theorem run_stamped (calls : List BreakerCall) (forward : (calls.filterMap BreakerCall.reading).Pairwise (· ≤ ·)) :
    Stamped (calls.filterMap BreakerCall.reading) (run calls).1.state.trips.entries := by
  induction calls using List.reverseRecOn with
  | nil => exact ⟨fun entry member => absurd member List.not_mem_nil, List.Pairwise.nil⟩
  | append_singleton calls call ih =>
    rw [List.filterMap_append] at forward ⊢
    obtain ⟨before, -, later⟩ := List.pairwise_append.mp forward
    obtain ⟨stamped, ordered⟩ := ih before
    rw [run_concat]
    cases call with
    | trip reason detail now =>
      show Stamped _ ((run calls).1.trip reason detail now).2.state.trips.entries
      cases found : (run calls).1.stored reason with
      | some existing =>
        rw [trip_open found]
        exact ⟨fun entry member => List.mem_append_left _ (stamped entry member), ordered⟩
      | none =>
        rw [trip_closed found]
        show Stamped _ ((run calls).1.state.trips.set reason ⟨reason, detail, now⟩).entries
        rw [Dict.entries_set_absent (Dict.get?_eq_none.mp found)]
        constructor
        · intro entry member
          rcases List.mem_append.mp member with old | new
          · exact List.mem_append_left _ (stamped entry old)
          · rw [List.mem_singleton.mp new]
            exact List.mem_append_right _ (by simp [BreakerCall.reading])
        · refine List.pairwise_append.mpr ⟨ordered, List.pairwise_singleton _ _, ?_⟩
          intro entry old new member
          rw [List.mem_singleton.mp member]
          exact later _ (stamped entry old) now (by simp [BreakerCall.reading])
    | reset reason actor =>
      show Stamped _ ((run calls).1.reset reason actor).2.state.trips.entries
      rw [reset_trips]
      have fewer : ((run calls).1.state.trips.pop reason).entries.Sublist (run calls).1.state.trips.entries :=
        List.filter_sublist
      exact ⟨fun entry member => List.mem_append_left _ (stamped entry (fewer.subset member)),
        ordered.sublist fewer⟩

theorem mem_openReasons : reason ∈ self.openReasons ↔ (self.stored reason).isSome := by
  rw [Option.isSome_iff_exists]
  exact Dict.mem_iff_get?

theorem entriesAllowed_iff : self.entriesAllowed = true ↔ ∀ reason, self.stored reason = none := by
  have closed : self.entriesAllowed = true ↔ self.openReasons = [] := by
    simp [entriesAllowed, BreakerState.isOpen, openReasons, Dict.keys]
  rw [closed, List.eq_nil_iff_forall_not_mem]
  simp only [mem_openReasons, Option.not_isSome_iff_eq_none]

/-- Over any calls, with a clock that never goes back, each reason is a latch that keeps the record
of its first cause. -/
theorem breakers_latch (calls : List BreakerCall)
    (forward : (calls.filterMap BreakerCall.reading).Pairwise (· ≤ ·)) :
    Latches calls (run calls).1 (run calls).2 where
  recorded := run_recorded calls
  opened reason := run_opened reason calls
  entries := entriesAllowed_iff
  exits := rfl
  firstCause reason := run_firstTrip reason calls
  retrips reason := run_retrips reason calls
  resets _ actor := reset_result actor
  others call other different := by rw [call_stored, if_neg different]
  distinct := (run calls).1.state.trips.distinct
  members _ := mem_openReasons
  ordered := by
    refine List.pairwise_map.mpr ((run_stamped calls forward).2.imp_of_mem ?_)
    intro earlier later inside inside' stamps first second found found'
    have first' : (run calls).1.stored earlier.1 = some earlier.2 := Dict.get?_eq_some.mpr inside
    have second' : (run calls).1.stored later.1 = some later.2 := Dict.get?_eq_some.mpr inside'
    obtain rfl := Option.some.inj (first'.symm.trans found)
    obtain rfl := Option.some.inj (second'.symm.trans found')
    exact stamps

def staleFeed : List BreakerCall :=
  [.trip .staleData "feed silent" 1, .trip .apiFailure "timeout" 2, .trip .staleData "still silent" 3,
    .reset .apiFailure "operator", .reset .apiFailure "operator"]

theorem breakers_latch_staleFeed :
    (run staleFeed).1.stored .staleData = some ⟨.staleData, "feed silent", 1⟩ ∧
      (run staleFeed).1.openReasons = [.staleData] ∧
      Latches staleFeed (run staleFeed).1 (run staleFeed).2 :=
  ⟨by decide, by decide, breakers_latch staleFeed (by decide)⟩

end Calls

end DeepFlow.Risk
