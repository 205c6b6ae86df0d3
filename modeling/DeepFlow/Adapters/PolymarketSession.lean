import Mathlib.Logic.Function.Basic
import DeepFlow.Foundation.Machine

/-!
# The SDK session

`PolymarketSession` owns the two SDK clients of the process. `close` asks the clients that it found to
close, the authenticated one first, goes on after an exception, which it logs, and then lets go of both
references. It waits for each client in turn, and meanwhile clients may be opened, other calls of
`close` may be under way and the waiting one may be cancelled. `start` is a skeleton: a client may
be opened at any time, into either place.
-/

namespace DeepFlow.Adapters
open Foundation

structure PolymarketSession (κ : Type*) where
  secure : Option κ := none
  unsigned : Option κ := none
  deriving DecidableEq, Repr

inductive ClientPlace where
  | secure
  | unsigned
  deriving DecidableEq, Repr

structure ConfigurationError where
  message : String
  deriving DecidableEq, Repr

namespace PolymarketSession
variable {κ : Type*}

/-- The `public` property. -/
def getPublic (self : PolymarketSession κ) : Except ConfigurationError κ :=
  match self.unsigned with
  | none => .error ⟨"Polymarket session not started"⟩
  | some client => .ok client

/-- The `secure` property. -/
def getSecure (self : PolymarketSession κ) : Except ConfigurationError κ :=
  match self.secure with
  | none => .error ⟨"Authenticated Polymarket client unavailable: no private key configured"⟩
  | some client => .ok client

theorem getPublic_eq_ok {self : PolymarketSession κ} {client : κ} :
    self.getPublic = .ok client ↔ self.unsigned = some client := by
  unfold getPublic
  cases self.unsigned <;> simp

theorem getSecure_eq_ok {self : PolymarketSession κ} {client : κ} :
    self.getSecure = .ok client ↔ self.secure = some client := by
  unfold getSecure
  cases self.secure <;> simp

def hasCredentials (self : PolymarketSession κ) : Bool := self.secure.isSome

/-- What a caller may ask first, where `secure` would raise. -/
theorem hasCredentials_iff {self : PolymarketSession κ} :
    self.hasCredentials = true ↔ ∃ client, self.getSecure = .ok client := by
  simp only [hasCredentials, getSecure_eq_ok, Option.isSome_iff_exists]

/-- The clients that `close` goes through. -/
def clients (self : PolymarketSession κ) : List κ := self.secure.toList ++ self.unsigned.toList

def place (self : PolymarketSession κ) : ClientPlace → Option κ
  | .secure => self.secure
  | .unsigned => self.unsigned

def put (self : PolymarketSession κ) (client : κ) : ClientPlace → PolymarketSession κ
  | .secure => { self with secure := some client }
  | .unsigned => { self with unsigned := some client }

end PolymarketSession

/-- Where a call of `close` stands: the client it waits for and those it has yet to go through. -/
inductive CloseCall (κ : Type*) where
  | absent
  | closing (client : κ) (rest : List κ)
  | returned
  | cancelled
  deriving DecidableEq, Repr

/-- Where a call stands that has asked the first of the clients it found to close, and not the rest. -/
def CloseCall.Stands {κ : Type*} (call : CloseCall κ) (gone rest : List κ) : Prop :=
  match call with
  | .absent => False
  | .closing _ left => gone ≠ [] ∧ rest = left
  | .returned => rest = []
  | .cancelled => gone ≠ []

inductive ClientStatus where
  | opened
  | asked
  deriving DecidableEq, Repr

structure Sessions (κ ι : Type*) where
  session : PolymarketSession κ := {}
  status : κ → Option ClientStatus := fun _ => none
  calls : ι → CloseCall κ := fun _ => .absent

inductive SessionEvent (κ ι : Type*) where
  | opens (place : ClientPlace) (client : κ)
  | close (call : ι)
  -- The awaited `client.close()` is over, by an exception or without.
  | closed (call : ι)
  -- The caller of `close` is cancelled while it waits.
  | cancel (call : ι)
  deriving DecidableEq, Repr

namespace Sessions
variable {κ ι : Type*} [DecidableEq κ] [DecidableEq ι]

def setCall (st : Sessions κ ι) (c : ι) (call : CloseCall κ) : Sessions κ ι :=
  { st with calls := Function.update st.calls c call }

/-- The loop of `close` over the clients that are left, up to where it waits or returns. -/
def advance (st : Sessions κ ι) (c : ι) : List κ → Sessions κ ι
  | [] => { st with session := {} }.setCall c .returned
  | client :: rest =>
    { st with status := Function.update st.status client (some .asked) }.setCall c (.closing client rest)

def step (st : Sessions κ ι) : SessionEvent κ ι → Option (Sessions κ ι)
  | .opens place client =>
    match st.status client with
    | none => some { st with
        session := st.session.put client place
        status := Function.update st.status client (some .opened) }
    | some _ => none
  | .close call =>
    match st.calls call with
    | .absent => some (st.advance call st.session.clients)
    | _ => none
  | .closed call =>
    match st.calls call with
    | .closing _ rest => some (st.advance call rest)
    | _ => none
  | .cancel call =>
    match st.calls call with
    | .closing _ _ => some (st.setCall call .cancelled)
    | _ => none

def machine : Machine (Sessions κ ι) (SessionEvent κ ι) := ⟨step⟩

/-! ### What a step can do -/

variable {st after : Sessions κ ι} {event : SessionEvent κ ι} {events : List (SessionEvent κ ι)} {c : ι} {k : κ}

inductive Effect (st : Sessions κ ι) : SessionEvent κ ι → Sessions κ ι → Prop where
  | opened (place : ClientPlace) (client : κ) (fresh : st.status client = none) : Effect st (.opens place client)
      { st with
        session := st.session.put client place
        status := Function.update st.status client (some .opened) }
  | starts (c : ι) (first : st.calls c = .absent) : Effect st (.close c) (st.advance c st.session.clients)
  | continues (c : ι) (client : κ) (rest : List κ) (waiting : st.calls c = .closing client rest) :
      Effect st (.closed c) (st.advance c rest)
  | cancelled (c : ι) (client : κ) (rest : List κ) (waiting : st.calls c = .closing client rest) :
      Effect st (.cancel c) (st.setCall c .cancelled)

theorem step_effect (stepped : st.step event = some after) : Effect st event after := by
  cases event with
  | opens place client =>
    simp only [step] at stepped
    cases status : st.status client with
    | none => rw [status] at stepped; cases stepped; exact .opened place client status
    | some _ => rw [status] at stepped; cases stepped
  | close c =>
    simp only [step] at stepped
    split at stepped
    · next first => cases stepped; exact .starts c first
    · cases stepped
  | closed c =>
    simp only [step] at stepped
    split at stepped
    · next client rest waiting => cases stepped; exact .continues c client rest waiting
    · cases stepped
  | cancel c =>
    simp only [step] at stepped
    split at stepped
    · next client rest waiting => cases stepped; exact .cancelled c client rest waiting
    · cases stepped

omit [DecidableEq κ] in
theorem setCall_calls (st : Sessions κ ι) (c d : ι) (call : CloseCall κ) :
    (st.setCall c call).calls d = if d = c then call else st.calls d :=
  Function.update_apply ..

omit [DecidableEq ι] in
/-- Asking one more client to close leaves every other client as it is. -/
theorem ask_asked {client : κ} (asked : k = client ∨ st.status k = some .asked) :
    Function.update st.status client (some .asked) k = some .asked := by
  rw [Function.update_apply]
  split
  · rfl
  · next other => exact asked.resolve_left other

theorem advance_asked (st : Sessions κ ι) (c : ι) (clients : List κ) (asked : st.status k = some .asked) :
    (st.advance c clients).status k = some .asked := by
  cases clients with
  | nil => exact asked
  | cons client rest => exact ask_asked (.inr asked)

/-- Once asked to close, a client stays so. -/
theorem step_asked (stepped : st.step event = some after) (asked : st.status k = some .asked) :
    after.status k = some .asked := by
  cases step_effect stepped with
  | opened place client fresh =>
    have other : k ≠ client := by
      rintro rfl
      rw [fresh] at asked
      cases asked
    exact (Function.update_of_ne other ..).trans asked
  | starts c first => exact advance_asked st c _ asked
  | continues c client rest waiting => exact advance_asked st c rest asked
  | cancelled c client rest waiting => exact asked

theorem advance_other {d : ι} (other : c ≠ d) (clients : List κ) : (st.advance d clients).calls c = st.calls c := by
  cases clients with
  | nil => exact (setCall_calls ..).trans (if_neg other)
  | cons client rest => exact (setCall_calls ..).trans (if_neg other)

/-! ### What a call of `close` reaches -/

def Reached (st : Sessions κ ι) (c : ι) (found : List κ) : Prop :=
  ∃ gone rest, found = gone ++ rest ∧ (∀ k ∈ gone, st.status k = some .asked) ∧ (st.calls c).Stands gone rest

theorem advance_reached {gone rest : List κ} (asked : ∀ k ∈ gone, st.status k = some .asked) :
    Reached (st.advance c rest) c (gone ++ rest) := by
  cases rest with
  | nil =>
    refine ⟨gone, [], rfl, asked, ?_⟩
    rw [advance, setCall_calls, if_pos rfl]
    rfl
  | cons client rest =>
    refine ⟨gone ++ [client], rest, by simp, ?_, ?_⟩
    · intro k member
      refine ask_asked ?_
      rcases List.mem_append.mp member with before | last
      · exact .inr (asked k before)
      · exact .inl (List.mem_singleton.mp last)
    · rw [advance, setCall_calls, if_pos rfl]
      exact ⟨by simp, rfl⟩

theorem Reached.step {found : List κ} (reached : Reached st c found) (stepped : st.step event = some after) :
    Reached after c found := by
  obtain ⟨gone, rest, split, asked, stands⟩ := reached
  have still : ∀ k ∈ gone, after.status k = some .asked := fun k member => step_asked stepped (asked k member)
  have kept : after.calls c = st.calls c → Reached after c found := fun same =>
    ⟨gone, rest, split, still, same ▸ stands⟩
  cases step_effect stepped with
  | opened place client fresh => exact kept rfl
  | starts d first =>
    refine kept (advance_other ?_ _)
    rintro rfl
    rw [first] at stands
    exact stands.elim
  | continues d client left waiting =>
    by_cases same : c = d
    · rw [← same] at waiting ⊢
      rw [waiting] at stands
      rw [split, stands.2]
      exact advance_reached asked
    · exact kept (advance_other same _)
  | cancelled d client left waiting =>
    by_cases same : c = d
    · rw [← same] at waiting ⊢
      rw [waiting] at stands
      refine ⟨gone, rest, split, still, ?_⟩
      rw [setCall_calls, if_pos rfl]
      exact stands.1
    · exact kept ((setCall_calls ..).trans (if_neg same))

theorem close_starts (stepped : st.step (.close c) = some after) : after = st.advance c st.session.clients := by
  cases step_effect stepped
  rfl

/-- Without anything opened, a session that some call has let go of stays empty. -/
theorem returned_empty {later : List (SessionEvent κ ι)} (quiet : ∀ place client, .opens place client ∉ later)
    (before : st.calls c = .returned → st.session = {}) (ran : machine.run st later = some after)
    (returned : after.calls c = .returned) : after.session = {} := by
  refine Machine.run_induction (motive := fun events other =>
    (∀ place client, .opens place client ∉ events) → other.calls c = .returned → other.session = {})
    (fun _ => before) ?_ ran quiet returned
  intro events st event after ih _ stepped quiet
  have earlier := ih fun place client member => quiet place client (List.mem_append_left _ member)
  have advances : ∀ d clients, (st.advance d clients).calls c = .returned → (st.advance d clients).session = {} := by
    intro d clients
    cases clients with
    | nil => exact fun _ => rfl
    | cons client rest =>
      intro returned
      rw [advance, setCall_calls] at returned
      split at returned
      · cases returned
      · exact earlier returned
  cases step_effect stepped with
  | opened place client fresh => exact absurd (List.mem_append_right _ List.mem_cons_self) (quiet place client)
  | starts d first => exact advances d _
  | continues d client rest waiting => exact advances d rest
  | cancelled d client rest waiting =>
    intro returned
    rw [setCall_calls] at returned
    split at returned
    · cases returned
    · exact earlier returned

/-- Whatever else goes on, a call of `close` has at any time asked the first of the clients that it
found to close, the authenticated one first: all of them when it has returned, at least one when it
was cancelled. Unless a client is opened after it was called, neither property gives one out once it has returned. -/
theorem close_reaches (before later : List (SessionEvent κ ι)) (c : ι) (st : Sessions κ ι)
    (ran : machine.run {} (before ++ .close c :: later) = some st) :
    ∃ called, machine.run {} before = some called ∧
      (∃ gone rest, called.session.clients = gone ++ rest ∧ (∀ k ∈ gone, st.status k = some .asked) ∧
        (st.calls c).Stands gone rest) ∧
      (st.calls c = .returned → (∀ place client, .opens place client ∉ later) →
        ∀ k, st.session.getPublic ≠ .ok k ∧ st.session.getSecure ≠ .ok k) := by
  obtain ⟨called, first, rest⟩ := Machine.run_split ran
  obtain ⟨next, stepped, onward⟩ := Machine.run_cons_split rest
  refine ⟨called, first, ?_, ?_⟩
  · have start : Reached next c called.session.clients := by
      rw [close_starts stepped]
      exact advance_reached (List.forall_mem_nil _)
    exact Machine.run_invariant (Reached · c _) (fun _ _ _ reached stepped => reached.step stepped) start onward
  · intro returned quiet k
    have start : next.calls c = .returned → next.session = {} := by
      rw [close_starts stepped]
      cases called.session.clients with
      | nil => exact fun _ => rfl
      | cons client rest =>
        intro returned
        rw [advance, setCall_calls, if_pos rfl] at returned
        cases returned
    rw [returned_empty quiet start onward returned]
    exact ⟨nofun, nofun⟩

theorem close_reaches_both : ∃ st : Sessions Nat Nat,
    machine.run {} [.opens .secure 1, .opens .unsigned 2, .close 0, .close 3, .closed 0, .closed 0] = some st ∧
      ∀ k, st.session.getPublic ≠ .ok k ∧ st.session.getSecure ≠ .ok k := by
  have facts : (machine.run {} [.opens .secure 1, .opens .unsigned 2, .close 0, .close 3, .closed 0, .closed 0] :
      Option (Sessions Nat Nat)).map (·.calls 0) = some .returned := rfl
  obtain ⟨st, ran, returned⟩ := Option.map_eq_some_iff.mp facts
  obtain ⟨_, _, _, empty⟩ :=
    close_reaches [.opens .secure 1, .opens .unsigned 2] [.close 3, .closed 0, .closed 0] 0 st ran
  exact ⟨st, ran, empty returned (by simp)⟩

/-! ### Clients that nobody closes -/

/-- The client was opened while some call of `close` was waiting. -/
def Late (events : List (SessionEvent κ ι)) (k : κ) : Prop :=
  machine.Met {} events fun found event =>
    (∃ c client rest, found.calls c = .closing client rest) ∧ ∃ place, event = .opens place k

/-- Another client was opened into the place that held it. -/
def Replaced (events : List (SessionEvent κ ι)) (k : κ) : Prop :=
  machine.Met {} events fun found event =>
    ∃ place client, event = .opens place client ∧ found.session.place place = some k

omit [DecidableEq κ] in
theorem mem_clients_iff {session : PolymarketSession κ} :
    k ∈ session.clients ↔ ∃ place, session.place place = some k := by
  constructor
  · intro member
    rcases List.mem_append.mp member with secure | unsigned
    · exact ⟨.secure, Option.mem_toList.mp secure⟩
    · exact ⟨.unsigned, Option.mem_toList.mp unsigned⟩
  · rintro ⟨place, held⟩
    cases place with
    | secure => exact List.mem_append_left _ (Option.mem_toList.mpr held)
    | unsigned => exact List.mem_append_right _ (Option.mem_toList.mpr held)

omit [DecidableEq κ] in
theorem put_place (session : PolymarketSession κ) (client : κ) (place other : ClientPlace) :
    (session.put client place).place other = if other = place then some client else session.place other := by
  cases place <;> cases other <;> rfl

omit [DecidableEq κ] in
theorem mem_put {session : PolymarketSession κ} {client : κ} {place : ClientPlace}
    (member : k ∈ (session.put client place).clients) : k = client ∨ k ∈ session.clients := by
  obtain ⟨other, held⟩ := mem_clients_iff.mp member
  rw [put_place] at held
  split at held
  · exact .inl (Option.some.inj held).symm
  · exact .inr (mem_clients_iff.mpr ⟨other, held⟩)

/-- Every client that was opened is held, asked, late or replaced; a call that waits has asked all
that are held or will ask them, but for late ones; and only while a call waits, or after one was
cancelled, is a client held that was asked to close. -/
structure Tracked (events : List (SessionEvent κ ι)) (st : Sessions κ ι) : Prop where
  known : ∀ k ∈ st.session.clients, st.status k ≠ none
  kept : ∀ k, st.status k ≠ none →
    k ∈ st.session.clients ∨ st.status k = some .asked ∨ Late events k ∨ Replaced events k
  found : ∀ c client rest, st.calls c = .closing client rest →
    ∀ k ∈ st.session.clients, st.status k = some .asked ∨ k ∈ rest ∨ Late events k
  spent : ∀ k ∈ st.session.clients, st.status k = some .asked →
    ∃ c, (∃ client rest, st.calls c = .closing client rest) ∨ st.calls c = .cancelled

theorem released_concat {after : Sessions κ ι} (still : st.status k = some .asked → after.status k = some .asked)
    (released : st.status k = some .asked ∨ Late events k ∨ Replaced events k) :
    after.status k = some .asked ∨ Late (events ++ [event]) k ∨ Replaced (events ++ [event]) k :=
  released.imp still (Or.imp Machine.Met.concat Machine.Met.concat)

theorem awaited_concat {after : Sessions κ ι} {rest : List κ}
    (still : st.status k = some .asked → after.status k = some .asked)
    (awaited : st.status k = some .asked ∨ k ∈ rest ∨ Late events k) :
    after.status k = some .asked ∨ k ∈ rest ∨ Late (events ++ [event]) k :=
  awaited.imp still (Or.imp_right Machine.Met.concat)

theorem Tracked.advance (tracked : Tracked events st) {clients : List κ}
    (own : ∀ k ∈ st.session.clients, st.status k = some .asked ∨ k ∈ clients ∨ Late events k) :
    Tracked (events ++ [event]) (st.advance c clients) := by
  cases clients with
  | nil =>
    have none : ∀ k, k ∉ (PolymarketSession.clients {} : List κ) := fun _ => List.not_mem_nil
    constructor
    case known => exact fun k member => absurd member (none k)
    case kept =>
      intro k known
      rcases tracked.kept k known with held | released
      · exact .inr ((own k held).imp_right fun rest => .inl (rest.resolve_left List.not_mem_nil).concat)
      · exact .inr (released_concat id released)
    case found => exact fun _ _ _ _ k member => absurd member (none k)
    case spent => exact fun k member => absurd member (none k)
  | cons client rest =>
    have waits : (st.advance c (client :: rest)).calls c = .closing client rest :=
      (setCall_calls ..).trans (if_pos rfl)
    constructor
    case known =>
      intro k held
      rcases eq_or_ne k client with same | other
      · exact (ask_asked (.inl same)).trans_ne nofun
      · exact (Function.update_of_ne other ..).trans_ne (tracked.known k held)
    case kept =>
      intro k known
      rcases eq_or_ne k client with same | other
      · exact .inr (.inl (ask_asked (.inl same)))
      · have before : st.status k ≠ none := (Function.update_of_ne other ..).symm.trans_ne known
        exact (tracked.kept k before).imp_right (released_concat fun asked => ask_asked (.inr asked))
    case found =>
      intro d waited left waiting k held
      by_cases same : d = c
      · rw [same, waits] at waiting
        cases waiting
        rcases own k held with asked | here | late
        · exact .inl (ask_asked (.inr asked))
        · exact (List.mem_cons.mp here).imp (fun first => ask_asked (.inl first)) .inl
        · exact .inr (.inr late.concat)
      · rw [advance_other same] at waiting
        exact awaited_concat (fun asked => ask_asked (.inr asked)) (tracked.found d waited left waiting k held)
    case spent => exact fun _ _ _ => ⟨c, .inl ⟨client, rest, waits⟩⟩

theorem Tracked.opened (tracked : Tracked events st) (ran : machine.run {} events = some st) {place : ClientPlace}
    {client : κ} (fresh : st.status client = none) : Tracked (events ++ [.opens place client]) { st with
      session := st.session.put client place
      status := Function.update st.status client (some .opened) } := by
  have other : ∀ {k}, st.status k ≠ none → k ≠ client := by
    rintro k known rfl
    exact known fresh
  have same : ∀ {k}, st.status k ≠ none → Function.update st.status client (some .opened) k = st.status k :=
    fun known => Function.update_of_ne (other known) ..
  constructor
  case known =>
    intro k held
    rcases mem_put held with rfl | before
    · exact (Function.update_self ..).trans_ne nofun
    · exact (same (tracked.known k before)).trans_ne (tracked.known k before)
  case kept =>
    intro k known
    rcases eq_or_ne k client with rfl | different
    · exact .inl (mem_clients_iff.mpr ⟨place, (put_place ..).trans (if_pos rfl)⟩)
    · have before : st.status k ≠ none := (Function.update_of_ne different ..).symm.trans_ne known
      rcases tracked.kept k before with held | released
      · obtain ⟨there, holds⟩ := mem_clients_iff.mp held
        by_cases taken : there = place
        · exact .inr (.inr (.inr (.last ran ⟨place, client, rfl, taken ▸ holds⟩)))
        · exact .inl (mem_clients_iff.mpr ⟨there, (put_place ..).trans ((if_neg taken).trans holds)⟩)
      · exact .inr (released_concat (same before).trans released)
  case found =>
    intro c waited rest waiting k held
    rcases mem_put held with rfl | before
    · exact .inr (.inr (.last ran ⟨⟨c, waited, rest, waiting⟩, place, rfl⟩))
    · exact awaited_concat (same (tracked.known k before)).trans (tracked.found c waited rest waiting k before)
  case spent =>
    intro k held asked
    rcases mem_put held with rfl | before
    · cases (Function.update_self ..).symm.trans asked
    · exact tracked.spent k before ((same (tracked.known k before)).symm.trans asked)

theorem Tracked.cancelled (tracked : Tracked events st) :
    Tracked (events ++ [event]) (st.setCall c .cancelled) := by
  constructor
  case known => exact tracked.known
  case kept => exact fun k known => (tracked.kept k known).imp_right (released_concat id)
  case found =>
    intro d waited rest waiting k held
    rw [setCall_calls] at waiting
    split at waiting
    · cases waiting
    · exact awaited_concat id (tracked.found d waited rest waiting k held)
  case spent => exact fun _ _ _ => ⟨c, .inr ((setCall_calls ..).trans (if_pos rfl))⟩

theorem Tracked.step (tracked : Tracked events st) (ran : machine.run {} events = some st)
    (stepped : st.step event = some after) : Tracked (events ++ [event]) after := by
  cases step_effect stepped with
  | opened place client fresh => exact tracked.opened ran fresh
  | starts c first => exact tracked.advance fun k held => .inr (.inl held)
  | continues c client rest waiting => exact tracked.advance (tracked.found c client rest waiting)
  | cancelled c client rest waiting => exact tracked.cancelled

theorem run_tracked (ran : machine.run {} events = some st) : Tracked events st := by
  have start : Tracked ([] : List (SessionEvent κ ι)) {} :=
    { known := fun _ member => absurd member List.not_mem_nil
      kept := fun _ known => absurd rfl known
      found := nofun
      spent := fun _ member => absurd member List.not_mem_nil }
  exact Machine.run_induction (motive := Tracked) start
    (fun _ _ _ _ tracked ran stepped => tracked.step ran stepped) ran

/-- No client is lost track of: it is held, it was asked to close, or it was opened while a call of
`close` was waiting or has had another opened in its place. And a client that was asked to close is
given out only while some call waits, or after one was cancelled. -/
theorem clients_accounted (events : List (SessionEvent κ ι)) (st : Sessions κ ι) (k : κ)
    (ran : machine.run {} events = some st) :
    (st.status k ≠ none →
      k ∈ st.session.clients ∨ st.status k = some .asked ∨ Late events k ∨ Replaced events k) ∧
    (st.session.getPublic = .ok k ∨ st.session.getSecure = .ok k → st.status k = some .asked →
      ∃ c, (∃ client rest, st.calls c = .closing client rest) ∨ st.calls c = .cancelled) := by
  have tracked := run_tracked ran
  refine ⟨tracked.kept k, fun given => tracked.spent k (mem_clients_iff.mpr ?_)⟩
  rcases given with given | given
  · exact ⟨.unsigned, PolymarketSession.getPublic_eq_ok.mp given⟩
  · exact ⟨.secure, PolymarketSession.getSecure_eq_ok.mp given⟩

/-- A late client does get lost: it is still open, and nobody holds it. -/
theorem late_client_lost : ∃ st : Sessions Nat Nat,
    machine.run {} [.opens .secure 1, .close 0, .opens .unsigned 2, .closed 0] = some st ∧
      st.status 2 = some .opened ∧ 2 ∉ st.session.clients ∧
      (2 ∈ st.session.clients ∨ st.status 2 = some .asked ∨
        Late [SessionEvent.opens .secure 1, .close 0, .opens .unsigned 2, .closed 0] 2 ∨
        Replaced [SessionEvent.opens .secure 1, .close 0, .opens .unsigned 2, .closed 0] 2) := by
  have facts : (machine.run {} [.opens .secure 1, .close 0, .opens .unsigned 2, .closed 0] :
      Option (Sessions Nat Nat)).map (fun st => (st.status 2, st.session.clients)) = some (some .opened, []) := rfl
  obtain ⟨st, ran, found⟩ := Option.map_eq_some_iff.mp facts
  obtain ⟨opened, empty⟩ := Prod.mk.inj found
  exact ⟨st, ran, opened, by simp [empty], (clients_accounted _ st 2 ran).1 (by simp [opened])⟩

end Sessions
end DeepFlow.Adapters
