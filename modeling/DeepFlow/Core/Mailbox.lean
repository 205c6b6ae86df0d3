import DeepFlow.Foundation.BoundedQueue
import DeepFlow.Foundation.Machine

/-!
# One subscriber

What the event bus is for each of its subscribers, told without any other: a lossy bounded channel
that is opened once, counts what it delivers and what it drops, and may still be drained after it
was closed. The bus is shown to do exactly this to every queue it hands out.
-/

namespace DeepFlow.Core
open Foundation

structure SubscriberStats where
  delivered : Nat := 0
  dropped : Nat := 0
  deriving DecidableEq, Repr

/-- A queue, with the events its consumer has already taken from it. -/
structure Inbox (α : Type*) where
  queue : BoundedQueue α
  received : List α := []
  deriving DecidableEq

def Inbox.contents {α : Type*} (inbox : Inbox α) : List α := inbox.received ++ inbox.queue.items

def Inbox.take {α : Type*} (inbox : Inbox α) : Option (Inbox α) :=
  inbox.queue.getNowait.map fun taken => ⟨taken.2, inbox.received ++ [taken.1]⟩

inductive Phase (α : Type*) where
  | absent
  | active (inbox : Inbox α) (stats : SubscriberStats)
  | ended (inbox : Inbox α)
  deriving DecidableEq

structure Mailbox (α : Type*) where
  maxsize : Int
  phase : Phase α := .absent
  deriving DecidableEq

inductive Mail (α : Type*) where
  | join
  | leave
  | publish (event : α)
  | take
  deriving DecidableEq

variable {α : Type*}

namespace Phase

def inbox? : Phase α → Option (Inbox α)
  | .absent => none
  | .active inbox _ => some inbox
  | .ended inbox => some inbox

def stats? : Phase α → Option SubscriberStats
  | .active _ stats => some stats
  | _ => none

def publish (event : α) : Phase α → Phase α
  | .active inbox stats =>
    match inbox.queue.putNowait event with
    | some queue => .active { inbox with queue } { stats with delivered := stats.delivered + 1 }
    | none => .active inbox { stats with dropped := stats.dropped + 1 }
  | phase => phase

def leave : Phase α → Phase α
  | .active inbox _ => .ended inbox
  | phase => phase

def take : Phase α → Option (Phase α)
  | .absent => none
  | .active inbox stats => inbox.take.map (.active · stats)
  | .ended inbox => inbox.take.map .ended

end Phase

def Mailbox.step (box : Mailbox α) : Mail α → Option (Mailbox α)
  | .join =>
    match box.phase with
    | .absent => some { box with phase := .active ⟨.new box.maxsize, []⟩ {} }
    | _ => none
  | .leave => some { box with phase := box.phase.leave }
  | .publish event => some { box with phase := box.phase.publish event }
  | .take => box.phase.take.map fun phase => { box with phase }

def Mailbox.machine : Machine (Mailbox α) (Mail α) := ⟨Mailbox.step⟩

/-! ### Accounting -/

/-- Whether a bounded queue has room, by the number of items it holds. -/
def Inbox.room (maxsize : Int) (inbox : Inbox α) : Bool :=
  decide (maxsize ≤ 0 ∨ (inbox.queue.items.length : Int) ≠ maxsize)

def Mailbox.room (box : Mailbox α) : Bool := box.phase.inbox?.any (·.room box.maxsize)

def Mail.published? : Mail α → Option α
  | .publish event => some event
  | _ => none

def Mail.isTake : Mail α → Bool
  | .take => true
  | _ => false

def Mailbox.attempts (history : List (Mailbox α × Mail α)) : List (α × Bool) :=
  history.filterMap fun moment => moment.2.published?.map (·, moment.1.room)

/-- The books of an open subscription, against the events published since it was opened. -/
structure Accounted (maxsize : Int) (attempts : List (α × Bool)) (inbox : Inbox α)
    (stats : SubscriberStats) : Prop where
  contents : inbox.received ++ inbox.queue.items = (attempts.filter (·.2)).map Prod.fst
  total : stats.delivered + stats.dropped = attempts.length
  delivered : stats.delivered = inbox.received.length + inbox.queue.items.length
  dropped : stats.dropped = (attempts.filter (!·.2)).length
  unbounded : maxsize ≤ 0 → stats.dropped = 0
  size : inbox.queue.maxsize = maxsize

theorem Inbox.take_contents {inbox after : Inbox α} (taken : inbox.take = some after) :
    after.contents = inbox.contents ∧ after.queue.maxsize = inbox.queue.maxsize := by
  obtain ⟨⟨event, queue⟩, got, rfl⟩ := Option.map_eq_some_iff.mp taken
  obtain ⟨maxsize, items⟩ := BoundedQueue.getNowait_some got
  refine ⟨?_, maxsize⟩
  simp only [Inbox.contents, items, List.append_assoc, List.singleton_append]

theorem Inbox.room_iff {maxsize : Int} {inbox : Inbox α} (same : inbox.queue.maxsize = maxsize) :
    inbox.room maxsize = true ↔ ¬ inbox.queue.full = true := by
  rw [BoundedQueue.full_iff, same, Inbox.room, decide_eq_true_eq, not_and, imp_iff_not_or, not_lt]

section Books
variable {maxsize : Int} {attempts : List (α × Bool)} {inbox : Inbox α} {stats : SubscriberStats}
  {history : List (Mailbox α × Mail α)} {box : Mailbox α}

theorem accounted_new : Accounted maxsize [] (⟨.new maxsize, []⟩ : Inbox α) {} where
  contents := rfl
  total := rfl
  delivered := rfl
  dropped := rfl
  unbounded := fun _ => rfl
  size := rfl

theorem Accounted.bounded (books : Accounted maxsize attempts inbox stats) (positive : 0 < maxsize) :
    (inbox.queue.items.length : Int) ≤ maxsize :=
  books.size ▸ inbox.queue.bounded (books.size.symm ▸ positive)

theorem Accounted.take {after : Inbox α} (books : Accounted maxsize attempts inbox stats)
    (taken : inbox.take = some after) : Accounted maxsize attempts after stats := by
  obtain ⟨contents, size⟩ := Inbox.take_contents taken
  have length := congrArg List.length contents
  simp only [Inbox.contents, List.length_append] at length
  exact { books with
    contents := contents.trans books.contents
    delivered := by rw [books.delivered, length]
    size := size.trans books.size }

theorem Accounted.publish (event : α) (books : Accounted maxsize attempts inbox stats) :
    ∃ inbox' stats', (Phase.active inbox stats).publish event = .active inbox' stats' ∧
      Accounted maxsize (attempts ++ [(event, inbox.room maxsize)]) inbox' stats' := by
  have roomy := Inbox.room_iff books.size
  by_cases isFull : inbox.queue.full = true
  · have noRoom : inbox.room maxsize = false := by simpa [isFull] using roomy
    refine ⟨inbox, { stats with dropped := stats.dropped + 1 }, ?_, ?_⟩
    · simp only [Phase.publish, BoundedQueue.putNowait_full isFull]
    · have positive : 0 < maxsize := books.size ▸ (BoundedQueue.full_iff.mp isFull).1
      exact
        { contents := by simp [noRoom, books.contents]
          total := by simp [← books.total, Nat.add_assoc]
          delivered := books.delivered
          dropped := by simp [noRoom, books.dropped]
          unbounded := fun none => absurd positive (not_lt.mpr none)
          size := books.size }
  · have room : inbox.room maxsize = true := roomy.mpr isFull
    obtain ⟨queue, put, size, items⟩ := BoundedQueue.putNowait_room (e := event) isFull
    refine ⟨{ inbox with queue }, { stats with delivered := stats.delivered + 1 }, ?_, ?_⟩
    · simp only [Phase.publish, put]
    · exact
        { contents := by simp [room, items, ← books.contents]
          total := by simp [← books.total]; omega
          delivered := by simp [items, books.delivered, Nat.add_assoc]
          dropped := by simp [room, books.dropped]
          unbounded := books.unbounded
          size := size.trans books.size }

def Books (maxsize : Int) (history : List (Mailbox α × Mail α)) (box : Mailbox α) : Prop :=
  box.maxsize = maxsize ∧ match box.phase with
  | .absent => False
  | .active inbox stats => Accounted maxsize (Mailbox.attempts history) inbox stats
  | .ended _ => True

theorem attempts_concat (moment : Mailbox α × Mail α) : Mailbox.attempts (history ++ [moment]) =
    Mailbox.attempts history ++ (moment.2.published?.map (·, moment.1.room)).toList := by
  unfold Mailbox.attempts
  rw [List.filterMap_append]
  cases seen : moment.2.published? <;> simp [seen]

theorem step_books {mail : Mail α} {after : Mailbox α} (books : Books maxsize history box)
    (stepped : box.step mail = some after) : Books maxsize (history ++ [(box, mail)]) after := by
  obtain ⟨rfl, kept⟩ := books
  obtain ⟨maxsize, phase⟩ := box
  cases phase with
  | absent => exact kept.elim
  | ended inbox =>
    cases mail with
    | join => cases stepped
    | leave => cases stepped; exact ⟨rfl, trivial⟩
    | publish event => cases stepped; exact ⟨rfl, trivial⟩
    | take =>
      obtain ⟨phase, taken, rfl⟩ := Option.map_eq_some_iff.mp stepped
      obtain ⟨left, _, rfl⟩ := Option.map_eq_some_iff.mp taken
      exact ⟨rfl, trivial⟩
  | active inbox stats =>
    cases mail with
    | join => cases stepped
    | leave => cases stepped; exact ⟨rfl, trivial⟩
    | publish event =>
      cases stepped
      obtain ⟨inbox', stats', published, books⟩ := Accounted.publish event kept
      refine ⟨rfl, ?_⟩
      simp only [published, attempts_concat]
      exact books
    | take =>
      obtain ⟨phase, taken, rfl⟩ := Option.map_eq_some_iff.mp stepped
      obtain ⟨left, took, rfl⟩ := Option.map_eq_some_iff.mp taken
      refine ⟨rfl, ?_⟩
      simp only [attempts_concat]
      simpa [Mail.published?] using Accounted.take kept took

/-- From the moment a mailbox is opened its books agree with its history. -/
theorem run_books {mails : List (Mail α)} {unopened opened after : Mailbox α}
    (join : unopened.step .join = some opened) (ran : Mailbox.machine.run opened mails = some after) :
    Books unopened.maxsize (Mailbox.machine.moments opened mails) after := by
  refine Machine.run_induction (motive := fun mails after =>
    Books unopened.maxsize (Mailbox.machine.moments opened mails) after) ?_ ?_ ran
  · obtain ⟨maxsize, phase⟩ := unopened
    cases phase with
    | absent => cases join; exact ⟨rfl, accounted_new⟩
    | active inbox stats => cases join
    | ended inbox => cases join
  · intro mails box mail after books before stepped
    rw [Machine.moments_concat before]
    exact step_books books stepped

end Books

theorem step_maxsize {box after : Mailbox α} {mail : Mail α} (stepped : box.step mail = some after) :
    after.maxsize = box.maxsize := by
  cases mail with
  | join =>
    simp only [Mailbox.step] at stepped
    split at stepped
    · cases stepped; rfl
    · cases stepped
  | leave => cases stepped; rfl
  | publish event => cases stepped; rfl
  | take =>
    obtain ⟨_, _, rfl⟩ := Option.map_eq_some_iff.mp stepped
    rfl

theorem run_maxsize {box after : Mailbox α} {mails : List (Mail α)}
    (ran : Mailbox.machine.run box mails = some after) : after.maxsize = box.maxsize :=
  Machine.run_invariant (fun reached => reached.maxsize = box.maxsize)
    (fun _ _ _ same stepped => (step_maxsize stepped).trans same) rfl ran

/-! ### What was taken -/

theorem step_received {box after : Mailbox α} {mail : Mail α} {inbox : Inbox α} (object : box.phase.inbox? = some inbox)
    (stepped : box.step mail = some after) : ∃ left, after.phase.inbox? = some left ∧
      left.received.length = inbox.received.length + if mail.isTake then 1 else 0 := by
  obtain ⟨maxsize, phase⟩ := box
  cases mail with
  | join => cases phase with
    | absent => cases object
    | active => cases stepped
    | ended => cases stepped
  | leave =>
    cases stepped
    refine ⟨inbox, ?_, rfl⟩
    cases phase <;> exact object
  | publish event =>
    cases stepped
    cases phase with
    | absent => cases object
    | ended => exact ⟨inbox, object, rfl⟩
    | active held stats =>
      cases object
      simp only [Phase.publish]
      split
      · exact ⟨_, rfl, rfl⟩
      · exact ⟨inbox, rfl, rfl⟩
  | take =>
    obtain ⟨_, taken, rfl⟩ := Option.map_eq_some_iff.mp stepped
    have grown : ∀ left, inbox.take = some left → left.received.length = inbox.received.length + 1 := by
      intro left took
      obtain ⟨_, _, rfl⟩ := Option.map_eq_some_iff.mp took
      exact List.length_append
    cases phase with
    | absent => cases object
    | active held stats =>
      cases object
      obtain ⟨left, took, rfl⟩ := Option.map_eq_some_iff.mp taken
      exact ⟨left, rfl, grown left took⟩
    | ended held =>
      cases object
      obtain ⟨left, took, rfl⟩ := Option.map_eq_some_iff.mp taken
      exact ⟨left, rfl, grown left took⟩

/-- The consumer has one event for each `get` that completed. -/
theorem run_received {box after : Mailbox α} {mails : List (Mail α)} {inbox : Inbox α}
    (object : box.phase.inbox? = some inbox) (ran : Mailbox.machine.run box mails = some after) :
    ∃ left, after.phase.inbox? = some left ∧
      left.received.length = inbox.received.length + mails.countP Mail.isTake := by
  refine Machine.run_induction (motive := fun mails after => ∃ left, after.phase.inbox? = some left ∧
    left.received.length = inbox.received.length + mails.countP Mail.isTake) ⟨inbox, object, rfl⟩ ?_ ran
  intro mails box mail after earlier _ stepped
  obtain ⟨held, object, received⟩ := earlier
  obtain ⟨left, object, grown⟩ := step_received object stepped
  refine ⟨left, object, ?_⟩
  rw [grown, received, List.countP_append, List.countP_singleton, Nat.add_assoc]

/-! ### After the end -/

def Closed (contents : List α) (box : Mailbox α) : Prop :=
  ∃ inbox, box.phase = .ended inbox ∧ inbox.contents = contents

theorem step_closed {contents : List α} {box after : Mailbox α} {mail : Mail α} (closed : Closed contents box)
    (stepped : box.step mail = some after) : Closed contents after := by
  obtain ⟨inbox, phase, rfl⟩ := closed
  obtain ⟨maxsize, _⟩ := box
  subst phase
  cases mail with
  | join => cases stepped
  | leave => cases stepped; exact ⟨inbox, rfl, rfl⟩
  | publish event => cases stepped; exact ⟨inbox, rfl, rfl⟩
  | take =>
    obtain ⟨_, taken, rfl⟩ := Option.map_eq_some_iff.mp stepped
    obtain ⟨left, took, rfl⟩ := Option.map_eq_some_iff.mp taken
    exact ⟨left, rfl, (Inbox.take_contents took).1⟩

theorem run_closed {contents : List α} {box after : Mailbox α} {mails : List (Mail α)}
    (closed : Closed contents box) (ran : Mailbox.machine.run box mails = some after) :
    Closed contents after :=
  Machine.run_invariant (Closed contents) (fun _ _ _ => step_closed) closed ran

theorem run_absent {box after : Mailbox α} {mails : List (Mail α)} (absent : box.phase = .absent)
    (unjoined : .join ∉ mails) (ran : Mailbox.machine.run box mails = some after) :
    after.phase = .absent := by
  induction mails generalizing box with
  | nil => cases ran; exact absent
  | cons mail rest ih =>
    obtain ⟨next, stepped, ran⟩ := Machine.run_cons_split ran
    rw [List.mem_cons, not_or] at unjoined
    refine ih ?_ unjoined.2 ran
    obtain ⟨maxsize, _⟩ := box
    subst absent
    cases mail with
    | join => exact absurd rfl unjoined.1
    | leave => cases stepped; rfl
    | publish event => cases stepped; rfl
    | take => cases stepped

end DeepFlow.Core
