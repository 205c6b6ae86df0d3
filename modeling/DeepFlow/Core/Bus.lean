import Mathlib.Logic.Function.Basic
import DeepFlow.Core.Mailbox
import DeepFlow.Foundation.Dict

/-!
# In-process event bus

The bus maps the queues it handed out to their counters. A queue lives on after it was
unsubscribed, in the hands of its consumer, so the world of a bus is the bus together with every
queue object that was ever handed out, and the events each consumer took.
-/

namespace DeepFlow.Core
open Foundation

/-- Fan-out publish/subscribe over queues; `κ` is the identity of a queue object. -/
structure EventBus (κ : Type*) where
  maxsize : Int := 1000
  queues : Dict κ SubscriberStats := ∅

def EventBus.subscriberCount {κ : Type*} (bus : EventBus κ) : Nat := bus.queues.keys.length

structure World (κ : Type*) (α : Type*) where
  bus : EventBus κ
  heap : κ → Option (Inbox α) := fun _ => none
  warnings : List Nat := []
  allocated : ∀ q ∈ bus.queues, (heap q).isSome = true

/-- What producers, consumers and the owners of a subscription do; a `get` is a completed one. -/
inductive Op (κ : Type*) (α : Type*) where
  | subscribe (queue : κ)
  | unsubscribe (queue : κ)
  | publish (event : α)
  | get (queue : κ)
  deriving DecidableEq

def Op.published? {κ α : Type*} : Op κ α → Option α
  | .publish event => some event
  | _ => none

/-- A completed `get` on the queue. -/
def Op.takes {κ α : Type*} [DecidableEq κ] (q : κ) : Op κ α → Bool
  | .get queue => decide (queue = q)
  | _ => false

namespace World

variable {κ α : Type*} [DecidableEq κ] {w : World κ α} {q k : κ}

def new (maxsize : Int) : World κ α := ⟨⟨maxsize, ∅⟩, fun _ => none, [], fun _ => by simp⟩

/-! ### Updates -/

theorem isSome_update {heap : κ → Option (Inbox α)} {inbox : Inbox α}
    (known : q = k ∨ (heap q).isSome = true) : (Function.update heap k (some inbox) q).isSome = true := by
  by_cases same : q = k
  · rw [same, Function.update_self, Option.isSome_some]
  · rw [Function.update_of_ne same]
    exact known.resolve_left same

def write (w : World κ α) (k : κ) (inbox : Inbox α) : World κ α :=
  { w with
    heap := Function.update w.heap k (some inbox)
    allocated := fun q subscribed => isSome_update (Or.inr (w.allocated q subscribed)) }

def enter (w : World κ α) (k : κ) (inbox : Inbox α) (stats : SubscriberStats) : World κ α :=
  { w with
    bus := { w.bus with queues := w.bus.queues.set k stats }
    heap := Function.update w.heap k (some inbox)
    allocated := fun q subscribed => isSome_update ((Dict.mem_set.mp subscribed).imp_right (w.allocated q)) }

def subscribe (w : World κ α) (queue : κ) : World κ α := w.enter queue ⟨.new w.bus.maxsize, []⟩ {}

def unsubscribe (w : World κ α) (queue : κ) : World κ α :=
  { w with
    bus := { w.bus with queues := w.bus.queues.pop queue }
    allocated := fun q subscribed => w.allocated q (Dict.mem_pop.mp subscribed).2 }

def warn (w : World κ α) (dropped : Nat) : World κ α :=
  if dropped % 100 = 1 then { w with warnings := w.warnings ++ [dropped] } else w

def deliver (event : α) (w : World κ α) (queue : κ) : World κ α :=
  match w.heap queue, w.bus.queues.get? queue with
  | some inbox, some stats =>
    match inbox.queue.putNowait event with
    | some accepted => w.enter queue { inbox with queue := accepted } { stats with delivered := stats.delivered + 1 }
    | none => (w.enter queue inbox { stats with dropped := stats.dropped + 1 }).warn (stats.dropped + 1)
  | _, _ => w

def publish (w : World κ α) (event : α) : World κ α := w.bus.queues.keys.foldl (deliver event) w

def step (w : World κ α) : Op κ α → Option (World κ α)
  -- A queue that is handed out is a new object.
  | .subscribe queue => if (w.heap queue).isSome then none else some (w.subscribe queue)
  | .unsubscribe queue => some (w.unsubscribe queue)
  | .publish event => some (w.publish event)
  | .get queue => (w.heap queue).bind fun inbox => inbox.take.map (w.write queue)

def machine : Machine (World κ α) (Op κ α) := ⟨step⟩

/-! ### One queue of the world -/

def phase (w : World κ α) (q : κ) : Phase α :=
  match w.heap q with
  | none => .absent
  | some inbox =>
    match w.bus.queues.get? q with
    | none => .ended inbox
    | some stats => .active inbox stats

def mailbox (q : κ) (w : World κ α) : Mailbox α := ⟨w.bus.maxsize, w.phase q⟩

def mail (q : κ) : Op κ α → Option (Mail α)
  | .subscribe queue => if queue = q then some .join else none
  | .unsubscribe queue => if queue = q then some .leave else none
  | .publish event => some (.publish event)
  | .get queue => if queue = q then some .take else none

theorem phase_absent_iff : w.phase q = .absent ↔ w.heap q = none := by
  unfold phase
  cases found : w.heap q with
  | none => exact iff_of_true rfl rfl
  | some inbox => cases w.bus.queues.get? q <;> simp

theorem phase_active_iff {inbox : Inbox α} {stats : SubscriberStats} :
    w.phase q = .active inbox stats ↔ w.heap q = some inbox ∧ w.bus.queues.get? q = some stats := by
  unfold phase
  cases w.heap q with
  | none => simp
  | some _ => cases w.bus.queues.get? q <;> simp

theorem phase_ended_iff {inbox : Inbox α} :
    w.phase q = .ended inbox ↔ w.heap q = some inbox ∧ w.bus.queues.get? q = none := by
  unfold phase
  cases w.heap q with
  | none => simp
  | some _ => cases w.bus.queues.get? q <;> simp

theorem phase_inbox? : (w.phase q).inbox? = w.heap q := by
  unfold phase
  cases w.heap q with
  | none => rfl
  | some _ => cases w.bus.queues.get? q <;> rfl

theorem subscribed_phase {stats : SubscriberStats} (found : w.bus.queues.get? q = some stats) :
    ∃ inbox, w.phase q = .active inbox stats := by
  obtain ⟨inbox, object⟩ := Option.isSome_iff_exists.mp (w.allocated q (Dict.mem_iff_get?.mpr ⟨stats, found⟩))
  exact ⟨inbox, phase_active_iff.mpr ⟨object, found⟩⟩

theorem phase_stats? : (w.phase q).stats? = w.bus.queues.get? q := by
  cases found : w.bus.queues.get? q with
  | none =>
    unfold phase
    cases w.heap q with
    | none => rfl
    | some _ => rw [found]; rfl
  | some stats =>
    obtain ⟨inbox, active⟩ := subscribed_phase found
    rw [active]
    rfl

theorem enter_phase (inbox : Inbox α) (stats : SubscriberStats) :
    (w.enter k inbox stats).phase q = if q = k then .active inbox stats else w.phase q := by
  by_cases same : q = k
  · rw [if_pos same, phase_active_iff]
    exact ⟨by simp [enter, same], by simp [enter, same]⟩
  · simp only [if_neg same, phase, enter, Function.update_of_ne same, Dict.get?_set_other same]

theorem warn_phase (dropped : Nat) : (w.warn dropped).phase q = w.phase q := by
  unfold warn
  split <;> rfl

theorem write_phase (inbox : Inbox α) (other : q ≠ k) : (w.write k inbox).phase q = w.phase q := by
  simp only [phase, write, Function.update_of_ne other]

theorem unsubscribe_phase : (w.unsubscribe k).phase q = if q = k then (w.phase q).leave else w.phase q := by
  by_cases same : q = k
  · simp only [if_pos same, phase, unsubscribe, Dict.get?_pop]
    cases w.heap q with
    | none => rfl
    | some _ => cases w.bus.queues.get? q <;> rfl
  · simp only [if_neg same, phase, unsubscribe, Dict.get?_pop]

/-- The loop body is the subscriber's own `publish` for its queue, and nothing for any other: also
when that queue is full and raises. -/
theorem deliver_phase (event : α) :
    (w.deliver event k).phase q = if q = k then (w.phase q).publish event else w.phase q := by
  by_cases same : q = k
  · subst same
    rw [if_pos rfl]
    cases object : w.heap q with
    | none =>
      have idle : w.deliver event q = w := by simp only [deliver, object]
      rw [idle, phase_absent_iff.mpr object]
      rfl
    | some inbox =>
      cases found : w.bus.queues.get? q with
      | none =>
        have idle : w.deliver event q = w := by simp only [deliver, object, found]
        rw [idle, phase_ended_iff.mpr ⟨object, found⟩]
        rfl
      | some stats =>
        rw [phase_active_iff.mpr ⟨object, found⟩]
        simp only [deliver, object, found, Phase.publish]
        cases inbox.queue.putNowait event with
        | none => simp only [warn_phase, enter_phase, if_pos]
        | some accepted => simp only [enter_phase, if_pos]
  · rw [if_neg same]
    unfold deliver
    split
    · split
      · rw [enter_phase, if_neg same]
      · rw [warn_phase, enter_phase, if_neg same]
    · rfl

theorem deliver_maxsize (event : α) : (w.deliver event k).bus.maxsize = w.bus.maxsize := by
  unfold deliver
  split
  · split
    · rfl
    · unfold warn
      split <;> rfl
  · rfl

theorem fanOut_maxsize (event : α) (queues : List κ) :
    (queues.foldl (deliver event) w).bus.maxsize = w.bus.maxsize := by
  induction queues generalizing w with
  | nil => rfl
  | cons queue rest ih => rw [List.foldl_cons, ih, deliver_maxsize]

theorem fanOut_phase (event : α) (queues : List κ) (nodup : queues.Nodup) :
    (queues.foldl (deliver event) w).phase q =
      if q ∈ queues then (w.phase q).publish event else w.phase q := by
  induction queues generalizing w with
  | nil => rfl
  | cons queue rest ih =>
    rw [List.nodup_cons] at nodup
    rw [List.foldl_cons, ih nodup.2, deliver_phase]
    by_cases same : q = queue
    · subst same
      simp [nodup.1]
    · simp [same]

theorem publish_phase (event : α) : (w.publish event).phase q = (w.phase q).publish event := by
  rw [publish, fanOut_phase event w.bus.queues.keys w.bus.queues.distinct]
  split
  · rfl
  · next unknown =>
    have missing : w.bus.queues.get? q = none := Dict.get?_eq_none.mpr unknown
    cases object : w.heap q with
    | none => rw [phase_absent_iff.mpr object]; rfl
    | some inbox => rw [phase_ended_iff.mpr ⟨object, missing⟩]; rfl

theorem publish_maxsize (event : α) : (w.publish event).bus.maxsize = w.bus.maxsize :=
  fanOut_maxsize event w.bus.queues.keys

theorem get_phase {inbox after : Inbox α} (object : w.heap q = some inbox) (taken : inbox.take = some after) :
    (w.phase q).take = some ((w.write q after).phase q) := by
  cases found : w.bus.queues.get? q with
  | none =>
    have written : (w.write q after).phase q = .ended after := phase_ended_iff.mpr ⟨by simp [write], found⟩
    rw [phase_ended_iff.mpr ⟨object, found⟩, written, Phase.take, taken, Option.map_some]
  | some stats =>
    have written : (w.write q after).phase q = .active after stats :=
      phase_active_iff.mpr ⟨by simp [write], found⟩
    rw [phase_active_iff.mpr ⟨object, found⟩, written, Phase.take, taken, Option.map_some]

/-- Every queue of a bus lives the life of a mailbox: what is not addressed to it is invisible. -/
theorem projection (q : κ) :
    (machine : Machine (World κ α) (Op κ α)).Projection Mailbox.machine (mail q) (mailbox q) where
  hidden := by
    intro w op after stepped unseen
    cases op with
    | subscribe queue =>
      have other : q ≠ queue := fun same => by simp [mail, same] at unseen
      simp only [machine, step] at stepped
      split at stepped
      · cases stepped
      · cases stepped
        simp only [mailbox, subscribe, enter_phase, if_neg other]
        rfl
    | unsubscribe queue =>
      have other : q ≠ queue := fun same => by simp [mail, same] at unseen
      cases stepped
      simp only [mailbox, unsubscribe_phase, if_neg other]
      rfl
    | publish event => cases unseen
    | get queue =>
      have other : q ≠ queue := fun same => by simp [mail, same] at unseen
      obtain ⟨inbox, _, taken⟩ := Option.bind_eq_some_iff.mp stepped
      obtain ⟨left, _, rfl⟩ := Option.map_eq_some_iff.mp taken
      simp only [mailbox, write_phase left other]
      rfl
  shown := by
    intro w op after seen stepped shown
    cases op with
    | subscribe queue =>
      simp only [mail, Option.ite_none_right_eq_some, Option.some.injEq] at shown
      obtain ⟨rfl, rfl⟩ := shown
      simp only [machine, step] at stepped
      split at stepped
      · cases stepped
      · next fresh =>
        cases stepped
        have absent : w.phase queue = .absent := phase_absent_iff.mpr (by simpa using fresh)
        simp only [Mailbox.machine, Mailbox.step, mailbox, absent, subscribe, enter_phase, if_pos]
        rfl
    | unsubscribe queue =>
      simp only [mail, Option.ite_none_right_eq_some, Option.some.injEq] at shown
      obtain ⟨rfl, rfl⟩ := shown
      cases stepped
      simp only [Mailbox.machine, Mailbox.step, mailbox, unsubscribe_phase, if_pos]
      rfl
    | publish event =>
      cases shown
      cases stepped
      simp only [Mailbox.machine, Mailbox.step, mailbox, publish_phase, publish_maxsize]
    | get queue =>
      simp only [mail, Option.ite_none_right_eq_some, Option.some.injEq] at shown
      obtain ⟨rfl, rfl⟩ := shown
      obtain ⟨inbox, object, taken⟩ := Option.bind_eq_some_iff.mp stepped
      obtain ⟨left, took, rfl⟩ := Option.map_eq_some_iff.mp taken
      simp only [Mailbox.machine, Mailbox.step, mailbox, get_phase object took, Option.map_some]
      rfl

/-! ### Runs of the bus -/

def room (q : κ) (w : World κ α) : Bool := (w.heap q).any (·.room w.bus.maxsize)

/-- The events published in a history, each with whether `q` had room for it. -/
def attempts (q : κ) (history : List (World κ α × Op κ α)) : List (α × Bool) :=
  history.filterMap fun moment => moment.2.published?.map (·, room q moment.1)

variable {maxsize : Int} {ops : List (Op κ α)}

theorem attempts_mailbox {v : World κ α} (ran : machine.run v ops = some w) :
    Mailbox.attempts (Mailbox.machine.moments (mailbox q v) (ops.filterMap (mail q))) =
      attempts q (machine.moments v ops) := by
  rw [(projection q).moments ran, Mailbox.attempts, attempts, List.filterMap_filterMap]
  apply List.filterMap_congr
  rintro ⟨u, op⟩ _
  cases op with
  | publish event => simp [mail, Mail.published?, Op.published?, room, Mailbox.room, mailbox, phase_inbox?]
  | subscribe queue => by_cases same : queue = q <;> simp [mail, same, Mail.published?, Op.published?]
  | unsubscribe queue => by_cases same : queue = q <;> simp [mail, same, Mail.published?, Op.published?]
  | get queue => by_cases same : queue = q <;> simp [mail, same, Mail.published?, Op.published?]

theorem attempts_events {v : World κ α} (ran : machine.run v ops = some w) :
    (attempts q (machine.moments v ops)).map Prod.fst = ops.filterMap Op.published? := by
  conv_rhs => rw [← Machine.moments_events ran]
  rw [attempts, List.map_filterMap, List.filterMap_map]
  apply List.filterMap_congr
  rintro ⟨u, op⟩ _
  cases op <;> rfl

theorem subscribed_once {stats : SubscriberStats} (ran : machine.run (new maxsize) ops = some w)
    (found : w.bus.queues.get? q = some stats) : Op.subscribe q ∈ ops := by
  by_contra never
  have unjoined : Mail.join ∉ ops.filterMap (mail q) := by
    intro joined
    obtain ⟨op, member, seen⟩ := List.mem_filterMap.mp joined
    cases op with
    | subscribe queue =>
      simp only [mail, Option.ite_none_right_eq_some] at seen
      exact never (seen.1 ▸ member)
    | unsubscribe queue => simp [mail] at seen
    | publish event => simp [mail] at seen
    | get queue => simp [mail] at seen
  have absent : (mailbox q w).phase = .absent := run_absent rfl unjoined ((projection q).run ran)
  obtain ⟨inbox, active⟩ := subscribed_phase found
  exact absurd (absent.symm.trans active) (by simp)

theorem subscribed_books {opened : World κ α} {stats : SubscriberStats} {u : World κ α}
    (subscribed : machine.step u (.subscribe q) = some opened) (ran : machine.run opened ops = some w)
    (found : w.bus.queues.get? q = some stats) :
    ∃ inbox, w.heap q = some inbox ∧
      Accounted u.bus.maxsize (attempts q (machine.moments opened ops)) inbox stats := by
  obtain ⟨inbox, active⟩ := subscribed_phase found
  have join : (mailbox q u).step .join = some (mailbox q opened) := (projection q).shown subscribed (if_pos rfl)
  obtain ⟨_, kept⟩ := run_books join ((projection q).run ran)
  rw [← attempts_mailbox ran]
  simp only [mailbox, active] at kept
  exact ⟨inbox, (phase_active_iff.mp active).1, kept⟩

theorem run_bus_maxsize (q : κ) {v : World κ α} (ran : machine.run v ops = some w) :
    w.bus.maxsize = v.bus.maxsize :=
  run_maxsize ((projection q).run ran)

theorem unsubscribed_closed {inbox : Inbox α} {v : World κ α} (object : v.heap q = some inbox)
    (gone : v.bus.queues.get? q = none) (ran : machine.run v ops = some w) :
    w.bus.queues.get? q = none ∧ ∃ left, w.heap q = some left ∧ left.contents = inbox.contents := by
  have closed : Closed inbox.contents (mailbox q v) := ⟨inbox, phase_ended_iff.mpr ⟨object, gone⟩, rfl⟩
  obtain ⟨left, ended, same⟩ := run_closed closed ((projection q).run ran)
  obtain ⟨kept, out⟩ := phase_ended_iff.mp ended
  exact ⟨out, left, kept, same⟩

theorem taken_mail (q : κ) (ops : List (Op κ α)) :
    (ops.filterMap (mail q)).countP Mail.isTake = ops.countP (Op.takes q) := by
  rw [List.countP_filterMap]
  refine List.countP_congr fun op _ => ?_
  cases op with
  | subscribe queue => by_cases same : queue = q <;> simp [mail, same, Mail.isTake, Op.takes]
  | unsubscribe queue => by_cases same : queue = q <;> simp [mail, same, Mail.isTake, Op.takes]
  | publish event => simp [mail, Mail.isTake, Op.takes]
  | get queue => by_cases same : queue = q <;> simp [mail, same, Mail.isTake, Op.takes]

theorem run_taken {inbox : Inbox α} {v : World κ α} (object : v.heap q = some inbox)
    (ran : machine.run v ops = some w) : ∃ left, w.heap q = some left ∧
      left.received.length = inbox.received.length + ops.countP (Op.takes q) := by
  obtain ⟨left, kept, received⟩ := run_received ((phase_inbox? (w := v)).trans object) ((projection q).run ran)
  rw [taken_mail] at received
  exact ⟨left, phase_inbox?.symm.trans kept, received⟩

theorem subscribed_empty {u opened : World κ α} (subscribed : machine.step u (.subscribe q) = some opened) :
    ∃ inbox, opened.heap q = some inbox ∧ inbox.received = [] := by
  simp only [machine, step] at subscribed
  split at subscribed
  · cases subscribed
  · cases subscribed
    exact ⟨_, Function.update_self .., rfl⟩

/-- Per-subscriber accounting over every run. A subscribed queue was subscribed in the run, and from
any such point on its events and counters are those of the publishes since. A queue that is not
subscribed receives nothing more, and one that was unsubscribed is out of the table for good: what it
holds only goes to its consumer, one event for each `get`. -/
theorem accounted (maxsize : Int) (ops : List (Op κ α)) (w : World κ α) (q : κ)
    (ran : machine.run (new maxsize) ops = some w) :
    (∀ stats, w.bus.queues.get? q = some stats →
      (∃ before after, ops = before ++ .subscribe q :: after) ∧
      ∀ before after, ops = before ++ .subscribe q :: after →
        ∃ opened inbox, machine.run (new maxsize) (before ++ [.subscribe q]) = some opened ∧
          w.heap q = some inbox ∧
          (attempts q (machine.moments opened after)).map Prod.fst = after.filterMap Op.published? ∧
          Accounted maxsize (attempts q (machine.moments opened after)) inbox stats ∧
          inbox.received.length = after.countP (Op.takes q) ∧
          (0 < maxsize → (inbox.queue.items.length : Int) ≤ maxsize)) ∧
    (∀ inbox, w.heap q = some inbox → w.bus.queues.get? q = none →
      ∀ later reached, machine.run w later = some reached →
        ∃ left, reached.heap q = some left ∧ left.contents = inbox.contents) ∧
    ∀ before after, ops = before ++ .unsubscribe q :: after →
      ∃ u, machine.run (new maxsize) before = some u ∧ ∀ inbox, u.heap q = some inbox →
        w.bus.queues.get? q = none ∧ ∃ left, w.heap q = some left ∧ left.contents = inbox.contents ∧
          left.received.length = inbox.received.length + after.countP (Op.takes q) := by
  refine ⟨?_, ?_, ?_⟩
  · intro stats found
    refine ⟨List.append_of_mem (subscribed_once ran found), ?_⟩
    rintro before after rfl
    obtain ⟨u, start, rest⟩ := Machine.run_split ran
    obtain ⟨opened, subscribed, rest⟩ := Machine.run_cons_split rest
    have size : u.bus.maxsize = maxsize := run_bus_maxsize q start
    obtain ⟨inbox, object, books⟩ := subscribed_books subscribed rest found
    rw [size] at books
    obtain ⟨first, entered, nothing⟩ := subscribed_empty subscribed
    obtain ⟨left, kept, received⟩ := run_taken entered rest
    obtain rfl := Option.some.inj (object.symm.trans kept)
    rw [nothing, List.length_nil, Nat.zero_add] at received
    refine ⟨opened, inbox, ?_, object, attempts_events rest, books, received, books.bounded⟩
    rw [Machine.run_concat, start]
    exact subscribed
  · intro inbox object gone later reached ran
    exact (unsubscribed_closed object gone ran).2
  · rintro before after rfl
    obtain ⟨u, start, rest⟩ := Machine.run_split ran
    refine ⟨u, start, fun inbox object => ?_⟩
    obtain ⟨closed, unsubscribed, rest⟩ := Machine.run_cons_split rest
    cases unsubscribed
    have out : (u.unsubscribe q).bus.queues.get? q = none := (Dict.get?_pop ..).trans (if_pos rfl)
    obtain ⟨gone, left, kept, same⟩ := unsubscribed_closed (v := u.unsubscribe q) object out rest
    obtain ⟨left', kept', received⟩ := run_taken (v := u.unsubscribe q) object rest
    obtain rfl := Option.some.inj (kept.symm.trans kept')
    exact ⟨gone, left, kept, same, received⟩

theorem accounted_burst : ∃ w : World Nat Nat,
    machine.run (new 1) [.subscribe 0, .publish 5, .publish 6, .get 0, .publish 7] = some w ∧
    ∃ opened inbox, w.heap 0 = some inbox ∧ Accounted 1
      (attempts 0 (machine.moments opened [.publish 5, .publish 6, .get 0, .publish 7])) inbox ⟨2, 1⟩ := by
  have stats : (machine.run (new 1) [.subscribe 0, .publish 5, .publish 6, .get 0, .publish 7] :
      Option (World Nat Nat)).map (·.bus.queues.get? 0) = some (some ⟨2, 1⟩) := by decide +kernel
  obtain ⟨w, ran, found⟩ := Option.map_eq_some_iff.mp stats
  obtain ⟨_, books⟩ := (accounted 1 _ w 0 ran).1 ⟨2, 1⟩ found
  obtain ⟨opened, inbox, _, object, _, books, _, _⟩ := books [] _ rfl
  exact ⟨w, ran, opened, inbox, object, books⟩

/-- Two runs of the bus that show a subscriber the same events leave it with the same queue, the
same events taken and the same counters, whatever they did with the others. -/
theorem isolated {κ' : Type*} [DecidableEq κ'] (maxsize : Int) (a : κ) (b : κ') (ops : List (Op κ α))
    (ops' : List (Op κ' α)) (w : World κ α) (w' : World κ' α)
    (ran : machine.run (new maxsize) ops = some w) (ran' : machine.run (new maxsize) ops' = some w')
    (same : ops.filterMap (mail a) = ops'.filterMap (mail b)) :
    w.heap a = w'.heap b ∧ w.bus.queues.get? a = w'.bus.queues.get? b := by
  have agree : mailbox a w = mailbox b w' := (projection a).agree (projection b) ran ran' rfl same
  have phases : w.phase a = w'.phase b := congrArg Mailbox.phase agree
  constructor
  · rw [← phase_inbox?, phases, phase_inbox?]
  · rw [← phase_stats?, phases, phase_stats?]

theorem isolated_fast : ∃ w w' : World Nat Nat,
    machine.run (new 1) [.subscribe 0, .subscribe 1, .publish 5, .get 1, .publish 6, .get 1] = some w ∧
    machine.run (new 1) [.subscribe 1, .publish 5, .get 1, .publish 6, .get 1] = some w' ∧
    w.heap 1 = w'.heap 1 ∧ w.bus.queues.get? 1 = w'.bus.queues.get? 1 := by
  have crowded : (machine.run (new 1) [.subscribe 0, .subscribe 1, .publish 5, .get 1, .publish 6, .get 1] :
      Option (World Nat Nat)).isSome = true := by decide +kernel
  have alone : (machine.run (new 1) [.subscribe 1, .publish 5, .get 1, .publish 6, .get 1] :
      Option (World Nat Nat)).isSome = true := by decide +kernel
  obtain ⟨w, ran⟩ := Option.isSome_iff_exists.mp crowded
  obtain ⟨w', ran'⟩ := Option.isSome_iff_exists.mp alone
  exact ⟨w, w', ran, ran', isolated 1 1 1 _ _ w w' ran ran' rfl⟩

end World
end DeepFlow.Core
