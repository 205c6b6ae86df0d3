import DeepFlow.Core.Bus

/-!
# Streams over the bus

`stream` is a generator around one subscription: it subscribes when the first event is asked for,
hands out what its queue holds, and unsubscribes on the way out, however it is left. Many streams
and plain subscriptions run over one bus.
-/

namespace DeepFlow.Core
open Foundation

/-- Where the body of a `stream` stands, with the events it has yielded. -/
inductive Generator (κ α : Type*) where
  | created
  | waiting (queue : κ) (yielded : List α)
  | paused (queue : κ) (yielded : List α)
  | finished (queue : Option κ) (yielded : List α)

namespace Generator
variable {κ α : Type*}

def queue? : Generator κ α → Option κ
  | .created => none
  | .waiting queue _ => some queue
  | .paused queue _ => some queue
  | .finished queue _ => queue

/-- The queue of a generator that is inside the `try` block. -/
def open? : Generator κ α → Option κ
  | .waiting queue _ => some queue
  | .paused queue _ => some queue
  | _ => none

def yielded : Generator κ α → List α
  | .created => []
  | .waiting _ events => events
  | .paused _ events => events
  | .finished _ events => events

theorem open_queue {generator : Generator κ α} {queue : κ} (within : generator.open? = some queue) :
    generator.queue? = some queue := by
  cases generator with
  | created => cases within
  | waiting queue yielded => exact within
  | paused queue yielded => exact within
  | finished queue yielded => cases within

theorem open_of_queue {generator : Generator κ α} {queue : κ} (held : generator.queue? = some queue)
    (within : generator.open?.isSome = true) : generator.open? = some queue := by
  cases generator with
  | created => cases held
  | waiting queue yielded => exact held
  | paused queue yielded => exact held
  | finished queue yielded => cases within

end Generator

/-- `owned` lists the queues that streams subscribed; nobody else has a reference to them. -/
structure Streaming (ι κ α : Type*) where
  world : World κ α
  generators : ι → Generator κ α := fun _ => .created
  owned : List κ := []

inductive StreamOp (ι κ α : Type*) where
  -- The first request of a consumer; `queue` is the object that it subscribes.
  | start (stream : ι) (queue : κ)
  | request (stream : ι)
  -- The `get` that a stream awaits completes.
  | wake (stream : ι)
  | close (stream : ι)
  -- An exception at the point where the body stands, such as a cancellation of the consumer.
  | throw (stream : ι)
  | plain (op : Op κ α)

def Op.queue? {κ α : Type*} : Op κ α → Option κ
  | .subscribe queue => some queue
  | .unsubscribe queue => some queue
  | .publish _ => none
  | .get queue => some queue

def StreamOp.published? {ι κ α : Type*} : StreamOp ι κ α → Option α
  | .plain op => op.published?
  | _ => none

namespace Streaming

variable {ι κ α : Type*} [DecidableEq ι] [DecidableEq κ] {st : Streaming ι κ α} {s : ι} {q : κ}

def new (maxsize : Int) : Streaming ι κ α := { world := .new maxsize }

def move (st : Streaming ι κ α) (s : ι) (world : World κ α) (generator : Generator κ α) : Streaming ι κ α :=
  { st with world, generators := Function.update st.generators s generator }

/-- `yield await queue.get()`, when the queue holds an event. -/
def receive (st : Streaming ι κ α) (s : ι) (queue : κ) (yielded : List α) : Option (Streaming ι κ α) :=
  (st.world.heap queue).bind fun inbox =>
    inbox.queue.getNowait.map fun taken =>
      st.move s (st.world.write queue ⟨taken.2, inbox.received ++ [taken.1]⟩) (.paused queue (yielded ++ [taken.1]))

/-- The `finally` block. -/
def leave (st : Streaming ι κ α) (s : ι) (queue : κ) (yielded : List α) : Streaming ι κ α :=
  st.move s (st.world.unsubscribe queue) (.finished (some queue) yielded)

def step (st : Streaming ι κ α) : StreamOp ι κ α → Option (Streaming ι κ α)
  | .start s queue =>
    match st.generators s with
    | .created => (st.world.step (.subscribe queue)).map fun world =>
        { st.move s world (.waiting queue []) with owned := queue :: st.owned }
    | _ => none
  | .request s =>
    match st.generators s with
    | .paused queue yielded => some ((st.receive s queue yielded).getD (st.move s st.world (.waiting queue yielded)))
    | .finished _ _ => some st
    -- A second request while one is pending raises and changes nothing.
    | _ => none
  | .wake s =>
    match st.generators s with
    | .waiting queue yielded => st.receive s queue yielded
    | _ => none
  | .close s =>
    match st.generators s with
    | .created => some (st.move s st.world (.finished none []))
    | .paused queue yielded => some (st.leave s queue yielded)
    | .finished _ _ => some st
    | .waiting _ _ => none
  | .throw s =>
    match st.generators s with
    | .created => some (st.move s st.world (.finished none []))
    | .paused queue yielded => some (st.leave s queue yielded)
    | .waiting queue yielded => some (st.leave s queue yielded)
    | .finished _ _ => some st
  | .plain op =>
    if op.queue?.any (· ∈ st.owned) then none
    else (st.world.step op).map fun world => { st with world }

def machine : Machine (Streaming ι κ α) (StreamOp ι κ α) := ⟨step⟩

/-- What an operation on a stream is on the bus. -/
def emit (st : Streaming ι κ α) : StreamOp ι κ α → List (Op κ α)
  | .start _ queue => [.subscribe queue]
  | .request s =>
    match st.generators s with
    | .paused queue yielded => if (st.receive s queue yielded).isSome then [.get queue] else []
    | _ => []
  | .wake s => (st.generators s).queue?.toList.map .get
  | .close s => (st.generators s).open?.toList.map .unsubscribe
  | .throw s => (st.generators s).open?.toList.map .unsubscribe
  | .plain op => [op]

/-! ### What a step can do -/

inductive Effect (st : Streaming ι κ α) : StreamOp ι κ α → Streaming ι κ α → List (Op κ α) → Prop where
  | started (s : ι) (q : κ) (world : World κ α) (fresh : st.generators s = .created)
      (subscribed : st.world.step (.subscribe q) = some world) :
      Effect st (.start s q) { st.move s world (.waiting q []) with owned := q :: st.owned } [.subscribe q]
  | received {op : StreamOp ι κ α} (s : ι) (q : κ) (inbox after : Inbox α) (event : α)
      (within : (st.generators s).open? = some q) (object : st.world.heap q = some inbox)
      (taken : inbox.take = some after) (added : after.received = inbox.received ++ [event]) :
      Effect st op (st.move s (st.world.write q after) (.paused q ((st.generators s).yielded ++ [event]))) [.get q]
  | idled {op : StreamOp ι κ α} (s : ι) (q : κ) (yielded : List α) (paused : st.generators s = .paused q yielded) :
      Effect st op (st.move s st.world (.waiting q yielded)) []
  | left {op : StreamOp ι κ α} (s : ι) (q : κ) (within : (st.generators s).open? = some q) :
      Effect st op (st.leave s q (st.generators s).yielded) [.unsubscribe q]
  | discarded {op : StreamOp ι κ α} (s : ι) (fresh : st.generators s = .created) :
      Effect st op (st.move s st.world (.finished none [])) []
  | unchanged {op : StreamOp ι κ α} : Effect st op st []
  | plain (op : Op κ α) (world : World κ α) (foreign : ∀ q, op.queue? = some q → q ∉ st.owned)
      (stepped : st.world.step op = some world) : Effect st (.plain op) { st with world } [op]

variable {op : StreamOp ι κ α} {after : Streaming ι κ α}

theorem receive_effect (within : (st.generators s).open? = some q)
    (received : st.receive s q (st.generators s).yielded = some after) : Effect st op after [.get q] := by
  obtain ⟨inbox, object, rest⟩ := Option.bind_eq_some_iff.mp received
  obtain ⟨⟨event, queue⟩, got, rfl⟩ := Option.map_eq_some_iff.mp rest
  refine .received s q inbox _ event within object ?_ rfl
  rw [Inbox.take, got, Option.map_some]

theorem leave_effect {generator : Generator κ α} {yielded : List α} (phase : st.generators s = generator)
    (within : generator.open? = some q) (events : generator.yielded = yielded) :
    Effect st op (st.leave s q yielded) [.unsubscribe q] := by
  subst phase events
  exact .left s q within

theorem plain_step {op : Op κ α} (stepped : st.step (.plain op) = some after) :
    (∀ q, op.queue? = some q → q ∉ st.owned) ∧ ∃ world, st.world.step op = some world ∧ { st with world } = after := by
  simp only [step, Option.any_eq_true, decide_eq_true_eq] at stepped
  split at stepped
  · cases stepped
  · next foreign =>
    refine ⟨?_, Option.map_eq_some_iff.mp stepped⟩
    intro q named owned
    exact foreign ⟨q, named, owned⟩

theorem step_effect (stepped : st.step op = some after) : Effect st op after (st.emit op) := by
  cases op with
  | start s queue =>
    simp only [step] at stepped
    cases phase : st.generators s with
    | created =>
      rw [phase] at stepped
      obtain ⟨world, subscribed, rfl⟩ := Option.map_eq_some_iff.mp stepped
      exact .started s queue world phase subscribed
    | waiting queue yielded => rw [phase] at stepped; cases stepped
    | paused queue yielded => rw [phase] at stepped; cases stepped
    | finished queue yielded => rw [phase] at stepped; cases stepped
  | request s =>
    simp only [step] at stepped
    simp only [emit]
    cases phase : st.generators s with
    | created => rw [phase] at stepped; cases stepped
    | waiting queue yielded => rw [phase] at stepped; cases stepped
    | paused queue yielded =>
      rw [phase] at stepped
      cases received : st.receive s queue yielded with
      | none =>
        simp only [received, Option.getD_none, Option.some.injEq] at stepped
        subst stepped
        simpa [received] using Effect.idled s queue yielded phase
      | some next =>
        simp only [received, Option.getD_some, Option.some.injEq] at stepped
        subst stepped
        simpa [received] using receive_effect (by rw [phase]; rfl) (by rw [phase]; exact received)
    | finished queue yielded =>
      rw [phase] at stepped
      cases stepped
      exact .unchanged
  | wake s =>
    simp only [step] at stepped
    cases phase : st.generators s with
    | created => rw [phase] at stepped; cases stepped
    | paused queue yielded => rw [phase] at stepped; cases stepped
    | finished queue yielded => rw [phase] at stepped; cases stepped
    | waiting queue yielded =>
      rw [phase] at stepped
      simp only [emit, phase]
      exact receive_effect (by rw [phase]; rfl) (by rw [phase]; exact stepped)
  | close s =>
    simp only [step] at stepped
    simp only [emit]
    cases phase : st.generators s with
    | created => rw [phase] at stepped; cases stepped; exact .discarded s phase
    | waiting queue yielded => rw [phase] at stepped; cases stepped
    | paused queue yielded => rw [phase] at stepped; cases stepped; exact leave_effect phase rfl rfl
    | finished queue yielded => rw [phase] at stepped; cases stepped; exact .unchanged
  | throw s =>
    simp only [step] at stepped
    simp only [emit]
    cases phase : st.generators s with
    | created => rw [phase] at stepped; cases stepped; exact .discarded s phase
    | waiting queue yielded => rw [phase] at stepped; cases stepped; exact leave_effect phase rfl rfl
    | paused queue yielded => rw [phase] at stepped; cases stepped; exact leave_effect phase rfl rfl
    | finished queue yielded => rw [phase] at stepped; cases stepped; exact .unchanged
  | plain op =>
    obtain ⟨foreign, world, ran, rfl⟩ := plain_step stepped
    exact .plain op world foreign ran

theorem emit_published (st : Streaming ι κ α) (op : StreamOp ι κ α) :
    (st.emit op).filterMap Op.published? = op.published?.toList := by
  cases op with
  | start s queue => rfl
  | request s =>
    simp only [emit]
    split
    · split <;> rfl
    · rfl
  | wake s => simp only [emit]; cases (st.generators s).queue? <;> rfl
  | close s => simp only [emit]; cases (st.generators s).open? <;> rfl
  | throw s => simp only [emit]; cases (st.generators s).open? <;> rfl
  | plain op => cases op <;> rfl

/-- Streams are clients of the bus. -/
theorem simulation : (machine : Machine (Streaming ι κ α) (StreamOp ι κ α)).Simulation World.machine emit world where
  stepped := by
    intro st op after stepped
    generalize shape : st.emit op = emitted
    have effect := shape ▸ step_effect stepped
    cases effect with
    | started s q world fresh subscribed => simpa [World.machine, move] using subscribed
    | received s q inbox inbox' event within object taken added =>
      simp [World.machine, World.step, object, taken, move]
    | idled s q yielded paused => rfl
    | left s q within => rfl
    | discarded s fresh => rfl
    | unchanged => rfl
    | plain op world foreign ran => simpa [World.machine] using ran

/-! ### Whose queue it is -/

/-- What a consumer took from its queue and whether the bus still feeds it. -/
def account (w : World κ α) (q : κ) : Option (List α) × Bool :=
  ((w.heap q).map Inbox.received, (w.bus.queues.get? q).isSome)

theorem account_phase (w : World κ α) (q : κ) :
    account w q = ((w.phase q).inbox?.map Inbox.received, (w.phase q).stats?.isSome) := by
  rw [account, World.phase_inbox?, World.phase_stats?]

theorem account_publish (w : World κ α) (q : κ) (event : α) : account (w.publish event) q = account w q := by
  rw [account_phase, account_phase, World.publish_phase]
  cases w.phase q with
  | absent => rfl
  | ended inbox => rfl
  | active inbox stats =>
    simp only [Phase.publish]
    cases inbox.queue.putNowait event <;> rfl

/-- An operation on the bus reaches the queue that it names, and publishing takes nothing out. -/
theorem account_other {w after : World κ α} {op : Op κ α} (other : op.queue? ≠ some q)
    (stepped : w.step op = some after) : account after q = account w q := by
  cases seen : World.mail q op with
  | none =>
    have same : World.mailbox q after = World.mailbox q w := (World.projection q).hidden stepped seen
    rw [account_phase, account_phase, show after.phase q = w.phase q from congrArg Mailbox.phase same]
  | some mail =>
    cases op with
    | publish event =>
      cases stepped
      exact account_publish w q event
    | subscribe queue => simp [World.mail] at seen; exact absurd (congrArg some seen.1) other
    | unsubscribe queue => simp [World.mail] at seen; exact absurd (congrArg some seen.1) other
    | get queue => simp [World.mail] at seen; exact absurd (congrArg some seen.1) other

theorem subscribe_unused {w after : World κ α} (subscribed : w.step (.subscribe q) = some after) : w.heap q = none := by
  simp only [World.step] at subscribed
  split at subscribed
  · cases subscribed
  · next missing => simpa using missing

theorem account_subscribe {w after : World κ α} (subscribed : w.step (.subscribe q) = some after) :
    account after q = (some [], true) := by
  rw [World.step, subscribe_unused subscribed] at subscribed
  cases subscribed
  rw [account_phase, World.subscribe, World.enter_phase, if_pos rfl]
  rfl

/-- An operation on a stream's own queue changes no other account. -/
theorem account_elsewhere {generator : Generator κ α} {w after : World κ α} {op : Op κ α}
    (held : generator.queue? = some q) (own : op.queue? = some q) (stepped : w.step op = some after) :
    ∀ q', generator.queue? ≠ some q' → account after q' = account w q' := by
  intro q' other
  refine account_other ?_ stepped
  exact fun same => other (held.trans (own.symm.trans same))

/-- Every queue that a stream subscribed is that stream's alone, holds what it has not yielded, and
is fed exactly while the stream is open. -/
structure Sound (st : Streaming ι κ α) : Prop where
  accounts : ∀ s q, (st.generators s).queue? = some q →
    account st.world q = (some (st.generators s).yielded, (st.generators s).open?.isSome)
  distinct : ∀ s t q, (st.generators s).queue? = some q → (st.generators t).queue? = some q → s = t
  owned : ∀ q, q ∈ st.owned ↔ ∃ s, (st.generators s).queue? = some q

omit [DecidableEq ι] in
theorem sound_new (maxsize : Int) : Sound (new maxsize : Streaming ι κ α) where
  accounts := by
    intro s q held
    cases held
  distinct := by
    intro s t q held
    cases held
  owned := by simp [new, Generator.queue?]

omit [DecidableEq κ] in
theorem move_generator (st : Streaming ι κ α) (s t : ι) (world : World κ α) (generator : Generator κ α) :
    (st.move s world generator).generators t = if t = s then generator else st.generators t := by
  by_cases same : t = s
  · rw [if_pos same, same]
    exact Function.update_self ..
  · rw [if_neg same]
    exact Function.update_of_ne same ..

/-- A stream that goes on with the queue it has, in a world that changed at most there. -/
theorem Sound.move (sound : Sound st) {world : World κ α} {generator : Generator κ α}
    (same : generator.queue? = (st.generators s).queue?)
    (others : ∀ q, (st.generators s).queue? ≠ some q → account world q = account st.world q)
    (own : ∀ q, (st.generators s).queue? = some q →
      account world q = (some generator.yielded, generator.open?.isSome)) : Sound (st.move s world generator) := by
  have kept : ∀ t, ((st.move s world generator).generators t).queue? = (st.generators t).queue? := by
    intro t
    rw [move_generator]
    split
    · next here => rw [here, same]
    · rfl
  constructor
  case accounts =>
    intro t q held
    rw [kept] at held
    rw [move_generator]
    split
    · next here => exact own q (here ▸ held)
    · next elsewhere =>
      have other : (st.generators s).queue? ≠ some q := fun mine => elsewhere (sound.distinct t s q held mine)
      exact (others q other).trans (sound.accounts t q held)
  case distinct =>
    intro t u q held held'
    rw [kept] at held held'
    exact sound.distinct t u q held held'
  case owned =>
    intro q
    simp only [kept]
    exact sound.owned q

theorem Sound.start (sound : Sound st) {world : World κ α} (fresh : st.generators s = .created)
    (subscribed : st.world.step (.subscribe q) = some world) :
    Sound { st.move s world (.waiting q []) with owned := q :: st.owned } := by
  have unheld : ∀ t, (st.generators t).queue? ≠ some q := by
    intro t held
    have taken := sound.accounts t q held
    rw [account, subscribe_unused subscribed] at taken
    cases taken
  have queues : ∀ t, ((st.move s world (.waiting q [])).generators t).queue? =
      if t = s then some q else (st.generators t).queue? := by
    intro t
    rw [move_generator]
    split <;> rfl
  constructor
  case accounts =>
    intro t q' held
    show account world q' = (some ((st.move s world (.waiting q [])).generators t).yielded, _)
    rw [queues] at held
    rw [move_generator]
    split at held
    · next here =>
      cases held
      rw [if_pos here]
      exact account_subscribe subscribed
    · next elsewhere =>
      rw [if_neg elsewhere]
      have other : (Op.subscribe q : Op κ α).queue? ≠ some q' := by
        rintro ⟨rfl⟩
        exact unheld t held
      exact (account_other other subscribed).trans (sound.accounts t q' held)
  case distinct =>
    intro t u q' held held'
    rw [queues] at held held'
    split at held
    · next here =>
      cases held
      split at held'
      · next here' => rw [here, here']
      · exact absurd held' (unheld u)
    · split at held'
      · cases held'
        exact absurd held (unheld t)
      · exact sound.distinct t u q' held held'
  case owned =>
    intro q'
    show q' ∈ q :: st.owned ↔ _
    rw [List.mem_cons, sound.owned]
    constructor
    · rintro (rfl | ⟨t, held⟩)
      · exact ⟨s, by rw [queues, if_pos rfl]⟩
      · refine ⟨t, ?_⟩
        have elsewhere : t ≠ s := by
          rintro rfl
          rw [fresh] at held
          cases held
        rw [queues, if_neg elsewhere, held]
    · rintro ⟨t, held⟩
      rw [queues] at held
      split at held
      · exact Or.inl (Option.some.inj held).symm
      · exact Or.inr ⟨t, held⟩

theorem Sound.step (sound : Sound st) (stepped : st.step op = some after) : Sound after := by
  obtain ⟨ops, effect⟩ : ∃ ops, Effect st op after ops := ⟨_, step_effect stepped⟩
  cases effect with
  | started s q world fresh subscribed => exact sound.start fresh subscribed
  | received s q inbox inbox' event within object taken added =>
    have held := Generator.open_queue within
    have got : st.world.step (.get q) = some (st.world.write q inbox') := by
      simp [World.step, object, taken]
    have before := sound.accounts s q held
    rw [account, object, Option.map_some, Prod.mk.injEq, Option.some.injEq] at before
    refine sound.move held.symm (account_elsewhere held rfl got) ?_
    intro q' mine
    obtain rfl := Option.some.inj (held.symm.trans mine)
    rw [account, Prod.mk.injEq]
    refine ⟨?_, ?_⟩
    · simp [World.write, added, before.1, Generator.yielded]
    · rw [show (st.world.write q inbox').bus.queues = st.world.bus.queues from rfl, before.2, within]
      rfl
  | idled s q yielded paused =>
    refine sound.move (by rw [paused]; rfl) (fun _ _ => rfl) ?_
    intro q' mine
    rw [sound.accounts s q' mine, paused]
    rfl
  | left s q within =>
    have held := Generator.open_queue within
    have ended : st.world.step (.unsubscribe q) = some (st.world.unsubscribe q) := rfl
    refine sound.move held.symm (account_elsewhere held rfl ended) ?_
    intro q' mine
    obtain rfl := Option.some.inj (held.symm.trans mine)
    have before := sound.accounts s q held
    rw [account, Prod.mk.injEq] at before ⊢
    refine ⟨before.1, ?_⟩
    simp [World.unsubscribe, Dict.get?_pop, Generator.open?]
  | discarded s fresh =>
    refine sound.move (by rw [fresh]; rfl) (fun _ _ => rfl) ?_
    intro q' mine
    rw [fresh] at mine
    cases mine
  | unchanged => exact sound
  | plain op world foreign ran =>
    constructor
    case accounts =>
      intro t q' held
      have other : op.queue? ≠ some q' := fun named => foreign q' named ((sound.owned q').mpr ⟨t, held⟩)
      exact (account_other other ran).trans (sound.accounts t q' held)
    case distinct => exact sound.distinct
    case owned => exact sound.owned

variable {maxsize : Int} {ops : List (StreamOp ι κ α)}

theorem run_sound (ran : machine.run (new maxsize) ops = some st) : Sound st :=
  Machine.run_invariant Sound (fun _ _ _ sound stepped => sound.step stepped) (sound_new maxsize) ran

omit [DecidableEq ι] in
theorem Sound.subscribed_iff (sound : Sound st) (held : (st.generators s).queue? = some q) :
    q ∈ st.world.bus.queues ↔ (st.generators s).open? = some q := by
  have fed := (Prod.mk.inj (sound.accounts s q held)).2
  rw [Dict.mem_iff_get?, ← Option.isSome_iff_exists, fed]
  constructor
  · exact Generator.open_of_queue held
  · intro within
    rw [within]
    rfl

theorem step_table {w after : World κ α} {op : Op κ α} (stepped : w.step op = some after) :
    q ∈ after.bus.queues ↔ op = .subscribe q ∨ q ∈ w.bus.queues ∧ op ≠ .unsubscribe q := by
  cases op with
  | subscribe queue =>
    simp only [World.step] at stepped
    split at stepped
    · cases stepped
    · cases stepped
      simp [World.subscribe, World.enter, eq_comm]
  | unsubscribe queue =>
    cases stepped
    simp [World.unsubscribe, eq_comm, and_comm]
  | publish event =>
    cases stepped
    have same := (Prod.mk.inj (account_publish w q event)).2
    rw [Dict.mem_iff_get?, Dict.mem_iff_get?, ← Option.isSome_iff_exists, ← Option.isSome_iff_exists, same]
    simp
  | get queue =>
    obtain ⟨inbox, object, taken⟩ := Option.bind_eq_some_iff.mp stepped
    obtain ⟨left, took, rfl⟩ := Option.map_eq_some_iff.mp taken
    simp [World.write]

/-- Subscribed directly, and not unsubscribed since. -/
def Direct (ops : List (StreamOp ι κ α)) (q : κ) : Prop :=
  ∃ before after, ops = before ++ .plain (.subscribe q) :: after ∧ .plain (.unsubscribe q) ∉ after

omit [DecidableEq ι] [DecidableEq κ] in
theorem direct_concat : Direct (ops ++ [op]) q ↔
    op = .plain (.subscribe q) ∨ Direct ops q ∧ op ≠ .plain (.unsubscribe q) := by
  constructor
  · rintro ⟨before, after, split, kept⟩
    rcases List.eq_nil_or_concat' after with rfl | ⟨after, last, rfl⟩
    · exact Or.inl (List.append_singleton_inj.mp split).2
    · rw [← List.cons_append, ← List.append_assoc] at split
      obtain ⟨rfl, rfl⟩ := List.append_singleton_inj.mp split
      simp only [List.mem_append, List.mem_singleton, not_or] at kept
      exact Or.inr ⟨⟨before, after, rfl, kept.1⟩, fun same => kept.2 same.symm⟩
  · rintro (rfl | ⟨⟨before, after, rfl, kept⟩, other⟩)
    · exact ⟨ops, [], rfl, List.not_mem_nil⟩
    · refine ⟨before, after ++ [op], by simp, ?_⟩
      simp [kept, other.symm]

/-- An operation on a stream changes no subscription but its own. -/
theorem Sound.others_kept (sound : Sound st) (stepped : st.step op = some after) (streams : ∀ p, op ≠ .plain p) :
    q ∈ after.world.bus.queues ∧ q ∉ after.owned ↔ q ∈ st.world.bus.queues ∧ q ∉ st.owned := by
  obtain ⟨emitted, effect⟩ : ∃ emitted, Effect st op after emitted := ⟨_, step_effect stepped⟩
  cases effect with
  | started s queue world fresh subscribed =>
    have unused : queue ∉ st.world.bus.queues := by
      intro joined
      have object := st.world.allocated queue joined
      rw [subscribe_unused subscribed] at object
      cases object
    have table := step_table (q := q) subscribed
    show q ∈ world.bus.queues ∧ q ∉ queue :: st.owned ↔ _
    rw [table, List.mem_cons]
    by_cases same : q = queue
    · subst same
      simp [unused]
    · simp [same, Ne.symm same]
  | received s queue inbox inbox' event within object taken added => exact Iff.rfl
  | idled s queue yielded paused => exact Iff.rfl
  | left s queue within =>
    have owned : queue ∈ st.owned := (sound.owned queue).mpr ⟨s, Generator.open_queue within⟩
    show q ∈ st.world.bus.queues.pop queue ∧ q ∉ st.owned ↔ _
    rw [Dict.mem_pop]
    constructor
    · rintro ⟨⟨_, joined⟩, foreign⟩
      exact ⟨joined, foreign⟩
    · rintro ⟨joined, foreign⟩
      refine ⟨⟨?_, joined⟩, foreign⟩
      rintro rfl
      exact foreign owned
  | discarded s fresh => exact Iff.rfl
  | unchanged => exact Iff.rfl
  | plain op world foreign ran => exact absurd rfl (streams op)

/-- The subscriptions that no stream made are the direct ones. -/
theorem run_direct (ran : machine.run (new maxsize) ops = some st) :
    ∀ q, Direct ops q ↔ q ∈ st.world.bus.queues ∧ q ∉ st.owned := by
  refine Machine.run_induction (motive := fun ops st =>
    ∀ q, Direct ops q ↔ q ∈ st.world.bus.queues ∧ q ∉ st.owned) ?_ ?_ ran
  · intro q
    refine iff_of_false ?_ fun joined => Dict.not_mem_empty joined.1
    rintro ⟨before, after, split, -⟩
    simp at split
  · intro ops st op after before ran stepped q
    rw [direct_concat, before]
    by_cases plainly : ∃ p, op = .plain p
    · obtain ⟨p, rfl⟩ := plainly
      obtain ⟨foreign, world, ran, rfl⟩ := plain_step stepped
      simp only [step_table ran, ne_eq, StreamOp.plain.injEq]
      have named : p = .subscribe q → q ∉ st.owned := by
        rintro rfl
        exact foreign q rfl
      tauto
    · have streams : ∀ p, op ≠ .plain p := fun p same => plainly ⟨p, same⟩
      simp only [(run_sound ran).others_kept stepped streams, streams, ne_eq, not_false_eq_true, and_true, false_or]

/-- The bus feeds exactly the queues of streams that are open and those subscribed directly and not
unsubscribed since: a stream that was left leaves nothing behind, and no two streams share a queue. -/
theorem stream_subscriptions (maxsize : Int) (ops : List (StreamOp ι κ α)) (st : Streaming ι κ α)
    (ran : machine.run (new maxsize) ops = some st) :
    (∀ q, q ∈ st.world.bus.queues ↔ (∃ s, (st.generators s).open? = some q) ∨ Direct ops q) ∧
    (∀ s q, (st.generators s).queue? = some q →
      (q ∈ st.world.bus.queues ↔ (st.generators s).open? = some q)) ∧
    (∀ s t q, (st.generators s).queue? = some q → (st.generators t).queue? = some q → s = t) ∧
    (st.world.bus.subscriberCount = 0 ↔ (∀ s, (st.generators s).open? = none) ∧ ∀ q, ¬ Direct ops q) := by
  have sound := run_sound ran
  have fed : ∀ q, q ∈ st.world.bus.queues ↔ (∃ s, (st.generators s).open? = some q) ∨ Direct ops q := by
    intro q
    rw [run_direct ran q]
    constructor
    · intro joined
      by_cases owned : q ∈ st.owned
      · obtain ⟨s, held⟩ := (sound.owned q).mp owned
        exact Or.inl ⟨s, (sound.subscribed_iff held).mp joined⟩
      · exact Or.inr ⟨joined, owned⟩
    · rintro (⟨s, within⟩ | ⟨joined, _⟩)
      · exact (sound.subscribed_iff (Generator.open_queue within)).mpr within
      · exact joined
  refine ⟨fed, fun s q => sound.subscribed_iff, sound.distinct, ?_⟩
  have nobody : st.world.bus.subscriberCount = 0 ↔ ∀ q, q ∉ st.world.bus.queues := by
    rw [EventBus.subscriberCount, List.length_eq_zero_iff, List.eq_nil_iff_forall_not_mem]
    exact Iff.rfl
  simp only [nobody, fed, not_or, forall_and, not_exists, Option.eq_none_iff_forall_ne_some]
  rw [forall_comm]

theorem stream_subscriptions_shared : ∃ st : Streaming Nat Nat Nat,
    machine.run (new 1) [.start 0 7, .start 1 8, .plain (.subscribe 9), .plain (.publish 5), .wake 0, .close 0] =
      some st ∧ (∀ s q, (st.generators s).queue? = some q →
        (q ∈ st.world.bus.queues ↔ (st.generators s).open? = some q)) := by
  have runs : (machine.run (new 1) [.start 0 7, .start 1 8, .plain (.subscribe 9), .plain (.publish 5), .wake 0,
      .close 0] : Option (Streaming Nat Nat Nat)).isSome = true := by decide +kernel
  obtain ⟨st, ran⟩ := Option.isSome_iff_exists.mp runs
  exact ⟨st, ran, (stream_subscriptions 1 _ st ran).2.1⟩

/-! ### What a stream yields -/

theorem emitted_published {start : Streaming ι κ α} (ran : machine.run start ops = some st) :
    (machine.emitted emit start ops).filterMap Op.published? = ops.filterMap StreamOp.published? := by
  induction ops generalizing start with
  | nil => rfl
  | cons op ops ih =>
    obtain ⟨next, stepped, rest⟩ := Machine.run_cons_split ran
    rw [Machine.emitted, List.filterMap_append, emit_published, stepped, ih rest]
    cases published : op.published? with
    | none => rw [List.filterMap_cons_none published]; rfl
    | some event => rw [List.filterMap_cons_some published]; rfl

/-- The events published since `opened`, each with whether `q` had room for it. -/
def attempts (q : κ) (opened : Streaming ι κ α) (ops : List (StreamOp ι κ α)) : List (α × Bool) :=
  World.attempts q (World.machine.moments opened.world (machine.emitted emit opened ops))

/-- The events that `q` accepted since `opened`. -/
def accepted (q : κ) (opened : Streaming ι κ α) (ops : List (StreamOp ι κ α)) : List α :=
  ((attempts q opened ops).filter (·.2)).map Prod.fst

variable {opened : Streaming ι κ α}

theorem accepted_concat (ran : machine.run opened ops = some st) (op : StreamOp ι κ α) :
    accepted q opened ops <+: accepted q opened (ops ++ [op]) := by
  have moments : World.machine.moments opened.world (machine.emitted emit opened (ops ++ [op])) =
      World.machine.moments opened.world (machine.emitted emit opened ops) ++
        World.machine.moments st.world (machine.emitted emit st [op]) := by
    rw [Machine.emitted_append ran, Machine.moments_append (simulation.run ran)]
  simp only [accepted, attempts, moments, World.attempts, List.filterMap_append, List.filter_append,
    List.map_append]
  exact List.prefix_append _ _

omit [DecidableEq κ] in
theorem move_keeps {world : World κ α} {generator : Generator κ α} (t : ι)
    (keeps : (st.generators t).queue? = some q → generator.queue? = some q)
    (held : (st.generators s).queue? = some q) : ((st.move t world generator).generators s).queue? = some q := by
  rw [move_generator]
  split
  · next here => exact keeps (here ▸ held)
  · exact held

/-- A stream keeps the queue it subscribed. -/
theorem step_keeps_queue (stepped : st.step op = some after) (held : (st.generators s).queue? = some q) :
    (after.generators s).queue? = some q := by
  obtain ⟨emitted, effect⟩ : ∃ emitted, Effect st op after emitted := ⟨_, step_effect stepped⟩
  cases effect with
  | started t queue world fresh subscribed =>
    have kept : ((st.move t world (.waiting queue [])).generators s).queue? = some q := by
      refine move_keeps t (fun mine => ?_) held
      rw [fresh] at mine
      cases mine
    exact kept
  | received t queue inbox inbox' event within object taken added =>
    exact move_keeps t (fun mine => (Generator.open_queue within).symm.trans mine) held
  | idled t queue yielded paused =>
    refine move_keeps t (fun mine => ?_) held
    rw [paused] at mine
    exact mine
  | left t queue within => exact move_keeps t (fun mine => (Generator.open_queue within).symm.trans mine) held
  | discarded t fresh =>
    refine move_keeps t (fun mine => ?_) held
    rw [fresh] at mine
    cases mine
  | unchanged => exact held
  | plain op world foreign ran => exact held

/-- Nothing is yielded on the way out. -/
theorem step_keeps_yielded (stepped : st.step op = some after)
    (outside : (after.generators s).open? = none) : (after.generators s).yielded = (st.generators s).yielded := by
  obtain ⟨emitted, effect⟩ : ∃ emitted, Effect st op after emitted := ⟨_, step_effect stepped⟩
  cases effect with
  | started t queue world fresh subscribed =>
    simp only [move_generator] at outside ⊢
    split at outside
    · cases outside
    · next elsewhere => rw [if_neg elsewhere]
  | received t queue inbox inbox' event within object taken added =>
    rw [move_generator] at outside ⊢
    split at outside
    · cases outside
    · next elsewhere => rw [if_neg elsewhere]
  | idled t queue yielded paused =>
    rw [move_generator] at outside ⊢
    split at outside
    · cases outside
    · next elsewhere => rw [if_neg elsewhere]
  | left t queue within =>
    rw [leave, move_generator]
    split
    · next here => rw [here]; rfl
    · rfl
  | discarded t fresh =>
    rw [move_generator]
    split
    · next here => rw [here, fresh]; rfl
    · rfl
  | unchanged => rfl
  | plain op world foreign ran => rfl

section Opened
variable {u : Streaming ι κ α} {after : List (StreamOp ι κ α)}

/-- While a stream is open the books of its queue are those of the publishes since it was opened, and
what its consumer took is what it yielded. -/
theorem open_books (before : machine.run (new maxsize) ops = some u)
    (subscribed : machine.step u (.start s q) = some opened) (ran : machine.run opened after = some st)
    (within : (st.generators s).open? = some q) :
    ∃ inbox stats, st.world.heap q = some inbox ∧ st.world.bus.queues.get? q = some stats ∧
      inbox.received = (st.generators s).yielded ∧ Accounted maxsize (attempts q opened after) inbox stats := by
  have sound : Sound st := by
    have whole : machine.run (new maxsize) (ops ++ .start s q :: after) = some st := by
      rw [Machine.run_append, before, Option.bind_some, Machine.run_cons, subscribed, Option.bind_some, ran]
    exact run_sound whole
  obtain ⟨taken, fed⟩ := Prod.mk.inj (sound.accounts s q (Generator.open_queue within))
  obtain ⟨stats, found⟩ := Option.isSome_iff_exists.mp (fed.trans (by rw [within]; rfl))
  have joined : World.machine.step u.world (.subscribe q) = some opened.world := by
    simpa [emit] using simulation.stepped subscribed
  obtain ⟨inbox, object, books⟩ := World.subscribed_books joined (simulation.run ran) found
  have size : u.world.bus.maxsize = maxsize := World.run_bus_maxsize q (simulation.run before)
  rw [object, Option.map_some, Option.some.injEq] at taken
  rw [size] at books
  exact ⟨inbox, stats, object, found, taken, books⟩

/-- What a stream yielded is a prefix of what its queue accepted, wherever the stream stands. -/
theorem yielded_prefix (before : machine.run (new maxsize) ops = some u)
    (subscribed : machine.step u (.start s q) = some opened) (ran : machine.run opened after = some st) :
    (st.generators s).queue? = some q ∧ (st.generators s).yielded <+: accepted q opened after := by
  refine Machine.run_induction (motive := fun after st =>
    (st.generators s).queue? = some q ∧ (st.generators s).yielded <+: accepted q opened after) ?_ ?_ ran
  · have entered : opened.generators s = .waiting q [] := by
      simp only [machine, step] at subscribed
      split at subscribed
      · obtain ⟨world, _, rfl⟩ := Option.map_eq_some_iff.mp subscribed
        rw [move_generator, if_pos rfl]
      · cases subscribed
    rw [entered]
    exact ⟨rfl, List.nil_prefix⟩
  · intro after st op next ⟨held, earlier⟩ ran stepped
    have kept := step_keeps_queue stepped held
    refine ⟨kept, ?_⟩
    cases within : (next.generators s).open? with
    | none =>
      rw [step_keeps_yielded stepped within]
      exact earlier.trans (accepted_concat ran op)
    | some queue =>
      obtain rfl := Option.some.inj ((Generator.open_queue within).symm.trans kept)
      have reached : machine.run opened (after ++ [op]) = some next := by
        rw [Machine.run_concat, ran]
        exact stepped
      obtain ⟨inbox, stats, _, _, taken, books⟩ := open_books before subscribed reached within
      rw [← taken, accepted, ← books.contents]
      exact List.prefix_append _ _

end Opened

/-- What a stream yields, in every interleaving with other streams, subscriptions and publishes: a
prefix, in order and without repetition, of the events published since its first request that its own
queue had room for. While it is open, what it has not yielded waits in its queue and every other event
was counted as dropped. -/
theorem stream_accounted (maxsize : Int) (before after : List (StreamOp ι κ α)) (s : ι) (q : κ)
    (st : Streaming ι κ α) (ran : machine.run (new maxsize) (before ++ .start s q :: after) = some st) :
    ∃ opened, machine.run (new maxsize) (before ++ [.start s q]) = some opened ∧
      (attempts q opened after).map Prod.fst = after.filterMap StreamOp.published? ∧
      (st.generators s).queue? = some q ∧
      (st.generators s).yielded <+: ((attempts q opened after).filter (·.2)).map Prod.fst ∧
      ((st.generators s).open? = some q → ∃ inbox stats, st.world.heap q = some inbox ∧
        st.world.bus.queues.get? q = some stats ∧ inbox.received = (st.generators s).yielded ∧
        Accounted maxsize (attempts q opened after) inbox stats) := by
  obtain ⟨u, start, rest⟩ := Machine.run_split ran
  obtain ⟨opened, subscribed, rest⟩ := Machine.run_cons_split rest
  obtain ⟨held, yielded⟩ := yielded_prefix start subscribed rest
  refine ⟨opened, ?_, ?_, held, yielded, open_books start subscribed rest⟩
  · rw [Machine.run_concat, start]
    exact subscribed
  · rw [attempts, World.attempts_events (simulation.run rest), emitted_published rest]

theorem stream_accounted_burst : ∃ st : Streaming Nat Nat Nat,
    machine.run (new 1) [.plain (.publish 4), .start 0 7, .plain (.publish 5), .plain (.publish 6), .wake 0,
      .plain (.publish 8)] = some st ∧ ∃ opened, (st.generators 0).yielded <+: ((attempts 7 opened
        [.plain (.publish 5), .plain (.publish 6), .wake 0, .plain (.publish 8)]).filter (·.2)).map Prod.fst := by
  have runs : (machine.run (new 1) [.plain (.publish 4), .start 0 7, .plain (.publish 5), .plain (.publish 6), .wake 0,
      .plain (.publish 8)] : Option (Streaming Nat Nat Nat)).isSome = true := by decide +kernel
  obtain ⟨st, ran⟩ := Option.isSome_iff_exists.mp runs
  obtain ⟨opened, _, _, _, yielded, _⟩ := stream_accounted 1 [.plain (.publish 4)] _ 0 7 st ran
  exact ⟨st, ran, opened, yielded⟩

end Streaming
end DeepFlow.Core
