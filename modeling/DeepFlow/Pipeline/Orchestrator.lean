import Mathlib.Data.Finset.Insert
import Mathlib.Logic.Function.Basic
import DeepFlow.Foundation.Machine

/-!
# Shutdown

`Orchestrator.stop` cancels the tasks it finds, waits for all of them and clears the set. It waits in
the event loop, where tasks go on and finish when they like, new ones may be registered, other calls
of `stop` may be under way and the waiting one may itself be cancelled. No registered task calls `stop`:
such a call would wait for itself.
-/

namespace DeepFlow.Pipeline
open Foundation

structure Orchestrator (τ : Type*) where
  tasks : Finset τ := ∅
  stopping : Bool := false

def Orchestrator.isRunning {τ : Type*} (self : Orchestrator τ) : Bool :=
  decide self.tasks.Nonempty && !self.stopping

/-- A task may go on for as long as it likes after it was asked to stop. -/
inductive TaskStatus where
  | running (asked : Bool)
  | done
  deriving DecidableEq, Repr

/-- `task.cancel()`. -/
def TaskStatus.cancel : TaskStatus → TaskStatus
  | .running _ => .running true
  | .done => .done

/-- Where a call of `stop` stands, with the tasks it gathered. -/
inductive StopCall (τ : Type*) where
  | absent
  | gathering (children : Finset τ) (interrupted : Bool)
  | returned (children : Finset τ)
  | raised (children : Finset τ)

namespace StopCall
variable {τ : Type*}

def children : StopCall τ → Finset τ
  | .absent => ∅
  | .gathering children _ => children
  | .returned children => children
  | .raised children => children

def Called : StopCall τ → Prop
  | .absent => False
  | _ => True

def Ended : StopCall τ → Prop
  | .returned _ => True
  | .raised _ => True
  | _ => False

end StopCall

structure EventLoop (τ κ : Type*) where
  orchestrator : Orchestrator τ := {}
  status : τ → Option TaskStatus := fun _ => none
  stops : κ → StopCall τ := fun _ => .absent

inductive LoopEvent (τ κ : Type*) where
  -- A new task, registered with the orchestrator.
  | spawn (task : τ)
  | finish (task : τ)
  | stop (call : κ)
  -- The caller of `stop` is cancelled while it waits.
  | interrupt (call : κ)
  | resume (call : κ)
  deriving DecidableEq, Repr

namespace EventLoop

variable {τ κ : Type*} [DecidableEq τ] [DecidableEq κ] {st after : EventLoop τ κ} {event : LoopEvent τ κ}
  {events : List (LoopEvent τ κ)} {t : τ} {c : κ}

def cancelAll (st : EventLoop τ κ) (children : Finset τ) : τ → Option TaskStatus := fun t =>
  if t ∈ children then (st.status t).map .cancel else st.status t

def setStop (st : EventLoop τ κ) (c : κ) (call : StopCall τ) : EventLoop τ κ :=
  { st with stops := Function.update st.stops c call }

/-- `stop`, up to the point where it waits. -/
def stop (st : EventLoop τ κ) (c : κ) : EventLoop τ κ :=
  let tasks := st.orchestrator.tasks
  let cancelled : EventLoop τ κ := { st with orchestrator := ⟨tasks, true⟩, status := st.cancelAll tasks }
  if tasks.Nonempty then cancelled.setStop c (.gathering tasks false)
  else { cancelled with orchestrator := ⟨∅, true⟩ }.setStop c (.returned ∅)

def step (st : EventLoop τ κ) : LoopEvent τ κ → Option (EventLoop τ κ)
  | .spawn task =>
    match st.status task with
    | none => some { st with
        orchestrator := { st.orchestrator with tasks := insert task st.orchestrator.tasks }
        status := Function.update st.status task (some (.running false)) }
    | some _ => none
  | .finish task =>
    match st.status task with
    | some (.running _) => some { st with status := Function.update st.status task (some .done) }
    | _ => none
  | .stop call =>
    match st.stops call with
    | .absent => some (st.stop call)
    | _ => none
  -- Cancelling a `gather` asks its children once more, and it still waits for them.
  | .interrupt call =>
    match st.stops call with
    | .gathering children _ =>
      some ({ st with status := st.cancelAll children }.setStop call (.gathering children true))
    | _ => none
  | .resume call =>
    match st.stops call with
    | .gathering children interrupted =>
      if ∀ t ∈ children, st.status t = some .done then
        if interrupted then some (st.setStop call (.raised children))
        else some ({ st with orchestrator := { st.orchestrator with tasks := ∅ } }.setStop call (.returned children))
      else none
    | _ => none

def machine : Machine (EventLoop τ κ) (LoopEvent τ κ) := ⟨step⟩

/-! ### What a step can do -/

inductive Effect (st : EventLoop τ κ) : LoopEvent τ κ → EventLoop τ κ → Prop where
  | spawned (t : τ) (fresh : st.status t = none) : Effect st (.spawn t) { st with
      orchestrator := { st.orchestrator with tasks := insert t st.orchestrator.tasks }
      status := Function.update st.status t (some (.running false)) }
  | finished (t : τ) (asked : Bool) (alive : st.status t = some (.running asked)) :
      Effect st (.finish t) { st with status := Function.update st.status t (some .done) }
  | gathers (c : κ) (first : st.stops c = .absent) : Effect st (.stop c)
      ({ st with
        orchestrator := ⟨st.orchestrator.tasks, true⟩
        status := st.cancelAll st.orchestrator.tasks }.setStop c (.gathering st.orchestrator.tasks false))
  | clears (c : κ) (first : st.stops c = .absent) (nothing : st.orchestrator.tasks = ∅) :
      Effect st (.stop c) ({ st with orchestrator := ⟨∅, true⟩ }.setStop c (.returned ∅))
  | interrupted (c : κ) (children : Finset τ) (before : Bool) (waiting : st.stops c = .gathering children before) :
      Effect st (.interrupt c) ({ st with status := st.cancelAll children }.setStop c (.gathering children true))
  | returns (c : κ) (children : Finset τ) (waiting : st.stops c = .gathering children false)
      (settled : ∀ t ∈ children, st.status t = some .done) : Effect st (.resume c)
      ({ st with orchestrator := { st.orchestrator with tasks := ∅ } }.setStop c (.returned children))
  | raises (c : κ) (children : Finset τ) (waiting : st.stops c = .gathering children true)
      (settled : ∀ t ∈ children, st.status t = some .done) :
      Effect st (.resume c) (st.setStop c (.raised children))

theorem step_effect (stepped : st.step event = some after) : Effect st event after := by
  cases event with
  | spawn t =>
    simp only [step] at stepped
    cases status : st.status t with
    | none => rw [status] at stepped; cases stepped; exact .spawned t status
    | some _ => rw [status] at stepped; cases stepped
  | finish t =>
    simp only [step] at stepped
    cases status : st.status t with
    | none => rw [status] at stepped; cases stepped
    | some status' =>
      rw [status] at stepped
      cases status' with
      | running asked => cases stepped; exact .finished t asked status
      | done => cases stepped
  | stop c =>
    simp only [step] at stepped
    cases call : st.stops c with
    | absent =>
      rw [call] at stepped
      cases stepped
      unfold stop
      by_cases tasks : st.orchestrator.tasks.Nonempty
      · rw [if_pos tasks]
        exact .gathers c call
      · have nothing : st.orchestrator.tasks = ∅ := Finset.not_nonempty_iff_eq_empty.mp tasks
        have same : st.cancelAll ∅ = st.status := by
          funext t
          simp [cancelAll]
        rw [if_neg tasks, nothing, same]
        exact .clears c call nothing
    | gathering children interrupted => rw [call] at stepped; cases stepped
    | returned children => rw [call] at stepped; cases stepped
    | raised children => rw [call] at stepped; cases stepped
  | interrupt c =>
    simp only [step] at stepped
    cases call : st.stops c with
    | absent => rw [call] at stepped; cases stepped
    | gathering children interrupted =>
      rw [call] at stepped
      cases stepped
      exact .interrupted c children interrupted call
    | returned children => rw [call] at stepped; cases stepped
    | raised children => rw [call] at stepped; cases stepped
  | resume c =>
    simp only [step] at stepped
    cases call : st.stops c with
    | absent => rw [call] at stepped; cases stepped
    | gathering children interrupted =>
      rw [call] at stepped
      dsimp only at stepped
      split at stepped
      · next settled =>
        cases interrupted with
        | false => cases stepped; exact .returns c children call settled
        | true => cases stepped; exact .raises c children call settled
      · cases stepped
    | returned children => rw [call] at stepped; cases stepped
    | raised children => rw [call] at stepped; cases stepped

/-! ### Tasks only go forward -/

/-- How far a task has come: created, asked to stop, done. -/
def progress : Option TaskStatus → ℕ
  | none => 0
  | some (.running false) => 1
  | some (.running true) => 2
  | some .done => 3

@[simp] theorem progress_done_iff {status : Option TaskStatus} : 3 ≤ progress status ↔ status = some .done := by
  cases status with
  | none => simp [progress]
  | some status =>
    cases status with
    | running asked => cases asked <;> simp [progress]
    | done => simp [progress]

theorem progress_cancel (status : Option TaskStatus) : progress status ≤ progress (status.map .cancel) ∧
    (1 ≤ progress status → 2 ≤ progress (status.map .cancel)) := by
  cases status with
  | none => simp [progress]
  | some status =>
    cases status with
    | running asked => cases asked <;> simp [progress, TaskStatus.cancel]
    | done => simp [progress, TaskStatus.cancel]

omit [DecidableEq κ] in
theorem cancelAll_progress (st : EventLoop τ κ) (children : Finset τ) (t : τ) :
    progress (st.status t) ≤ progress (st.cancelAll children t) := by
  unfold cancelAll
  split
  · exact (progress_cancel _).1
  · exact le_rfl

omit [DecidableEq κ] in
theorem cancelAll_asked {children : Finset τ} (member : t ∈ children) (known : 1 ≤ progress (st.status t)) :
    2 ≤ progress (st.cancelAll children t) := by
  rw [cancelAll, if_pos member]
  exact (progress_cancel _).2 known

omit [DecidableEq κ] in
theorem update_progress {status : TaskStatus} {s : τ} (forward : progress (st.status s) ≤ progress (some status)) :
    progress (st.status t) ≤ progress (Function.update st.status s (some status) t) := by
  by_cases same : t = s
  · rw [same, Function.update_self]
    exact forward
  · rw [Function.update_of_ne same]

theorem step_progress (stepped : st.step event = some after) (t : τ) :
    progress (st.status t) ≤ progress (after.status t) := by
  cases step_effect stepped with
  | spawned s fresh => exact update_progress (by rw [fresh]; exact Nat.zero_le _)
  | finished s asked alive => exact update_progress (by rw [alive]; cases asked <;> decide)
  | gathers c first => exact cancelAll_progress st _ t
  | clears c first nothing => exact le_rfl
  | interrupted c children before waiting => exact cancelAll_progress st _ t
  | returns c children waiting settled => exact le_rfl
  | raises c children waiting settled => exact le_rfl

theorem run_progress (ran : machine.run st events = some after) (t : τ) :
    progress (st.status t) ≤ progress (after.status t) :=
  Machine.run_invariant (fun later => progress (st.status t) ≤ progress (later.status t))
    (fun _ _ _ forward stepped => forward.trans (step_progress stepped t)) le_rfl ran

/-! ### Calls of `stop` -/

omit [DecidableEq τ] in
theorem setStop_stops (st : EventLoop τ κ) (c d : κ) (call : StopCall τ) :
    (st.setStop c call).stops d = if d = c then call else st.stops d := by
  unfold setStop
  by_cases same : d = c
  · rw [if_pos same, same]
    exact Function.update_self ..
  · rw [if_neg same]
    exact Function.update_of_ne same ..

/-- A call that is under way keeps what it gathered. -/
theorem step_children (stepped : st.step event = some after) (called : (st.stops c).Called) :
    (after.stops c).Called ∧ (after.stops c).children = (st.stops c).children := by
  have goes : ∀ {other : EventLoop τ κ} {d : κ} {call : StopCall τ}, other.stops = st.stops →
      (c = d → call.Called ∧ call.children = (st.stops c).children) →
      ((other.setStop d call).stops c).Called ∧ ((other.setStop d call).stops c).children = (st.stops c).children := by
    intro other d call same moved
    rw [setStop_stops, same]
    split
    · next here => exact moved here
    · exact ⟨called, rfl⟩
  cases step_effect stepped with
  | spawned s fresh => exact ⟨called, rfl⟩
  | finished s asked alive => exact ⟨called, rfl⟩
  | gathers d first => exact goes rfl fun same => by rw [same, first] at called; exact called.elim
  | clears d first nothing => exact goes rfl fun same => by rw [same, first] at called; exact called.elim
  | interrupted d children before waiting => exact goes rfl fun same => ⟨trivial, by rw [same, waiting]; rfl⟩
  | returns d children waiting settled => exact goes rfl fun same => ⟨trivial, by rw [same, waiting]; rfl⟩
  | raises d children waiting settled => exact goes rfl fun same => ⟨trivial, by rw [same, waiting]; rfl⟩

theorem run_children (ran : machine.run st events = some after) (called : (st.stops c).Called) :
    (after.stops c).Called ∧ (after.stops c).children = (st.stops c).children := by
  refine Machine.run_invariant (fun later => (later.stops c).Called ∧ (later.stops c).children = (st.stops c).children)
    ?_ ⟨called, rfl⟩ ran
  intro later event next held stepped
  obtain ⟨called, children⟩ := step_children stepped held.1
  exact ⟨called, children.trans held.2⟩

structure Sound (st : EventLoop τ κ) : Prop where
  registered : ∀ t ∈ st.orchestrator.tasks, 1 ≤ progress (st.status t)
  asked : ∀ c, ∀ t ∈ (st.stops c).children, 2 ≤ progress (st.status t)
  ended : ∀ c, (st.stops c).Ended → ∀ t ∈ (st.stops c).children, 3 ≤ progress (st.status t)
  stopping : ∀ c, (st.stops c).Called → st.orchestrator.stopping = true

omit [DecidableEq τ] [DecidableEq κ] in
theorem sound_new : Sound ({} : EventLoop τ κ) where
  registered := fun t member => absurd member (Finset.notMem_empty t)
  asked := fun _ t member => absurd member (Finset.notMem_empty t)
  ended := fun _ concluded => concluded.elim
  stopping := fun _ called => called.elim

omit [DecidableEq τ] in
/-- A step that moves one call of `stop`, its tasks at most forward. -/
theorem Sound.setStop (sound : Sound st) {moved : EventLoop τ κ} {call : StopCall τ} (same : moved.stops = st.stops)
    (forward : ∀ t, progress (st.status t) ≤ progress (moved.status t))
    (registered : moved.orchestrator.tasks ⊆ st.orchestrator.tasks) (stopping : moved.orchestrator.stopping = true)
    (asked : ∀ t ∈ call.children, 2 ≤ progress (moved.status t))
    (ended : call.Ended → ∀ t ∈ call.children, 3 ≤ progress (moved.status t)) : Sound (moved.setStop c call) where
  registered := fun t member => (sound.registered t (registered member)).trans (forward t)
  asked := by
    intro d t member
    rw [setStop_stops, same] at member
    split at member
    · exact asked t member
    · exact (sound.asked d t member).trans (forward t)
  ended := by
    intro d concluded t member
    rw [setStop_stops, same] at concluded member
    split at concluded
    · next here =>
      rw [if_pos here] at member
      exact ended concluded t member
    · next elsewhere =>
      rw [if_neg elsewhere] at member
      exact (sound.ended d concluded t member).trans (forward t)
  stopping := fun _ _ => stopping

theorem Sound.step (sound : Sound st) (stepped : st.step event = some after) : Sound after := by
  have forward := step_progress stepped
  cases step_effect stepped with
  | spawned s fresh =>
    constructor
    case registered =>
      intro t member
      rcases Finset.mem_insert.mp member with rfl | earlier
      · simp [progress]
      · exact (sound.registered t earlier).trans (forward t)
    case asked => exact fun c t member => (sound.asked c t member).trans (forward t)
    case ended => exact fun c concluded t member => (sound.ended c concluded t member).trans (forward t)
    case stopping => exact sound.stopping
  | finished s asked alive =>
    constructor
    case registered => exact fun t member => (sound.registered t member).trans (forward t)
    case asked => exact fun c t member => (sound.asked c t member).trans (forward t)
    case ended => exact fun c concluded t member => (sound.ended c concluded t member).trans (forward t)
    case stopping => exact sound.stopping
  | gathers c first =>
    refine sound.setStop rfl forward (Finset.Subset.refl _) rfl ?_ (fun concluded => concluded.elim)
    intro t member
    exact cancelAll_asked member (sound.registered t member)
  | clears c first nothing =>
    refine sound.setStop rfl forward (Finset.empty_subset _) rfl ?_ ?_
    · exact fun t member => absurd member (Finset.notMem_empty t)
    · exact fun _ t member => absurd member (Finset.notMem_empty t)
  | interrupted c children before waiting =>
    have called : (st.stops c).Called := by rw [waiting]; trivial
    refine sound.setStop rfl forward (Finset.Subset.refl _) (sound.stopping c called) ?_
      (fun concluded => concluded.elim)
    intro t member
    exact (sound.asked c t (by rw [waiting]; exact member)).trans (forward t)
  | returns c children waiting settled =>
    have called : (st.stops c).Called := by rw [waiting]; trivial
    have done : ∀ t ∈ children, 3 ≤ progress (st.status t) := fun t member => progress_done_iff.mpr (settled t member)
    refine sound.setStop rfl forward (Finset.empty_subset _) (sound.stopping c called) ?_ (fun _ => done)
    exact fun t member => (Nat.le_succ 2).trans (done t member)
  | raises c children waiting settled =>
    have called : (st.stops c).Called := by rw [waiting]; trivial
    have done : ∀ t ∈ children, 3 ≤ progress (st.status t) := fun t member => progress_done_iff.mpr (settled t member)
    refine sound.setStop rfl forward (Finset.Subset.refl _) (sound.stopping c called) ?_ (fun _ => done)
    exact fun t member => (Nat.le_succ 2).trans (done t member)

theorem run_sound (ran : machine.run {} events = some st) : Sound st :=
  Machine.run_invariant Sound (fun _ _ _ sound stepped => sound.step stepped) sound_new ran

theorem stop_gathers (stepped : st.step (.stop c) = some after) :
    (after.stops c).Called ∧ (after.stops c).children = st.orchestrator.tasks := by
  cases step_effect stepped with
  | gathers c first => simp [setStop_stops, StopCall.Called, StopCall.children]
  | clears c first nothing => simp [setStop_stops, StopCall.Called, StopCall.children, nothing]

/-- From the moment `stop` is called the orchestrator is not running and every task that was
registered has been asked to stop; when the call is over, returned or cancelled, all of them are done. -/
theorem stop_settles (before later : List (LoopEvent τ κ)) (c : κ) (st : EventLoop τ κ)
    (ran : machine.run {} (before ++ .stop c :: later) = some st) :
    ∃ called, machine.run {} before = some called ∧ st.orchestrator.isRunning = false ∧
      (∀ t ∈ called.orchestrator.tasks, 2 ≤ progress (st.status t)) ∧
      ((st.stops c).Ended → ∀ t ∈ called.orchestrator.tasks, st.status t = some .done) := by
  have sound := run_sound ran
  obtain ⟨called, first, rest⟩ := Machine.run_split ran
  obtain ⟨stopped, stepped, onward⟩ := Machine.run_cons_split rest
  obtain ⟨begun, gathered⟩ := stop_gathers stepped
  obtain ⟨begun, children⟩ := run_children onward begun
  have same : (st.stops c).children = called.orchestrator.tasks := children.trans gathered
  refine ⟨called, first, ?_, ?_, ?_⟩
  · rw [Orchestrator.isRunning, sound.stopping c begun, Bool.not_true, Bool.and_false]
  · intro t member
    exact sound.asked c t (same ▸ member)
  · intro concluded t member
    exact progress_done_iff.mp (sound.ended c concluded t (same ▸ member))

theorem stop_settles_interrupted : ∃ st : EventLoop Nat Nat,
    machine.run {} [.spawn 1, .spawn 2, .stop 0, .finish 1, .interrupt 0, .finish 2, .resume 0] = some st ∧
      st.orchestrator.isRunning = false := by
  have runs : (machine.run {} [.spawn 1, .spawn 2, .stop 0, .finish 1, .interrupt 0, .finish 2, .resume 0] :
      Option (EventLoop Nat Nat)).isSome = true := by decide +kernel
  obtain ⟨st, ran⟩ := Option.isSome_iff_exists.mp runs
  obtain ⟨_, _, stopped, _⟩ := stop_settles [.spawn 1, .spawn 2] _ 0 st ran
  exact ⟨st, ran, stopped⟩

/-! ### A call of `stop` waits for its own tasks only -/

theorem finish_all (tasks : List τ) (known : ∀ t ∈ tasks, 1 ≤ progress (st.status t)) :
    ∃ more next, machine.run st more = some next ∧ next.stops = st.stops ∧
      (∀ t ∈ tasks, next.status t = some .done) ∧ ∀ event ∈ more, ∃ t ∈ tasks, event = .finish t := by
  induction tasks generalizing st with
  | nil => exact ⟨[], st, rfl, rfl, by simp, by simp⟩
  | cons s tasks ih =>
    have rest : ∀ t ∈ tasks, 1 ≤ progress (st.status t) := fun t member => known t (List.mem_cons_of_mem _ member)
    have extend : ∀ {more : List (LoopEvent τ κ)}, (∀ event ∈ more, ∃ t ∈ tasks, event = .finish t) →
        ∀ event ∈ more, ∃ t ∈ s :: tasks, event = .finish t := by
      intro more finishing event member
      obtain ⟨t, inside, same⟩ := finishing event member
      exact ⟨t, List.mem_cons_of_mem _ inside, same⟩
    cases status : st.status s with
    | none =>
      have created := known s List.mem_cons_self
      rw [status] at created
      cases created
    | some status' =>
      cases status' with
      | done =>
        obtain ⟨more, next, ran, stops, finished, finishing⟩ := ih rest
        refine ⟨more, next, ran, stops, ?_, extend finishing⟩
        refine List.forall_mem_cons.mpr ⟨progress_done_iff.mp ?_, finished⟩
        exact (progress_done_iff.mpr status).trans (run_progress ran s)
      | running asked =>
        have stepped : st.step (.finish s) =
            some { st with status := Function.update st.status s (some .done) } := by
          rw [step, status]
        obtain ⟨more, next, ran, stops, finished, finishing⟩ :=
          ih fun t member => (rest t member).trans (step_progress stepped t)
        refine ⟨.finish s :: more, next, ?_, stops, ?_, ?_⟩
        · rw [Machine.run_cons]
          exact (congrArg (·.bind (machine.run · more)) stepped).trans ran
        · refine List.forall_mem_cons.mpr ⟨progress_done_iff.mp ?_, finished⟩
          have forward := run_progress ran s
          simpa [progress] using forward
        · exact List.forall_mem_cons.mpr ⟨⟨s, List.mem_cons_self, rfl⟩, extend finishing⟩

/-- Once the tasks that a call of `stop` found have finished it can return: nothing else holds it up,
neither tasks registered since nor other calls. -/
theorem stop_can_end (events : List (LoopEvent τ κ)) (c : κ) (st : EventLoop τ κ)
    (ran : machine.run {} events = some st) (called : (st.stops c).Called) :
    ∃ more ended, machine.run st more = some ended ∧ (ended.stops c).Ended ∧
      ∀ event ∈ more, event = .resume c ∨ ∃ t ∈ (st.stops c).children, event = .finish t := by
  cases call : st.stops c with
  | absent => rw [call] at called; exact called.elim
  | returned children => exact ⟨[], st, rfl, by rw [call]; trivial, by simp⟩
  | raised children => exact ⟨[], st, rfl, by rw [call]; trivial, by simp⟩
  | gathering children interrupted =>
    have known : ∀ t ∈ children.toList, 1 ≤ progress (st.status t) := by
      intro t member
      have asked := (run_sound ran).asked c t (by rw [call]; exact Finset.mem_toList.mp member)
      exact (Nat.le_succ 1).trans asked
    obtain ⟨more, next, finishes, stops, finished, finishing⟩ := finish_all children.toList known
    have settled : ∀ t ∈ children, next.status t = some .done := fun t member =>
      finished t (Finset.mem_toList.mpr member)
    obtain ⟨ended, stepped, concluded⟩ : ∃ ended, next.step (.resume c) = some ended ∧ (ended.stops c).Ended := by
      rw [step, stops, call]
      dsimp only
      rw [if_pos settled]
      split
      · exact ⟨_, rfl, by rw [setStop_stops, if_pos rfl]; trivial⟩
      · exact ⟨_, rfl, by rw [setStop_stops, if_pos rfl]; trivial⟩
    refine ⟨more ++ [.resume c], ended, ?_, concluded, ?_⟩
    · rw [Machine.run_concat, finishes]
      exact stepped
    · intro event member
      rcases List.mem_append.mp member with early | last
      · obtain ⟨t, inside, same⟩ := finishing event early
        exact Or.inr ⟨t, Finset.mem_toList.mp inside, same⟩
      · exact Or.inl (List.mem_singleton.mp last)

theorem stop_can_end_late : ∃ st : EventLoop Nat Nat,
    machine.run {} [.spawn 1, .stop 0, .spawn 2, .stop 3] = some st ∧
      ∃ more ended, machine.run st more = some ended ∧ (ended.stops 0).Ended := by
  have runs : (machine.run {} [.spawn 1, .stop 0, .spawn 2, .stop 3] : Option (EventLoop Nat Nat)).map (·.stops 0) =
      some (.gathering {1} false) := rfl
  obtain ⟨st, ran, waiting⟩ := Option.map_eq_some_iff.mp runs
  have called : (st.stops 0).Called := by rw [waiting]; trivial
  obtain ⟨more, ended, onward, concluded, _⟩ := stop_can_end _ 0 st ran called
  exact ⟨st, ran, more, ended, onward, concluded⟩

/-! ### Tasks that nobody waits for -/

/-- Some call of `stop` waits. -/
def Waiting (st : EventLoop τ κ) : Prop := ∃ c children interrupted, st.stops c = .gathering children interrupted

/-- The task was registered while some call of `stop` was already waiting. -/
def Late (events : List (LoopEvent τ κ)) (t : τ) : Prop :=
  ∃ before later found, events = before ++ .spawn t :: later ∧ machine.run {} before = some found ∧ found.Waiting

theorem Late.concat (late : Late events t) : Late (events ++ [event]) t := by
  obtain ⟨before, later, found, rfl, ran, waiting⟩ := late
  exact ⟨before, later ++ [event], found, by simp, ran, waiting⟩

theorem created_before (stepped : st.step event = some after) (created : 1 ≤ progress (after.status t)) :
    1 ≤ progress (st.status t) ∨ event = .spawn t := by
  have cancelled : ∀ children : Finset τ, 1 ≤ progress (st.cancelAll children t) → 1 ≤ progress (st.status t) := by
    intro children created
    unfold cancelAll at created
    split at created
    · cases status : st.status t with
      | none => rw [status] at created; exact created
      | some status' => cases status' with
        | running asked => cases asked <;> decide
        | done => decide
    · exact created
  cases step_effect stepped with
  | spawned s fresh =>
    by_cases same : t = s
    · exact Or.inr (by rw [same])
    · dsimp only at created
      rw [Function.update_of_ne same] at created
      exact Or.inl created
  | finished s asked alive =>
    by_cases same : t = s
    · rw [same, alive]
      exact Or.inl (by cases asked <;> decide)
    · dsimp only at created
      rw [Function.update_of_ne same] at created
      exact Or.inl created
  | gathers c first => exact Or.inl (cancelled _ created)
  | clears c first nothing => exact Or.inl created
  | interrupted c children before waiting => exact Or.inl (cancelled _ created)
  | returns c children waiting settled => exact Or.inl created
  | raises c children waiting settled => exact Or.inl created

/-- Every task is registered, done or late, and every call that waits has gathered the registered
tasks but the late ones. -/
structure Tracked (events : List (LoopEvent τ κ)) (st : EventLoop τ κ) : Prop where
  kept : ∀ t, 1 ≤ progress (st.status t) →
    t ∈ st.orchestrator.tasks ∨ 3 ≤ progress (st.status t) ∨ Late events t
  gathered : ∀ c children interrupted, st.stops c = .gathering children interrupted →
    ∀ t ∈ st.orchestrator.tasks, t ∈ children ∨ Late events t

theorem settled_concat (forward : progress (st.status t) ≤ progress (after.status t))
    (settled : 3 ≤ progress (st.status t) ∨ Late events t) :
    3 ≤ progress (after.status t) ∨ Late (events ++ [event]) t :=
  settled.imp (fun done => done.trans forward) Late.concat

/-- A step that moves one call of `stop` and creates no task. -/
theorem Tracked.setStop (tracked : Tracked events st) {moved : EventLoop τ κ} {call : StopCall τ}
    (same : moved.stops = st.stops) (forward : ∀ t, progress (st.status t) ≤ progress (moved.status t))
    (created : ∀ t, 1 ≤ progress (moved.status t) → 1 ≤ progress (st.status t))
    (registered : moved.orchestrator.tasks = st.orchestrator.tasks)
    (own : ∀ children interrupted, call = .gathering children interrupted →
      ∀ t ∈ st.orchestrator.tasks, t ∈ children ∨ Late events t) :
    Tracked (events ++ [event]) (moved.setStop c call) := by
  constructor
  case kept =>
    intro t known
    rw [show (moved.setStop c call).orchestrator.tasks = st.orchestrator.tasks from registered]
    exact (tracked.kept t (created t known)).imp_right (settled_concat (forward t))
  case gathered =>
    intro d children interrupted waiting t member
    have inside : t ∈ st.orchestrator.tasks := registered ▸ member
    rw [setStop_stops, same] at waiting
    split at waiting
    · exact (own children interrupted waiting t inside).imp_right Late.concat
    · exact (tracked.gathered d children interrupted waiting t inside).imp_right Late.concat

/-- A call of `stop` that leaves the set empty. -/
theorem Tracked.clear (tracked : Tracked events st) {call : StopCall τ} {stopping : Bool}
    (concluded : ∀ t ∈ st.orchestrator.tasks, 3 ≤ progress (st.status t) ∨ Late events t) :
    Tracked (events ++ [event]) ({ st with orchestrator := ⟨∅, stopping⟩ }.setStop c call) := by
  constructor
  case kept =>
    intro t known
    exact Or.inr (settled_concat le_rfl ((tracked.kept t known).elim (concluded t) id))
  case gathered =>
    intro d children interrupted _ t member
    exact absurd member (Finset.notMem_empty t)

theorem Tracked.step (tracked : Tracked events st) (ran : machine.run {} events = some st)
    (stepped : st.step event = some after) : Tracked (events ++ [event]) after := by
  have forward := step_progress stepped
  have created := fun t => created_before (t := t) stepped
  cases step_effect stepped with
  | spawned s fresh =>
    constructor
    case kept =>
      intro t known
      rcases created t known with earlier | same
      · exact (tracked.kept t earlier).imp Finset.mem_insert_of_mem (settled_concat (forward t))
      · cases same
        exact Or.inl (Finset.mem_insert_self ..)
    case gathered =>
      intro c children interrupted waiting t member
      rcases Finset.mem_insert.mp member with rfl | earlier
      · exact Or.inr ⟨events, [], st, rfl, ran, c, children, interrupted, waiting⟩
      · exact (tracked.gathered c children interrupted waiting t earlier).imp_right Late.concat
  | finished s asked alive =>
    constructor
    case kept =>
      intro t known
      rcases created t known with earlier | same
      · exact (tracked.kept t earlier).imp_right (settled_concat (forward t))
      · cases same
    case gathered =>
      intro c children interrupted waiting t member
      exact (tracked.gathered c children interrupted waiting t member).imp_right Late.concat
  | gathers c first =>
    refine tracked.setStop rfl forward (fun t known => (created t known).resolve_right (by simp)) rfl ?_
    intro children interrupted same t member
    cases same
    exact Or.inl member
  | clears c first nothing =>
    refine tracked.clear ?_
    intro t member
    rw [nothing] at member
    exact absurd member (Finset.notMem_empty t)
  | interrupted c children before waiting =>
    refine tracked.setStop rfl forward (fun t known => (created t known).resolve_right (by simp)) rfl ?_
    intro gathered interrupted same
    cases same
    exact tracked.gathered c children before waiting
  | returns c children waiting settled =>
    refine tracked.clear ?_
    intro t member
    rcases tracked.gathered c children false waiting t member with inside | late
    · exact Or.inl (progress_done_iff.mpr (settled t inside))
    · exact Or.inr late
  | raises c children waiting settled =>
    refine tracked.setStop rfl forward (fun t known => known) rfl ?_
    intro gathered interrupted same
    cases same

theorem run_tracked (ran : machine.run {} events = some st) : Tracked events st := by
  have start : Tracked ([] : List (LoopEvent τ κ)) {} := by
    constructor
    · intro t known
      cases known
    · intro c children interrupted waiting
      cases waiting
  exact Machine.run_induction (motive := Tracked) start
    (fun _ _ _ _ tracked ran stepped => tracked.step ran stepped) ran

omit [DecidableEq τ] [DecidableEq κ] in
theorem created_progress (created : st.status t ≠ none) : 1 ≤ progress (st.status t) := by
  cases status : st.status t with
  | none => exact absurd status created
  | some status' => cases status' with
    | running asked => cases asked <;> decide
    | done => decide

/-- No task is lost track of, in any interleaving: it is registered, it is done, or it was registered
while a call of `stop` was already waiting. -/
theorem orphans_late (events : List (LoopEvent τ κ)) (st : EventLoop τ κ) (t : τ)
    (ran : machine.run {} events = some st) (created : st.status t ≠ none) :
    t ∈ st.orchestrator.tasks ∨ st.status t = some .done ∨ Late events t :=
  ((run_tracked ran).kept t (created_progress created)).imp_right (Or.imp_left progress_done_iff.mp)

/-- Such a task does get lost: it was never asked to stop, and nobody waits for it. -/
theorem late_task_orphaned : ∃ st : EventLoop Nat Nat,
    machine.run {} [.spawn 1, .stop 0, .spawn 2, .finish 1, .resume 0] = some st ∧ st.status 2 ≠ none ∧
      ¬ (2 ∈ st.orchestrator.tasks ∨ st.status 2 = some .done) ∧
      (2 ∈ st.orchestrator.tasks ∨ st.status 2 = some .done ∨
        Late [LoopEvent.spawn 1, .stop 0, .spawn 2, .finish 1, .resume 0] 2) := by
  have facts : (machine.run {} [.spawn 1, .stop 0, .spawn 2, .finish 1, .resume 0] : Option (EventLoop Nat Nat)).map
      (fun st => (st.status 2, decide (2 ∈ st.orchestrator.tasks))) = some (some (.running false), false) := by
    decide +kernel
  obtain ⟨st, ran, found⟩ := Option.map_eq_some_iff.mp facts
  obtain ⟨status, unregistered⟩ := Prod.mk.inj found
  have created : st.status 2 ≠ none := by simp [status]
  exact ⟨st, ran, created, by simp [status, of_decide_eq_false unregistered], orphans_late _ st 2 ran created⟩

/-- At the moment a call of `stop` is over, every task is done but the late ones. -/
theorem ending_settles (ran : machine.run {} events = some st) (stepped : st.step event = some after)
    (under : ¬ (st.stops c).Ended) (concluded : (after.stops c).Ended) (created : after.status t ≠ none) :
    after.status t = some .done ∨ Late (events ++ [event]) t := by
  have tracked := run_tracked ran
  have next : Tracked (events ++ [event]) after := tracked.step ran stepped
  have rest : t ∉ after.orchestrator.tasks → after.status t = some .done ∨ Late (events ++ [event]) t := by
    intro unregistered
    rcases next.kept t (created_progress created) with inside | done | late
    · exact absurd inside unregistered
    · exact Or.inl (progress_done_iff.mp done)
    · exact Or.inr late
  cases step_effect stepped with
  | spawned s fresh => exact absurd concluded under
  | finished s asked alive => exact absurd concluded under
  | gathers d first =>
    rw [setStop_stops] at concluded
    split at concluded
    · exact concluded.elim
    · exact absurd concluded under
  | clears d first nothing => exact rest (Finset.notMem_empty t)
  | interrupted d children before waiting =>
    rw [setStop_stops] at concluded
    split at concluded
    · exact concluded.elim
    · exact absurd concluded under
  | returns d children waiting settled => exact rest (Finset.notMem_empty t)
  | raises d children waiting settled =>
    by_cases inside : t ∈ st.orchestrator.tasks
    · rcases tracked.gathered d children true waiting t inside with own | late
      · exact Or.inl (settled t own)
      · exact Or.inr late.concat
    · exact rest inside

end EventLoop
end DeepFlow.Pipeline
