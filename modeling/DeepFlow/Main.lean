import DeepFlow.Pipeline.Orchestrator

/-!
# The process

`run` starts the orchestrator, waits for a signal and stops it on the way out, whichever way that is.
Its own call of `stop` is one among those that others may make of the same orchestrator.
-/

namespace DeepFlow
open Foundation Pipeline

/-- Where `run` stands. `pending` is the exception that its `finally` block was entered with. -/
inductive Phase (ε : Type*) where
  | starting
  | serving
  | leaving (pending : Option ε)
  | exited (result : Except ε Int)

/-- The call `none` of `stop` is the one that `run` makes. -/
structure Process (τ κ ε : Type*) where
  loop : EventLoop τ (Option κ) := {}
  phase : Phase ε := .starting
  signalled : Bool := false

inductive ProcessEvent (τ κ ε : Type*) where
  -- `orchestrator.start()` returns.
  | started
  -- It raises, or `run` is cancelled while it starts or waits for a signal.
  | raised (error : ε)
  | signal
  | served
  -- `run` is cancelled while it waits for `stop`.
  | interrupt
  | stopped
  -- The tasks, and other callers of `stop`.
  | other (event : LoopEvent τ κ)

def elsewhere {τ κ : Type*} : LoopEvent τ κ → LoopEvent τ (Option κ)
  | .spawn task => .spawn task
  | .finish task => .finish task
  | .stop call => .stop (some call)
  | .interrupt call => .interrupt (some call)
  | .resume call => .resume (some call)

namespace Process

variable {τ κ ε : Type*} [DecidableEq τ] [DecidableEq κ] {cancelled : ε} {st next : Process τ κ ε}
  {event : ProcessEvent τ κ ε} {events : List (ProcessEvent τ κ ε)} {t : τ}

def exit (pending : Option ε) : Phase ε :=
  match pending with
  | some error => .exited (.error error)
  | none => .exited (.ok 0)

/-- The `finally` block. -/
def leave (st : Process τ κ ε) (pending : Option ε) : Option (Process τ κ ε) :=
  (st.loop.step (.stop none)).map fun loop =>
    match loop.stops none with
    | .gathering _ _ => { st with loop, phase := .leaving pending }
    | _ => { st with loop, phase := exit pending }

def step (cancelled : ε) (st : Process τ κ ε) : ProcessEvent τ κ ε → Option (Process τ κ ε)
  | .started =>
    match st.phase with
    | .starting => if st.signalled then st.leave none else some { st with phase := .serving }
    | _ => none
  | .raised error =>
    match st.phase with
    | .starting => st.leave (some error)
    | .serving => st.leave (some error)
    | _ => none
  | .signal => some { st with signalled := true }
  | .served =>
    match st.phase with
    | .serving => if st.signalled then st.leave none else none
    | _ => none
  | .interrupt =>
    match st.phase with
    | .leaving _ => (st.loop.step (.interrupt none)).map fun loop => { st with loop }
    | _ => none
  | .stopped =>
    match st.phase with
    | .leaving pending => (st.loop.step (.resume none)).map fun loop =>
        match loop.stops none with
        | .raised _ => { st with loop, phase := .exited (.error cancelled) }
        | _ => { st with loop, phase := exit pending }
    | _ => none
  | .other event => (st.loop.step (elsewhere event)).map fun loop => { st with loop }

def machine (cancelled : ε) : Machine (Process τ κ ε) (ProcessEvent τ κ ε) := ⟨step cancelled⟩

/-- What an event of the process is in the event loop. -/
def emit (st : Process τ κ ε) : ProcessEvent τ κ ε → List (LoopEvent τ (Option κ))
  | .started => if st.signalled then [.stop none] else []
  | .raised _ => [.stop none]
  | .signal => []
  | .served => [.stop none]
  | .interrupt => [.interrupt none]
  | .stopped => [.resume none]
  | .other event => [elsewhere event]

/-! ### What a step can do -/

theorem leave_loop {pending : Option ε} (left : st.leave pending = some next) :
    st.loop.step (.stop none) = some next.loop ∧ next.signalled = st.signalled ∧
      ((∃ children again, next.loop.stops none = .gathering children again) ∧ next.phase = .leaving pending ∨
        (next.loop.stops none).Ended ∧ next.phase = exit pending) := by
  obtain ⟨loop, stepped, same⟩ := Option.map_eq_some_iff.mp left
  cases EventLoop.step_effect stepped with
  | gathers _ first =>
    rw [EventLoop.setStop_stops, if_pos rfl] at same
    subst same
    exact ⟨stepped, rfl, Or.inl ⟨⟨_, _, (EventLoop.setStop_stops ..).trans (if_pos rfl)⟩, rfl⟩⟩
  | clears _ first nothing =>
    rw [EventLoop.setStop_stops, if_pos rfl] at same
    subst same
    refine ⟨stepped, rfl, Or.inr ⟨?_, rfl⟩⟩
    rw [EventLoop.setStop_stops, if_pos rfl]
    trivial

inductive Effect (cancelled : ε) (st : Process τ κ ε) : ProcessEvent τ κ ε → Process τ κ ε → Prop where
  | serves (starting : st.phase = .starting) (quiet : st.signalled = false) :
      Effect cancelled st .started { st with phase := .serving }
  | leaves (event : ProcessEvent τ κ ε) (pending : Option ε) (next : Process τ κ ε)
      (asks : emit st event = [.stop none])
      (why : pending = none → st.signalled = true ∧ (event = .started ∨ st.phase = .serving))
      (left : st.leave pending = some next) : Effect cancelled st event next
  | signals : Effect cancelled st .signal { st with signalled := true }
  | interrupted (pending : Option ε) (loop : EventLoop τ (Option κ)) (phase : st.phase = .leaving pending)
      (moved : st.loop.step (.interrupt none) = some loop) : Effect cancelled st .interrupt { st with loop }
  | returns (pending : Option ε) (loop : EventLoop τ (Option κ)) (phase : st.phase = .leaving pending)
      (moved : st.loop.step (.resume none) = some loop) (whole : ∀ children, loop.stops none ≠ .raised children) :
      Effect cancelled st .stopped { st with loop, phase := exit pending }
  | fails (pending : Option ε) (loop : EventLoop τ (Option κ)) (phase : st.phase = .leaving pending)
      (moved : st.loop.step (.resume none) = some loop) (children : Finset τ)
      (cut : loop.stops none = .raised children) :
      Effect cancelled st .stopped { st with loop, phase := .exited (.error cancelled) }
  | other (event : LoopEvent τ κ) (loop : EventLoop τ (Option κ)) (moved : st.loop.step (elsewhere event) = some loop) :
      Effect cancelled st (.other event) { st with loop }

theorem step_effect (stepped : st.step cancelled event = some next) : Effect cancelled st event next := by
  cases event with
  | started =>
    simp only [step] at stepped
    split at stepped
    · next starting =>
      split at stepped
      · next signalled => exact .leaves _ none _ (if_pos signalled) (fun _ => ⟨signalled, .inl rfl⟩) stepped
      · next quiet =>
        cases stepped
        exact .serves starting (Bool.eq_false_iff.mpr quiet)
    · cases stepped
  | raised error =>
    simp only [step] at stepped
    split at stepped
    · exact .leaves _ (some error) _ rfl (fun none => by cases none) stepped
    · exact .leaves _ (some error) _ rfl (fun none => by cases none) stepped
    · cases stepped
  | signal =>
    cases stepped
    exact .signals
  | served =>
    simp only [step] at stepped
    split at stepped
    · next serving =>
      split at stepped
      · next signalled => exact .leaves _ none _ rfl (fun _ => ⟨signalled, .inr serving⟩) stepped
      · cases stepped
    · cases stepped
  | interrupt =>
    simp only [step] at stepped
    split at stepped
    · next pending phase =>
      obtain ⟨loop, moved, rfl⟩ := Option.map_eq_some_iff.mp stepped
      exact .interrupted pending loop phase moved
    · cases stepped
  | stopped =>
    simp only [step] at stepped
    split at stepped
    · next pending phase =>
      obtain ⟨loop, moved, same⟩ := Option.map_eq_some_iff.mp stepped
      split at same
      · next children cut => cases same; exact .fails pending loop phase moved children cut
      · next whole => cases same; exact .returns pending loop phase moved whole
    · cases stepped
  | other event =>
    obtain ⟨loop, moved, rfl⟩ := Option.map_eq_some_iff.mp stepped
    exact .other event loop moved

/-! ### On the event loop -/

/-- Every event of the process is at most one in the event loop. -/
theorem step_loop (stepped : st.step cancelled event = some next) :
    emit st event = [] ∧ next.loop = st.loop ∨ ∃ op, emit st event = [op] ∧ st.loop.step op = some next.loop := by
  cases step_effect stepped with
  | serves starting quiet => exact Or.inl ⟨by rw [emit, quiet]; rfl, rfl⟩
  | leaves _ pending _ asks why left => exact Or.inr ⟨.stop none, asks, (leave_loop left).1⟩
  | signals => exact Or.inl ⟨rfl, rfl⟩
  | interrupted pending loop phase moved => exact Or.inr ⟨.interrupt none, rfl, moved⟩
  | returns pending loop phase moved whole => exact Or.inr ⟨.resume none, rfl, moved⟩
  | fails pending loop phase moved children cut => exact Or.inr ⟨.resume none, rfl, moved⟩
  | other event loop moved => exact Or.inr ⟨elsewhere event, rfl, moved⟩

theorem simulation (cancelled : ε) :
    (machine cancelled : Machine (Process τ κ ε) (ProcessEvent τ κ ε)).Simulation EventLoop.machine emit loop where
  stepped := by
    intro st event next stepped
    rcases step_loop stepped with ⟨quiet, same⟩ | ⟨op, one, moved⟩
    · rw [quiet, same]
      rfl
    · rw [one]
      simpa [EventLoop.machine] using moved

/-! ### On the way out -/

/-- The orchestrator had started and a signal had arrived. -/
def Answered (events : List (ProcessEvent τ κ ε)) (st : Process τ κ ε) : Prop := st.signalled = true ∧ .started ∈ events

/-- What each phase says about the call of `stop` and about why it was made. -/
def Sound (events : List (ProcessEvent τ κ ε)) (st : Process τ κ ε) : Prop :=
  match st.phase with
  | .starting => st.loop.stops none = .absent
  | .serving => st.loop.stops none = .absent ∧ .started ∈ events
  | .leaving pending => (∃ children again, st.loop.stops none = .gathering children again) ∧
      (pending = none → Answered events st)
  | .exited result => (st.loop.stops none).Ended ∧ ∀ code, result = .ok code → code = 0 ∧ Answered events st

omit [DecidableEq τ] [DecidableEq κ] in
theorem sound_exit {pending : Option ε} (phase : st.phase = exit pending) (concluded : (st.loop.stops none).Ended)
    (answered : pending = none → Answered events st) : Sound events st := by
  cases pending with
  | some error =>
    simp only [Sound, phase, exit]
    exact ⟨concluded, fun code same => by cases same⟩
  | none =>
    simp only [Sound, phase, exit]
    refine ⟨concluded, fun code same => ?_⟩
    cases same
    exact ⟨rfl, answered rfl⟩

theorem leave_sound {pending : Option ε} (left : st.leave pending = some next)
    (answered : pending = none → Answered events st) : Sound events next := by
  obtain ⟨-, signalled, way⟩ := leave_loop left
  have kept : pending = none → Answered events next := fun none => by
    rw [Answered, signalled]
    exact answered none
  rcases way with ⟨waiting, phase⟩ | ⟨concluded, phase⟩
  · simp only [Sound, phase]
    exact ⟨waiting, kept⟩
  · exact sound_exit phase concluded kept

theorem elsewhere_stops {loop after : EventLoop τ (Option κ)} {event : LoopEvent τ κ}
    (stepped : loop.step (elsewhere event) = some after) : after.stops none = loop.stops none := by
  cases event with
  | spawn s => cases EventLoop.step_effect stepped; rfl
  | finish s => cases EventLoop.step_effect stepped; rfl
  | stop c => cases EventLoop.step_effect stepped <;> exact (EventLoop.setStop_stops ..).trans (if_neg (by simp))
  | interrupt c => cases EventLoop.step_effect stepped; exact (EventLoop.setStop_stops ..).trans (if_neg (by simp))
  | resume c => cases EventLoop.step_effect stepped <;> exact (EventLoop.setStop_stops ..).trans (if_neg (by simp))

omit [DecidableEq τ] [DecidableEq κ] in
theorem Answered.concat (answered : Answered events st) : Answered (events ++ [event]) st :=
  ⟨answered.1, List.mem_append_left _ answered.2⟩

omit [DecidableEq τ] [DecidableEq κ] in
/-- A step that leaves the phase and the call of `stop` as they are. -/
theorem Sound.keep (sound : Sound events st) (phase : next.phase = st.phase)
    (call : next.loop.stops none = st.loop.stops none) (signalled : st.signalled = true → next.signalled = true) :
    Sound (events ++ [event]) next := by
  have kept : Answered events st → Answered (events ++ [event]) next := fun answered =>
    ⟨signalled answered.1, List.mem_append_left _ answered.2⟩
  unfold Sound at sound ⊢
  rw [phase, call]
  split at sound
  · exact sound
  · exact ⟨sound.1, List.mem_append_left _ sound.2⟩
  · exact ⟨sound.1, fun none => kept (sound.2 none)⟩
  · exact ⟨sound.1, fun code same => ⟨(sound.2 code same).1, kept (sound.2 code same).2⟩⟩

theorem Sound.step (sound : Sound events st) (stepped : st.step cancelled event = some next) :
    Sound (events ++ [event]) next := by
  cases step_effect stepped with
  | serves starting quiet =>
    simp only [Sound, starting] at sound ⊢
    exact ⟨sound, by simp⟩
  | leaves _ pending _ asks why left =>
    refine leave_sound left fun none => ?_
    obtain ⟨signalled, rfl | serving⟩ := why none
    · exact ⟨signalled, by simp⟩
    · simp only [Sound, serving] at sound
      exact ⟨signalled, List.mem_append_left _ sound.2⟩
  | signals => exact sound.keep rfl rfl fun _ => rfl
  | interrupted pending loop phase moved =>
    simp only [Sound, phase] at sound ⊢
    cases EventLoop.step_effect moved with
    | interrupted _ children before waiting =>
      exact ⟨⟨_, _, (EventLoop.setStop_stops ..).trans (if_pos rfl)⟩, fun none => (sound.2 none).concat⟩
  | returns pending loop phase moved whole =>
    simp only [Sound, phase] at sound
    cases EventLoop.step_effect moved with
    | returns _ children waiting settled =>
      refine sound_exit rfl ?_ fun none => (sound.2 none).concat
      rw [EventLoop.setStop_stops, if_pos rfl]
      trivial
    | raises _ children waiting settled => exact absurd ((EventLoop.setStop_stops ..).trans (if_pos rfl)) (whole _)
  | fails pending loop phase moved children cut => exact ⟨cut ▸ trivial, fun code same => by cases same⟩
  | other event loop moved => exact sound.keep rfl (elsewhere_stops moved) id

theorem run_sound (ran : (machine cancelled).run {} events = some st) : Sound events st := by
  have start : Sound ([] : List (ProcessEvent τ κ ε)) {} := rfl
  exact Machine.run_induction (motive := Sound) start (fun _ _ _ _ sound _ stepped => sound.step stepped) ran

/-- Whichever way `run` is left (by a signal, by a start that raises, cancelled while it serves or
while it stops), at that moment the orchestrator is not running and every task it was ever given is
done, except those registered while a call of `stop` was already waiting; and it returns normally only
with 0, after a start and a signal. -/
theorem run_leaves_stopped (cancelled : ε) (events : List (ProcessEvent τ κ ε)) (last : ProcessEvent τ κ ε)
    (st next : Process τ κ ε) (result : Except ε Int) (ran : (machine cancelled).run {} events = some st)
    (stepped : st.step cancelled last = some next) (inside : ∀ result, st.phase ≠ .exited result)
    (left : next.phase = .exited result) :
    next.loop.orchestrator.isRunning = false ∧
    (∀ t, next.loop.status t ≠ none → next.loop.status t = some .done ∨
      EventLoop.Late ((machine cancelled).emitted emit {} (events ++ [last])) t) ∧
    ∀ code, result = .ok code → code = 0 ∧ next.signalled = true ∧ .started ∈ events ++ [last] := by
  have before := run_sound ran
  have after : Sound (events ++ [last]) next := before.step stepped
  simp only [Sound, left] at after
  have under : ¬ (st.loop.stops none).Ended := by
    intro concluded
    cases phase : st.phase with
    | exited result => exact inside result phase
    | starting =>
      simp only [Sound, phase] at before
      rw [before] at concluded
      exact concluded
    | serving =>
      simp only [Sound, phase] at before
      rw [before.1] at concluded
      exact concluded
    | leaving pending =>
      simp only [Sound, phase] at before
      obtain ⟨⟨children, again, waiting⟩, -⟩ := before
      rw [waiting] at concluded
      exact concluded
  have ranLoop : EventLoop.machine.run {} ((machine cancelled).emitted emit {} events) = some st.loop :=
    (simulation cancelled).run ran
  obtain ⟨op, one, moved⟩ : ∃ op, emit st last = [op] ∧ st.loop.step op = some next.loop := by
    rcases step_loop stepped with ⟨-, same⟩ | moves
    · exact absurd (same ▸ after.1) under
    · exact moves
  have emitted : (machine cancelled).emitted emit {} (events ++ [last]) =
      (machine cancelled).emitted emit {} events ++ [op] := by
    rw [Machine.emitted_append ran]
    simp [Machine.emitted, one, machine, stepped]
  refine ⟨?_, ?_, after.2⟩
  · have sound : EventLoop.Sound next.loop := (EventLoop.run_sound ranLoop).step moved
    have called : (next.loop.stops none).Called := by
      cases call : next.loop.stops none with
      | absent => rw [call] at after; exact after.1.elim
      | gathering children again => trivial
      | returned children => trivial
      | raised children => trivial
    rw [Orchestrator.isRunning, sound.stopping none called, Bool.not_true, Bool.and_false]
  · intro t created
    rw [emitted]
    exact EventLoop.ending_settles ranLoop moved under after.1 created

theorem run_leaves_stopped_signalled : ∃ st next : Process Nat Nat String,
    (machine "CancelledError").run {} [.other (.spawn 1), .started, .signal, .served, .other (.finish 1)] = some st ∧
      st.step "CancelledError" .stopped = some next ∧ next.loop.orchestrator.isRunning = false := by
  let events : List (ProcessEvent Nat Nat String) :=
    [.other (.spawn 1), .started, .signal, .served, .other (.finish 1)]
  have facts : ((machine "CancelledError").run {} events).map (fun st =>
      ((match st.phase with | .leaving none => true | _ => false),
        (st.step "CancelledError" .stopped).map fun next =>
          match next.phase with | .exited (.ok 0) => true | _ => false)) =
      some (true, some true) := by decide +kernel
  obtain ⟨st, ran, found⟩ := Option.map_eq_some_iff.mp facts
  obtain ⟨leaving, exits⟩ := Prod.mk.inj found
  obtain ⟨next, stepped, exited⟩ := Option.map_eq_some_iff.mp exits
  have inside : ∀ result, st.phase ≠ .exited result := by
    intro result same
    rw [same] at leaving
    cases leaving
  obtain ⟨result, left⟩ : ∃ result, next.phase = .exited result := by
    split at exited
    · exact ⟨_, by assumption⟩
    · cases exited
  exact ⟨st, next, ran, stepped, (run_leaves_stopped _ events .stopped st next result ran stepped inside left).1⟩

end Process
end DeepFlow
