import Mathlib.Data.List.Induction

/-!
# Machines with partial steps

A machine takes events one at a time; an event that is not enabled stops the run. Facts about runs
come from facts about steps by induction on the history, and a component of a machine is isolated
by a projection: a view of the events that reach the component and an abstraction of the state onto
it such that every other event leaves the abstraction alone. A machine built on another is a
simulation: each of its steps is some steps of the one below.
-/

namespace Foundation

structure Machine (σ ε : Type*) where
  step : σ → ε → Option σ

namespace Machine

variable {σ τ ε δ : Type*} {m : Machine σ ε} {n : Machine τ δ} {s t : σ} {es fs : List ε}

def run (m : Machine σ ε) (s : σ) (es : List ε) : Option σ := es.foldlM m.step s

/-- The state each event of a run found. -/
def moments (m : Machine σ ε) : σ → List ε → List (σ × ε)
  | _, [] => []
  | s, e :: es =>
    (s, e) :: match m.step s e with
      | some t => moments m t es
      | none => []

@[simp] theorem run_nil : m.run s [] = some s := rfl

@[simp] theorem run_cons (e : ε) : m.run s (e :: es) = (m.step s e).bind (m.run · es) := by
  simp only [run, List.foldlM_cons]
  rfl

theorem run_append : m.run s (es ++ fs) = (m.run s es).bind (m.run · fs) := by
  simp only [run, List.foldlM_append]
  rfl

theorem run_concat (e : ε) : m.run s (es ++ [e]) = (m.run s es).bind (m.step · e) := by
  rw [run_append]
  congr 1
  funext t
  simp

theorem run_split (ran : m.run s (es ++ fs) = some t) : ∃ u, m.run s es = some u ∧ m.run u fs = some t :=
  Option.bind_eq_some_iff.mp (run_append ▸ ran)

theorem run_cons_split {e : ε} (ran : m.run s (e :: es) = some t) :
    ∃ u, m.step s e = some u ∧ m.run u es = some t :=
  Option.bind_eq_some_iff.mp (run_cons e ▸ ran)

/-- What holds of the empty history and is kept by one more step holds of every history. -/
theorem run_induction {motive : List ε → σ → Prop} (start : motive [] s)
    (advance : ∀ es t e u, motive es t → m.run s es = some t → m.step t e = some u → motive (es ++ [e]) u)
    (ran : m.run s es = some t) : motive es t := by
  induction es using List.reverseRecOn generalizing t with
  | nil =>
    cases ran
    exact start
  | append_singleton es e ih =>
    obtain ⟨u, before, last⟩ := Option.bind_eq_some_iff.mp (run_concat e ▸ ran)
    exact advance es u e t (ih before) before last

theorem run_invariant (inv : σ → Prop) (kept : ∀ s e t, inv s → m.step s e = some t → inv t)
    (start : inv s) (ran : m.run s es = some t) : inv t :=
  run_induction (motive := fun _ => inv) start (fun _ t e u held _ stepped => kept t e u held stepped) ran

theorem moments_append (ran : m.run s es = some t) : m.moments s (es ++ fs) = m.moments s es ++ m.moments t fs := by
  induction es generalizing s with
  | nil =>
    cases ran
    rfl
  | cons e es ih =>
    obtain ⟨u, stepped, rest⟩ := run_cons_split ran
    simp only [List.cons_append, moments, stepped, ih rest]

theorem moments_concat {e : ε} (ran : m.run s es = some t) : m.moments s (es ++ [e]) = m.moments s es ++ [(t, e)] := by
  rw [moments_append ran]
  simp only [moments]
  cases m.step t e <;> rfl

theorem moments_events (ran : m.run s es = some t) : (m.moments s es).map Prod.snd = es := by
  induction es generalizing s with
  | nil => rfl
  | cons e es ih =>
    obtain ⟨u, stepped, rest⟩ := run_cons_split ran
    simp only [moments, stepped, List.map_cons, ih rest]

/-- Some event of the history found the machine in some state. -/
def Met (m : Machine σ ε) (s : σ) (es : List ε) (meets : σ → ε → Prop) : Prop :=
  ∃ before e later found, es = before ++ e :: later ∧ m.run s before = some found ∧ meets found e

section Met
variable {meets : σ → ε → Prop} {e : ε}

theorem Met.concat (met : m.Met s es meets) : m.Met s (es ++ [e]) meets := by
  obtain ⟨before, first, later, found, rfl, ran, here⟩ := met
  exact ⟨before, first, later ++ [e], found, by simp, ran, here⟩

theorem Met.last (ran : m.run s es = some t) (here : meets t e) : m.Met s (es ++ [e]) meets :=
  ⟨es, e, [], t, rfl, ran, here⟩

end Met

/-- A machine that no event stops. -/
def total (f : σ → ε → σ) : Machine σ ε := ⟨fun s e => some (f s e)⟩

theorem total_run {f : σ → ε → σ} : (total f).run s es = some (es.foldl f s) := by
  induction es generalizing s with
  | nil => rfl
  | cons e es ih => rw [run_cons, List.foldl_cons, ← ih]; rfl

/-- `n` is what `m` does to one of its components. -/
structure Projection (m : Machine σ ε) (n : Machine τ δ) (view : ε → Option δ) (abs : σ → τ) : Prop where
  hidden : ∀ {s e t}, m.step s e = some t → view e = none → abs t = abs s
  shown : ∀ {s e t d}, m.step s e = some t → view e = some d → n.step (abs s) d = some (abs t)

namespace Projection

variable {view : ε → Option δ} {abs : σ → τ}

theorem run (p : Projection m n view abs) (ran : m.run s es = some t) :
    n.run (abs s) (es.filterMap view) = some (abs t) := by
  induction es generalizing s with
  | nil =>
    cases ran
    rfl
  | cons e es ih =>
    obtain ⟨u, stepped, rest⟩ := run_cons_split ran
    cases seen : view e with
    | none => rw [List.filterMap_cons_none seen, ← p.hidden stepped seen, ih rest]
    | some d => rw [List.filterMap_cons_some seen, run_cons, p.shown stepped seen, Option.bind_some, ih rest]

theorem moments (p : Projection m n view abs) (ran : m.run s es = some t) :
    n.moments (abs s) (es.filterMap view) =
      (m.moments s es).filterMap fun moment => (view moment.2).map (abs moment.1, ·) := by
  induction es generalizing s with
  | nil => rfl
  | cons e es ih =>
    obtain ⟨u, stepped, rest⟩ := run_cons_split ran
    cases seen : view e with
    | none =>
      rw [List.filterMap_cons_none seen, ← p.hidden stepped seen, ih rest]
      simp [Machine.moments, stepped, seen]
    | some d =>
      rw [List.filterMap_cons_some seen]
      simp [Machine.moments, stepped, seen, p.shown stepped seen, ih rest]

/-- Two machines that show a component the same events leave it in the same state. -/
theorem agree {σ' ε' : Type*} {m' : Machine σ' ε'} {view' : ε' → Option δ} {abs' : σ' → τ} {s' t' : σ'}
    {es' : List ε'} (p : Projection m n view abs) (p' : Projection m' n view' abs')
    (ran : m.run s es = some t) (ran' : m'.run s' es' = some t') (start : abs s = abs' s')
    (same : es.filterMap view = es'.filterMap view') : abs t = abs' t' := by
  have left := p.run ran
  rw [start, same, p'.run ran'] at left
  exact (Option.some.inj left).symm

end Projection

/-- What the steps of a run are on the machine below, in order. -/
def emitted (m : Machine σ ε) (emit : σ → ε → List δ) : σ → List ε → List δ
  | _, [] => []
  | s, e :: es =>
    emit s e ++ match m.step s e with
      | some t => emitted m emit t es
      | none => []

structure Simulation (m : Machine σ ε) (n : Machine τ δ) (emit : σ → ε → List δ) (abs : σ → τ) : Prop where
  stepped : ∀ {s e t}, m.step s e = some t → n.run (abs s) (emit s e) = some (abs t)

section Emitted
variable {emit : σ → ε → List δ} {abs : σ → τ}

theorem emitted_append (ran : m.run s es = some t) :
    m.emitted emit s (es ++ fs) = m.emitted emit s es ++ m.emitted emit t fs := by
  induction es generalizing s with
  | nil =>
    cases ran
    rfl
  | cons e es ih =>
    obtain ⟨u, stepped, rest⟩ := run_cons_split ran
    simp only [List.cons_append, emitted, stepped, ih rest, List.append_assoc]

theorem Simulation.run (sim : Simulation m n emit abs) (ran : m.run s es = some t) :
    n.run (abs s) (m.emitted emit s es) = some (abs t) := by
  induction es generalizing s with
  | nil =>
    cases ran
    rfl
  | cons e es ih =>
    obtain ⟨u, stepped, rest⟩ := run_cons_split ran
    simp only [emitted, stepped, run_append, sim.stepped stepped, Option.bind_some, ih rest]

end Emitted
end Machine
end Foundation
