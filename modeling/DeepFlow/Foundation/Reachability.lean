import Mathlib.Data.List.Chain
import DeepFlow.Foundation.Walk

/-!
# Reachability

Walks compose and come apart at their visits. That a state can be reached is shown by a walk, given
as the list of its states; that it cannot, or not around some gate, by a set that no step leaves.
-/

namespace Foundation

variable {σ : Type*} {edge : σ → σ → Prop} {origin s t : σ} {visits more : List σ}

namespace Walk

theorem trans (walk : Walk edge origin visits s) (onward : Walk edge s (s :: more) t) :
    Walk edge origin (visits ++ more) t := by
  suffices extend : ∀ {onwards t}, Walk edge s onwards t → ∀ more, onwards = s :: more →
      Walk edge origin (visits ++ more) t from extend onward more rfl
  intro onwards t onward
  induction onward with
  | start =>
    intro more same
    obtain rfl := (List.cons.inj same).2
    simpa using walk
  | @step past source target onward taken ih =>
    intro more same
    cases past with
    | nil =>
      obtain ⟨before, last⟩ := onward.last
      simp at last
    | cons first past =>
      obtain ⟨rfl, rfl⟩ := List.cons.inj same
      show Walk edge origin (visits ++ (past ++ [target])) target
      rw [← List.append_assoc]
      exact (ih past rfl).step taken

theorem head (walk : Walk edge origin visits s) : ∃ more, visits = origin :: more := by
  induction walk with
  | start => exact ⟨[], rfl⟩
  | step walk taken ih =>
    obtain ⟨more, rfl⟩ := ih
    exact ⟨more ++ [_], rfl⟩

theorem singleton_split {past future : List σ} (split : [origin] = past ++ t :: future) :
    past = [] ∧ t = origin ∧ future = [] := by
  cases past with
  | nil =>
    obtain ⟨rfl, rfl⟩ := List.cons.inj split
    exact ⟨rfl, rfl, rfl⟩
  | cons first past => simp at split

/-- A walk up to one of its visits. -/
theorem upto {past future : List σ} (walk : Walk edge origin visits s) (split : visits = past ++ t :: future) :
    Walk edge origin (past ++ [t]) t := by
  induction walk generalizing future with
  | start =>
    obtain ⟨rfl, rfl, -⟩ := singleton_split split
    exact .start
  | @step visited source target walk taken ih =>
    rcases List.eq_nil_or_concat future with rfl | ⟨future, u, rfl⟩
    · obtain ⟨rfl, same⟩ := List.append_inj' split rfl
      obtain rfl := List.singleton_inj.mp same
      exact walk.step taken
    · rw [List.concat_eq_append, ← List.cons_append, ← List.append_assoc] at split
      obtain ⟨rfl, -⟩ := List.append_inj' split rfl
      exact ih rfl

/-- A walk from one of its visits on. -/
theorem since {past : List σ} (walk : Walk edge origin visits s) (split : visits = past ++ t :: more) :
    Walk edge t (t :: more) s := by
  induction walk generalizing more with
  | start =>
    obtain ⟨-, rfl, rfl⟩ := singleton_split split
    exact .start
  | @step visited source target walk taken ih =>
    rcases List.eq_nil_or_concat more with rfl | ⟨more, u, rfl⟩
    · obtain ⟨-, same⟩ := List.append_inj' split rfl
      obtain rfl := List.singleton_inj.mp same
      exact .start
    · rw [List.concat_eq_append, ← List.cons_append] at split ⊢
      rw [← List.append_assoc] at split
      obtain ⟨before, same⟩ := List.append_inj' split rfl
      obtain rfl := List.singleton_inj.mp same
      exact (ih before).step taken

theorem first (walk : Walk edge origin (origin :: t :: more) s) : edge origin t :=
  walk.edge_between (show origin :: t :: more = [] ++ origin :: t :: more from rfl)

theorem rest (walk : Walk edge origin (origin :: t :: more) s) : Walk edge t (t :: more) s :=
  walk.since (show origin :: t :: more = [origin] ++ t :: more from rfl)

/-- A walk through allowed states stays in any set that has its origin and that no step to an allowed
state leaves. -/
theorem stays (walk : Walk edge origin visits s) (allowed P : σ → Prop) (through : ∀ t ∈ visits, allowed t)
    (start : allowed origin → P origin) (kept : ∀ s t, P s → edge s t → allowed t → P t) : P s := by
  induction walk with
  | start => exact start (through origin (by simp))
  | step walk taken ih =>
    have before := ih fun t member => through t (List.mem_append_left _ member)
    exact kept _ _ before taken (through _ (by simp))

end Walk

/-- The steps of a walk, to be checked one by one. -/
def Route (edge : σ → σ → Prop) (origin : σ) (more : List σ) (s : σ) : Prop :=
  (origin :: more).IsChain edge ∧ (origin :: more).getLast? = some s

instance [DecidableEq σ] [DecidableRel edge] : Decidable (Route edge origin more s) :=
  inferInstanceAs (Decidable (_ ∧ _))

theorem Route.walk (route : Route edge origin more s) : Walk edge origin (origin :: more) s := by
  obtain ⟨chain, last⟩ := route
  induction more using List.reverseRecOn generalizing s with
  | nil =>
    obtain rfl := Option.some.inj last
    exact .start
  | append_singleton more t ih =>
    rw [← List.cons_append] at chain last ⊢
    obtain ⟨before, -, joined⟩ := List.isChain_append.mp chain
    obtain ⟨u, ending⟩ : ∃ u, (origin :: more).getLast? = some u := ⟨_, List.getLast?_eq_some_getLast (by simp)⟩
    rw [List.getLast?_concat, Option.some.injEq] at last
    subst last
    exact (ih before ending).step (joined u ending t rfl)

end Foundation
