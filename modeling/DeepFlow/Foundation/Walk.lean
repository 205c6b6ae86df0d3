import Mathlib.Data.List.Induction

/-!
# Walks through a transition graph

A walk is recorded as the list of the states it visited, oldest first. Properties of the whole
history are past-time formulas: `Always P visits` asks `P` of every visit and of what came before
it. `Walk.always` is the induction rule that every such property is proved with.
-/

namespace Foundation

variable {σ : Type*} {edge : σ → σ → Prop} {origin : σ}

/-- `Walk edge origin visits current` visited `visits` along `edge` from `origin` and is now at
`current`. -/
inductive Walk (edge : σ → σ → Prop) (origin : σ) : List σ → σ → Prop where
  | start : Walk edge origin [origin] origin
  | step {past : List σ} {source target : σ} (walk : Walk edge origin past source)
      (taken : edge source target) : Walk edge origin (past ++ [target]) target

/-- `P past s` holds at every visit `s`, where `past` lists the visits before it. -/
def Always (P : List σ → σ → Prop) (visits : List σ) : Prop :=
  ∀ past s future, visits = past ++ s :: future → P past s

section Always
variable {P Q : List σ → σ → Prop}

theorem always_nil : Always P [] := by
  intro past s future split
  simp at split

theorem always_concat {visits : List σ} {s : σ} :
    Always P (visits ++ [s]) ↔ Always P visits ∧ P visits s := by
  constructor
  · intro always
    refine ⟨?_, always visits s [] rfl⟩
    intro past t future split
    exact always past t (future ++ [s]) (by rw [split]; simp)
  · rintro ⟨before, last⟩ past t future split
    rcases List.eq_nil_or_concat future with rfl | ⟨future, u, rfl⟩
    · obtain ⟨rfl, same⟩ := List.append_inj' split rfl
      cases same
      exact last
    · rw [List.concat_eq_append, ← List.cons_append, ← List.append_assoc] at split
      obtain ⟨rfl, -⟩ := List.append_inj' split rfl
      exact before past t future rfl

theorem always_singleton {s : σ} : Always P [s] ↔ P [] s := by
  have split : Always P ([] ++ [s]) ↔ _ := always_concat
  simpa [always_nil] using split

theorem Always.mono {visits : List σ} (always : Always P visits)
    (weaker : ∀ past s, P past s → Q past s) : Always Q visits :=
  fun past s future split => weaker past s (always past s future split)

end Always

namespace Walk

variable {visits : List σ} {current : σ}

/-- Walks whose every step meets `guard` keep an invariant that such steps keep, and `P` holds of
every visit that the invariant and the guard allow. -/
theorem always (walk : Walk edge origin visits current) (inv guard P : List σ → σ → Prop)
    (guarded : Always guard visits) (initial : inv [origin] origin ∧ P [] origin)
    (kept : ∀ {past source target}, Walk edge origin past source → inv past source →
      edge source target → guard past target →
      inv (past ++ [target]) target ∧ P past target) :
    inv visits current ∧ Always P visits := by
  induction walk with
  | start => exact ⟨initial.1, always_singleton.mpr initial.2⟩
  | step walk taken ih =>
    obtain ⟨before, now⟩ := always_concat.mp guarded
    obtain ⟨held, always⟩ := ih before
    obtain ⟨next, visit⟩ := kept walk held taken now
    exact ⟨next, always_concat.mpr ⟨always, visit⟩⟩

theorem last (walk : Walk edge origin visits current) : ∃ past, visits = past ++ [current] := by
  cases walk with
  | start => exact ⟨[], rfl⟩
  | step walk taken => exact ⟨_, rfl⟩

theorem current_mem (walk : Walk edge origin visits current) : current ∈ visits := by
  obtain ⟨past, rfl⟩ := walk.last
  simp

theorem edge_between {past future : List σ} {s t : σ} (walk : Walk edge origin visits current)
    (split : visits = past ++ s :: t :: future) : edge s t := by
  induction walk generalizing future with
  | start => simp [List.singleton_eq_append_iff] at split
  | step walk taken ih =>
    rcases List.eq_nil_or_concat future with rfl | ⟨future, u, rfl⟩
    · rw [show past ++ [s, t] = (past ++ [s]) ++ [t] by simp] at split
      obtain ⟨rfl, same⟩ := List.append_inj' split rfl
      cases same
      obtain ⟨_, final⟩ := walk.last
      obtain ⟨-, same⟩ := List.append_inj' final rfl
      cases same
      exact taken
    · rw [List.concat_eq_append, ← List.cons_append, ← List.cons_append, ← List.append_assoc] at split
      obtain ⟨rfl, -⟩ := List.append_inj' split rfl
      exact ih rfl

theorem entered_through {gate s : σ} (walk : Walk edge origin visits current)
    (other : s ≠ origin) (only : ∀ source, edge source s → source = gate) (visited : s ∈ visits) :
    [gate, s].Sublist visits := by
  induction walk with
  | start => exact absurd (List.mem_singleton.mp visited) other
  | step walk taken ih =>
    rcases List.mem_append.mp visited with before | now
    · exact (ih before).trans (List.sublist_append_left _ _)
    · obtain rfl := List.mem_singleton.mp now
      obtain rfl := only _ taken
      exact List.Sublist.append (List.singleton_sublist.mpr walk.current_mem) (List.Sublist.refl [s])

end Walk

def lastWhere (keep : σ → Bool) (visits : List σ) : Option σ := (visits.filter keep).getLast?

section LastWhere
variable {keep : σ → Bool} {visits : List σ} {s : σ}

theorem lastWhere_concat_pos (kept : keep s = true) : lastWhere keep (visits ++ [s]) = some s := by
  simp [lastWhere, List.filter_append, kept]

theorem lastWhere_concat_neg (skipped : keep s = false) :
    lastWhere keep (visits ++ [s]) = lastWhere keep visits := by
  simp [lastWhere, List.filter_append, skipped]

theorem lastWhere_eq_some : lastWhere keep visits = some s ↔
    ∃ past skipped, visits = past ++ s :: skipped ∧ keep s = true ∧ ∀ t ∈ skipped, keep t = false := by
  constructor
  · intro found
    induction visits using List.reverseRecOn with
    | nil => simp [lastWhere] at found
    | append_singleton visits last ih =>
      cases kept : keep last with
      | true =>
        rw [lastWhere_concat_pos kept] at found
        obtain rfl := Option.some.inj found
        exact ⟨visits, [], rfl, kept, by simp⟩
      | false =>
        rw [lastWhere_concat_neg kept] at found
        obtain ⟨past, skipped, rfl, kept', others⟩ := ih found
        refine ⟨past, skipped ++ [last], by simp, kept', ?_⟩
        intro t member
        rcases List.mem_append.mp member with earlier | now
        · exact others t earlier
        · rwa [List.mem_singleton.mp now]
  · intro split
    obtain ⟨past, skipped, rfl, kept, others⟩ := split
    have none : skipped.filter keep = [] := by simpa using others
    simp [lastWhere, List.filter_append, kept, none]

end LastWhere

end Foundation
