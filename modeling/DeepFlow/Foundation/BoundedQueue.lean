import Mathlib.Data.Int.Order.Basic

/-! First-in first-out queues with an optional bound: a `maxsize` of zero or less means none. -/

namespace Foundation

structure BoundedQueue (α : Type*) where
  maxsize : Int
  items : List α
  bounded : 0 < maxsize → (items.length : Int) ≤ maxsize

namespace BoundedQueue

variable {α : Type*} {q r : BoundedQueue α} {e : α}

@[ext]
theorem ext (maxsize : q.maxsize = r.maxsize) (items : q.items = r.items) : q = r := by
  cases q; cases r; cases maxsize; cases items; rfl

instance [DecidableEq α] : DecidableEq (BoundedQueue α) := fun q r =>
  decidable_of_iff (q.maxsize = r.maxsize ∧ q.items = r.items)
    ⟨fun same => ext same.1 same.2, fun same => same ▸ ⟨rfl, rfl⟩⟩

def new (maxsize : Int) : BoundedQueue α := ⟨maxsize, [], fun positive => Int.le_of_lt positive⟩

def full (q : BoundedQueue α) : Bool :=
  if q.maxsize ≤ 0 then false else decide (q.maxsize ≤ (q.items.length : Int))

/-- `none` is the exception that a full queue raises. -/
def putNowait (q : BoundedQueue α) (e : α) : Option (BoundedQueue α) :=
  if room : q.full = true then none
  else some ⟨q.maxsize, q.items ++ [e], fun positive => by
    simp only [full, if_neg (not_le.mpr positive), decide_eq_true_eq] at room
    rw [List.length_append, List.length_singleton]
    omega⟩

/-- `none` is the exception that an empty queue raises. -/
def getNowait (q : BoundedQueue α) : Option (α × BoundedQueue α) :=
  match taken : q.items with
  | [] => none
  | e :: rest => some (e, ⟨q.maxsize, rest, fun positive => by
      have before := q.bounded positive
      rw [taken, List.length_cons] at before
      omega⟩)

theorem full_iff : q.full = true ↔ 0 < q.maxsize ∧ (q.items.length : Int) = q.maxsize := by
  unfold full
  split
  · next unbounded => simp [not_lt.mpr unbounded]
  · next bound =>
    have positive := not_le.mp bound
    have held := q.bounded positive
    rw [decide_eq_true_eq]
    omega

theorem putNowait_full (isFull : q.full = true) : q.putNowait e = none := dif_pos isFull

theorem putNowait_room (room : ¬ q.full = true) :
    ∃ r, q.putNowait e = some r ∧ r.maxsize = q.maxsize ∧ r.items = q.items ++ [e] :=
  ⟨_, dif_neg room, rfl, rfl⟩

theorem getNowait_some (taken : q.getNowait = some (e, r)) :
    r.maxsize = q.maxsize ∧ q.items = e :: r.items := by
  unfold getNowait at taken
  split at taken
  · cases taken
  · next items =>
    cases taken
    exact ⟨rfl, items⟩

end BoundedQueue
end Foundation
