import Mathlib.Data.Finset.Dedup

/-! Iteration over an unordered set: some order in which every element comes up exactly once. -/

namespace Foundation

/-- An order in which a loop visits the elements of `s`. -/
structure Iteration {α : Type*} (s : Finset α) where
  order : List α
  nodup : order.Nodup
  mem_order : ∀ a, a ∈ order ↔ a ∈ s

def Iteration.ofList {α : Type*} [DecidableEq α] (order : List α) (nodup : order.Nodup) :
    Iteration order.toFinset :=
  ⟨order, nodup, fun _ => List.mem_toFinset.symm⟩

end Foundation
