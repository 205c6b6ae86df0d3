import Mathlib.Order.Bounds.Basic

/-!
# Lists sorted by a key

The first element of a sorted list has the extreme key, so two sorted lists that are apart at their
heads are apart everywhere.
-/

namespace Foundation

variable {α β K : Type*} {key : α → K} {key' : β → K} {xs : List α} {ys : List β} {k : K}
  [PartialOrder K]

theorem first_isLeast (ascending : xs.Pairwise fun before after => key before ≤ key after) :
    xs.head?.map key = some k ↔ IsLeast {k | ∃ x ∈ xs, key x = k} k := by
  cases xs with
  | nil => simp [IsLeast]
  | cons x xs =>
    have least : IsLeast {k | ∃ y ∈ x :: xs, key y = k} (key x) := by
      refine ⟨⟨x, List.mem_cons_self, rfl⟩, ?_⟩
      intro other listed
      obtain ⟨y, member, rfl⟩ := listed
      rcases List.mem_cons.mp member with rfl | later
      · exact le_rfl
      · exact List.rel_of_pairwise_cons ascending later
    constructor
    · intro first
      cases first
      exact least
    · intro least'
      exact congrArg some (least.unique least')

theorem first_isGreatest (descending : xs.Pairwise fun before after => key after ≤ key before) :
    xs.head?.map key = some k ↔ IsGreatest {k | ∃ x ∈ xs, key x = k} k :=
  first_isLeast (K := Kᵒᵈ) descending

theorem apart (descending : xs.Pairwise fun before after => key after ≤ key before)
    (ascending : ys.Pairwise fun before after => key' before ≤ key' after)
    (heads : ∀ k l, xs.head?.map key = some k → ys.head?.map key' = some l → k < l) :
    ∀ x ∈ xs, ∀ y ∈ ys, key x < key' y := by
  intro x member y member'
  obtain ⟨first, rest, rfl⟩ := List.exists_cons_of_ne_nil (List.ne_nil_of_mem member)
  obtain ⟨first', rest', rfl⟩ := List.exists_cons_of_ne_nil (List.ne_nil_of_mem member')
  calc key x ≤ key first := ((first_isGreatest descending).mp rfl).2 ⟨x, member, rfl⟩
    _ < key' first' := heads _ _ rfl rfl
    _ ≤ key' y := ((first_isLeast ascending).mp rfl).2 ⟨y, member', rfl⟩

end Foundation
