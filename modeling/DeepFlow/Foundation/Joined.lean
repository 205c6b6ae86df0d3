import Mathlib.Data.List.Infix

/-!
# Texts joined by a separator

A separator of two different characters. Pieces that do not contain it are got back by cutting the
joined text at the separators.
-/

namespace Foundation

variable {α : Type*} [DecidableEq α] {first second : α} {piece text : List α} {pieces : List (List α)}

def cut (first second : α) : List α → List (List α)
  | [] => [[]]
  | [c] => [[c]]
  | c :: d :: text =>
    if c = first ∧ d = second then [] :: cut first second text
    else (cut first second (d :: text)).modifyHead (c :: ·)

/-- The separator does not occur. -/
def Clean (first second : α) (piece : List α) : Prop := ¬ [first, second] <:+: piece

omit [DecidableEq α] in
theorem Clean.tail {c : α} (clean : Clean first second (c :: piece)) : Clean first second piece :=
  fun inside => clean (inside.trans (List.suffix_cons c piece).isInfix)

omit [DecidableEq α] in
theorem Clean.head {c d : α} (clean : Clean first second (c :: d :: piece)) : ¬ (c = first ∧ d = second) := by
  rintro ⟨rfl, rfl⟩
  exact clean ⟨[], piece, rfl⟩

theorem cut_clean (clean : Clean first second piece) : cut first second piece = [piece] := by
  induction piece using cut.induct first second with
  | case1 => rfl
  | case2 c => rfl
  | case3 c d text here ih => exact absurd here clean.head
  | case4 c d text other ih => rw [cut, if_neg other, ih clean.tail, List.modifyHead_cons]

/-- A text is cut after its first piece. -/
theorem cut_append (distinct : first ≠ second) (clean : Clean first second piece) :
    cut first second (piece ++ first :: second :: text) = piece :: cut first second text := by
  induction piece using cut.induct first second with
  | case1 => rw [List.nil_append, cut, if_pos ⟨rfl, rfl⟩]
  | case2 c =>
    have other : ¬ (c = first ∧ first = second) := fun same => distinct same.2
    rw [List.singleton_append, cut, if_neg other, cut, if_pos ⟨rfl, rfl⟩, List.modifyHead_cons]
  | case3 c d text here ih => exact absurd here clean.head
  | case4 c d text other ih =>
    rw [List.cons_append, List.cons_append, cut, if_neg other, ← List.cons_append, ih clean.tail, List.modifyHead_cons]

theorem cut_intercalate (distinct : first ≠ second) (nonempty : pieces ≠ [])
    (clean : ∀ piece ∈ pieces, Clean first second piece) :
    cut first second ([first, second].intercalate pieces) = pieces := by
  induction pieces with
  | nil => exact absurd rfl nonempty
  | cons piece pieces ih =>
    obtain ⟨here, rest⟩ := List.forall_mem_cons.mp clean
    cases pieces with
    | nil => simpa using cut_clean here
    | cons next pieces =>
      have joined : [first, second].intercalate (piece :: next :: pieces) =
          piece ++ first :: second :: [first, second].intercalate (next :: pieces) := by simp
      rw [joined, cut_append distinct here, ih (List.cons_ne_nil _ _) rest]

omit [DecidableEq α] in
/-- What is put before a piece without the first character of the separator keeps it clean. -/
theorem Clean.append {front : List α} (absent : first ∉ front) (clean : Clean first second piece) :
    Clean first second (front ++ piece) := by
  induction front with
  | nil => exact clean
  | cons c front ih =>
    obtain ⟨other, absent⟩ := List.ne_and_not_mem_of_not_mem_cons absent
    intro inside
    rcases List.infix_cons_iff.mp inside with start | later
    · exact other (List.cons_prefix_cons.mp start).1
    · exact ih absent later

end Foundation
