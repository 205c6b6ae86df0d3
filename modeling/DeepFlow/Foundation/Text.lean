import Mathlib.Data.List.DropRight
import Mathlib.Data.List.TakeWhile

/-! Texts cut by a class of characters: stripping a class from both ends, and splitting at its edge. -/

namespace Foundation

variable {α : Type*} {blank : α → Bool} {text core : List α}

def strip (blank : α → Bool) (text : List α) : List α := (text.dropWhile blank).rdropWhile blank

/-- A text that begins and ends with a character that is not blank, or is empty. -/
structure Tight (blank : α → Bool) (core : List α) : Prop where
  head : ∀ first ∈ core.head?, blank first = false
  last : ∀ final ∈ core.getLast?, blank final = false

theorem dropWhile_of_head (head : ∀ first ∈ core.head?, blank first = false) :
    core.dropWhile blank = core := by
  cases core with
  | nil => rfl
  | cons first rest => exact List.dropWhile_cons_of_neg (by simp [head first rfl])

theorem rdropWhile_append_of_all {after : List α} (all : ∀ c ∈ after, blank c) :
    (core ++ after).rdropWhile blank = core.rdropWhile blank := by
  rw [List.rdropWhile, List.rdropWhile, List.reverse_append,
    List.dropWhile_append_of_pos (by simpa using all)]

theorem rdropWhile_of_last (last : ∀ final ∈ core.getLast?, blank final = false) :
    core.rdropWhile blank = core := by
  rw [List.rdropWhile, dropWhile_of_head (by simpa using last), List.reverse_reverse]

theorem strip_decomposition (blank : α → Bool) (text : List α) :
    ∃ before after, (∀ c ∈ before, blank c) ∧ (∀ c ∈ after, blank c) ∧
      text = before ++ strip blank text ++ after := by
  refine ⟨text.takeWhile blank, (text.dropWhile blank).rtakeWhile blank,
    fun _ => List.mem_takeWhile_imp, fun _ => List.mem_rtakeWhile_imp, ?_⟩
  rw [strip, List.append_assoc, List.rdropWhile_append_rtakeWhile, List.takeWhile_append_dropWhile]

theorem strip_padded {before after : List α} (tight : Tight blank core)
    (left : ∀ c ∈ before, blank c) (right : ∀ c ∈ after, blank c) :
    strip blank (before ++ core ++ after) = core := by
  rw [strip, List.append_assoc, List.dropWhile_append_of_pos left]
  cases core with
  | nil => rw [List.nil_append, List.dropWhile_eq_nil_iff.mpr right, List.rdropWhile_nil]
  | cons first rest =>
    rw [dropWhile_of_head (by simpa using tight.head), rdropWhile_append_of_all right,
      rdropWhile_of_last tight.last]

theorem strip_eq_iff (tight : Tight blank core) :
    strip blank text = core ↔
      ∃ before after, (∀ c ∈ before, blank c) ∧ (∀ c ∈ after, blank c) ∧ text = before ++ core ++ after := by
  constructor
  · rintro rfl
    exact strip_decomposition blank text
  · rintro ⟨before, after, left, right, rfl⟩
    exact strip_padded tight left right

theorem takeWhile_append_of_edge {front back : List α} (inside : ∀ c ∈ front, blank c)
    (edge : ∀ first ∈ back.head?, blank first = false) : (front ++ back).takeWhile blank = front := by
  rw [List.takeWhile_append_of_pos inside]
  cases back with
  | nil => simp
  | cons first rest => simp [edge first rfl]

/-- A text splits in one way only into a front of one class and a back that begins outside it. -/
theorem append_inj_of_edge {front front' back back' : List α} (same : front ++ back = front' ++ back')
    (inside : ∀ c ∈ front, blank c) (inside' : ∀ c ∈ front', blank c)
    (edge : ∀ first ∈ back.head?, blank first = false) (edge' : ∀ first ∈ back'.head?, blank first = false) :
    front = front' ∧ back = back' := by
  have fronts : front = front' := by
    rw [← takeWhile_append_of_edge inside edge, same, takeWhile_append_of_edge inside' edge']
  subst fronts
  exact ⟨rfl, List.append_cancel_left same⟩

/-- Fields that each end at a delimiter, and whatever follows them. -/
def delimited (delimiter : α) (fields : List (List α)) (rest : List α) : List α :=
  fields.foldr (fun field text => field ++ delimiter :: text) rest

/-- Only the last part of a delimited text may contain the delimiter. -/
theorem delimited_inj {delimiter : α} {fields fields' : List (List α)} {rest rest' : List α}
    (same : delimited delimiter fields rest = delimited delimiter fields' rest')
    (count : fields.length = fields'.length) (bare : ∀ field ∈ fields, delimiter ∉ field)
    (bare' : ∀ field ∈ fields', delimiter ∉ field) : fields = fields' ∧ rest = rest' := by
  classical
  induction fields generalizing fields' with
  | nil =>
    obtain rfl := List.length_eq_zero_iff.mp count.symm
    exact ⟨rfl, same⟩
  | cons field fields ih =>
    obtain ⟨field', fields', rfl⟩ := List.exists_cons_of_length_eq_add_one count.symm
    have inside : ∀ {text : List α}, delimiter ∉ text → ∀ c ∈ text, decide (c ≠ delimiter) = true :=
      fun absent c member => decide_eq_true (ne_of_mem_of_not_mem member absent)
    obtain ⟨rfl, later⟩ := append_inj_of_edge same (inside (bare field List.mem_cons_self))
      (inside (bare' field' List.mem_cons_self)) (by simp) (by simp)
    obtain ⟨rfl, rfl⟩ := ih (List.cons.inj later).2 (Nat.succ.inj count)
      (fun field member => bare field (List.mem_cons_of_mem _ member))
      (fun field member => bare' field (List.mem_cons_of_mem _ member))
    exact ⟨rfl, rfl⟩

end Foundation
