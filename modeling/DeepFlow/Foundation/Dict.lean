import Mathlib.Data.List.Nodup

/-!
# Insertion-ordered dictionaries

A dictionary keeps its keys in the order of their first insertion: writing to a present key
replaces the value in place, writing to an absent key appends an entry. That no key occurs twice
is a field of the structure, so a lookup is determined by membership.
-/

namespace Foundation

structure Dict (κ : Type*) (β : Type*) where
  entries : List (κ × β)
  distinct : (entries.map Prod.fst).Nodup

namespace Dict

variable {κ β : Type*} {d : Dict κ β} {k j : κ} {v : β}

@[ext]
theorem ext {d e : Dict κ β} (same : d.entries = e.entries) : d = e := by
  cases d; cases e; cases same; rfl

def empty : Dict κ β := ⟨[], by simp⟩

instance : EmptyCollection (Dict κ β) := ⟨empty⟩

def keys (d : Dict κ β) : List κ := d.entries.map Prod.fst

instance : Membership κ (Dict κ β) := ⟨fun d k => k ∈ d.keys⟩

theorem mem_keys : k ∈ d ↔ k ∈ d.keys := Iff.rfl

@[simp] theorem not_mem_empty : k ∉ (∅ : Dict κ β) := List.not_mem_nil

variable [DecidableEq κ]

instance [DecidableEq β] : DecidableEq (Dict κ β) := fun d e =>
  decidable_of_iff (d.entries = e.entries) ⟨ext, fun same => same ▸ rfl⟩

instance : Decidable (k ∈ d) := inferInstanceAs (Decidable (k ∈ d.keys))

def get? (d : Dict κ β) (k : κ) : Option β := (d.entries.find? (fun e => decide (e.1 = k))).map Prod.snd

private theorem keys_overwrite (entries : List (κ × β)) (k : κ) (v : β) :
    (entries.map fun e => if e.1 = k then (e.1, v) else e).map Prod.fst = entries.map Prod.fst := by
  rw [List.map_map]
  apply List.map_congr_left
  intro e _
  by_cases same : e.1 = k <;> simp [same]

def set (d : Dict κ β) (k : κ) (v : β) : Dict κ β :=
  if absent : k ∈ d.keys then
    ⟨d.entries.map fun e => if e.1 = k then (e.1, v) else e, by
      rw [keys_overwrite]; exact d.distinct⟩
  else
    ⟨d.entries ++ [(k, v)], by
      rw [List.map_append]
      exact d.distinct.append (List.nodup_singleton k) (List.disjoint_singleton.mpr absent)⟩

def pop (d : Dict κ β) (k : κ) : Dict κ β :=
  ⟨d.entries.filter fun e => decide (e.1 ≠ k), d.distinct.sublist (List.filter_sublist.map _)⟩

@[simp] theorem get?_empty : (∅ : Dict κ β).get? k = none := rfl

theorem get?_eq_some : d.get? k = some v ↔ (k, v) ∈ d.entries := by
  unfold get?
  constructor
  · intro found
    obtain ⟨e, first, rfl⟩ := Option.map_eq_some_iff.mp found
    have same : e.1 = k := by simpa using List.find?_some first
    rw [← same]
    exact List.mem_of_find?_eq_some first
  · intro member
    cases found : d.entries.find? (fun e => decide (e.1 = k)) with
    | none => exact absurd (List.find?_eq_none.mp found _ member) (by simp)
    | some e =>
      have same : e.1 = k := by simpa using List.find?_some found
      have equal := List.inj_on_of_nodup_map d.distinct (List.mem_of_find?_eq_some found) member same
      rw [equal]; rfl

theorem mem_iff_get? : k ∈ d ↔ ∃ v, d.get? k = some v := by
  simp only [get?_eq_some, mem_keys, keys, List.mem_map, Prod.exists, exists_and_right, exists_eq_right]

theorem get?_eq_none : d.get? k = none ↔ k ∉ d := by
  rw [mem_iff_get?, not_exists]
  exact ⟨fun missing v found => by simp [missing] at found,
    fun missing => Option.eq_none_iff_forall_ne_some.mpr missing⟩

theorem entries_set_mem (present : k ∈ d) :
    (d.set k v).entries = d.entries.map fun e => if e.1 = k then (e.1, v) else e := by
  rw [set, dif_pos (mem_keys.mp present)]

theorem entries_set_absent (absent : k ∉ d) : (d.set k v).entries = d.entries ++ [(k, v)] := by
  rw [set, dif_neg (fun member => absent (mem_keys.mpr member))]

theorem keys_set_mem (present : k ∈ d) : (d.set k v).keys = d.keys := by
  rw [keys, entries_set_mem present, keys_overwrite]; rfl

theorem keys_set_absent (absent : k ∉ d) : (d.set k v).keys = d.keys ++ [k] := by
  simp [keys, entries_set_absent absent]

@[simp] theorem mem_set : j ∈ d.set k v ↔ j = k ∨ j ∈ d := by
  by_cases present : k ∈ d
  · rw [mem_keys, keys_set_mem present, ← mem_keys]
    exact ⟨Or.inr, fun member => by rcases member with rfl | member <;> assumption⟩
  · rw [mem_keys, keys_set_absent present, List.mem_append, List.mem_singleton, ← mem_keys, or_comm]

@[simp] theorem get?_set_same : (d.set k v).get? k = some v := by
  rw [get?_eq_some]
  by_cases present : k ∈ d
  · obtain ⟨w, found⟩ := mem_iff_get?.mp present
    rw [entries_set_mem present]
    exact List.mem_map.mpr ⟨(k, w), get?_eq_some.mp found, by simp⟩
  · rw [entries_set_absent present]
    simp

theorem get?_set_other (other : j ≠ k) : (d.set k v).get? j = d.get? j := by
  apply Option.ext
  intro w
  rw [get?_eq_some, get?_eq_some]
  by_cases present : k ∈ d
  · rw [entries_set_mem present, List.mem_map]
    constructor
    · rintro ⟨e, member, same⟩
      by_cases here : e.1 = k
      · rw [if_pos here] at same
        exact absurd ((Prod.mk.inj same).1.symm.trans here) other
      · rw [if_neg here] at same
        exact same ▸ member
    · intro member
      exact ⟨(j, w), member, by simp [other]⟩
  · rw [entries_set_absent present]
    simp [other]

theorem get?_set : (d.set k v).get? j = if j = k then some v else d.get? j := by
  by_cases same : j = k
  · rw [same, get?_set_same, if_pos rfl]
  · rw [get?_set_other same, if_neg same]

theorem get?_pop : (d.pop k).get? j = if j = k then none else d.get? j := by
  apply Option.ext
  intro w
  rw [get?_eq_some]
  by_cases same : j = k <;> simp [pop, same, get?_eq_some]

@[simp] theorem mem_pop : j ∈ d.pop k ↔ j ≠ k ∧ j ∈ d := by
  rw [mem_iff_get?, mem_iff_get?, get?_pop]
  by_cases same : j = k <;> simp [same]

end Dict

end Foundation
