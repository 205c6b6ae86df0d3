import Mathlib.Data.Finset.Disjoint
import DeepFlow.Engines.Registry

/-!
# Routing

The registry's table and each engine's own `supports` both decide who owns a market. They agree,
and the wiring order does not matter, exactly because a category has at most one claimant.
-/

namespace DeepFlow.Engines
open Foundation DeepFlow.Core

def Engine.supports (self : Engine) (classification : Classification) : Bool :=
  classification.isTradeable && decide (classification.category ∈ self.categories)

def Wires (engines : List Engine) (calls : List Registration) : Prop :=
  (calls.map Registration.engine).Perm engines

def PairwiseDisjoint (engines : List Engine) : Prop :=
  engines.Pairwise fun first second => Disjoint first.categories second.categories

namespace EngineRegistry
variable {self : EngineRegistry} {call : Registration} {calls : List Registration}
  {engines : List Engine} {engine : Engine} {category : MarketCategory}
  {classification : Classification}

def Succeeds : EngineRegistry → List Registration → Prop
  | _, [] => True
  | self, call :: calls => (∃ u, (self.register call).1 = .ok u) ∧ (self.register call).2.Succeeds calls

theorem register_mem_iff (free : ∀ category ∈ call.engine.categories, category ∉ self.byCategory) :
    category ∈ (self.register call).2.byCategory ↔
      category ∈ call.engine.categories ∨ category ∈ self.byCategory := by
  constructor
  · exact fun member => (register_mem member).symm
  · rintro (fresh | before)
    · exact Dict.mem_iff_get?.mpr ⟨_, register_claims free fresh⟩
    · exact register_keeps before

theorem succeeds_iff : self.Succeeds calls ↔ PairwiseDisjoint (calls.map Registration.engine) ∧
    ∀ call ∈ calls, ∀ category ∈ call.engine.categories, category ∉ self.byCategory := by
  induction calls generalizing self with
  | nil => exact iff_of_true trivial ⟨List.Pairwise.nil, by simp⟩
  | cons call calls ih =>
    rw [Succeeds, ih, register_ok_iff, PairwiseDisjoint, PairwiseDisjoint, List.map_cons, List.pairwise_cons,
      List.forall_mem_cons]
    constructor
    · intro ⟨free, disjoint, later⟩
      have absent : ∀ call' ∈ calls, ∀ category ∈ call'.engine.categories,
          category ∉ call.engine.categories ∧ category ∉ self.byCategory := by
        intro call' member category inside
        have unclaimed := later call' member category inside
        rwa [register_mem_iff free, not_or] at unclaimed
      refine ⟨⟨?_, disjoint⟩, free, fun call' member category inside => (absent call' member category inside).2⟩
      intro engine member
      obtain ⟨call', listed, rfl⟩ := List.mem_map.mp member
      exact Finset.disjoint_right.mpr fun category inside => (absent call' listed category inside).1
    · intro ⟨⟨apart, disjoint⟩, free, later⟩
      refine ⟨free, disjoint, ?_⟩
      intro call' member category inside claimed
      rcases (register_mem_iff free).mp claimed with fresh | before
      · exact Finset.disjoint_left.mp (apart call'.engine (List.mem_map_of_mem member)) fresh inside
      · exact later call' member category inside before

theorem succeeds_keeps (succeeds : self.Succeeds calls) (found : self.byCategory.get? category = some engine) :
    (self.registerAll calls).byCategory.get? category = some engine := by
  induction calls generalizing self with
  | nil => exact found
  | cons call calls ih =>
    obtain ⟨ok, later⟩ := succeeds
    have taken : category ∈ self.byCategory := Dict.mem_iff_get?.mpr ⟨engine, found⟩
    have other : category ∉ call.iteration.order := by
      intro listed
      exact register_ok_iff.mp ok category ((call.iteration.mem_order category).mp listed) taken
    exact ih later ((claim_get?_other other).trans found)

theorem succeeds_claims (succeeds : self.Succeeds calls) (member : call ∈ calls)
    (inside : category ∈ call.engine.categories) :
    (self.registerAll calls).byCategory.get? category = some call.engine := by
  induction calls generalizing self with
  | nil => cases member
  | cons first calls ih =>
    obtain ⟨ok, later⟩ := succeeds
    rw [registerAll]
    rcases List.mem_cons.mp member with rfl | member
    · exact succeeds_keeps later (register_claims (register_ok_iff.mp ok) inside)
    · exact ih later member

theorem get?_wired (succeeds : Succeeds {} calls) (wires : Wires engines calls) :
    (registerAll {} calls).byCategory.get? category = some engine ↔
      engine ∈ engines ∧ category ∈ engine.categories := by
  rw [← wires.mem_iff, List.mem_map]
  constructor
  · intro found
    rcases registerAll_get? found with before | ⟨call, member, rfl, inside⟩
    · cases before
    · exact ⟨⟨call, member, rfl⟩, inside⟩
  · intro owned
    obtain ⟨⟨call, member, rfl⟩, inside⟩ := owned
    exact succeeds_claims succeeds member inside

theorem wires_succeeds_iff (wires : Wires engines calls) :
    Succeeds {} calls ↔ PairwiseDisjoint engines := by
  have symmetric : ∀ first second : Engine, Disjoint first.categories second.categories →
      Disjoint second.categories first.categories := fun _ _ apart => apart.symm
  rw [succeeds_iff, PairwiseDisjoint, PairwiseDisjoint, wires.pairwise_iff (symmetric _ _)]
  exact and_iff_left fun call _ category _ => Dict.not_mem_empty

theorem exists_wires (engines : List Engine) : ∃ calls, Wires engines calls := by
  refine ⟨engines.map fun engine => ⟨engine, engine.categories.toList, engine.categories.nodup_toList,
    fun _ => Finset.mem_toList⟩, ?_⟩
  unfold Wires
  rw [List.map_map]
  exact (List.map_id engines).symm ▸ List.Perm.refl _

theorem resolve_eq_some : self.resolve classification = some engine ↔
    classification.isTradeable = true ∧ self.byCategory.get? classification.category = some engine := by
  unfold resolve
  split
  · next tradeable => exact (and_iff_right tradeable).symm
  · next blocked => exact iff_of_false (by simp) fun both => blocked both.1

/-- Some wiring order succeeds just if every one does, just if the claims are disjoint; and then
the table routes each classification to the engine that supports it. -/
theorem routing_agrees (engines : List Engine) :
    ((∃ calls, Wires engines calls ∧ Succeeds {} calls) ↔ PairwiseDisjoint engines) ∧
    ((∀ calls, Wires engines calls → Succeeds {} calls) ↔ PairwiseDisjoint engines) ∧
    (PairwiseDisjoint engines → ∀ calls, Wires engines calls →
      (∀ classification engine, (registerAll {} calls).resolve classification = some engine ↔
        engine ∈ engines ∧ engine.supports classification = true) ∧
      (∀ classification, (registerAll {} calls).resolve classification = none ↔
        ∀ engine ∈ engines, engine.supports classification = false) ∧
      ∀ category, category ∈ (registerAll {} calls).registeredCategories ↔
        ∃ engine ∈ engines, category ∈ engine.categories) := by
  refine ⟨?_, ?_, ?_⟩
  · constructor
    · intro wired
      obtain ⟨calls, wires, succeeds⟩ := wired
      exact (wires_succeeds_iff wires).mp succeeds
    · intro disjoint
      obtain ⟨calls, wires⟩ := exists_wires engines
      exact ⟨calls, wires, (wires_succeeds_iff wires).mpr disjoint⟩
  · constructor
    · intro every
      obtain ⟨calls, wires⟩ := exists_wires engines
      exact (wires_succeeds_iff wires).mp (every calls wires)
    · exact fun disjoint calls wires => (wires_succeeds_iff wires).mpr disjoint
  · intro disjoint calls wires
    have succeeds := (wires_succeeds_iff wires).mpr disjoint
    have resolves : ∀ classification engine, (registerAll {} calls).resolve classification = some engine ↔
        engine ∈ engines ∧ engine.supports classification = true := by
      intro classification engine
      rw [resolve_eq_some, get?_wired succeeds wires, Engine.supports, Bool.and_eq_true, decide_eq_true_eq,
        and_left_comm]
    refine ⟨resolves, ?_, ?_⟩
    · intro classification
      rw [Option.eq_none_iff_forall_ne_some]
      simp only [ne_eq, resolves, not_and, Bool.not_eq_true]
    · intro category
      show category ∈ (registerAll {} calls).byCategory ↔ _
      rw [Dict.mem_iff_get?]
      simp only [get?_wired succeeds wires]

end EngineRegistry

end DeepFlow.Engines
