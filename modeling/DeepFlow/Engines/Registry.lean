import DeepFlow.Foundation.Dict
import DeepFlow.Foundation.Iteration
import DeepFlow.Core.Enums

/-!
# Engine registry

`register` checks and writes category by category, in the order in which it happens to iterate
over a frozenset. A conflict found after the first write leaves the earlier categories claimed by
an engine that was refused.
-/

namespace DeepFlow.Engines
open Foundation DeepFlow.Core

/-- A probability engine as the registry sees it. `ref` is the identity of the object. -/
structure Engine where
  ref : Nat
  name : String
  categories : Finset MarketCategory
  deriving DecidableEq

structure EngineRegistry where
  byCategory : Dict MarketCategory Engine := ∅
  deriving DecidableEq

structure ValueError where
  message : String
  deriving DecidableEq, Repr

/-- One call of `register`: the engine and the order in which its categories come up. -/
structure Registration where
  engine : Engine
  iteration : Iteration engine.categories

/-- The loop of `register` over the categories that are left. -/
def claim (engine : Engine) :
    List MarketCategory → Dict MarketCategory Engine → Except ValueError Unit × Dict MarketCategory Engine
  | [], table => (.ok (), table)
  | category :: rest, table =>
    match table.get? category with
    | some owner => (.error ⟨s!"category {category.value} already handled by {owner.name}"⟩, table)
    | none => claim engine rest (table.set category engine)

namespace EngineRegistry

def register (self : EngineRegistry) (call : Registration) : Except ValueError Unit × EngineRegistry :=
  let (outcome, table) := claim call.engine call.iteration.order self.byCategory
  (outcome, ⟨table⟩)

def resolve (self : EngineRegistry) (classification : Classification) : Option Engine :=
  if classification.isTradeable then self.byCategory.get? classification.category else none

def registeredCategories (self : EngineRegistry) : List MarketCategory := self.byCategory.keys

def registerAll : EngineRegistry → List Registration → EngineRegistry
  | self, [] => self
  | self, call :: calls => (self.register call).2.registerAll calls

def accepted : EngineRegistry → List Registration → List Registration
  | _, [] => []
  | self, call :: calls =>
    match self.register call with
    | (.ok _, next) => call :: next.accepted calls
    | (.error _, next) => next.accepted calls

end EngineRegistry

/-! ### One call -/

section Claim
variable {engine : Engine} {order : List MarketCategory} {table : Dict MarketCategory Engine}
  {category : MarketCategory}

theorem claim_cons_free {rest : List MarketCategory} (free : category ∉ table) :
    claim engine (category :: rest) table = claim engine rest (table.set category engine) := by
  rw [claim, Dict.get?_eq_none.mpr free]

theorem claim_cons_taken {rest : List MarketCategory} (taken : category ∈ table) :
    (∃ error, (claim engine (category :: rest) table).1 = .error error) ∧
      (claim engine (category :: rest) table).2 = table := by
  obtain ⟨owner, found⟩ := Dict.mem_iff_get?.mp taken
  rw [claim, found]
  exact ⟨⟨_, rfl⟩, rfl⟩

theorem claim_ok_iff (nodup : order.Nodup) :
    (∃ u, (claim engine order table).1 = .ok u) ↔ ∀ category ∈ order, category ∉ table := by
  induction order generalizing table with
  | nil => simp [claim]
  | cons category rest ih =>
    obtain ⟨absent, nodup⟩ := List.nodup_cons.mp nodup
    by_cases taken : category ∈ table
    · obtain ⟨⟨error, refused⟩, -⟩ : (∃ error, (claim engine (category :: rest) table).1 = .error error) ∧ _ :=
        claim_cons_taken taken
      simp [refused, taken]
    · rw [claim_cons_free taken, ih nodup, List.forall_mem_cons]
      refine ⟨fun free => ⟨taken, fun d member inside => free d member (Dict.mem_set.mpr (Or.inr inside))⟩,
        fun free d member inside => ?_⟩
      rcases Dict.mem_set.mp inside with rfl | inside
      · exact absent member
      · exact free.2 d member inside

theorem claim_keeps {c : MarketCategory} (member : c ∈ table) : c ∈ (claim engine order table).2 := by
  induction order generalizing table with
  | nil => exact member
  | cons category rest ih =>
    by_cases taken : category ∈ table
    · rw [(claim_cons_taken taken).2]
      exact member
    · rw [claim_cons_free taken]
      exact ih (Dict.mem_set.mpr (Or.inr member))

theorem claim_get?_other {c : MarketCategory} (other : c ∉ order) :
    (claim engine order table).2.get? c = table.get? c := by
  induction order generalizing table with
  | nil => rfl
  | cons category rest ih =>
    obtain ⟨different, other⟩ : c ≠ category ∧ c ∉ rest := by simpa using other
    by_cases taken : category ∈ table
    · rw [(claim_cons_taken taken).2]
    · rw [claim_cons_free taken, ih other, Dict.get?_set_other different]

theorem claim_all {c : MarketCategory} (nodup : order.Nodup) (free : ∀ d ∈ order, d ∉ table)
    (member : c ∈ order) : (claim engine order table).2.get? c = some engine := by
  induction order generalizing table with
  | nil => cases member
  | cons category rest ih =>
    obtain ⟨absent, nodup⟩ := List.nodup_cons.mp nodup
    obtain ⟨head_free, rest_free⟩ := List.forall_mem_cons.mp free
    rw [claim_cons_free head_free]
    have still_free : ∀ d ∈ rest, d ∉ table.set category engine := by
      intro d inside taken
      rcases Dict.mem_set.mp taken with rfl | taken
      · exact absent inside
      · exact rest_free d inside taken
    rcases List.mem_cons.mp member with rfl | later
    · rw [claim_get?_other absent, Dict.get?_set_same]
    · exact ih nodup still_free later

theorem claim_get? {c : MarketCategory} {e : Engine}
    (found : (claim engine order table).2.get? c = some e) :
    table.get? c = some e ∨ e = engine ∧ c ∈ order := by
  induction order generalizing table with
  | nil => exact Or.inl found
  | cons category rest ih =>
    by_cases taken : category ∈ table
    · rw [(claim_cons_taken taken).2] at found
      exact Or.inl found
    · rw [claim_cons_free taken] at found
      rcases ih found with before | ⟨same, member⟩
      · rw [Dict.get?_set] at before
        split at before
        · exact Or.inr ⟨(Option.some.inj before).symm, by simp [*]⟩
        · exact Or.inl before
      · exact Or.inr ⟨same, List.mem_cons_of_mem _ member⟩

theorem claim_mem {c : MarketCategory} (member : c ∈ (claim engine order table).2) :
    c ∈ table ∨ c ∈ order := by
  obtain ⟨e, found⟩ := Dict.mem_iff_get?.mp member
  exact (claim_get? found).imp (fun before => Dict.mem_iff_get?.mpr ⟨e, before⟩) And.right

end Claim

namespace EngineRegistry
variable {self : EngineRegistry} {call : Registration} {calls : List Registration}
  {category : MarketCategory} {engine : Engine}

theorem register_ok_iff : (∃ u, (self.register call).1 = .ok u) ↔
    ∀ category ∈ call.engine.categories, category ∉ self.byCategory := by
  have decides : (∃ u, (claim call.engine call.iteration.order self.byCategory).1 = .ok u) ↔ _ :=
    claim_ok_iff call.iteration.nodup
  simp only [call.iteration.mem_order] at decides
  exact decides

theorem register_cases (self : EngineRegistry) (call : Registration) :
    ((∃ u, (self.register call).1 = .ok u) ∧
      ∀ category ∈ call.engine.categories, category ∉ self.byCategory) ∨
    ((∃ error, (self.register call).1 = .error error) ∧
      ∃ category ∈ call.engine.categories, category ∈ self.byCategory) := by
  cases outcome : (self.register call).1 with
  | ok u => exact Or.inl ⟨⟨u, rfl⟩, register_ok_iff.mp ⟨u, outcome⟩⟩
  | error error =>
    refine Or.inr ⟨⟨error, rfl⟩, ?_⟩
    by_contra none_taken
    push Not at none_taken
    obtain ⟨u, succeeded⟩ := register_ok_iff.mpr none_taken
    exact absurd (outcome.symm.trans succeeded) (by simp)

theorem register_keeps (member : category ∈ self.byCategory) :
    category ∈ (self.register call).2.byCategory := claim_keeps member

theorem register_mem (member : category ∈ (self.register call).2.byCategory) :
    category ∈ self.byCategory ∨ category ∈ call.engine.categories :=
  (claim_mem member).imp_right (call.iteration.mem_order _).mp

theorem register_claims (free : ∀ category ∈ call.engine.categories, category ∉ self.byCategory)
    (member : category ∈ call.engine.categories) :
    (self.register call).2.byCategory.get? category = some call.engine :=
  claim_all call.iteration.nodup (fun d inside => free d ((call.iteration.mem_order d).mp inside))
    ((call.iteration.mem_order category).mpr member)

theorem register_get? (found : (self.register call).2.byCategory.get? category = some engine) :
    self.byCategory.get? category = some engine ∨
      engine = call.engine ∧ category ∈ call.engine.categories :=
  (claim_get? found).imp_right (And.imp_right (call.iteration.mem_order _).mp)

theorem accepted_cons_ok (ok : ∃ u, (self.register call).1 = .ok u) :
    self.accepted (call :: calls) = call :: (self.register call).2.accepted calls := by
  obtain ⟨u, ok⟩ := ok
  rw [accepted]
  split
  · next same => rw [same]
  · next same => rw [same] at ok; cases ok

theorem accepted_cons_error (refused : ∃ error, (self.register call).1 = .error error) :
    self.accepted (call :: calls) = (self.register call).2.accepted calls := by
  obtain ⟨error, refused⟩ := refused
  rw [accepted]
  split
  · next same => rw [same] at refused; cases refused
  · next same => rw [same]

/-! ### A sequence of calls -/

/-- The category that comes up first is taken if any is, so that a refusal writes nothing. -/
def ConflictFirst (self : EngineRegistry) (call : Registration) : Prop :=
  ∀ first rest, call.iteration.order = first :: rest → first ∉ self.byCategory →
    ∀ category ∈ rest, category ∉ self.byCategory

def EveryConflictFirst : EngineRegistry → List Registration → Prop
  | _, [] => True
  | self, call :: calls => self.ConflictFirst call ∧ (self.register call).2.EveryConflictFirst calls

theorem register_refused_unchanged (refused : ∃ error, (self.register call).1 = .error error)
    (first : self.ConflictFirst call) : (self.register call).2 = self := by
  obtain ⟨⟨u, ok⟩, -⟩ | ⟨-, category, inside, taken⟩ := self.register_cases call
  · obtain ⟨error, refused⟩ := refused
    rw [ok] at refused
    cases refused
  · have listed := (call.iteration.mem_order category).mpr inside
    cases order : call.iteration.order with
    | nil => simp [order] at listed
    | cons head rest =>
      have head_taken : head ∈ self.byCategory := by
        by_contra free
        rcases List.mem_cons.mp (order ▸ listed) with rfl | later
        · exact free taken
        · exact first head rest order free category later taken
      show EngineRegistry.mk (claim call.engine call.iteration.order self.byCategory).2 = self
      rw [order, (claim_cons_taken head_taken).2]

theorem register_refused_leaves (notFirst : ¬ self.ConflictFirst call) :
    (∃ error, (self.register call).1 = .error error) ∧
      ∃ category, category ∉ self.byCategory ∧ category ∈ (self.register call).2.byCategory := by
  unfold ConflictFirst at notFirst
  push Not at notFirst
  obtain ⟨head, rest, order, free, category, later, taken⟩ := notFirst
  constructor
  · obtain ⟨-, none_taken⟩ | ⟨refused, -⟩ := self.register_cases call
    · have inside := (call.iteration.mem_order category).mp (by rw [order]; exact List.mem_cons_of_mem _ later)
      exact absurd taken (none_taken category inside)
    · exact refused
  · refine ⟨head, free, ?_⟩
    show head ∈ (claim call.engine call.iteration.order self.byCategory).2
    rw [order, claim_cons_free free]
    exact claim_keeps (Dict.mem_set.mpr (Or.inl rfl))

/-- A category that the run has claimed and the replay has not stays out of the replay. -/
theorem leftover_persists {replay : EngineRegistry}
    (covered : ∀ c, c ∈ replay.byCategory → c ∈ self.byCategory)
    (claimed : category ∈ self.byCategory) (missing : category ∉ replay.byCategory) :
    category ∈ (self.registerAll calls).byCategory ∧
      category ∉ (replay.registerAll (self.accepted calls)).byCategory := by
  induction calls generalizing self replay with
  | nil => exact ⟨claimed, missing⟩
  | cons call calls ih =>
    rcases self.register_cases call with ⟨ok, free⟩ | ⟨refused, -⟩
    · rw [accepted_cons_ok ok]
      refine ih (fun c member => ?_) (register_keeps claimed) fun member => ?_
      · rcases register_mem member with before | fresh
        · exact register_keeps (covered c before)
        · exact Dict.mem_iff_get?.mpr ⟨_, register_claims free fresh⟩
      · rcases register_mem member with before | fresh
        · exact missing before
        · exact free category fresh claimed
    · rw [accepted_cons_error refused]
      exact ih (fun c member => register_keeps (covered c member)) (register_keeps claimed) missing

theorem registerAll_replay_iff :
    self.registerAll calls = self.registerAll (self.accepted calls) ↔ self.EveryConflictFirst calls := by
  induction calls generalizing self with
  | nil => exact ⟨fun _ => trivial, fun _ => rfl⟩
  | cons call calls ih =>
    by_cases first : self.ConflictFirst call
    · rcases self.register_cases call with ⟨ok, -⟩ | ⟨refused, -⟩
      · rw [accepted_cons_ok ok, registerAll, registerAll, ih, EveryConflictFirst]
        exact ⟨fun later => ⟨first, later⟩, And.right⟩
      · rw [accepted_cons_error refused, registerAll, EveryConflictFirst,
          register_refused_unchanged refused first, ih]
        exact ⟨fun later => ⟨first, later⟩, And.right⟩
    · obtain ⟨refused, category, free, left⟩ := register_refused_leaves first
      refine ⟨fun same => ?_, fun every => absurd every.1 first⟩
      obtain ⟨claimed, missing⟩ : category ∈ ((self.register call).2.registerAll calls).byCategory ∧ _ :=
        leftover_persists (fun c => register_keeps) left free
      rw [accepted_cons_error refused, registerAll] at same
      exact absurd (same ▸ claimed) missing

theorem registerAll_get? (found : (self.registerAll calls).byCategory.get? category = some engine) :
    self.byCategory.get? category = some engine ∨
      ∃ call ∈ calls, call.engine = engine ∧ category ∈ engine.categories := by
  induction calls generalizing self with
  | nil => exact Or.inl found
  | cons call calls ih =>
    rcases ih found with before | ⟨later, member, rest⟩
    · rcases register_get? before with before | ⟨rfl, claimed⟩
      · exact Or.inl before
      · exact Or.inr ⟨call, by simp, rfl, claimed⟩
    · exact Or.inr ⟨later, List.mem_cons_of_mem _ member, rest⟩

/-- Refused calls leave no trace: the table is that of the accepted calls alone, and no
classification is routed to an engine but through one of them. -/
def RefusalsTraceless (calls : List Registration) : Prop :=
  let accepted := accepted {} calls
  registerAll {} calls = registerAll {} accepted ∧
  ∀ classification engine, (registerAll {} calls).resolve classification = some engine →
    ∃ call ∈ accepted, call.engine = engine ∧ classification.category ∈ engine.categories

/-- Refused calls leave no trace in exactly the sequences where every conflict is on the category
that comes up first. -/
theorem refusalsTraceless_iff (calls : List Registration) :
    RefusalsTraceless calls ↔ EveryConflictFirst {} calls := by
  rw [← registerAll_replay_iff]
  refine ⟨And.left, fun same => ⟨same, fun classification engine resolved => ?_⟩⟩
  rw [same, resolve] at resolved
  split at resolved
  · rcases registerAll_get? resolved with before | accepted
    · cases before
    · exact accepted
  · cases resolved

def claiming (ref : Nat) (name : String) (order : List MarketCategory) (nodup : order.Nodup) :
    Registration :=
  ⟨⟨ref, name, order.toFinset⟩, .ofList order nodup⟩

theorem refused_engine_resolved :
    ¬ RefusalsTraceless [claiming 0 "football" [.football] (by decide),
      claiming 1 "sports" [.tennis, .football] (by decide)] := by
  rintro ⟨same, -⟩
  obtain ⟨-, second, -⟩ := registerAll_replay_iff.mp same
  exact second .tennis [.football] rfl (by decide) .football (by simp) (by decide)

end EngineRegistry

end DeepFlow.Engines
