import Mathlib.Algebra.BigOperators.Group.Finset.Basic
import Mathlib.Algebra.Order.Group.Multiset

/-!
# Transactions

A store with an open transaction: writes stay pending until a commit makes all of them durable or a
rollback discards all of them. What a run of operations leaves pending are the writes after its last
commit or rollback, and what it makes durable are those that a commit follows first. Sessions that
share a store each have a transaction of their own.
-/

namespace Foundation

/-- Any store with these laws. A new one has nothing pending. -/
structure TransactionalStore (ω : Type*) where
  State : Type
  opened : State
  write : ω → State → State
  commit : State → State
  rollback : State → State
  pending : State → Multiset ω
  durable : State → Multiset ω
  pending_opened : pending opened = 0
  pending_write : ∀ w s, pending (write w s) = w ::ₘ pending s
  durable_write : ∀ w s, durable (write w s) = durable s
  pending_commit : ∀ s, pending (commit s) = 0
  durable_commit : ∀ s, durable (commit s) = durable s + pending s
  pending_rollback : ∀ s, pending (rollback s) = 0
  durable_rollback : ∀ s, durable (rollback s) = durable s

inductive TxOp (ω : Type*) where
  | write (w : ω)
  | commit
  | rollback
  deriving DecidableEq, Repr

variable {ω ω' : Type*} {ops more : List (TxOp ω)}

namespace TxOp

def map (f : ω → ω') : TxOp ω → TxOp ω'
  | write w => write (f w)
  | commit => commit
  | rollback => rollback

/-- The operation ends the transaction. -/
def settles : TxOp ω → Bool
  | write _ => false
  | commit => true
  | rollback => true

/-- A commit follows with no rollback in between. -/
def CommitsNext (ops : List (TxOp ω)) : Prop := ∃ between after, ops = between ++ commit :: after ∧ rollback ∉ between

theorem not_commitsNext_nil : ¬ CommitsNext ([] : List (TxOp ω)) := by
  intro later
  obtain ⟨between, after, split, _⟩ := later
  cases between <;> cases split

theorem commitsNext_commit : CommitsNext (commit :: ops) := ⟨[], ops, rfl, List.not_mem_nil⟩

theorem not_commitsNext_rollback : ¬ CommitsNext (rollback :: ops) := by
  intro later
  obtain ⟨between, after, split, clear⟩ := later
  cases between with
  | nil => cases split
  | cons _ between =>
    obtain ⟨rfl, _⟩ := List.cons.inj split
    exact clear List.mem_cons_self

theorem commitsNext_write {w : ω} : CommitsNext (write w :: ops) ↔ CommitsNext ops := by
  constructor
  · intro later
    obtain ⟨between, after, split, clear⟩ := later
    cases between with
    | nil => cases split
    | cons _ between =>
      obtain ⟨rfl, rest⟩ := List.cons.inj split
      exact ⟨between, after, rest, List.not_mem_of_not_mem_cons clear⟩
  · intro later
    obtain ⟨between, after, rfl, clear⟩ := later
    exact ⟨write w :: between, after, rfl, by simpa using clear⟩

instance decidableCommitsNext : (ops : List (TxOp ω)) → Decidable (CommitsNext ops)
  | [] => .isFalse not_commitsNext_nil
  | write _ :: ops => @decidable_of_iff _ (CommitsNext ops) commitsNext_write.symm (decidableCommitsNext ops)
  | commit :: _ => .isTrue commitsNext_commit
  | rollback :: _ => .isFalse not_commitsNext_rollback

/-- The writes that no commit or rollback follows. -/
def trailing : List (TxOp ω) → Multiset ω
  | [] => 0
  | write w :: ops => if ops.any settles then trailing ops else w ::ₘ trailing ops
  | commit :: ops => trailing ops
  | rollback :: ops => trailing ops

/-- The writes that are followed by a commit with no rollback in between. -/
def committed : List (TxOp ω) → Multiset ω
  | [] => 0
  | write w :: ops => if CommitsNext ops then w ::ₘ committed ops else committed ops
  | commit :: ops => committed ops
  | rollback :: ops => committed ops

theorem settles_map (f : ω → ω') : (ops.map (map f)).any settles = ops.any settles := by
  rw [List.any_map]
  congr 1
  funext op
  cases op <;> rfl

theorem trailing_map (f : ω → ω') : trailing (ops.map (map f)) = (trailing ops).map f := by
  induction ops with
  | nil => rfl
  | cons op ops ih =>
    cases op with
    | write w =>
      show (if (ops.map (map f)).any settles then _ else f w ::ₘ _) = Multiset.map f (trailing (write w :: ops))
      rw [settles_map, trailing, ih]
      split
      · rfl
      · rw [Multiset.map_cons]
    | commit => exact ih
    | rollback => exact ih

end TxOp

namespace TransactionalStore
open TxOp

variable {S : TransactionalStore ω} {s : S.State}

def step (S : TransactionalStore ω) (s : S.State) : TxOp ω → S.State
  | .write w => S.write w s
  | .commit => S.commit s
  | .rollback => S.rollback s

def run (S : TransactionalStore ω) (s : S.State) (ops : List (TxOp ω)) : S.State := ops.foldl S.step s

theorem run_append : S.run s (ops ++ more) = S.run (S.run s ops) more := List.foldl_append

theorem pending_run : S.pending (S.run s ops) = (if ops.any settles then 0 else S.pending s) + trailing ops := by
  induction ops generalizing s with
  | nil => simp [run, trailing]
  | cons op ops ih =>
    have first : S.run s (op :: ops) = S.run (S.step s op) ops := rfl
    rw [first, ih]
    cases op with
    | write w =>
      have none : (TxOp.write w :: ops).any settles = ops.any settles := rfl
      rw [none, trailing, step, S.pending_write]
      split
      · rfl
      · rw [Multiset.cons_add, Multiset.add_cons]
    | commit =>
      have ended : (TxOp.commit :: ops).any settles = true := rfl
      rw [ended, trailing, step, S.pending_commit, ite_self, if_pos rfl]
    | rollback =>
      have ended : (TxOp.rollback :: ops).any settles = true := rfl
      rw [ended, trailing, step, S.pending_rollback, ite_self, if_pos rfl]

theorem durable_run : S.durable (S.run s ops) =
    S.durable s + (if CommitsNext ops then S.pending s else 0) + committed ops := by
  induction ops generalizing s with
  | nil => simp [run, not_commitsNext_nil, committed]
  | cons op ops ih =>
    have first : S.run s (op :: ops) = S.run (S.step s op) ops := rfl
    rw [first, ih]
    cases op with
    | write w =>
      simp only [committed, commitsNext_write, step, S.durable_write, S.pending_write]
      split
      · rw [Multiset.add_cons, Multiset.add_cons, Multiset.cons_add]
      · rfl
    | commit =>
      rw [if_pos commitsNext_commit, committed, step, S.durable_commit, S.pending_commit, ite_self, add_zero]
    | rollback =>
      rw [if_neg not_commitsNext_rollback, committed, step, S.durable_rollback, S.pending_rollback, ite_self]

end TransactionalStore

/-! ### Sessions over one store -/

/-- What a session does leaves alone what the others have pending. -/
structure SharedStore (ι ω : Type*) where
  State : Type
  act : State → ι → TxOp ω → State
  pending : State → ι → Multiset ω
  durable : State → Multiset ω
  pending_other : ∀ s i op j, j ≠ i → pending (act s i op) j = pending s j
  pending_write : ∀ s i w, pending (act s i (.write w)) i = w ::ₘ pending s i
  pending_settled : ∀ s i op, op.settles = true → pending (act s i op) i = 0
  durable_commit : ∀ s i, durable (act s i .commit) = durable s + pending s i
  durable_kept : ∀ s i op, op ≠ .commit → durable (act s i op) = durable s

namespace SharedStore
open TxOp

variable {ι : Type*} [DecidableEq ι]

/-- What one session does in an interleaving. -/
def own (i : ι) (ops : List (ι × TxOp ω)) : List (TxOp ω) := (ops.filter (·.1 = i)).map Prod.snd

def run (S : SharedStore ι ω) (s : S.State) (ops : List (ι × TxOp ω)) : S.State :=
  ops.foldl (fun s op => S.act s op.1 op.2) s

variable {S : SharedStore ι ω} {s : S.State} {i j : ι} {op : TxOp ω} {ops : List (ι × TxOp ω)}

theorem own_same : own i ((i, op) :: ops) = op :: own i ops := by simp [own]

theorem own_other (other : j ≠ i) : own j ((i, op) :: ops) = own j ops := by simp [own, other.symm]

theorem pending_run : S.pending (S.run s ops) i =
    (if (own i ops).any settles then 0 else S.pending s i) + trailing (own i ops) := by
  induction ops generalizing s with
  | nil => exact (add_zero _).symm
  | cons step ops ih =>
    obtain ⟨j, op⟩ := step
    change S.pending (S.run (S.act s j op) ops) i = _
    rw [ih]
    rcases eq_or_ne i j with rfl | other
    · rw [own_same]
      cases op with
      | write w =>
        have none : (TxOp.write w :: own i ops).any settles = (own i ops).any settles := rfl
        rw [none, trailing, S.pending_write]
        split
        · rfl
        · rw [Multiset.cons_add, Multiset.add_cons]
      | commit => simp [settles, trailing, S.pending_settled s i .commit rfl]
      | rollback => simp [settles, trailing, S.pending_settled s i .rollback rfl]
    · rw [own_other other, S.pending_other s j op i other]

/-- What a session still has to make durable. -/
def owed (S : SharedStore ι ω) (s : S.State) (ops : List (ι × TxOp ω)) (i : ι) : Multiset ω :=
  (if CommitsNext (own i ops) then S.pending s i else 0) + committed (own i ops)

theorem owed_other (other : i ≠ j) : S.owed (S.act s j op) ops i = S.owed s ((j, op) :: ops) i := by
  rw [owed, owed, own_other other, S.pending_other s j op i other]

theorem owed_same :
    S.durable (S.act s i op) + S.owed (S.act s i op) ops i = S.durable s + S.owed s ((i, op) :: ops) i := by
  rw [owed, owed, own_same]
  cases op with
  | write w =>
    have other : TxOp.write w ≠ .commit := by simp
    simp only [S.durable_kept s i _ other, S.pending_write, commitsNext_write, committed]
    split
    · rw [Multiset.add_cons, Multiset.cons_add]
    · rfl
  | commit =>
    rw [S.durable_commit, S.pending_settled s i .commit rfl, if_pos commitsNext_commit, committed, ite_self, zero_add,
      add_assoc]
  | rollback =>
    rw [S.durable_kept s i _ (by simp), S.pending_settled s i .rollback rfl, if_neg not_commitsNext_rollback, committed,
      ite_self]

/-- What becomes durable is what each session makes durable, whatever the interleaving. -/
theorem durable_run {sessions : Finset ι} (among : ∀ op ∈ ops, op.1 ∈ sessions) :
    S.durable (S.run s ops) = S.durable s + ∑ i ∈ sessions, S.owed s ops i := by
  induction ops generalizing s with
  | nil => simp [run, owed, own, not_commitsNext_nil, committed]
  | cons step ops ih =>
    obtain ⟨j, op⟩ := step
    obtain ⟨member, among⟩ := List.forall_mem_cons.mp among
    change S.durable (S.run (S.act s j op) ops) = _
    have others : ∑ i ∈ sessions.erase j, S.owed (S.act s j op) ops i =
        ∑ i ∈ sessions.erase j, S.owed s ((j, op) :: ops) i :=
      Finset.sum_congr rfl fun i other => owed_other (Finset.ne_of_mem_erase other)
    rw [ih among, ← Finset.add_sum_erase _ _ member, others, ← add_assoc, owed_same, add_assoc,
      Finset.add_sum_erase _ _ member]

end SharedStore
end Foundation
