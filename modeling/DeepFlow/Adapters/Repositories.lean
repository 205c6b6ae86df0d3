import Mathlib.Data.List.Induction
import DeepFlow.Foundation.Transactions

/-!
# The unit of work

`SqlUnitOfWork` groups four repositories over one session. Leaving it by an exception rolls back;
leaving it normally does nothing, so what was written after the last commit stays pending for
whoever commits the session next. The repositories are skeletons: a write is whatever one of them
will do to the session.
-/

namespace DeepFlow.Adapters
open Foundation

variable {ω ε : Type} {S : TransactionalStore (ℕ × ω)}

/-- The session that the repositories share. -/
structure SqlUnitOfWork (S : TransactionalStore (ℕ × ω)) where
  session : S.State

namespace SqlUnitOfWork

def aenter (self : SqlUnitOfWork S) : SqlUnitOfWork S := self

def write (self : SqlUnitOfWork S) (w : ℕ × ω) : SqlUnitOfWork S := ⟨S.write w self.session⟩

def commit (self : SqlUnitOfWork S) : SqlUnitOfWork S := ⟨S.commit self.session⟩

def rollback (self : SqlUnitOfWork S) : SqlUnitOfWork S := ⟨S.rollback self.session⟩

/-- `exc` is the class of the exception, if there is one. -/
def aexit (self : SqlUnitOfWork S) : Option ε → SqlUnitOfWork S
  | some _ => self.rollback
  | none => self

def act (self : SqlUnitOfWork S) : TxOp (ℕ × ω) → SqlUnitOfWork S
  | .write w => self.write w
  | .commit => self.commit
  | .rollback => self.rollback

end SqlUnitOfWork

/-- What a block does before it is left, and what it is left by. -/
structure Block (ω ε : Type) where
  actions : List (TxOp ω)
  exc : Option ε

/-- The block's actions, its writes marked with the block's number. -/
def Block.marked (block : Block ω ε) (i : ℕ) : List (TxOp (ℕ × ω)) := block.actions.map (TxOp.map (i, ·))

def runBlock (S : TransactionalStore (ℕ × ω)) (session : S.State) (block : Block ω ε) (i : ℕ) : S.State :=
  let self : SqlUnitOfWork S := ⟨session⟩
  (((block.marked i).foldl SqlUnitOfWork.act self.aenter).aexit block.exc).session

/-- Blocks one after another on one new session. -/
def runBlocks (S : TransactionalStore (ℕ × ω)) (blocks : List (Block ω ε)) : S.State :=
  blocks.zipIdx.foldl (fun session numbered => runBlock S session numbered.1 numbered.2) S.opened

/-- `session_scope` around the blocks. -/
def sessionScope (S : TransactionalStore (ℕ × ω)) (blocks : List (Block ω ε)) : Option ε → S.State
  | none => S.commit (runBlocks S blocks)
  | some _ => S.rollback (runBlocks S blocks)

structure NeverLeaks (S : TransactionalStore (ℕ × ω)) (blocks : List (Block ω ε)) : Prop where
  settled : ∀ before block later, blocks = before ++ block :: later →
    ∀ w, (before.length, w) ∉ S.pending (runBlocks S (before ++ [block]))
  durable : S.durable (runBlocks S blocks) = S.durable S.opened +
    (blocks.zipIdx.map fun numbered => TxOp.committed (numbered.1.marked numbered.2)).sum

/-- The block is left by an exception, or nothing in it comes after its last commit or rollback. -/
def Block.Closed (block : Block ω ε) : Prop := block.exc.isSome ∨ TxOp.trailing block.actions = 0

/-! ### One block -/

section OneBlock
variable {session : S.State} {block : Block ω ε} {i : ℕ}

theorem act_session (self : SqlUnitOfWork S) (ops : List (TxOp (ℕ × ω))) :
    (ops.foldl SqlUnitOfWork.act self).session = S.run self.session ops := by
  induction ops generalizing self with
  | nil => rfl
  | cons op ops ih =>
    have step : (self.act op).session = S.step self.session op := by cases op <;> rfl
    rw [List.foldl_cons, ih, step]
    rfl

theorem runBlock_raised (raised : block.exc.isSome) :
    runBlock S session block i = S.rollback (S.run session (block.marked i)) := by
  obtain ⟨exc, raised⟩ := Option.isSome_iff_exists.mp raised
  rw [runBlock, raised]
  exact congrArg S.rollback (act_session _ _)

theorem runBlock_left (left : block.exc = none) : runBlock S session block i = S.run session (block.marked i) := by
  rw [runBlock, left]
  exact act_session _ _

theorem trailing_marked : TxOp.trailing (block.marked i) = (TxOp.trailing block.actions).map (i, ·) :=
  TxOp.trailing_map _

theorem runBlock_pending (closed : block.Closed) (clean : S.pending session = 0) :
    S.pending (runBlock S session block i) = 0 := by
  cases exc : block.exc with
  | some e => rw [runBlock_raised (by rw [exc]; rfl), S.pending_rollback]
  | none =>
    have nothing : TxOp.trailing block.actions = 0 := by simpa [Block.Closed, exc] using closed
    rw [runBlock_left exc, S.pending_run, clean, ite_self, trailing_marked, nothing]
    rfl

theorem runBlock_durable (clean : S.pending session = 0) :
    S.durable (runBlock S session block i) = S.durable session + TxOp.committed (block.marked i) := by
  have ran : S.durable (S.run session (block.marked i)) = S.durable session + TxOp.committed (block.marked i) := by
    rw [S.durable_run, clean, ite_self, add_zero]
  cases exc : block.exc with
  | some e => rw [runBlock_raised (by rw [exc]; rfl), S.durable_rollback, ran]
  | none => rw [runBlock_left exc, ran]

/-- A write that trails is pending when the block has been left. -/
theorem runBlock_leaks {w : ω} (left : block.exc = none) (trails : w ∈ TxOp.trailing block.actions) :
    (i, w) ∈ S.pending (runBlock S session block i) := by
  rw [runBlock_left left, S.pending_run, trailing_marked]
  exact Multiset.mem_add.mpr (Or.inr (Multiset.mem_map_of_mem _ trails))

end OneBlock

/-! ### Blocks on one session -/

section Blocks
variable {blocks : List (Block ω ε)} {block : Block ω ε}

theorem runBlocks_concat :
    runBlocks S (blocks ++ [block]) = runBlock S (runBlocks S blocks) block blocks.length := by
  unfold runBlocks
  rw [List.zipIdx_append, List.foldl_append]
  simp

theorem runBlocks_pending (closed : ∀ block ∈ blocks, block.Closed) : S.pending (runBlocks S blocks) = 0 := by
  induction blocks using List.reverseRecOn with
  | nil => exact S.pending_opened
  | append_singleton blocks block ih =>
    rw [runBlocks_concat]
    apply runBlock_pending (closed block (by simp))
    exact ih fun other member => closed other (List.mem_append_left _ member)

theorem runBlocks_durable (closed : ∀ block ∈ blocks, block.Closed) :
    S.durable (runBlocks S blocks) = S.durable S.opened +
      (blocks.zipIdx.map fun numbered => TxOp.committed (numbered.1.marked numbered.2)).sum := by
  induction blocks using List.reverseRecOn with
  | nil => exact (add_zero _).symm
  | append_singleton blocks block ih =>
    have earlier : ∀ block ∈ blocks, block.Closed := fun other member => closed other (List.mem_append_left _ member)
    rw [runBlocks_concat, runBlock_durable (runBlocks_pending earlier), ih earlier, List.zipIdx_append,
      List.map_append, List.sum_append, add_assoc]
    simp

/-- Around closed blocks the scope has nothing left to commit or to roll back. -/
theorem sessionScope_durable (closed : ∀ block ∈ blocks, block.Closed) (exc : Option ε) :
    S.durable (sessionScope S blocks exc) = S.durable (runBlocks S blocks) := by
  cases exc with
  | none => rw [sessionScope, S.durable_commit, runBlocks_pending closed, add_zero]
  | some e => rw [sessionScope, S.durable_rollback]

/-- Blocks leak nothing exactly when each of them is closed. -/
theorem neverLeaks_iff (S : TransactionalStore (ℕ × ω)) (blocks : List (Block ω ε)) :
    NeverLeaks S blocks ↔ ∀ block ∈ blocks, block.Closed := by
  constructor
  · intro never block member
    obtain ⟨before, later, split⟩ := List.append_of_mem member
    cases exc : block.exc with
    | some e => exact Or.inl (by rw [exc]; rfl)
    | none =>
      refine Or.inr (Multiset.eq_zero_of_forall_notMem ?_)
      intro w trails
      have settled := never.settled before block later split w
      rw [runBlocks_concat] at settled
      exact settled (runBlock_leaks exc trails)
  · intro closed
    refine ⟨?_, runBlocks_durable closed⟩
    intro before block later split w
    have prior : ∀ other ∈ before ++ [block], other.Closed := by
      intro other member
      apply closed
      rw [split]
      simp only [List.mem_append, List.mem_cons, List.not_mem_nil, or_false] at member ⊢
      exact member.imp_right Or.inl
    rw [runBlocks_pending prior]
    exact Multiset.notMem_zero _

end Blocks

/-- A session that keeps its writes in memory. -/
def bufferedSession (ω : Type) : TransactionalStore ω where
  State := Multiset ω × Multiset ω
  opened := (0, 0)
  write w s := (w ::ₘ s.1, s.2)
  commit s := (0, s.2 + s.1)
  rollback s := (0, s.2)
  pending := Prod.fst
  durable := Prod.snd
  pending_opened := rfl
  pending_write _ _ := rfl
  durable_write _ _ := rfl
  pending_commit _ := rfl
  durable_commit _ := rfl
  pending_rollback _ := rfl
  durable_rollback _ := rfl

/-- A position is written and its block left without a commit; the next block commits a journal
entry. -/
def forgottenCommit : List (Block String Unit) :=
  [⟨[.write "position"], none⟩, ⟨[.write "journal", .commit], none⟩]

theorem forgotten_commit_persisted :
    (0, "position") ∈ (bufferedSession (ℕ × String)).durable (runBlocks (bufferedSession _) forgottenCommit) ∧
      ¬ NeverLeaks (bufferedSession (ℕ × String)) forgottenCommit := by
  refine ⟨by decide, fun never => ?_⟩
  exact never.settled [] ⟨[.write "position"], none⟩ _ rfl "position" (by decide)

end DeepFlow.Adapters
