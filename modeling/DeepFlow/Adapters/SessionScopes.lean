import DeepFlow.Adapters.Repositories

/-!
# Session scopes

`session_scope` opens a session, commits it when its body ends and rolls it back when an `Exception`
comes out of the body or of the commit. Anything else, a cancellation above all, is not caught, and
closing the session discards what is pending. Several scopes may be open over one database.
-/

namespace DeepFlow.Adapters
open Foundation

inductive ScopeExit where
  | returned
  | raised
  | cancelled
  deriving DecidableEq, Repr

/-- What the exit does to the session in the end. -/
def ScopeExit.op {ω : Type} : ScopeExit → TxOp ω
  | returned => .commit
  | raised => .rollback
  | cancelled => .rollback

/-- A scope whose body runs units of work one after another. -/
structure Scope (ω ε : Type) where
  blocks : List (Block ω ε)
  exit : ScopeExit

variable {ω ε : Type}

/-- All that a block does to its session. -/
def Block.trace (block : Block ω ε) (i : ℕ) : List (TxOp (ℕ × ω)) :=
  block.marked i ++ if block.exc.isSome then [.rollback] else []

def Scope.body (scope : Scope ω ε) : List (TxOp (ℕ × ω)) :=
  scope.blocks.zipIdx.flatMap fun numbered => numbered.1.trace numbered.2

def Scope.trace (scope : Scope ω ε) : List (TxOp (ℕ × ω)) := scope.body ++ [scope.exit.op]

/-- The scope on a session of its own. -/
def Scope.run (scope : Scope ω ε) (S : TransactionalStore (ℕ × ω)) : S.State :=
  S.step (runBlocks S scope.blocks) scope.exit.op

section Alone
variable {S : TransactionalStore (ℕ × ω)} {scope : Scope ω ε} {block : Block ω ε} {i : ℕ}

theorem sessionScope_run (blocks : List (Block ω ε)) (exc : Option ε) : sessionScope S blocks exc =
    Scope.run ⟨blocks, if exc.isSome then .raised else .returned⟩ S := by
  cases exc <;> rfl

end Alone

/-! ### Scopes over one database -/

section Together
variable {ι : Type} [DecidableEq ι] {scope : Scope ω ε} {done : List (TxOp (ℕ × ω))}

/-- One scope writes a position and returns, the other an order and fails. -/
def crossed : Bool → Scope String Unit
  | false => ⟨[⟨[.write "position"], none⟩], .returned⟩
  | true => ⟨[⟨[.write "order"], none⟩], .raised⟩

end Together
end DeepFlow.Adapters
