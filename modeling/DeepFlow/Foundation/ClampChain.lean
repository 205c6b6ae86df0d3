import Mathlib.Algebra.Order.Ring.Defs
import Mathlib.Data.List.Forall2
import Mathlib.Order.MinMax

/-!
# Chains of named clamps

A running value goes through clamps that lower it to their bound, and through changes of unit. The
name carried along is that of the last clamp that lowered it, so the name is a diagnosis: raising
the bound of any other clamp changes nothing. Where nothing is negative, loosening any step of the
chain never lowers the result.
-/

namespace Foundation

variable {K ν : Type*} [LinearOrder K]

def lastReducing (otherwise : ν) (trace : List (ν × K × K)) : ν :=
  (((trace.filter fun step => decide (step.2.2 < step.2.1)).getLast?).map Prod.fst).getD otherwise

theorem lastReducing_cons (otherwise : ν) (step : ν × K × K) (trace : List (ν × K × K)) :
    lastReducing otherwise (step :: trace) =
      lastReducing (if step.2.2 < step.2.1 then step.1 else otherwise) trace := by
  unfold lastReducing
  by_cases reduced : step.2.2 < step.2.1
  · rw [List.filter_cons_of_pos (by simpa using reduced), if_pos reduced, List.getLast?_cons]
    cases (trace.filter fun step => decide (step.2.2 < step.2.1)).getLast? <;> rfl
  · rw [List.filter_cons_of_neg (by simpa using reduced), if_neg reduced]

inductive ClampStep (K ν : Type*) where
  | clamp (bound : K) (name : ν)
  | rescale (factor : K)

namespace ClampStep
variable [Semiring K]

def run : ClampStep K ν → K × ν → K × ν
  | clamp bound name, running => if bound < running.1 then (bound, name) else running
  | rescale factor, running => (factor * running.1, running.2)

def value : ClampStep K ν → K → K
  | clamp bound _, v => min v bound
  | rescale factor, v => factor * v

def Monotonic : ClampStep K ν → Prop
  | clamp _ _ => True
  | rescale factor => 0 ≤ factor

/-- The step keeps values that are not negative. -/
def Nonneg : ClampStep K ν → Prop
  | clamp bound _ => 0 ≤ bound
  | rescale factor => 0 ≤ factor

/-- The same kind of step, with a bound or a factor that is no smaller. -/
inductive Looser : ClampStep K ν → ClampStep K ν → Prop where
  | clamp {bound higher : K} (raised : bound ≤ higher) (name name' : ν) :
      Looser (clamp bound name) (clamp higher name')
  | rescale {factor greater : K} (raised : factor ≤ greater) : Looser (rescale factor) (rescale greater)

theorem run_fst (step : ClampStep K ν) (running : K × ν) : (step.run running).1 = step.value running.1 := by
  cases step with
  | clamp bound name =>
    show (if bound < running.1 then (bound, name) else running).1 = min running.1 bound
    by_cases above : bound < running.1
    · rw [if_pos above, min_eq_right above.le]
    · rw [if_neg above, min_eq_left (not_lt.mp above)]
  | rescale factor => rfl

end ClampStep

section Chain
variable [Semiring K] {chain : List (ClampStep K ν)} {v w bound higher : K} {name other : ν}

def runChain (chain : List (ClampStep K ν)) (start : K × ν) : K × ν :=
  chain.foldl (fun running step => step.run running) start

/-- Each clamp of the chain with the running value before and after it. -/
def chainTrace : List (ClampStep K ν) → K → List (ν × K × K)
  | [], _ => []
  | .clamp bound name :: chain, v => (name, v, min v bound) :: chainTrace chain (min v bound)
  | .rescale factor :: chain, v => chainTrace chain (factor * v)

theorem runChain_fst (start : K × ν) :
    (runChain chain start).1 = chain.foldl (fun v step => step.value v) start.1 := by
  induction chain generalizing start with
  | nil => rfl
  | cons step chain ih =>
    have one := step.run_fst start
    unfold runChain at ih ⊢
    rw [List.foldl_cons, List.foldl_cons, ih, one]

theorem runChain_snd (start : K × ν) :
    (runChain chain start).2 = lastReducing start.2 (chainTrace chain start.1) := by
  induction chain generalizing start with
  | nil => rfl
  | cons step chain ih =>
    have unfolded : runChain (step :: chain) start = runChain chain (step.run start) := rfl
    rw [unfolded, ih, step.run_fst]
    cases step with
    | clamp bound name =>
      rw [chainTrace, lastReducing_cons]
      congr 1
      simp only [ClampStep.run, min_lt_iff, lt_irrefl, false_or]
      split <;> rfl
    | rescale factor => rfl

/-- The factor from a value's unit to the unit in which the chain ends. -/
def chainUnit : List (ClampStep K ν) → K
  | [] => 1
  | .clamp _ _ :: chain => chainUnit chain
  | .rescale factor :: chain => chainUnit chain * factor

def chainBounds : List (ClampStep K ν) → List (ν × K)
  | [] => []
  | .clamp bound name :: chain => (name, chainUnit chain * bound) :: chainBounds chain
  | .rescale _ :: chain => chainBounds chain

/-- The result is the start, if nothing lowered it, or else the bound of the clamp it names. -/
theorem runChain_named (chain : List (ClampStep K ν)) (start : K × ν) :
    runChain chain start = (chainUnit chain * start.1, start.2) ∨
      ((runChain chain start).2, (runChain chain start).1) ∈ chainBounds chain := by
  induction chain generalizing start with
  | nil => exact Or.inl (by rw [chainUnit, one_mul]; rfl)
  | cons step chain ih =>
    cases step with
    | clamp bound name =>
      have unfolded : runChain (.clamp bound name :: chain) start =
          runChain chain (if bound < start.1 then (bound, name) else start) := rfl
      rw [unfolded]
      by_cases above : bound < start.1
      · rw [if_pos above]
        rcases ih (bound, name) with same | named
        · rw [same]
          exact Or.inr List.mem_cons_self
        · exact Or.inr (List.mem_cons_of_mem _ named)
      · rw [if_neg above]
        exact (ih start).imp_right (List.mem_cons_of_mem _)
    | rescale factor =>
      rw [chainUnit, mul_assoc]
      exact ih (factor * start.1, start.2)

variable [IsOrderedRing K]

/-- What a later clamp lowers does not depend on how far above its bound it was. -/
theorem runChain_absorbs (monotonic : ∀ step ∈ chain, step.Monotonic) (le : v ≤ w)
    (lowered : (runChain chain (v, name)).2 ≠ name) :
    runChain chain (w, other) = runChain chain (v, name) := by
  induction chain generalizing v w other with
  | nil => exact absurd rfl lowered
  | cons step chain ih =>
    have rest : ∀ step ∈ chain, step.Monotonic := fun step member =>
      monotonic step (List.mem_cons_of_mem _ member)
    cases step with
    | clamp bound label =>
      have unfolded : ∀ running : K × ν, runChain (.clamp bound label :: chain) running =
          runChain chain (if bound < running.1 then (bound, label) else running) := fun _ => rfl
      rw [unfolded] at lowered
      rw [unfolded, unfolded]
      -- A clamp that lowers the smaller value lowers the larger one to the same pair.
      by_cases above : bound < v
      · rw [if_pos above, if_pos (above.trans_le le)]
      · rw [if_neg above] at lowered ⊢
        by_cases above' : bound < w
        · rw [if_pos above']
          exact ih rest (not_lt.mp above) lowered
        · rw [if_neg above']
          exact ih rest le lowered
    | rescale factor =>
      have nonneg : 0 ≤ factor := monotonic (.rescale factor) List.mem_cons_self
      exact ih rest (mul_le_mul_of_nonneg_left le nonneg) lowered

theorem runChain_raised (before after : List (ClampStep K ν)) {start : K × ν}
    (monotonic : ∀ step ∈ after, step.Monotonic) (raised : bound ≤ higher)
    (spared : (runChain (before ++ .clamp bound name :: after) start).2 ≠ name) :
    runChain (before ++ .clamp higher name :: after) start =
      runChain (before ++ .clamp bound name :: after) start := by
  have unfolded : ∀ limit, runChain (before ++ .clamp limit name :: after) start =
      runChain after (if limit < (runChain before start).1 then (limit, name) else runChain before start) := by
    intro limit
    unfold runChain
    rw [List.foldl_append, List.foldl_cons]
    rfl
  rw [unfolded] at spared
  rw [unfolded, unfolded]
  generalize runChain before start = running at spared ⊢
  obtain ⟨v, other⟩ := running
  by_cases above : bound < v
  · rw [if_pos above] at spared ⊢
    by_cases above' : higher < v
    · rw [if_pos above']
      exact runChain_absorbs monotonic raised spared
    · rw [if_neg above']
      exact runChain_absorbs monotonic above.le spared
  · rw [if_neg above, if_neg (not_lt.mpr ((not_lt.mp above).trans raised))]

theorem ClampStep.Nonneg.value {step : ClampStep K ν} (nonneg : step.Nonneg) (positive : 0 ≤ v) :
    0 ≤ step.value v := by
  cases step with
  | clamp bound name => exact le_min positive nonneg
  | rescale factor => exact mul_nonneg nonneg positive

theorem ClampStep.Looser.value {step step' : ClampStep K ν} (looser : step.Looser step') (nonneg : step.Nonneg)
    (positive : 0 ≤ v) (le : v ≤ w) : step.value v ≤ step'.value w := by
  cases looser with
  | clamp raised => exact min_le_min le raised
  | rescale raised => exact mul_le_mul raised le positive (le_trans nonneg raised)

theorem runChain_nonneg {start : K × ν} (nonneg : ∀ step ∈ chain, step.Nonneg) (positive : 0 ≤ start.1) :
    0 ≤ (runChain chain start).1 := by
  induction chain generalizing start with
  | nil => exact positive
  | cons step chain ih =>
    obtain ⟨first, rest⟩ := List.forall_mem_cons.mp nonneg
    have unfolded : runChain (step :: chain) start = runChain chain (step.run start) := rfl
    rw [unfolded]
    refine ih rest ?_
    rw [step.run_fst]
    exact first.value positive

/-- A chain that is nowhere tighter, from a start that is no lower, ends no lower. -/
theorem runChain_looser {chain' : List (ClampStep K ν)} {start start' : K × ν}
    (looser : List.Forall₂ ClampStep.Looser chain chain') (nonneg : ∀ step ∈ chain, step.Nonneg)
    (positive : 0 ≤ start.1) (le : start.1 ≤ start'.1) : (runChain chain start).1 ≤ (runChain chain' start').1 := by
  induction looser generalizing start start' with
  | nil => exact le
  | @cons step step' chain chain' head tail ih =>
    obtain ⟨first, rest⟩ := List.forall_mem_cons.mp nonneg
    have unfolded : runChain (step :: chain) start = runChain chain (step.run start) := rfl
    have unfolded' : runChain (step' :: chain') start' = runChain chain' (step'.run start') := rfl
    rw [unfolded, unfolded']
    apply ih rest
    · rw [step.run_fst]
      exact first.value positive
    · rw [step.run_fst, step'.run_fst]
      exact head.value first positive le

end Chain

end Foundation
