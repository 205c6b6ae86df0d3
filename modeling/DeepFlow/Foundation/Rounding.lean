import DeepFlow.Foundation.Significant

/-!
# Rounded arithmetic

A rounding is known by two laws: it is monotone, and it is off by at most a fixed part of what it
rounds. Each operation computes its exact result and rounds it. `Near` bounds a computed value by
multiples of the exact one, and its rules compose these multiples operation by operation.
-/

namespace Foundation

structure Rounding (K : Type*) [Field K] [LinearOrder K] [IsStrictOrderedRing K] where
  round : K → K
  unit : K
  unit_range : 0 ≤ unit ∧ unit < 1
  mono : ∀ {x y}, x ≤ y → round x ≤ round y
  close : ∀ x, |round x - x| ≤ unit * |x|

variable {K : Type*} [Field K] [LinearOrder K] [IsStrictOrderedRing K]

/-- Multiples of an exact value that a computed one stays between. -/
structure Tolerance (K : Type*) [Field K] [LinearOrder K] where
  low : K
  high : K
  low_range : 0 < low ∧ low ≤ 1
  high_range : 1 ≤ high

/-- `approx` is within `tolerance` of `exact`. -/
structure Near (tolerance : Tolerance K) (approx exact : K) : Prop where
  lower : tolerance.low * exact ≤ approx
  upper : approx ≤ tolerance.high * exact

namespace Tolerance

theorem high_pos (tolerance : Tolerance K) : 0 < tolerance.high := zero_lt_one.trans_le tolerance.high_range

def mul (first second : Tolerance K) : Tolerance K where
  low := first.low * second.low
  high := first.high * second.high
  low_range := ⟨mul_pos first.low_range.1 second.low_range.1,
    mul_le_one₀ first.low_range.2 second.low_range.1.le second.low_range.2⟩
  high_range := one_le_mul_of_one_le_of_one_le first.high_range second.high_range

def div (first second : Tolerance K) : Tolerance K where
  low := first.low / second.high
  high := first.high / second.low
  low_range := ⟨div_pos first.low_range.1 second.high_pos,
    (div_le_one second.high_pos).mpr (first.low_range.2.trans second.high_range)⟩
  high_range := (one_le_div second.low_range.1).mpr (second.low_range.2.trans first.high_range)

end Tolerance

namespace Rounding
variable {context : Rounding K} {x y : K}

def sub (context : Rounding K) (x y : K) : K := context.round (x - y)

def mul (context : Rounding K) (x y : K) : K := context.round (x * y)

def div (context : Rounding K) (x y : K) : K := context.round (x / y)

/-- Exact arithmetic rounds nothing. -/
def exact : Rounding K where
  round := id
  unit := 0
  unit_range := ⟨le_rfl, zero_lt_one⟩
  mono := id
  close := by simp

/-- Decimal arithmetic with `precision` significant digits, ties to even. -/
def significant (precision : ℕ) (digits : 0 < precision) : Rounding ℚ where
  round := roundSignificant precision
  unit := 10 ^ (1 - precision : ℤ) / 2
  unit_range := by
    have unit : (0 : ℚ) < 10 ^ (1 - precision : ℤ) := zpow_pos (by norm_num) _
    have small : (10 : ℚ) ^ (1 - precision : ℤ) ≤ 1 := zpow_le_one_of_nonpos₀ (by norm_num) (by omega)
    constructor <;> linarith
  mono := roundSignificant_mono digits
  close := abs_roundSignificant_sub_le_mul precision

def tolerance (context : Rounding K) : Tolerance K where
  low := 1 - context.unit
  high := 1 + context.unit
  low_range := ⟨sub_pos.mpr context.unit_range.2, sub_le_self 1 context.unit_range.1⟩
  high_range := le_add_of_nonneg_right context.unit_range.1

theorem round_near (context : Rounding K) (nonneg : 0 ≤ x) : Near context.tolerance (context.round x) x := by
  have close := abs_le.mp (context.close x)
  rw [abs_of_nonneg nonneg] at close
  constructor
  · calc (1 - context.unit) * x = x - context.unit * x := by ring
      _ ≤ context.round x := by linarith [close.1]
  · calc context.round x ≤ x + context.unit * x := by linarith [close.2]
      _ = (1 + context.unit) * x := by ring

@[simp] theorem round_zero : context.round 0 = 0 := by
  have close := context.close 0
  rwa [abs_zero, mul_zero, sub_zero, abs_nonpos_iff] at close

theorem round_nonneg (nonneg : 0 ≤ x) : 0 ≤ context.round x := by
  have lower := context.mono nonneg
  rwa [round_zero] at lower

theorem round_pos (positive : 0 < x) : 0 < context.round x :=
  (mul_pos context.tolerance.low_range.1 positive).trans_le (context.round_near positive.le).lower

theorem round_nonpos (nonpos : x ≤ 0) : context.round x ≤ 0 := by
  have upper := context.mono nonpos
  rwa [round_zero] at upper

/-- Rounding never changes a sign, so a comparison of two numbers is that of their rounded difference. -/
theorem sub_nonpos_iff : context.sub x y ≤ 0 ↔ x ≤ y := by
  constructor
  · intro nonpos
    by_contra above
    exact absurd nonpos (not_le.mpr (round_pos (sub_pos.mpr (not_le.mp above))))
  · intro below
    exact round_nonpos (sub_nonpos.mpr below)

end Rounding

namespace Near
variable {tolerance tolerance' : Tolerance K} {approx exact approx' exact' bound slack : K}

theorem nonneg (near : Near tolerance approx exact) (nonneg : 0 ≤ exact) : 0 ≤ approx :=
  (mul_nonneg tolerance.low_range.1.le nonneg).trans near.lower

theorem pos (near : Near tolerance approx exact) (positive : 0 < exact) : 0 < approx :=
  (mul_pos tolerance.low_range.1 positive).trans_le near.lower

theorem round (near : Near tolerance approx exact) (context : Rounding K) (nonneg : 0 ≤ exact) :
    Near (tolerance.mul context.tolerance) (context.round approx) exact := by
  have step := context.round_near (near.nonneg nonneg)
  constructor
  · calc tolerance.low * context.tolerance.low * exact
        = context.tolerance.low * (tolerance.low * exact) := by ring
      _ ≤ context.tolerance.low * approx := mul_le_mul_of_nonneg_left near.lower context.tolerance.low_range.1.le
      _ ≤ context.round approx := step.lower
  · calc context.round approx ≤ context.tolerance.high * approx := step.upper
      _ ≤ context.tolerance.high * (tolerance.high * exact) :=
        mul_le_mul_of_nonneg_left near.upper context.tolerance.high_pos.le
      _ = tolerance.high * context.tolerance.high * exact := by ring

theorem mul (near : Near tolerance approx exact) (near' : Near tolerance' approx' exact') (nonneg : 0 ≤ exact)
    (nonneg' : 0 ≤ exact') : Near (tolerance.mul tolerance') (approx * approx') (exact * exact') := by
  have floor' : 0 ≤ tolerance'.low * exact' := mul_nonneg tolerance'.low_range.1.le nonneg'
  constructor
  · calc tolerance.low * tolerance'.low * (exact * exact')
        = (tolerance.low * exact) * (tolerance'.low * exact') := by ring
      _ ≤ approx * approx' := mul_le_mul near.lower near'.lower floor' (near.nonneg nonneg)
  · calc approx * approx' ≤ (tolerance.high * exact) * (tolerance'.high * exact') :=
          mul_le_mul near.upper near'.upper (near'.nonneg nonneg') ((near.nonneg nonneg).trans near.upper)
      _ = tolerance.high * tolerance'.high * (exact * exact') := by ring

theorem scale (near : Near tolerance approx exact) (nonneg : 0 ≤ bound) :
    Near tolerance (bound * approx) (bound * exact) := by
  constructor
  · rw [mul_left_comm]
    exact mul_le_mul_of_nonneg_left near.lower nonneg
  · rw [mul_left_comm]
    exact mul_le_mul_of_nonneg_left near.upper nonneg

theorem div (near : Near tolerance approx exact) (near' : Near tolerance' approx' exact') (nonneg : 0 ≤ exact)
    (positive' : 0 < exact') : Near (tolerance.div tolerance') (approx / approx') (exact / exact') := by
  have floor' : 0 < tolerance'.low * exact' := mul_pos tolerance'.low_range.1 positive'
  constructor
  · calc tolerance.low / tolerance'.high * (exact / exact') = tolerance.low * exact / (tolerance'.high * exact') := by
          rw [div_mul_div_comm]
      _ ≤ approx / approx' := div_le_div₀ (near.nonneg nonneg) near.lower (near'.pos positive') near'.upper
  · calc approx / approx' ≤ tolerance.high * exact / (tolerance'.low * exact') :=
          div_le_div₀ ((near.nonneg nonneg).trans near.upper) near.upper floor' near'.lower
      _ = tolerance.high / tolerance'.low * (exact / exact') := by rw [div_mul_div_comm]

/-- A bound that both values are clamped to brings them no further apart. -/
theorem min (near : Near tolerance approx exact) (nonneg : 0 ≤ bound) :
    Near tolerance (min approx bound) (min exact bound) := by
  constructor
  · apply le_min
    · exact (mul_le_mul_of_nonneg_left (min_le_left _ _) tolerance.low_range.1.le).trans near.lower
    · calc tolerance.low * Min.min exact bound ≤ tolerance.low * bound :=
            mul_le_mul_of_nonneg_left (min_le_right _ _) tolerance.low_range.1.le
        _ ≤ bound := mul_le_of_le_one_left nonneg tolerance.low_range.2
  · rcases le_total exact bound with less | more
    · rw [min_eq_left less]
      exact (min_le_left _ _).trans near.upper
    · rw [min_eq_right more]
      exact (min_le_right _ _).trans (le_mul_of_one_le_left nonneg tolerance.high_range)

theorem abs_sub_le (near : Near tolerance approx exact) (nonneg : 0 ≤ exact) (low : 1 - slack ≤ tolerance.low)
    (high : tolerance.high ≤ 1 + slack) : |approx - exact| ≤ slack * exact := by
  have lower := (mul_le_mul_of_nonneg_right low nonneg).trans near.lower
  have upper := near.upper.trans (mul_le_mul_of_nonneg_right high nonneg)
  rw [abs_le]
  constructor <;> linarith

end Near

end Foundation
