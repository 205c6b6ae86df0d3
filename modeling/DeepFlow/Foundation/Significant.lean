import Mathlib.Data.Int.Log
import Mathlib.Data.Rat.Floor
import Mathlib.Tactic.Linarith
import Mathlib.Tactic.Ring

/-!
# Significant digits

Decimal arithmetic computes an exact result and rounds it to a number of significant digits, ties to
the even neighbour. It is off by at most half a unit in the last place, a positive result stays
positive, and rounding is monotone and odd. The exponent is not bounded here, so nothing overflows or
vanishes.
-/

namespace Foundation

def roundHalfEven (x : ℚ) : ℤ :=
  let below := ⌊x⌋
  if x - below < 1 / 2 then below
  else if 1 / 2 < x - below then below + 1
  else if below % 2 = 0 then below else below + 1

/-- The exponent of the last digit kept. -/
def lastPlace (precision : ℕ) (x : ℚ) : ℤ := Int.log 10 |x| + 1 - precision

def roundSignificant (precision : ℕ) (x : ℚ) : ℚ :=
  roundHalfEven (x / 10 ^ lastPlace precision x) * 10 ^ lastPlace precision x

variable {precision : ℕ} {x : ℚ}

theorem floor_le_roundHalfEven (x : ℚ) : ⌊x⌋ ≤ roundHalfEven x := by
  unfold roundHalfEven
  dsimp only
  split_ifs <;> omega

theorem abs_roundHalfEven_sub_le (x : ℚ) : |(roundHalfEven x : ℚ) - x| ≤ 1 / 2 := by
  have lower := Int.floor_le x
  have upper := Int.lt_floor_add_one x
  unfold roundHalfEven
  dsimp only
  rw [abs_le]
  split_ifs with below above
  · constructor <;> linarith
  · push_cast
    constructor <;> linarith
  · constructor <;> linarith
  · push_cast
    constructor <;> linarith

theorem abs_roundHalfEven_le {n : ℤ} (within : |x| ≤ n) : |roundHalfEven x| ≤ n := by
  have close := abs_roundHalfEven_sub_le x
  have triangle := abs_add_le ((roundHalfEven x : ℚ) - x) x
  rw [sub_add_cancel] at triangle
  have strict : |(roundHalfEven x : ℚ)| < n + 1 := by linarith
  exact Int.lt_add_one_iff.mp (by exact_mod_cast strict)

theorem abs_roundSignificant_sub_le (precision : ℕ) (x : ℚ) :
    |roundSignificant precision x - x| ≤ 10 ^ lastPlace precision x / 2 := by
  have unit : (0 : ℚ) < 10 ^ lastPlace precision x := zpow_pos (by norm_num) _
  have close := abs_roundHalfEven_sub_le (x / 10 ^ lastPlace precision x)
  calc |roundSignificant precision x - x|
      = |(roundHalfEven (x / 10 ^ lastPlace precision x) : ℚ) - x / 10 ^ lastPlace precision x| *
          10 ^ lastPlace precision x := by
        rw [← abs_of_pos unit, ← abs_mul, abs_of_pos unit, sub_mul, div_mul_cancel₀ _ unit.ne']
        rfl
    _ ≤ 1 / 2 * 10 ^ lastPlace precision x := mul_le_mul_of_nonneg_right close unit.le
    _ = 10 ^ lastPlace precision x / 2 := by ring

theorem abs_lt_zpow_log (x : ℚ) : |x| < 10 ^ (Int.log 10 |x| + 1) := by
  exact_mod_cast Int.lt_zpow_succ_log_self (by norm_num : 1 < 10) |x|

theorem abs_roundSignificant_le (precision : ℕ) (x : ℚ) :
    |roundSignificant precision x| ≤ 10 ^ (Int.log 10 |x| + 1) := by
  have unit : (0 : ℚ) < 10 ^ lastPlace precision x := zpow_pos (by norm_num) _
  have whole : (10 : ℚ) ^ (Int.log 10 |x| + 1) = ((10 ^ precision : ℤ) : ℚ) * 10 ^ lastPlace precision x := by
    push_cast
    rw [← zpow_natCast, ← zpow_add₀ (by norm_num), lastPlace, add_sub_cancel]
  have within : |x / 10 ^ lastPlace precision x| ≤ ((10 ^ precision : ℤ) : ℚ) := by
    rw [abs_div, abs_of_pos unit, div_le_iff₀ unit, ← whole]
    exact (abs_lt_zpow_log x).le
  have rounded : |(roundHalfEven (x / 10 ^ lastPlace precision x) : ℚ)| ≤ ((10 ^ precision : ℤ) : ℚ) := by
    exact_mod_cast abs_roundHalfEven_le within
  rw [whole, roundSignificant, abs_mul, abs_of_pos unit]
  exact mul_le_mul_of_nonneg_right rounded unit.le

theorem roundSignificant_zero : roundSignificant precision 0 = 0 := by
  simp [roundSignificant, roundHalfEven]

theorem lastPlace_le {y : ℚ} (nonzero : y ≠ 0) (smaller : |y| < 10 ^ (Int.log 10 |x| + 1)) :
    lastPlace precision y ≤ lastPlace precision x := by
  have power : |y| < ((10 : ℕ) : ℚ) ^ (Int.log 10 |x| + 1) := by exact_mod_cast smaller
  have digits := (Int.lt_zpow_iff_log_lt (by norm_num) (abs_pos.mpr nonzero)).mp power
  unfold lastPlace
  omega

theorem abs_round_half_sub_le (precision : ℕ) (x : ℚ) :
    |roundSignificant precision (roundSignificant precision x / 2) - roundSignificant precision x / 2| ≤
      10 ^ lastPlace precision x / 2 := by
  have size := abs_roundSignificant_le precision x
  generalize bound : roundSignificant precision x / 2 = half
  by_cases zero : half = 0
  · have unit : (0 : ℚ) < 10 ^ lastPlace precision x := zpow_pos (by norm_num) _
    rw [zero, roundSignificant_zero, sub_zero, abs_zero]
    exact (half_pos unit).le
  · have power : (0 : ℚ) < 10 ^ (Int.log 10 |x| + 1) := zpow_pos (by norm_num) _
    have smaller : |half| < 10 ^ (Int.log 10 |x| + 1) := by
      rw [← bound, abs_div, abs_two]
      linarith
    have unit : (10 : ℚ) ^ lastPlace precision half ≤ 10 ^ lastPlace precision x :=
      zpow_le_zpow_right₀ (by norm_num) (lastPlace_le zero smaller)
    calc |roundSignificant precision half - half|
        ≤ 10 ^ lastPlace precision half / 2 := abs_roundSignificant_sub_le precision half
      _ ≤ 10 ^ lastPlace precision x / 2 := by linarith

/-- Halving a rounded value and rounding again is off by less than one unit in the last place. -/
theorem abs_half_sub_le (precision : ℕ) (x : ℚ) :
    |roundSignificant precision (roundSignificant precision x / 2) - x / 2| ≤ 3 / 4 * 10 ^ lastPlace precision x := by
  have first := abs_le.mp (abs_roundSignificant_sub_le precision x)
  have second := abs_le.mp (abs_round_half_sub_le precision x)
  rw [abs_le]
  constructor <;> linarith [first.1, first.2, second.1, second.2]

theorem roundSignificant_pos (digits : 0 < precision) (positive : 0 < x) : 0 < roundSignificant precision x := by
  have unit : (0 : ℚ) < 10 ^ lastPlace precision x := zpow_pos (by norm_num) _
  have log : ((10 : ℕ) : ℚ) ^ Int.log 10 x ≤ x := Int.zpow_log_le_self (by norm_num) positive
  have place : lastPlace precision x ≤ Int.log 10 x := by
    unfold lastPlace
    rw [abs_of_pos positive]
    omega
  have one : 1 ≤ x / 10 ^ lastPlace precision x := by
    rw [le_div_iff₀ unit, one_mul]
    calc (10 : ℚ) ^ lastPlace precision x ≤ 10 ^ Int.log 10 x := zpow_le_zpow_right₀ (by norm_num) place
      _ ≤ x := by exact_mod_cast log
  have rounded : 1 ≤ roundHalfEven (x / 10 ^ lastPlace precision x) :=
    (Int.le_floor.mpr (by exact_mod_cast one)).trans (floor_le_roundHalfEven _)
  have whole : (0 : ℚ) < roundHalfEven (x / 10 ^ lastPlace precision x) := by
    exact_mod_cast Int.lt_of_lt_of_le Int.zero_lt_one rounded
  exact mul_pos whole unit

/-! ### Monotone, odd and close -/

variable {y : ℚ}

theorem even_of_tie (tie : |(roundHalfEven x : ℚ) - x| = 1 / 2) : roundHalfEven x % 2 = 0 := by
  have lower := Int.floor_le x
  have upper := Int.lt_floor_add_one x
  unfold roundHalfEven at tie ⊢
  dsimp only at tie ⊢
  split_ifs at tie ⊢ with below above even
  · rw [abs_sub_comm, abs_of_nonneg (by linarith)] at tie
    linarith
  · push_cast at tie
    rw [abs_of_pos (by linarith)] at tie
    linarith
  · exact even
  · omega

/-- Rounding to nearest is monotone: an inversion would make both ends the same tie. -/
theorem roundHalfEven_mono (le : x ≤ y) : roundHalfEven x ≤ roundHalfEven y := by
  have near := abs_le.mp (abs_roundHalfEven_sub_le x)
  have near' := abs_le.mp (abs_roundHalfEven_sub_le y)
  by_contra inverted
  have apart : (roundHalfEven y : ℚ) + 1 ≤ roundHalfEven x := by exact_mod_cast not_le.mp inverted
  have same : x = y := by linarith [near.1, near.2, near'.1, near'.2]
  exact inverted (same ▸ le_rfl)

theorem roundHalfEven_neg (x : ℚ) : roundHalfEven (-x) = -roundHalfEven x := by
  have near := abs_le.mp (abs_roundHalfEven_sub_le x)
  have near' := abs_le.mp (abs_roundHalfEven_sub_le (-x))
  have lower : (-1 : ℚ) ≤ (roundHalfEven (-x) + roundHalfEven x : ℤ) := by
    push_cast
    linarith [near.1, near'.1]
  have upper : ((roundHalfEven (-x) + roundHalfEven x : ℤ) : ℚ) ≤ 1 := by
    push_cast
    linarith [near.2, near'.2]
  have lower' : -1 ≤ roundHalfEven (-x) + roundHalfEven x := by exact_mod_cast lower
  have upper' : roundHalfEven (-x) + roundHalfEven x ≤ 1 := by exact_mod_cast upper
  -- Off by one would take two ties, and both go to an even neighbour.
  by_cases tie : |(roundHalfEven x : ℚ) - x| = 1 / 2 ∧ |(roundHalfEven (-x) : ℚ) - -x| = 1 / 2
  · have even := even_of_tie tie.1
    have even' := even_of_tie tie.2
    omega
  · by_contra unequal
    apply tie
    have off : (roundHalfEven (-x) + roundHalfEven x : ℤ) = 1 ∨ (roundHalfEven (-x) + roundHalfEven x : ℤ) = -1 := by
      omega
    rcases off with off | off
    · have off' : (roundHalfEven (-x) : ℚ) + roundHalfEven x = 1 := by exact_mod_cast off
      rw [abs_of_nonneg (by linarith [near'.2]), abs_of_nonneg (by linarith [near.2])]
      constructor <;> linarith [near.2, near'.2]
    · have off' : (roundHalfEven (-x) : ℚ) + roundHalfEven x = -1 := by exact_mod_cast off
      rw [abs_of_nonpos (by linarith [near'.1]), abs_of_nonpos (by linarith [near.1])]
      constructor <;> linarith [near.1, near'.1]

theorem lastPlace_neg (precision : ℕ) (x : ℚ) : lastPlace precision (-x) = lastPlace precision x := by
  rw [lastPlace, lastPlace, abs_neg]

theorem roundSignificant_neg (precision : ℕ) (x : ℚ) :
    roundSignificant precision (-x) = -roundSignificant precision x := by
  rw [roundSignificant, roundSignificant, lastPlace_neg, neg_div, roundHalfEven_neg, Int.cast_neg, neg_mul]

theorem zpow_log_le (positive : 0 < x) : 10 ^ Int.log 10 x ≤ x := by
  exact_mod_cast Int.zpow_log_le_self (by norm_num : 1 < 10) positive

theorem roundHalfEven_intCast (n : ℤ) : roundHalfEven n = n := by
  simp [roundHalfEven]

/-- The leading power of ten survives rounding. -/
theorem zpow_log_le_roundSignificant (digits : 0 < precision) (positive : 0 < x) :
    10 ^ Int.log 10 x ≤ roundSignificant precision x := by
  have unit : (0 : ℚ) < 10 ^ lastPlace precision x := zpow_pos (by norm_num) _
  have whole : (10 : ℚ) ^ Int.log 10 x = ((10 ^ (precision - 1) : ℤ) : ℚ) * 10 ^ lastPlace precision x := by
    push_cast
    rw [← zpow_natCast, ← zpow_add₀ (by norm_num), lastPlace, abs_of_pos positive]
    congr 1
    omega
  have above : ((10 ^ (precision - 1) : ℤ) : ℚ) ≤ x / 10 ^ lastPlace precision x := by
    rw [le_div_iff₀ unit, ← whole]
    exact zpow_log_le positive
  have rounded := roundHalfEven_mono above
  rw [roundHalfEven_intCast] at rounded
  rw [whole, roundSignificant]
  exact mul_le_mul_of_nonneg_right (by exact_mod_cast rounded) unit.le

theorem roundSignificant_mono_pos (digits : 0 < precision) (positive : 0 < x) (le : x ≤ y) :
    roundSignificant precision x ≤ roundSignificant precision y := by
  have positive' := positive.trans_le le
  have unit : (0 : ℚ) < 10 ^ lastPlace precision x := zpow_pos (by norm_num) _
  rcases (Int.log_mono_right (b := 10) positive le).eq_or_lt with same | shorter
  · have place : lastPlace precision y = lastPlace precision x := by
      rw [lastPlace, lastPlace, abs_of_pos positive, abs_of_pos positive', same]
    have rounded := roundHalfEven_mono (div_le_div_of_nonneg_right le unit.le)
    rw [roundSignificant, roundSignificant, place]
    exact mul_le_mul_of_nonneg_right (by exact_mod_cast rounded) unit.le
  · -- A power of ten lies between the two.
    calc roundSignificant precision x ≤ |roundSignificant precision x| := le_abs_self _
      _ ≤ 10 ^ (Int.log 10 |x| + 1) := abs_roundSignificant_le precision x
      _ ≤ 10 ^ Int.log 10 y := by
        rw [abs_of_pos positive]
        exact zpow_le_zpow_right₀ (by norm_num) shorter
      _ ≤ roundSignificant precision y := zpow_log_le_roundSignificant digits positive'

theorem roundSignificant_nonneg (digits : 0 < precision) (nonneg : 0 ≤ x) : 0 ≤ roundSignificant precision x := by
  rcases nonneg.eq_or_lt with rfl | positive
  · rw [roundSignificant_zero]
  · exact (roundSignificant_pos digits positive).le

theorem roundSignificant_mono (digits : 0 < precision) (le : x ≤ y) :
    roundSignificant precision x ≤ roundSignificant precision y := by
  rcases lt_or_ge 0 x with positive | nonpos
  · exact roundSignificant_mono_pos digits positive le
  rcases le_or_gt 0 y with nonneg | negative
  · have lower := roundSignificant_nonneg digits (neg_nonneg.mpr nonpos)
    rw [roundSignificant_neg] at lower
    exact (neg_nonneg.mp lower).trans (roundSignificant_nonneg digits nonneg)
  · have mirrored := roundSignificant_mono_pos digits (neg_pos.mpr negative) (neg_le_neg le)
    rw [roundSignificant_neg, roundSignificant_neg] at mirrored
    exact neg_le_neg_iff.mp mirrored

/-- The relative error is at most half a unit in the last digit of the smallest number of that length. -/
theorem abs_roundSignificant_sub_le_mul (precision : ℕ) (x : ℚ) :
    |roundSignificant precision x - x| ≤ 10 ^ (1 - precision : ℤ) / 2 * |x| := by
  rcases eq_or_ne x 0 with rfl | nonzero
  · rw [roundSignificant_zero, sub_zero, abs_zero, mul_zero]
  · calc |roundSignificant precision x - x| ≤ 10 ^ lastPlace precision x / 2 := abs_roundSignificant_sub_le precision x
      _ = 10 ^ (1 - precision : ℤ) / 2 * 10 ^ Int.log 10 |x| := by
        rw [lastPlace, show Int.log 10 |x| + 1 - (precision : ℤ) = 1 - precision + Int.log 10 |x| by ring,
          zpow_add₀ (by norm_num)]
        ring
      _ ≤ 10 ^ (1 - precision : ℤ) / 2 * |x| := by
        apply mul_le_mul_of_nonneg_left (zpow_log_le (abs_pos.mpr nonzero))
        exact (half_pos (zpow_pos (by norm_num) _)).le

end Foundation
