import Mathlib.Algebra.Order.Field.Rat
import Mathlib.Algebra.Order.Field.Basic
import Mathlib.Tactic.FieldSimp
import Mathlib.Tactic.NormNum
import Mathlib.Tactic.Ring
import DeepFlow.Foundation.Text

/-!
# Decimal numbers and their positional text

A decimal number carries a representation, a sign, a coefficient and a power of ten, that equality
ignores and positional formatting does not. Two spellings of one value have the same text exactly
when they agree on the sign flag and on the number of decimals written out.
-/

namespace Foundation

structure Decimal where
  negative : Bool
  coefficient : Nat
  exponent : Int
  deriving DecidableEq, Repr

namespace Decimal

def value (d : Decimal) : ℚ := (if d.negative then -1 else 1) * d.coefficient * 10 ^ d.exponent

def parts (d : Decimal) : List Char × List Char :=
  let digits := Nat.toDigits 10 d.coefficient
  -- A zero is rescaled rather than written with trailing zeros.
  let exponent := if d.coefficient = 0 ∧ 0 < d.exponent then 0 else d.exponent
  let dotplace := exponent + digits.length
  if dotplace < 0 then (['0'], List.replicate (-dotplace).toNat '0' ++ digits)
  else if dotplace > digits.length then
    (digits ++ List.replicate (dotplace - digits.length).toNat '0', [])
  else (if dotplace = 0 then ['0'] else digits.take dotplace.toNat, digits.drop dotplace.toNat)

/-- Positional formatting without a precision. -/
def formatFixed (d : Decimal) : List Char :=
  (if d.negative then ['-'] else []) ++ d.parts.1 ++ if d.parts.2 = [] then [] else '.' :: d.parts.2

/-! ### Digits -/

/-- The lowest `k` digits of `n`. -/
def lowDigits : Nat → Nat → List Char
  | 0, _ => []
  | k + 1, n => lowDigits k (n / 10) ++ [Nat.digitChar (n % 10)]

theorem length_lowDigits (k n : Nat) : (lowDigits k n).length = k := by
  induction k generalizing n with
  | zero => rfl
  | succ k ih => simp [lowDigits, ih]

theorem lowDigits_zero (k : Nat) : lowDigits k 0 = List.replicate k '0' := by
  induction k with
  | zero => rfl
  | succ k ih => rw [lowDigits, Nat.zero_div, ih, List.replicate_succ']; rfl

theorem length_toDigits_concat {n : Nat} (large : 10 ≤ n) :
    (Nat.toDigits 10 n).length = (Nat.toDigits 10 (n / 10)).length + 1 := by
  rw [Nat.toDigits_of_base_le (by decide) large, List.length_append, List.length_singleton]

theorem toDigits_split {k n : Nat} (long : k < (Nat.toDigits 10 n).length) :
    Nat.toDigits 10 n = Nat.toDigits 10 (n / 10 ^ k) ++ lowDigits k n := by
  induction k generalizing n with
  | zero => simp [lowDigits]
  | succ k ih =>
    have large : 10 ≤ n := by
      by_contra small
      rw [Nat.toDigits_of_lt_base (Nat.lt_of_not_le small), List.length_singleton] at long
      omega
    rw [length_toDigits_concat large] at long
    rw [Nat.toDigits_of_base_le (by decide) large, ih (by omega), lowDigits, Nat.div_div_eq_div_mul,
      ← Nat.pow_succ', List.append_assoc]

theorem lowDigits_short {k n : Nat} (short : (Nat.toDigits 10 n).length ≤ k) :
    lowDigits k n = List.replicate (k - (Nat.toDigits 10 n).length) '0' ++ Nat.toDigits 10 n := by
  induction k generalizing n with
  | zero => exact absurd short (not_le.mpr Nat.length_toDigits_pos)
  | succ k ih =>
    by_cases large : 10 ≤ n
    · rw [length_toDigits_concat large] at short ⊢
      rw [lowDigits, ih (by omega), Nat.toDigits_of_base_le (by decide) large, List.append_assoc,
        Nat.add_sub_add_right]
    · have small : n < 10 := Nat.lt_of_not_le large
      rw [lowDigits, Nat.div_eq_of_lt small, Nat.mod_eq_of_lt small, lowDigits_zero,
        Nat.toDigits_of_lt_base small]
      rfl

theorem toDigits_zeros {n : Nat} (positive : 0 < n) (e : Nat) :
    Nat.toDigits 10 (n * 10 ^ e) = Nat.toDigits 10 n ++ List.replicate e '0' := by
  induction e with
  | zero => simp
  | succ e ih =>
    have more := Nat.toDigits_append_toDigits (b := 10) (n := n * 10 ^ e) (d := 0) (by decide)
      (Nat.mul_pos positive (Nat.pow_pos (by decide))) (by decide)
    rw [ih, Nat.toDigits_zero, Nat.add_zero] at more
    rw [Nat.pow_succ, List.replicate_succ', ← List.append_assoc, more, Nat.mul_comm 10, Nat.mul_assoc]

/-! ### The text of a number -/

def decimals (d : Decimal) : Nat := (-d.exponent).toNat

/-- The coefficient at the last decimal written out. -/
def scaled (d : Decimal) : Nat := d.coefficient * 10 ^ d.exponent.toNat

theorem parts_of_positive {d : Decimal} (positive : 0 < d.exponent) :
    d.parts = (Nat.toDigits 10 d.scaled, []) := by
  by_cases zero : d.coefficient = 0
  · simp [parts, scaled, zero, positive, Nat.toDigits_zero]
  · have nonzero : 0 < d.coefficient := Nat.pos_of_ne_zero zero
    have right : ¬ d.exponent + (Nat.toDigits 10 d.coefficient).length < 0 := by omega
    have above : d.exponent + (Nat.toDigits 10 d.coefficient).length > (Nat.toDigits 10 d.coefficient).length := by
      omega
    simp only [parts, zero, false_and, if_false, if_neg right, if_pos above, Int.add_sub_cancel]
    rw [scaled, toDigits_zeros nonzero]

theorem parts_of_nonpos {d : Decimal} {k : Nat} (nonpos : d.exponent = -(k : Int)) :
    d.parts = (Nat.toDigits 10 (d.coefficient / 10 ^ k), lowDigits k d.coefficient) := by
  have kept : (if d.coefficient = 0 ∧ 0 < d.exponent then 0 else d.exponent) = -(k : Int) := by
    rw [if_neg (by omega), nonpos]
  have positive : 0 < (Nat.toDigits 10 d.coefficient).length := Nat.length_toDigits_pos
  simp only [parts, kept]
  by_cases short : (Nat.toDigits 10 d.coefficient).length ≤ k
  · have small : d.coefficient < 10 ^ k :=
      (Nat.length_toDigits_le_iff (by decide) (positive.trans_le short)).mp short
    rw [Nat.div_eq_of_lt small, Nat.toDigits_zero, lowDigits_short short]
    by_cases equal : (Nat.toDigits 10 d.coefficient).length = k
    · rw [if_neg (by omega), if_neg (by omega), if_pos (by omega), equal, neg_add_cancel, Nat.sub_self]
      rfl
    · rw [if_pos (by omega)]
      congr 3
      omega
  · have split := toDigits_split (Nat.lt_of_not_le short)
    have place : (-(k : Int) + (Nat.toDigits 10 d.coefficient).length).toNat =
        (Nat.toDigits 10 (d.coefficient / 10 ^ k)).length := by
      have lengths := congrArg List.length split
      rw [List.length_append, length_lowDigits] at lengths
      omega
    rw [if_neg (by omega), if_neg (by omega), if_neg (by omega), place, split]
    simp only [List.take_left', List.drop_left']

theorem parts_eq (d : Decimal) :
    d.parts = (Nat.toDigits 10 (d.scaled / 10 ^ d.decimals), lowDigits d.decimals d.scaled) := by
  by_cases positive : 0 < d.exponent
  · have none : d.decimals = 0 := by simp only [decimals]; omega
    rw [parts_of_positive positive, none, Nat.pow_zero, Nat.div_one]
    rfl
  · have whole : d.scaled = d.coefficient := by
      have zero : d.exponent.toNat = 0 := by omega
      rw [scaled, zero, Nat.pow_zero, Nat.mul_one]
    rw [whole]
    exact parts_of_nonpos (by simp only [decimals]; omega)

def fraction (d : Decimal) : List Char :=
  if d.decimals = 0 then [] else '.' :: lowDigits d.decimals d.scaled

theorem formatFixed_eq (d : Decimal) :
    d.formatFixed = (if d.negative then ['-'] else []) ++
      (Nat.toDigits 10 (d.scaled / 10 ^ d.decimals) ++ d.fraction) := by
  have empty : lowDigits d.decimals d.scaled = [] ↔ d.decimals = 0 := by
    rw [← List.length_eq_zero_iff, length_lowDigits]
  simp only [formatFixed, fraction, parts_eq, empty, List.append_assoc]

theorem value_eq (d : Decimal) : d.value = (if d.negative then -1 else 1) * (d.scaled / 10 ^ d.decimals) := by
  have ten : (10 : ℚ) ≠ 0 := by norm_num
  have power : (10 : ℚ) ^ d.exponent = 10 ^ d.exponent.toNat / 10 ^ d.decimals := by
    rw [← zpow_natCast, ← zpow_natCast, ← zpow_sub₀ ten]
    congr 1
    simp only [decimals]
    omega
  rw [value, power, scaled, Nat.cast_mul, Nat.cast_pow, Nat.cast_ofNat]
  ring

theorem length_fraction (d : Decimal) : d.fraction.length = if d.decimals = 0 then 0 else d.decimals + 1 := by
  unfold fraction
  split
  · rfl
  · rw [List.length_cons, length_lowDigits]

theorem isDigit_of_mem_toDigits {n : Nat} {c : Char} (member : c ∈ Nat.toDigits 10 n) : c.isDigit = true :=
  Nat.isDigit_of_mem_toDigits (by decide) (by decide) member

theorem fraction_edge (d : Decimal) : ∀ first ∈ d.fraction.head?, first.isDigit = false := by
  unfold fraction
  split
  · simp
  · rintro first ⟨⟩
    rfl

theorem minus_ne_toDigits {n : Nat} {rest back : List Char} : '-' :: back ≠ Nat.toDigits 10 n ++ rest := by
  intro same
  cases digits : Nat.toDigits 10 n with
  | nil => exact Nat.toDigits_ne_nil digits
  | cons first more =>
    rw [digits, List.cons_append, List.cons.injEq] at same
    have digit : first.isDigit = true := isDigit_of_mem_toDigits (digits ▸ List.mem_cons_self ..)
    rw [← same.1] at digit
    exact absurd digit (by decide)

theorem formatFixed_inj {d e : Decimal} (same : d.formatFixed = e.formatFixed) :
    d.negative = e.negative ∧
      Nat.toDigits 10 (d.scaled / 10 ^ d.decimals) = Nat.toDigits 10 (e.scaled / 10 ^ e.decimals) ∧
      d.fraction = e.fraction := by
  rw [formatFixed_eq, formatFixed_eq] at same
  have sign : d.negative = e.negative := by
    cases left : d.negative <;> cases right : e.negative
    · rfl
    · rw [left, right] at same
      exact absurd same.symm minus_ne_toDigits
    · rw [left, right] at same
      exact absurd same minus_ne_toDigits
    · rfl
  rw [sign] at same
  exact ⟨sign, append_inj_of_edge (List.append_cancel_left same) (fun _ => isDigit_of_mem_toDigits)
    (fun _ => isDigit_of_mem_toDigits) d.fraction_edge e.fraction_edge⟩

theorem decimals_of_fraction {d e : Decimal} (same : d.fraction = e.fraction) : d.decimals = e.decimals := by
  have lengths := congrArg List.length same
  rw [length_fraction, length_fraction] at lengths
  split_ifs at lengths <;> omega

theorem scaled_of_value {d e : Decimal} (equal : d.value = e.value) (sign : d.negative = e.negative)
    (places : d.decimals = e.decimals) : d.scaled = e.scaled := by
  rw [value_eq, value_eq, sign, places] at equal
  have unit : (if e.negative then (-1 : ℚ) else 1) ≠ 0 := by split <;> norm_num
  have power : (10 : ℚ) ^ e.decimals ≠ 0 := by positivity
  exact_mod_cast (div_left_inj' power).mp (mul_left_cancel₀ unit equal)

/-- Agreement on what formatting shows beyond the value: the sign flag, which only a zero leaves open,
and the number of decimals. -/
structure SameSpelling (d e : Decimal) : Prop where
  negative : d.negative = e.negative
  decimals : d.decimals = e.decimals

theorem formatFixed_eq_iff {d e : Decimal} (equal : d.value = e.value) :
    d.formatFixed = e.formatFixed ↔ SameSpelling d e := by
  constructor
  · intro same
    obtain ⟨sign, _, fraction⟩ := formatFixed_inj same
    exact ⟨sign, decimals_of_fraction fraction⟩
  · rintro ⟨sign, places⟩
    rw [formatFixed_eq, formatFixed_eq, fraction, fraction, sign, places, scaled_of_value equal sign places]

/-! ### Reading a text back -/

theorem ofDigitChars_lowDigits (k n : Nat) : Nat.ofDigitChars 10 (lowDigits k n) 0 = n % 10 ^ k := by
  induction k generalizing n with
  | zero => simp [lowDigits, Nat.mod_one]
  | succ k ih =>
    rw [lowDigits, Nat.ofDigitChars_append, ih,
      Nat.ofDigitChars_cons_digitChar_of_lt_ten (Nat.mod_lt n (by decide)), Nat.ofDigitChars_nil,
      Nat.pow_succ', Nat.mod_mul]
    omega

theorem scaled_of_formatFixed {d e : Decimal} (same : d.formatFixed = e.formatFixed) : d.scaled = e.scaled := by
  obtain ⟨-, whole, fraction⟩ := formatFixed_inj same
  have places := decimals_of_fraction fraction
  have upper : d.scaled / 10 ^ d.decimals = e.scaled / 10 ^ d.decimals := by
    have read := congrArg (Nat.ofDigitChars 10 · 0) whole
    simpa only [Nat.ofDigitChars_ten_toDigits, ← places] using read
  have lower : d.scaled % 10 ^ d.decimals = e.scaled % 10 ^ d.decimals := by
    unfold Decimal.fraction at fraction
    rw [← places] at fraction
    split at fraction
    · next none => rw [none, Nat.pow_zero, Nat.mod_one, Nat.mod_one]
    · have read := congrArg (Nat.ofDigitChars 10 · 0) (List.cons.inj fraction).2
      simpa only [ofDigitChars_lowDigits] using read
  calc d.scaled
      = 10 ^ d.decimals * (d.scaled / 10 ^ d.decimals) + d.scaled % 10 ^ d.decimals :=
        (Nat.div_add_mod _ _).symm
    _ = 10 ^ d.decimals * (e.scaled / 10 ^ d.decimals) + e.scaled % 10 ^ d.decimals := by rw [upper, lower]
    _ = e.scaled := Nat.div_add_mod _ _

/-- A text denotes one value only. -/
theorem value_of_formatFixed {d e : Decimal} (same : d.formatFixed = e.formatFixed) : d.value = e.value := by
  obtain ⟨sign, -, fraction⟩ := formatFixed_inj same
  rw [value_eq, value_eq, sign, scaled_of_formatFixed same, decimals_of_fraction fraction]

def ofInt (n : Int) : Decimal := ⟨decide (n < 0), n.natAbs, 0⟩

theorem value_ofInt (n : Int) : (ofInt n).value = n := by
  unfold value ofInt
  rcases lt_or_ge n 0 with negative | nonneg
  · rw [decide_eq_true negative, if_pos rfl, zpow_zero, mul_one, neg_one_mul, Nat.cast_natAbs,
      abs_of_neg negative, Int.cast_neg, neg_neg]
  · rw [decide_eq_false (not_lt.mpr nonneg), if_neg Bool.false_ne_true, zpow_zero, mul_one, one_mul,
      Nat.cast_natAbs, abs_of_nonneg nonneg]

theorem formatFixed_ofInt (n : Int) : (ofInt n).formatFixed = (toString n).toList := by
  have places : (ofInt n).decimals = 0 := rfl
  have whole : (ofInt n).scaled = n.natAbs := Nat.mul_one _
  rw [formatFixed_eq, fraction, if_pos places, places, whole, Nat.pow_zero, Nat.div_one, List.append_nil]
  cases n with
  | ofNat n =>
    show [] ++ Nat.toDigits 10 n = (Nat.repr n).toList
    simp [Nat.repr]
  | negSucc n =>
    have sign : (ofInt (Int.negSucc n)).negative = true := decide_eq_true (Int.negSucc_lt_zero n)
    rw [sign, if_pos rfl]
    show ['-'] ++ Nat.toDigits 10 (n + 1) = ("-" ++ Nat.repr (n + 1)).toList
    simp [Nat.repr]

theorem int_of_text {m n : Int} (same : (toString m).toList = (toString n).toList) : m = n := by
  rw [← formatFixed_ofInt, ← formatFixed_ofInt] at same
  have values := value_of_formatFixed same
  rw [value_ofInt, value_ofInt] at values
  exact_mod_cast values

/-! ### The characters of a number -/

theorem isDigit_of_mem_lowDigits {k n : Nat} {c : Char} (member : c ∈ lowDigits k n) : c.isDigit = true := by
  induction k generalizing n with
  | zero => cases member
  | succ k ih =>
    rcases List.mem_append.mp member with higher | lowest
    · exact ih higher
    · rw [List.mem_singleton.mp lowest, Nat.isDigit_digitChar, decide_eq_true (Nat.mod_lt n (by decide))]

theorem formatFixed_alphabet {d : Decimal} {c : Char} (member : c ∈ d.formatFixed) :
    c.isDigit = true ∨ c = '.' ∨ c = '-' := by
  rw [formatFixed_eq, List.mem_append, List.mem_append] at member
  rcases member with sign | whole | fraction
  · split at sign
    · exact .inr (.inr (List.mem_singleton.mp sign))
    · cases sign
  · exact .inl (isDigit_of_mem_toDigits whole)
  · unfold Decimal.fraction at fraction
    split at fraction
    · cases fraction
    · rcases List.mem_cons.mp fraction with point | digit
      · exact .inr (.inl point)
      · exact .inl (isDigit_of_mem_lowDigits digit)

end Decimal
end Foundation
