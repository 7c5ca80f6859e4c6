import Mathlib

/-!
# Whole numbers in binary64

A whole number up to `2 ^ 53` is a binary64 number.  A larger one is rounded to a multiple of
the unit in the last place of its binade, a tie to the even multiple.
-/

namespace Binary64

/-- The unit in the last place of `value`. -/
def unitOf (value : ℕ) : ℕ := 2 ^ (Nat.log 2 value - 52)

/-- The multiple of `unit` that is next to `value`. -/
def roundTo (unit value : ℕ) : ℕ :=
  let below := value / unit
  if 2 * (value % unit) < unit ∨ 2 * (value % unit) = unit ∧ below % 2 = 0 then below * unit
  else (below + 1) * unit

/-- The binary64 number that is next to `value`, where the exponent is not bounded. -/
def ofNat (value : ℕ) : ℕ :=
  if value ≤ 2 ^ 53 then value else roundTo (unitOf value) value

variable {unit value bound : ℕ}

theorem ofNat_of_le (hvalue : value ≤ 2 ^ 53) : ofNat value = value :=
  if_pos hvalue

theorem le_roundTo (hunit : 0 < unit) (hbound : bound * unit ≤ value) :
    bound * unit ≤ roundTo unit value := by
  have hbelow : bound ≤ value / unit := (Nat.le_div_iff_mul_le hunit).mpr hbound
  have hmultiple : bound * unit ≤ value / unit * unit := Nat.mul_le_mul_right unit hbelow
  rw [roundTo]
  split
  · exact hmultiple
  · exact hmultiple.trans (Nat.mul_le_mul_right unit (Nat.le_succ _))

/-- What is less than half a unit below a multiple is rounded below it. -/
theorem roundTo_lt (hunit : 0 < unit) (hvalue : 2 * value + unit < 2 * (bound * unit)) :
    roundTo unit value < bound * unit := by
  have hdivided := Nat.div_add_mod value unit
  rw [Nat.mul_comm] at hdivided
  have hbelow : value / unit < bound := by
    refine (Nat.div_lt_iff_lt_mul hunit).mpr ?_
    omega
  rw [roundTo]
  split
  · exact Nat.mul_lt_mul_of_pos_right hbelow hunit
  · rename_i hhalf
    have hnext : value / unit + 1 ≠ bound := by
      rintro rfl
      rw [Nat.add_mul, Nat.one_mul] at hvalue
      omega
    exact Nat.mul_lt_mul_of_pos_right (Nat.lt_of_le_of_ne hbelow hnext) hunit

/-- Rounding does not lead below a power of two. -/
theorem pow_le_ofNat (hvalue : 2 ^ 53 ≤ value) : 2 ^ 53 ≤ ofNat value := by
  rw [ofNat]
  split
  · exact hvalue
  · have hlog : 53 ≤ Nat.log 2 value :=
      (Nat.le_log_iff_pow_le (by decide) (by omega)).mpr hvalue
    have hpower : 2 ^ 52 * unitOf value = 2 ^ Nat.log 2 value := by
      rw [unitOf, ← Nat.pow_add]
      congr 1
      omega
    have hbelow : 2 ^ 52 * unitOf value ≤ value :=
      hpower.trans_le (Nat.pow_log_le_self 2 (by omega))
    calc 2 ^ 53 ≤ 2 ^ Nat.log 2 value := Nat.pow_le_pow_right (by decide) hlog
      _ = 2 ^ 52 * unitOf value := hpower.symm
      _ ≤ roundTo (unitOf value) value := le_roundTo (Nat.pow_pos (by decide)) hbelow

/-- Up to half a unit below `2 ^ 63` a number is rounded to one below it. -/
theorem ofNat_lt (hvalue : value < 2 ^ 63 - 2 ^ 9) : ofNat value < 2 ^ 63 := by
  rw [ofNat]
  split
  · omega
  · have hlog : Nat.log 2 value ≤ 62 :=
      Nat.lt_succ_iff.mp ((Nat.log_lt_iff_lt_pow (by decide) (by omega)).mpr (by omega))
    have hpower : 2 ^ (63 - (Nat.log 2 value - 52)) * unitOf value = 2 ^ 63 := by
      rw [unitOf, ← Nat.pow_add]
      congr 1
      omega
    have hunit : unitOf value ≤ 2 ^ 10 := Nat.pow_le_pow_right (by decide) (by omega)
    rw [← hpower]
    refine roundTo_lt (Nat.pow_pos (by decide)) ?_
    rw [hpower]
    omega

theorem ofNat_pos (hvalue : 1 ≤ value) : 1 ≤ ofNat value := by
  rcases Nat.le_total value (2 ^ 53) with hexact | hlarge
  · exact (ofNat_of_le hexact).symm ▸ hvalue
  · exact le_trans (by decide) (pow_le_ofNat hlarge)

end Binary64
