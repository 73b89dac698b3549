import Mathlib.Data.Int.Log
import Mathlib.Data.Rat.Floor
import Mathlib.Tactic.FieldSimp

namespace KoordQueue.Float64

def roundHalfEven (x : ℚ) : ℤ :=
  if x - ⌊x⌋ < 1 / 2 then ⌊x⌋
  else if 1 / 2 < x - ⌊x⌋ then ⌊x⌋ + 1
  else if Even ⌊x⌋ then ⌊x⌋
  else ⌊x⌋ + 1

def lastBit (x : ℚ) : ℤ := Int.log 2 |x| - 52

def float64 (x : ℚ) : ℚ := roundHalfEven (x / 2 ^ lastBit x) * 2 ^ lastBit x

theorem roundHalfEven_intCast (z : ℤ) : roundHalfEven z = z := by
  rw [roundHalfEven, Int.floor_intCast, sub_self, if_pos (by norm_num)]

theorem float64_of_multiple {x : ℚ} {z : ℤ} (h : x = z * 2 ^ lastBit x) : float64 x = x := by
  have hpos : (2 : ℚ) ^ lastBit x ≠ 0 := zpow_ne_zero _ (by norm_num)
  have hdiv : x / 2 ^ lastBit x = z := by
    rw [div_eq_iff hpos]
    exact h
  rw [float64, hdiv, roundHalfEven_intCast]
  exact h.symm

theorem lastBit_le {x : ℚ} (hx : x ≠ 0) (h : |x| < 2 ^ 53) : lastBit x ≤ 0 := by
  have hlog : Int.log 2 |x| < 53 := by
    rw [← Int.lt_zpow_iff_log_lt (by norm_num) (abs_pos.mpr hx)]
    exact_mod_cast h
  rw [lastBit]
  omega

theorem float64_intCast {z : ℤ} (h : |z| < 2 ^ 53) : float64 z = z := by
  by_cases hz : z = 0
  · subst z
    simp [float64, roundHalfEven]
  · have hx : (z : ℚ) ≠ 0 := Int.cast_ne_zero.mpr hz
    have hbound : |(z : ℚ)| < 2 ^ 53 := by exact_mod_cast h
    obtain ⟨n, hn⟩ := Int.eq_ofNat_of_zero_le (neg_nonneg.mpr (lastBit_le hx hbound))
    have hlast : lastBit z = -(n : ℤ) := by omega
    have hmultiple : (z : ℚ) = ((z * 2 ^ n : ℤ) : ℚ) * 2 ^ lastBit z := by
      rw [hlast, zpow_neg, zpow_natCast]
      push_cast
      field_simp
    exact float64_of_multiple hmultiple

end KoordQueue.Float64
