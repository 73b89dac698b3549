import Mathlib.Algebra.Order.Field.Rat

namespace KoordQueue.Machine

/-- The length of a slice or a map as an `int64`: none has more entries than
the largest one. -/
def len64 (n : Nat) : Int64 := Int64.ofNat (min n (2 ^ 63 - 1))

theorem toInt_len64 (n : Nat) : (len64 n).toInt = min n (2 ^ 63 - 1) := by
  rw [len64, Int64.toInt_ofNat_of_lt (by omega)]

variable {a b : Int64}

theorem toInt_sub_of_fits (hl : -2 ^ 63 ≤ a.toInt - b.toInt) (hu : a.toInt - b.toInt < 2 ^ 63) :
    (a - b).toInt = a.toInt - b.toInt := by
  rw [Int64.toInt_sub]
  exact Int.bmod_eq_of_le (by omega) (by omega)

theorem toInt_add_of_fits (hl : -2 ^ 63 ≤ a.toInt + b.toInt) (hu : a.toInt + b.toInt < 2 ^ 63) :
    (a + b).toInt = a.toInt + b.toInt := by
  rw [Int64.toInt_add]
  exact Int.bmod_eq_of_le (by omega) (by omega)

theorem toInt_mul_of_fits (hl : -2 ^ 63 ≤ a.toInt * b.toInt) (hu : a.toInt * b.toInt < 2 ^ 63) :
    (a * b).toInt = a.toInt * b.toInt := by
  rw [Int64.toInt_mul]
  exact Int.bmod_eq_of_le (by omega) (by omega)

theorem toInt_sub_of_nonneg (ha : 0 ≤ a.toInt) (hb : 0 ≤ b.toInt) : (a - b).toInt = a.toInt - b.toInt := by
  have hal := Int64.toInt_lt a
  have hbl := Int64.toInt_lt b
  exact toInt_sub_of_fits (by omega) (by omega)

theorem toInt_sub_cases (a b : Int64) :
    (a - b).toInt = a.toInt - b.toInt ∨
      (a.toInt - b.toInt < -2 ^ 63 ∧ (a - b).toInt = a.toInt - b.toInt + 2 ^ 64) ∨
      (2 ^ 63 ≤ a.toInt - b.toInt ∧ (a - b).toInt = a.toInt - b.toInt - 2 ^ 64) := by
  have hal := Int64.le_toInt a
  have hau := Int64.toInt_lt a
  have hbl := Int64.le_toInt b
  have hbu := Int64.toInt_lt b
  rw [Int64.toInt_sub, Int.bmod_def]
  omega

theorem toInt_toInt32_of_fits (hl : -2 ^ 31 ≤ a.toInt) (hu : a.toInt < 2 ^ 31) : a.toInt32.toInt = a.toInt := by
  rw [Int64.toInt_toInt32]
  exact Int.bmod_eq_of_le (by omega) (by omega)

theorem toInt_min (a b : Int64) : (min a b).toInt = min a.toInt b.toInt := by
  have hle : a ≤ b ↔ a.toInt ≤ b.toInt := Int64.le_iff_toInt_le
  change (if a ≤ b then a else b).toInt = _
  grind

theorem toInt_max (a b : Int64) : (max a b).toInt = max a.toInt b.toInt := by
  have hle : a ≤ b ↔ a.toInt ≤ b.toInt := Int64.le_iff_toInt_le
  change (if a ≤ b then b else a).toInt = _
  grind

theorem toInt_max32 (a b : Int32) : (max a b).toInt = max a.toInt b.toInt := by
  have hle : a ≤ b ↔ a.toInt ≤ b.toInt := Int32.le_iff_toInt_le
  change (if a ≤ b then b else a).toInt = _
  grind

theorem gt_iff_toInt : a > b ↔ b.toInt < a.toInt := Int64.lt_iff_toInt_lt

end KoordQueue.Machine
