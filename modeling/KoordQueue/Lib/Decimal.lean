import Mathlib.Algebra.Order.Ring.Int
import Mathlib.Data.List.TakeWhile

namespace KoordQueue.Decimal

def cut (sep : Char) (s : List Char) : List Char × Option (List Char) :=
  match s.dropWhile (fun c => decide (c ≠ sep)) with
  | [] => (s, none)
  | _ :: after => (s.takeWhile (fun c => decide (c ≠ sep)), some after)

def digits (s : List Char) : Option Nat :=
  if s ≠ [] ∧ s.all Char.isDigit = true then some (Nat.ofDigitChars 10 s 0) else none

def signed : List Char → Option Int
  | '-' :: s => (digits s).map (fun n => -Int.ofNat n)
  | '+' :: s => (digits s).map Int.ofNat
  | s => (digits s).map Int.ofNat

def atoi (s : List Char) : Option Int64 :=
  ((signed s).filter (fun n => decide (-2 ^ 63 ≤ n ∧ n < 2 ^ 63))).map Int64.ofInt

variable {c sep : Char} {s : List Char} {n : Nat}

theorem cut_of_notMem (h : sep ∉ s) : cut sep s = (s, none) := by
  have hdrop : s.dropWhile (fun c => decide (c ≠ sep)) = [] :=
    List.dropWhile_eq_nil_iff.mpr (fun c hc => decide_eq_true (fun he => h (he ▸ hc)))
  rw [cut, hdrop]

theorem cut_append (h : sep ∉ s) (after : List Char) : cut sep (s ++ sep :: after) = (s, some after) := by
  have hall : ∀ c ∈ s, decide (c ≠ sep) = true := fun c hc => decide_eq_true (fun he => h (he ▸ hc))
  rw [cut, List.dropWhile_append_of_pos hall, List.takeWhile_append_of_pos hall]
  simp

theorem isDigit_of_mem (h : c ∈ Nat.toDigits 10 n) : c.isDigit = true :=
  Nat.isDigit_of_mem_toDigits (by decide) (by decide) h

theorem notMem_toDigits (n : Nat) (h : c.isDigit = false) : c ∉ Nat.toDigits 10 n :=
  fun hc => Bool.false_ne_true (h.symm.trans (isDigit_of_mem hc))

theorem digits_toDigits (n : Nat) : digits (Nat.toDigits 10 n) = some n := by
  rw [digits, if_pos, Nat.ofDigitChars_ten_toDigits]
  exact ⟨Nat.toDigits_ne_nil, List.all_eq_true.mpr (fun c hc => isDigit_of_mem hc)⟩

theorem signed_toDigits (n : Nat) : signed (Nat.toDigits 10 n) = some (Int.ofNat n) := by
  have hminus := notMem_toDigits n (by decide : '-'.isDigit = false)
  have hplus := notMem_toDigits n (by decide : '+'.isDigit = false)
  have hdigits := digits_toDigits n
  revert hminus hplus hdigits
  generalize Nat.toDigits 10 n = s
  intro hminus hplus hdigits
  rw [signed]
  · rw [hdigits, Option.map_some]
  · rintro t rfl
    exact hminus List.mem_cons_self
  · rintro t rfl
    exact hplus List.mem_cons_self

theorem atoi_toDigits (h : n < 2 ^ 63) : atoi (Nat.toDigits 10 n) = some (Int64.ofInt n) := by
  rw [atoi, signed_toDigits, Option.filter_some, if_pos, Option.map_some, Int.ofNat_eq_natCast]
  rw [decide_eq_true_eq, Int.ofNat_eq_natCast]
  omega

end KoordQueue.Decimal
