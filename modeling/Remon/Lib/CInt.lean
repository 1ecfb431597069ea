import Mathlib.Tactic

/-! # Integers of 32 and 64 bits

The conversions between `size_t` and `int`, and the difference of two pointers as an unsigned
number.
-/

namespace Remon.Lib

/-- The conversion of a `size_t` to an `int`. The low 32 bits decide; a number is negative from
`2 ^ 31` on. -/
def toInt (n : ℕ) : ℤ :=
  if n % 2 ^ 32 < 2 ^ 31 then (n % 2 ^ 32 : ℕ) else (n % 2 ^ 32 : ℕ) - (2 ^ 32 : ℕ)

def toSize (n : ℤ) : ℕ := (n % (2 ^ 64 : ℕ)).toNat

theorem toInt_eq (n : ℕ) : toInt n =
    if n % 2 ^ 32 < 2 ^ 31 then ((n % 2 ^ 32 : ℕ) : ℤ) else ((n % 2 ^ 32 : ℕ) : ℤ) - 2 ^ 32 :=
  rfl

theorem toInt_of_lt {n : ℕ} (h : n < 2 ^ 31) : toInt n = n := by
  rw [toInt_eq, Nat.mod_eq_of_lt (by omega), if_pos h]

theorem toInt_of_le {n : ℕ} (h : 2 ^ 31 ≤ n) (h' : n < 2 ^ 32) : toInt n = n - 2 ^ 32 := by
  rw [toInt_eq, Nat.mod_eq_of_lt h', if_neg (Nat.not_lt.mpr h)]

theorem toInt_lt (n : ℕ) : toInt n < 2 ^ 31 := by
  rw [toInt_eq]
  split_ifs <;> omega

theorem toSize_natCast {n : ℕ} (h : n < 2 ^ 64) : toSize n = n := by
  unfold toSize
  rw [Int.emod_eq_of_lt (by omega) (by omega)]
  exact Int.toNat_natCast n

theorem toSize_of_neg {n : ℤ} (h : n < 0) (h' : -2 ^ 64 ≤ n) : (toSize n : ℤ) = n + 2 ^ 64 := by
  unfold toSize
  omega

theorem toInt_toSize_add (n k : ℕ) : toInt (toSize (toInt n) + k) = toInt (n + k) := by
  have hmod : (toSize (toInt n) + k) % 2 ^ 32 = (n + k) % 2 ^ 32 := by
    rw [toInt_eq]
    unfold toSize
    split_ifs <;> omega
  rw [toInt_eq (toSize _ + k), toInt_eq (n + k), hmod]

def ptrDiff (a b : ℕ) : ℕ := (a + 2 ^ 64 - b) % 2 ^ 64

theorem ptrDiff_of_le {a b : ℕ} (h : b ≤ a) (ha : a < 2 ^ 64) : ptrDiff a b = a - b := by
  unfold ptrDiff
  rw [show a + 2 ^ 64 - b = a - b + 2 ^ 64 by omega, Nat.add_mod_right]
  exact Nat.mod_eq_of_lt (by omega)

theorem ptrDiff_of_lt {a b : ℕ} (h : a < b) : ptrDiff a b = a + 2 ^ 64 - b :=
  Nat.mod_eq_of_lt (by omega)

end Remon.Lib
