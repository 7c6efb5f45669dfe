import Mathlib.Algebra.Group.Int.Defs
import Mathlib.Algebra.GroupWithZero.Nat

/-!
# C integers

`toInt32` is the conversion of an integer to `int32_t` and `sizeSub` the subtraction of two
`size_t` values. Both are the plain value as long as it is representable (`toInt32_of_lt`,
`sizeSub_of_le`).
-/

/-- Conversion to `int32_t`. -/
def toInt32 (n : Int) : Int := Int.bmod n (2 ^ 32)

/-- `a - b` on `size_t`. -/
def sizeSub (a b : Nat) : Nat := if b ≤ a then a - b else 2 ^ 64 + a - b

theorem toInt32_of_lt {n : Int} (h1 : -(2 ^ 31) ≤ n) (h2 : n < 2 ^ 31) : toInt32 n = n := by
  unfold toInt32
  exact Int.bmod_eq_of_le (by omega) (by omega)

/-- The conversion counts from the smallest value on. -/
theorem toInt32_eq (n : Int) : toInt32 n = (n + 2 ^ 31) % 2 ^ 32 - 2 ^ 31 := by
  unfold toInt32
  rw [Int.bmod_def]
  split <;> omega

/-- From 2^31 on a `size_t` becomes negative. -/
theorem toInt32_neg {n : Nat} (h1 : 2 ^ 31 ≤ n) (h2 : n < 2 ^ 32) : toInt32 n < 0 := by
  have hmod : toInt32 n = (n : Int) - 2 ^ 32 := by
    unfold toInt32
    rw [Int.bmod_def, Int.emod_eq_of_lt (by omega) (by omega), if_neg (by omega)]
    rfl
  omega

/-- The conversion does not make a number larger, unless it was too small. -/
theorem toInt32_le {n : Int} (h : -(2 ^ 31) ≤ n) : toInt32 n ≤ n := by
  by_cases hn : n < 2 ^ 31
  · exact Int.le_of_eq (toInt32_of_lt h hn)
  · unfold toInt32
    rw [Int.bmod_def]
    split <;> omega

theorem sizeSub_of_le {a b : Nat} (h : b ≤ a) : sizeSub a b = a - b := if_pos h
