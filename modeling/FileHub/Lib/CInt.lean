import Mathlib.Algebra.Group.Int.Defs
import Mathlib.Algebra.Group.Nat.Defs
import Mathlib.Data.Int.Init

/-!
# The integers of C

An `int` has 32 bits and a `size_t` has 64. A value that does not fit is
converted modulo its width.
-/

namespace FileHub.Lib

def INT_MAX : ℕ := 2147483647

/-- The value converted to `int`. -/
def asInt (n : Int) : Int := n.bmod (2 ^ 32)

/-- The value converted to `size_t`. -/
def asSize (n : Int) : ℕ := (n % 2 ^ 64).toNat

theorem asInt_of_range {n : Int} (hlow : -2 ^ 31 ≤ n) (hhigh : n ≤ INT_MAX) : asInt n = n := by
  rw [INT_MAX] at hhigh
  rw [asInt]
  exact Int.bmod_eq_of_le (by omega) (by omega)

theorem asInt_of_le {n : ℕ} (h : n ≤ INT_MAX) : asInt n = n :=
  asInt_of_range (by omega) (by omega)

theorem asInt_range (n : Int) : -2 ^ 31 ≤ asInt n ∧ asInt n ≤ INT_MAX := by
  rw [asInt, INT_MAX]
  have hlow := Int.le_bmod (x := n) (m := 2 ^ 32) (by omega)
  have hhigh := Int.bmod_lt (x := n) (m := 2 ^ 32) (by omega)
  omega

theorem asInt_asInt_add (a b : Int) : asInt (asInt a + b) = asInt (a + b) := Int.bmod_add_bmod

theorem asInt_asInt_sub (a b : Int) : asInt (asInt a - b) = asInt (a - b) := Int.bmod_sub_bmod

theorem asInt_le (n : ℕ) : asInt n ≤ n := by
  rw [asInt, Int.bmod]
  split <;> omega

theorem asSize_of_lt {n : ℕ} (h : n < 2 ^ 64) : asSize n = n := by
  rw [asSize]
  omega

/-- A `size_t` that wrapped around is the `int` it would have been without. -/
theorem asInt_asSize (n : Int) : asInt (asSize n) = asInt n := by
  rw [asInt, asInt, asSize, Int.toNat_of_nonneg (Int.emod_nonneg n (by omega))]
  rw [← Int.emod_bmod, Int.emod_emod_of_dvd n (by decide), Int.emod_bmod]

end FileHub.Lib
