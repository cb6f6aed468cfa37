import Mathlib.Algebra.Order.Ring.Int
import Mathlib.Tactic.Common

/-!
# Integers of C

A value of an integer type is the number itself, and a conversion is the function that the
compilers of the two usual data models apply: reduction modulo a power of two, into the signed
or the unsigned range.
-/

namespace CLang

/-- The data models: `int` has 32 bits in both, `long`, `size_t` and pointers have 32 or 64. -/
inductive DataModel where
  | ilp32
  | lp64
deriving DecidableEq

/-- The bits of a `long`. -/
def DataModel.longBits : DataModel → ℕ
  | ilp32 => 32
  | lp64 => 64

/-- The bytes of a pointer. -/
def DataModel.sizeofPtr : DataModel → ℕ
  | ilp32 => 4
  | lp64 => 8

/-- The largest `ssize_t`. -/
def DataModel.ssizeMax (m : DataModel) : ℕ := 2 ^ (m.longBits - 1) - 1

theorem DataModel.le_ssizeMax_iff {m : DataModel} {x : ℕ} :
    x ≤ m.ssizeMax ↔ x < 2 ^ (m.longBits - 1) := by
  have hpos := Nat.two_pow_pos (m.longBits - 1)
  unfold ssizeMax
  omega

/-- The conversion to `int`. -/
def toInt (x : ℤ) : ℤ := x.bmod (2 ^ 32)

/-- The conversion to `long` or `ssize_t`. -/
def toLong (m : DataModel) (x : ℤ) : ℤ := x.bmod (2 ^ m.longBits)

/-- The conversion to `unsigned long` or `size_t`. -/
def toUlong (m : DataModel) (x : ℤ) : ℕ := (x % 2 ^ m.longBits).toNat

/-- The conversion to a 64-bit unsigned type. -/
def toU64 (x : ℤ) : ℕ := (x % 2 ^ 64).toNat

theorem toInt_eq {x : ℤ} (hle : -2 ^ 31 ≤ x) (hlt : x < 2 ^ 31) : toInt x = x := by
  apply Int.bmod_eq_of_le <;> omega

theorem toInt_natCast {x : ℕ} (hlt : x < 2 ^ 31) : toInt x = x := by
  apply toInt_eq <;> omega

theorem toInt_lt (x : ℤ) : toInt x < 2 ^ 31 := by
  have h := Int.bmod_lt (x := x) (m := 2 ^ 32) (by decide)
  unfold toInt
  omega

/-- What an `int` of a number that is not negative says about its low bits. -/
theorem toInt_eq_iff {x c : ℕ} (hc : c < 2 ^ 31) : toInt x = c ↔ x % 2 ^ 32 = c := by
  unfold toInt
  rw [Int.bmod_def]
  split <;> omega

theorem two_pow_32_le (m : DataModel) : 2 ^ 32 ≤ 2 ^ m.longBits := by
  cases m <;> decide

theorem toUlong_natCast (m : DataModel) (x : ℕ) : toUlong m x = x % 2 ^ m.longBits := by
  unfold toUlong
  norm_cast

theorem toUlong_eq {m : DataModel} {x : ℕ} (hlt : x < 2 ^ m.longBits) : toUlong m x = x := by
  rw [toUlong_natCast, Nat.mod_eq_of_lt hlt]

theorem toLong_natCast {m : DataModel} {x : ℕ} (hlt : x < 2 ^ (m.longBits - 1)) :
    toLong m x = x := by
  cases m with
  | ilp32 =>
      have hlt : x < 2 ^ 31 := hlt
      apply Int.bmod_eq_of_le <;> simp only [DataModel.longBits] <;> omega
  | lp64 =>
      have hlt : x < 2 ^ 63 := hlt
      apply Int.bmod_eq_of_le <;> simp only [DataModel.longBits] <;> omega

theorem toU64_natCast {x : ℕ} (hlt : x < 2 ^ 64) : toU64 x = x := by
  unfold toU64
  omega

end CLang
