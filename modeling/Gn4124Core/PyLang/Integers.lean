import Mathlib.Data.Int.Bitwise
import Mathlib.Tactic.Positivity

/-!
# Python integers

An `int` of Python is unbounded, and its bits are those of the two's complement, so that `&` is
`Int.land`.  With a mask of low bits it gives the remainder, for negative numbers as well.
-/

namespace PyLang

/-- The exceptions that end a function. -/
inductive PyError where
  | indexError
  | valueError
  | systemExit
deriving DecidableEq

theorem ldiff_low_bits (k m : ℕ) : Nat.ldiff (2 ^ k - 1) m = 2 ^ k - 1 - m % 2 ^ k := by
  have hlt : m % 2 ^ k < 2 ^ k := Nat.mod_lt m (Nat.two_pow_pos k)
  apply Nat.eq_of_testBit_eq
  intro i
  rw [Nat.testBit_ldiff, Nat.testBit_two_pow_sub_one, Nat.sub_sub, Nat.add_comm 1,
    Nat.testBit_two_pow_sub_succ hlt, Nat.testBit_mod_two_pow]
  cases decide (i < k) <;> simp

/-- `x & (2 ** k - 1)`. -/
theorem land_low_bits (x : ℤ) (k : ℕ) : x.land (2 ^ k - 1 : ℕ) = x % (2 ^ k : ℕ) := by
  cases x with
  | ofNat m =>
      show ((m &&& (2 ^ k - 1) : ℕ) : ℤ) = _
      rw [Nat.and_two_pow_sub_one_eq_mod]
      rfl
  | negSucc m =>
      have hlt : m % 2 ^ k < 2 ^ k := Nat.mod_lt m (Nat.two_pow_pos k)
      have hpos : (0 : ℤ) < (2 ^ k : ℕ) := by exact_mod_cast Nat.two_pow_pos k
      have hcast : (m : ℤ) % (2 ^ k : ℕ) = (m % 2 ^ k : ℕ) := rfl
      show ((Nat.ldiff (2 ^ k - 1) m : ℕ) : ℤ) = _
      rw [ldiff_low_bits, Int.negSucc_emod _ hpos, hcast]
      omega

end PyLang
