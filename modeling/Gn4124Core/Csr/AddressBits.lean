import Gn4124Core.Rtl.WbAddrDecoder
import Mathlib.Data.Nat.Log
import Mathlib.Order.Bounds.Basic

/-!
# The address bits of the decoder on both devices

`log2_ceil` stands in the package of the Spartan-6 and in that of the Spartan-3.  The first is the
ceiling of the logarithm (`log2Ceil_eq`), the second one more than its floor
(`spartan3_log2Ceil_eq`).  Ceiling and floor differ by one but at the powers of two
(`clog_of_not_pow`), so the two functions differ exactly at the powers of two above 1
(`spartan3_log2Ceil_two_pow`, `spartan3_log2Ceil_eq_log2Ceil`), and there the decoder of the
Spartan-3 takes one bit too many for the index of the slave.
-/

namespace Gn4124Core

/-- The least number of bits, and at least one, that tells `n` things apart. -/
def IsCeilLog (n k : ℕ) : Prop := IsLeast {k | 1 ≤ k ∧ n ≤ 2 ^ k} k

/-- Both functions are the ceiling of the logarithm, and the decoders take the same bits. -/
structure SameOnBoth (n : ℕ) : Prop where
  spartan6 : IsCeilLog n (log2Ceil n)
  spartan3 : IsCeilLog n (Spartan3.log2Ceil n)
  agree : log2Ceil n = Spartan3.log2Ceil n
  bits : ∀ gWindowSize wbmAdr, (sWbPeriphAddr n gWindowSize wbmAdr).toNat =
    (Spartan3.sWbPeriphAddr n gWindowSize wbmAdr).toNat

/-! ## The two functions as logarithms -/

theorem isCeilLog_max (n : ℕ) : IsCeilLog n (max 1 (Nat.clog 2 n)) := by
  constructor
  · refine ⟨le_max_left _ _, ?_⟩
    calc n ≤ 2 ^ Nat.clog 2 n := Nat.le_pow_clog Nat.one_lt_two n
      _ ≤ 2 ^ max 1 (Nat.clog 2 n) := Nat.pow_le_pow_right Nat.two_pos (le_max_right _ _)
  · rintro k ⟨hpos, hk⟩
    exact max_le hpos (Nat.clog_le_of_le_pow hk)

theorem log2Ceil_eq (n : ℕ) : log2Ceil n = max 1 (Nat.clog 2 n) := by
  induction n using log2Ceil.induct with
  | case1 n hsmall =>
      have hclog : Nat.clog 2 n ≤ 1 := Nat.clog_le_of_le_pow (by omega)
      rw [log2Ceil, if_pos hsmall, max_eq_left hclog]
  | case2 n hbig heven ih =>
      have hhalf : (n + 2 - 1) / 2 = n / 2 := by omega
      have hclog := Nat.clog_of_two_le (n := n) Nat.one_lt_two (by omega)
      have hpos : 1 ≤ Nat.clog 2 (n / 2) := Nat.clog_pos Nat.one_lt_two (by omega)
      rw [hhalf] at hclog
      rw [log2Ceil, if_neg hbig, if_pos heven, ih, hclog, max_eq_right hpos]
      omega
  | case3 n hbig hodd ih =>
      have hhalf : (n + 2 - 1) / 2 = (n + 1) / 2 := by omega
      have hclog := Nat.clog_of_two_le (n := n) Nat.one_lt_two (by omega)
      have hpos : 1 ≤ Nat.clog 2 ((n + 1) / 2) := Nat.clog_pos Nat.one_lt_two (by omega)
      rw [hhalf] at hclog
      rw [log2Ceil, if_neg hbig, if_neg hodd, ih, hclog, max_eq_right hpos]
      omega

theorem spartan3_log2Ceil_eq (n : ℕ) : Spartan3.log2Ceil n = Nat.log 2 n + 1 := by
  induction n using Spartan3.log2Ceil.induct with
  | case1 n hsmall => rw [Spartan3.log2Ceil, if_pos hsmall, Nat.log_of_lt hsmall]
  | case2 n hbig ih =>
      rw [Spartan3.log2Ceil, if_neg hbig, ih,
        Nat.log_of_one_lt_of_le (n := n) Nat.one_lt_two (by omega)]
      omega

theorem log2Ceil_isCeilLog (n : ℕ) : IsCeilLog n (log2Ceil n) := by
  rw [log2Ceil_eq]
  exact isCeilLog_max n

/-- Between two powers of two the ceiling is one more than the floor. -/
theorem clog_of_not_pow {n : ℕ} (hn : 1 ≤ n) (hpow : ∀ k, n ≠ 2 ^ k) :
    Nat.clog 2 n = Nat.log 2 n + 1 := by
  have hle : 2 ^ Nat.log 2 n ≤ n := Nat.pow_log_le_self 2 (by omega)
  have hlow : 2 ^ Nat.log 2 n < n := lt_of_le_of_ne hle (hpow _).symm
  have hhigh : n < 2 ^ (Nat.log 2 n + 1) := Nat.lt_pow_succ_log_self Nat.one_lt_two n
  apply le_antisymm
  · exact Nat.clog_le_of_le_pow hhigh.le
  · exact (Nat.lt_clog_iff_pow_lt Nat.one_lt_two).mpr hlow

/-- At a power of two above 1 the Spartan-3 decoder takes one bit too many. -/
theorem spartan3_log2Ceil_two_pow {k : ℕ} (hk : 1 ≤ k) :
    Spartan3.log2Ceil (2 ^ k) = log2Ceil (2 ^ k) + 1 := by
  rw [spartan3_log2Ceil_eq, log2Ceil_eq, Nat.log_pow Nat.one_lt_two,
    Nat.clog_pow 2 k Nat.one_lt_two, max_eq_right hk]

/-- Everywhere else the two are one. -/
theorem spartan3_log2Ceil_eq_log2Ceil {n : ℕ} (h : n = 1 ∨ ∀ k, n ≠ 2 ^ k) :
    Spartan3.log2Ceil n = log2Ceil n := by
  rw [spartan3_log2Ceil_eq, log2Ceil_eq]
  rcases h with rfl | hpow
  · simp
  · cases n with
    | zero => simp
    | succ n =>
        rw [clog_of_not_pow (Nat.succ_pos n) hpow]
        exact (max_eq_right (Nat.le_add_left 1 _)).symm

end Gn4124Core
