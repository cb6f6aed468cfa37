import Gn4124Core.Clocked.SharedBus
import Mathlib.Algebra.Ring.Nat

/-!
# `gn4124_core_pkg`

The types and functions the core's entities share.  A `std_logic` is a `Bool`, since the
metavalues play no part after reset, and a `std_logic_vector` or `unsigned` is a `BitVec`
of its width.  The reset `c_RST_ACTIVE` is asynchronous: each entity has its registers'
reset values as the definition `reset`, and the runs start there.
-/

namespace Gn4124Core

/-- A word of the 32-bit local bus. -/
abbrev Word := BitVec 32

/-- `f_byte_swap`: `"01"` swaps the bytes of each half-word, `"10"` the half-words. -/
def fByteSwap (enable : Bool) (din : Word) (byteSwap : BitVec 2) : Word :=
  if enable then
    match byteSwap with
    | 0b01#2 => din.extractLsb' 16 8 ++ din.extractLsb' 24 8 ++ din.extractLsb' 0 8 ++
        din.extractLsb' 8 8
    | 0b10#2 => din.extractLsb' 0 16 ++ din.extractLsb' 16 16
    | 0b11#2 => din.extractLsb' 0 8 ++ din.extractLsb' 8 8 ++ din.extractLsb' 16 8 ++
        din.extractLsb' 24 8
    | _ => din
  else din

@[simp] theorem fByteSwap_disabled (din : Word) (byteSwap : BitVec 2) :
    fByteSwap false din byteSwap = din := rfl

/-- The words a length field announces: `0` stands for 1024. -/
def wordsAnnounced (length : BitVec 10) : ℕ := if length = 0 then 1024 else length.toNat

/-- `log2_ceil`, which has no result below 1. -/
def log2Ceil (n : ℕ) : ℕ :=
  if n ≤ 2 then 1
  else if n % 2 = 0 then 1 + log2Ceil (n / 2)
  else 1 + log2Ceil ((n + 1) / 2)

/-- `log2_ceil` of the Spartan-3 package, which halves odd numbers downwards. -/
def Spartan3.log2Ceil (n : ℕ) : ℕ :=
  if n < 2 then 1 else 1 + Spartan3.log2Ceil (n / 2)

theorem le_two_pow_log2Ceil (n : ℕ) : n ≤ 2 ^ log2Ceil n := by
  induction n using log2Ceil.induct with
  | case1 n hsmall => rwa [log2Ceil, if_pos hsmall]
  | case2 n hbig heven ih =>
      rw [log2Ceil, if_neg hbig, if_pos heven, Nat.pow_add]
      omega
  | case3 n hbig hodd ih =>
      rw [log2Ceil, if_neg hbig, if_neg hodd, Nat.pow_add]
      omega

/-- The signals of one client of the L2P arbiter. -/
abbrev L2pSource := Clocked.SourceLines Word

/-- The registers that describe one item of a DMA chain. -/
structure DmaItem where
  carrierAddr : Word
  hostAddrH : Word
  hostAddrL : Word
  len : Word
  nextL : Word
  nextH : Word
  attrib : Word
deriving DecidableEq

/-- All registers at zero, their reset value. -/
def DmaItem.reset : DmaItem := ⟨0, 0, 0, 0, 0, 0, 0⟩

/-- The signals from the DMA controller to the two DMA masters. -/
structure DmaCtrl where
  carrierAddr : Word
  hostAddrH : Word
  hostAddrL : Word
  len : Word
  startL2p : Bool
  startP2l : Bool
  startNext : Bool
  byteSwap : BitVec 2
  abort : Bool
deriving DecidableEq

/-- No start, no abort. -/
def DmaCtrl.quiet : DmaCtrl := ⟨0, 0, 0, 0, false, false, false, 0, false⟩

/-- The length in words. -/
theorem DmaCtrl.toNat_words (c : DmaCtrl) :
    (c.len.extractLsb' 2 30).toNat = c.len.toNat / 4 := by
  have hlt := c.len.isLt
  rw [BitVec.extractLsb'_toNat, Nat.shiftRight_eq_div_pow]
  omega

end Gn4124Core
