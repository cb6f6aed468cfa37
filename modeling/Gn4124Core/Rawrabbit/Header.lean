import Gn4124Core.CLang.Integers

/-!
# `rawrabbit.h`

The address code of the driver: a position in the device file, or the address of an ioctl, names
a BAR in its bits from 28 on and an offset in the bits below.  The macros are applied to integers
of several types; none of these is ever negative, and the macros are functions of their values.
-/

namespace Gn4124Core

open CLang

namespace Rawrabbit

def rrDefaultBufsize : ℤ := 2 ^ 20
def rrPlistSize : ℕ := 4096
def rrPlistLen (m : DataModel) : ℕ := rrPlistSize / m.sizeofPtr
def rrMaxBufsize (m : DataModel) : ℕ := rrPlistSize * rrPlistLen m

/-- `struct rr_devsel`. -/
structure RrDevsel where
  vendor : BitVec 16
  device : BitVec 16
  subvendor : BitVec 16
  subdevice : BitVec 16
  bus : BitVec 16
  devfn : BitVec 16
deriving DecidableEq

/-- Ignore `subvendor` and `subdevice`, or `bus` and `devfn`. -/
def rrDevselUnused : BitVec 16 := 0xffff#16

def rrBar0 : ℕ := 0x00000000
def rrBar2 : ℕ := 0x20000000
def rrBar4 : ℕ := 0x40000000
def rrBarBuf : ℕ := 0xc0000000

/-- `RR_IS_DMABUF`. -/
def rrIsDmabuf (addr : ℕ) : Bool := rrBarBuf ≤ addr

/-- `__RR_GET_BAR`. -/
def rrGetBar (x : ℕ) : ℕ := x >>> 28

/-- `__RR_SET_BAR` of an `unsigned int`. -/
def rrSetBar (x : BitVec 32) : BitVec 32 := x <<< 28

/-- `__RR_GET_OFF`. -/
def rrGetOff (x : ℕ) : ℕ := x &&& 0x0fffffff

/-- `rr_is_valid_bar`: the address is an `unsigned long`, and the BAR an `int`. -/
def rrIsValidBar (m : DataModel) (address : ℕ) : Bool :=
  let bar := toInt (rrGetBar (toUlong m address))
  bar = 0 || bar = 2 || bar = 4 || bar = 0x0c

/-- `rr_is_dmabuf_bar`. -/
def rrIsDmabufBar (m : DataModel) (address : ℕ) : Bool :=
  let bar := toInt (rrGetBar (toUlong m address))
  bar = 0x0c

/-! ## The macros as arithmetic -/

theorem barNumber_cases {bar : ℕ} (hbar : bar ∈ [0, 2, 4, 12]) :
    bar = 0 ∨ bar = 2 ∨ bar = 4 ∨ bar = 12 := by
  simpa using hbar

/-- Apart from the DMA buffer, a BAR number is twice an index. -/
theorem exists_bar_index {bar : ℕ} (hbar : bar ∈ [0, 2, 4, 12]) (hne : bar ≠ 12) :
    ∃ index : Fin 3, bar = 2 * index := by
  have hcases := barNumber_cases hbar
  refine ⟨⟨bar / 2, by omega⟩, ?_⟩
  show bar = 2 * (bar / 2)
  omega

theorem two_mul_mem : ∀ index : Fin 3, 2 * (index : ℕ) ∈ [0, 2, 4, 12] := by decide

theorem rrGetBar_eq (x : ℕ) : rrGetBar x = x / 2 ^ 28 := Nat.shiftRight_eq_div_pow x 28

theorem rrGetOff_eq (x : ℕ) : rrGetOff x = x % 2 ^ 28 := Nat.and_two_pow_sub_one_eq_mod x 28

theorem rrGetOff_lt (x : ℕ) : rrGetOff x < 2 ^ 28 := by
  rw [rrGetOff_eq]
  exact Nat.mod_lt x (by decide)

/-- A BAR and an offset side by side are read back. -/
theorem rrGetBar_eq_of_add {bar off : ℕ} (hoff : off < 2 ^ 28) :
    rrGetBar (bar * 2 ^ 28 + off) = bar := by
  rw [rrGetBar_eq]
  omega

theorem rrGetOff_eq_of_add {bar off : ℕ} (hoff : off < 2 ^ 28) :
    rrGetOff (bar * 2 ^ 28 + off) = off := by
  rw [rrGetOff_eq]
  omega

theorem rrIsDmabuf_eq (addr : ℕ) : rrIsDmabuf addr = true ↔ 0xc0000000 ≤ addr :=
  decide_eq_true_iff

theorem rrBarBuf_eq : rrBarBuf = 12 * 2 ^ 28 := by decide

/-- The BAR of the low 32 bits of the shifted address, as many as the type of the address leaves. -/
def barCode (m : DataModel) (address : ℕ) : ℕ := address % 2 ^ m.longBits / 2 ^ 28 % 2 ^ 32

theorem toInt_rrGetBar_eq_iff (m : DataModel) (address : ℕ) {c : ℕ} (hc : c < 2 ^ 31) :
    toInt (rrGetBar (toUlong m address)) = c ↔ barCode m address = c := by
  rw [toInt_eq_iff hc, rrGetBar_eq, toUlong_natCast]
  rfl

theorem rrIsValidBar_iff (m : DataModel) (address : ℕ) :
    rrIsValidBar m address = true ↔ barCode m address ∈ [0, 2, 4, 12] := by
  have h0 := toInt_rrGetBar_eq_iff m address (c := 0) (by decide)
  have h2 := toInt_rrGetBar_eq_iff m address (c := 2) (by decide)
  have h4 := toInt_rrGetBar_eq_iff m address (c := 4) (by decide)
  have h12 := toInt_rrGetBar_eq_iff m address (c := 12) (by decide)
  simp only [rrIsValidBar, Bool.or_eq_true, decide_eq_true_iff, List.mem_cons, List.not_mem_nil,
    or_false, or_assoc]
  exact or_congr h0 (or_congr h2 (or_congr h4 h12))

theorem rrIsDmabufBar_iff (m : DataModel) (address : ℕ) :
    rrIsDmabufBar m address = true ↔ barCode m address = 12 := by
  have h12 := toInt_rrGetBar_eq_iff m address (c := 12) (by decide)
  simp only [rrIsDmabufBar, decide_eq_true_iff]
  exact h12

/-- Of a 32-bit address every bit counts. -/
theorem barCode_of_lt {m : DataModel} {address : ℕ} (hlt : address < 2 ^ 32) :
    barCode m address = rrGetBar address := by
  have hle := two_pow_32_le m
  rw [barCode, rrGetBar_eq, Nat.mod_eq_of_lt (hlt.trans_le hle)]
  omega

end Rawrabbit

end Gn4124Core
