import Gn4124Core.Rtl.Package

/-!
# `wb_addr_decoder`

The decoder between the CSR bridge and its slaves, for any number of slaves
`g_WB_SLAVES_NB` and any window of `g_WINDOW_SIZE` address bits.  The top bits of the window
are the index of a slave.  The cycle line and the stall are decoded from the address on the
bus, the acknowledge and the data from the index that `p_wb_in_regs` has registered.
-/

namespace Gn4124Core

/-- The lines of the Wishbone master. -/
structure WbMasterLines where
  wbmAdr : Word
  wbmDat : Word
  wbmSel : BitVec 4
  wbmStb : Bool
  wbmWe : Bool
  wbmCyc : Bool
deriving DecidableEq

/-- What the slaves drive.  `unknown` is what becomes of the metavalue `'X'` on the data. -/
structure WbSlavesIn (gWbSlavesNb : ℕ) where
  wbDat : BitVec (32 * gWbSlavesNb)
  wbAck : BitVec gWbSlavesNb
  wbStall : BitVec gWbSlavesNb
  unknown : Word
deriving DecidableEq

/-- What the slaves see. -/
structure WbSlavesOut (gWbSlavesNb : ℕ) where
  wbAdr : Word
  wbDat : Word
  wbSel : BitVec 4
  wbStb : Bool
  wbWe : Bool
  wbCyc : Fin gWbSlavesNb → Bool

/-- The registers of `p_wb_in_regs`. -/
structure WbAddrDecoder (gWbSlavesNb : ℕ) where
  wbPeriphAddr : BitVec (log2Ceil gWbSlavesNb)
  wbmDat : Word
  wbAckT : Bool
deriving DecidableEq

/-- The index that the loop of `onehot_decode` builds, from the left bit to the right one. -/
def onehotIndex {k : ℕ} (sWbPeriphAddr : BitVec k) : ℕ :=
  (List.range k).reverse.foldl
    (fun vIndex i => if sWbPeriphAddr.getLsbD i then 2 * vIndex + 1 else 2 * vIndex) 0

/-- `onehot_decode`. -/
def onehotDecode {k : ℕ} (sWbPeriphAddr : BitVec k) : BitVec (2 ^ k) :=
  BitVec.twoPow (2 ^ k) (onehotIndex sWbPeriphAddr)

/-- `s_wb_periph_addr`: the top bits of the window. -/
def sWbPeriphAddr (gWbSlavesNb gWindowSize : ℕ) (wbmAdr : Word) : BitVec (log2Ceil gWbSlavesNb) :=
  wbmAdr.extractLsb' (gWindowSize - log2Ceil gWbSlavesNb) (log2Ceil gWbSlavesNb)

/-- `s_wb_periph_addr` with the `log2_ceil` of the Spartan-3. -/
def Spartan3.sWbPeriphAddr (gWbSlavesNb gWindowSize : ℕ) (wbmAdr : Word) :
    BitVec (Spartan3.log2Ceil gWbSlavesNb) :=
  wbmAdr.extractLsb' (gWindowSize - Spartan3.log2Ceil gWbSlavesNb) (Spartan3.log2Ceil gWbSlavesNb)

/-- `wb_adr_t`, extended to 32 bits. -/
def localAdr (gWbSlavesNb gWindowSize : ℕ) (wbmAdr : Word) : Word :=
  (wbmAdr.extractLsb' 0 (gWindowSize - log2Ceil gWbSlavesNb)).setWidth 32

namespace WbAddrDecoder

section Muxes

variable {gWbSlavesNb : ℕ} (addr : BitVec (log2Ceil gWbSlavesNb)) (i : WbSlavesIn gWbSlavesNb)

def pAckMux : Bool := if addr.toNat < gWbSlavesNb then i.wbAck.getLsbD addr.toNat else false

def pStallMux : Bool := if addr.toNat < gWbSlavesNb then i.wbStall.getLsbD addr.toNat else false

def pDinMux : Word :=
  if addr.toNat < gWbSlavesNb then i.wbDat.extractLsb' (32 * addr.toNat) 32 else i.unknown

end Muxes

variable {gWbSlavesNb : ℕ} (gWindowSize : ℕ) (s : WbAddrDecoder gWbSlavesNb) (m : WbMasterLines)
  (i : WbSlavesIn gWbSlavesNb)

/-- `p_wb_in_regs`, one edge of `clk_i`. -/
def step : WbAddrDecoder gWbSlavesNb where
  wbPeriphAddr := sWbPeriphAddr gWbSlavesNb gWindowSize m.wbmAdr
  wbmDat := pDinMux s.wbPeriphAddr i
  wbAckT := pAckMux s.wbPeriphAddr i

def reset : WbAddrDecoder gWbSlavesNb := ⟨0, 0, false⟩

/-- The stall to the master, from the address on the bus. -/
def wbmStall : Bool := pStallMux (sWbPeriphAddr gWbSlavesNb gWindowSize m.wbmAdr) i

/-- `gen_cyc_demux`. -/
def sWbCycDemuxed (j : Fin gWbSlavesNb) : Bool :=
  m.wbmCyc && (onehotDecode (sWbPeriphAddr gWbSlavesNb gWindowSize m.wbmAdr)).getLsbD j && !s.wbAckT

/-- The bus of the slaves. -/
def slaves : WbSlavesOut gWbSlavesNb where
  wbAdr := localAdr gWbSlavesNb gWindowSize m.wbmAdr
  wbDat := m.wbmDat
  wbSel := m.wbmSel
  wbStb := m.wbmStb
  wbWe := m.wbmWe
  wbCyc := s.sWbCycDemuxed gWindowSize m

end WbAddrDecoder

/-! ## The index is the number in the top bits -/

theorem onehotIndex_eq {k : ℕ} (addr : BitVec k) : onehotIndex addr = addr.toNat := by
  have hloop : ∀ l v, (List.range l).reverse.foldl
      (fun vIndex i => if addr.getLsbD i then 2 * vIndex + 1 else 2 * vIndex) v =
        2 ^ l * v + addr.toNat % 2 ^ l := by
    intro l
    induction l with
    | zero => simp [Nat.mod_one]
    | succ l ih =>
        intro v
        have hsplit := Nat.mod_pow_succ (b := 2) (x := addr.toNat) (k := l)
        have hbit : addr.getLsbD l = decide (addr.toNat / 2 ^ l % 2 = 1) := by
          rw [BitVec.getLsbD, Nat.testBit_eq_decide_div_mod_eq]
        rw [List.range_succ, List.reverse_append, List.reverse_singleton, List.singleton_append,
          List.foldl_cons, ih, hsplit, hbit, Nat.pow_succ]
        rcases Nat.mod_two_eq_zero_or_one (addr.toNat / 2 ^ l) with h | h <;> simp [h] <;> grind
  rw [onehotIndex, hloop k 0, Nat.mul_zero, Nat.zero_add, Nat.mod_eq_of_lt addr.isLt]

theorem getLsbD_onehotDecode {k : ℕ} (addr : BitVec k) (j : ℕ) :
    (onehotDecode addr).getLsbD j = decide (addr.toNat = j) := by
  simp [onehotDecode, BitVec.getLsbD_twoPow, onehotIndex_eq, addr.isLt]

/-- The index and the local address make up the address in the window. -/
theorem window_eq {gWbSlavesNb gWindowSize : ℕ} (hwindow : log2Ceil gWbSlavesNb < gWindowSize)
    (hsize : gWindowSize ≤ 32) (wbmAdr : Word) :
    wbmAdr.toNat % 2 ^ gWindowSize =
      (sWbPeriphAddr gWbSlavesNb gWindowSize wbmAdr).toNat *
          2 ^ (gWindowSize - log2Ceil gWbSlavesNb) +
        (localAdr gWbSlavesNb gWindowSize wbmAdr).toNat := by
  have hexp : gWindowSize = gWindowSize - log2Ceil gWbSlavesNb + log2Ceil gWbSlavesNb := by omega
  have hlocal : (localAdr gWbSlavesNb gWindowSize wbmAdr).toNat =
      wbmAdr.toNat % 2 ^ (gWindowSize - log2Ceil gWbSlavesNb) := by
    rw [localAdr, BitVec.toNat_setWidth, BitVec.extractLsb'_toNat, Nat.shiftRight_zero]
    apply Nat.mod_eq_of_lt
    have hpow : 2 ^ (gWindowSize - log2Ceil gWbSlavesNb) ≤ 2 ^ 32 :=
      Nat.pow_le_pow_right (by omega) (by omega)
    exact Nat.lt_of_lt_of_le (Nat.mod_lt _ (Nat.two_pow_pos _)) hpow
  rw [hlocal, sWbPeriphAddr, BitVec.extractLsb'_toNat, Nat.shiftRight_eq_div_pow]
  conv_lhs => rw [hexp, Nat.pow_add, Nat.mod_mul]
  rw [Nat.add_comm, Nat.mul_comm]

end Gn4124Core
