import Gn4124Core.Clocked.Run
import Gn4124Core.Rtl.WbAddrDecoder
import Gn4124Core.Rtl.WbMaster32

/-!
# The CSR bridge behind the address decoder

`wbmaster32` starts a Wishbone cycle for each request and waits in `WB_WAIT_ACK`, with no
time-out, until it is acknowledged.  Between it and the slaves is `wb_addr_decoder`.  What
`to_wb_fifo` delivers is free here, so that every address of every request is covered.

An address whose index is below the number of slaves selects the slave of that index, and the
access ends when this slave acknowledges it.  The acknowledge and the data are selected by the
index of the cycle before, so an acknowledge in the very first cycle of an access is one of the
slave that was addressed before.  An index that no slave has is not an error: no slave sees
such an access, and it does not end.
-/

namespace Gn4124Core

open Clocked

/-- The Wishbone side of the bridge and the decoder, on one clock. -/
structure CsrBus (gWbSlavesNb : ℕ) where
  wb : WbmWb
  dec : WbAddrDecoder gWbSlavesNb
deriving DecidableEq

/-- The outputs of `to_wb_fifo` and the lines of the slaves. -/
structure CsrBusIn (gWbSlavesNb : ℕ) where
  toWbFifoEmpty : Bool
  toWbFifoDout : WbRequest
  slaves : WbSlavesIn gWbSlavesNb
deriving DecidableEq

namespace CsrBus

variable {gWbSlavesNb : ℕ} (gWindowSize : ℕ) (s : CsrBus gWbSlavesNb) (i : CsrBusIn gWbSlavesNb)

/-- The lines of the bridge; the core extends its 31-bit address by `'0'`. -/
def master : WbMasterLines where
  wbmAdr := 0#1 ++ s.wb.wbAdr
  wbmDat := s.wb.wbDatO
  wbmSel := s.wb.wbSel
  wbmStb := s.wb.wbStb
  wbmWe := s.wb.wbWe
  wbmCyc := s.wb.wbCyc

/-- What the slaves see. -/
def slaves : WbSlavesOut gWbSlavesNb := s.dec.slaves gWindowSize s.master

/-- The stall that the bridge sees. -/
def stall : Bool := WbAddrDecoder.wbmStall gWindowSize s.master i.slaves

/-- One edge of the clock. -/
def step : CsrBus gWbSlavesNb where
  wb := s.wb.step ⟨s.dec.wbmDat, s.dec.wbAckT, s.stall gWindowSize i, i.toWbFifoEmpty, i.toWbFifoDout⟩
  dec := s.dec.step gWindowSize s.master i.slaves

def reset : CsrBus gWbSlavesNb := ⟨.reset, .reset⟩

/-- The index that the address on the bus has. -/
def index : BitVec (log2Ceil gWbSlavesNb) := sWbPeriphAddr gWbSlavesNb gWindowSize s.master.wbmAdr

/-- There is an access on the bus, and no acknowledge is pending for it. -/
structure Unacked : Prop where
  wbCyc : s.wb.wbCyc = true
  wbAckT : s.dec.wbAckT = false

/-- The address on the bus selects this slave and no other. -/
structure Selects (slave : Fin gWbSlavesNb) : Prop where
  wbCyc : ∀ j, (s.slaves gWindowSize).wbCyc j = true ↔ j = slave
  stall : ∀ i, s.stall gWindowSize i = i.slaves.wbStall.getLsbD slave

/-- What this slave answers reaches the bridge, and ends the access. -/
structure Hears (slave : Fin gWbSlavesNb) : Prop where
  wbAckT : ∀ i, (step gWindowSize s i).dec.wbAckT = i.slaves.wbAck.getLsbD slave
  wbmDat : ∀ i, (step gWindowSize s i).dec.wbmDat = i.slaves.wbDat.extractLsb' (32 * slave) 32
  ends : ∀ i j, i.slaves.wbAck.getLsbD slave = true →
    (step gWindowSize (step gWindowSize s i) j).wb.wishboneCurrentState = .idle

/-- No slave sees the access for which the bridge waits. -/
structure Unseen : Prop where
  waits : s.wb.wishboneCurrentState = .waitAck
  wbCyc : ∀ j, (s.slaves gWindowSize).wbCyc j = false

/-! ## One edge -/

variable {gWindowSize s i}

/-- The cycle line is high exactly in `WB_WAIT_ACK`. -/
def Framed (s : CsrBus gWbSlavesNb) : Prop :=
  s.wb.wbCyc = true ↔ s.wb.wishboneCurrentState = .waitAck

theorem Framed.step (h : s.Framed) : (step gWindowSize s i).Framed := by
  unfold Framed at h ⊢
  simp only [CsrBus.step, WbmWb.step]
  cases hstate : s.wb.wishboneCurrentState with
  | idle => cases i.toWbFifoEmpty <;> simp
  | readFifo => simpa [hstate] using h
  | cycle => simp
  | waitAck =>
      simp only [hstate, iff_true] at h
      cases s.dec.wbAckT <;> simp [h]

theorem framed_run (is : List (CsrBusIn gWbSlavesNb)) :
    (run (step gWindowSize) reset is).Framed :=
  stable_run (fun _ _ h => h.step) (by simp [Framed, reset, WbmWb.reset]) is

variable (gWindowSize) in
/-- An access that is not acknowledged stays on the bus. -/
theorem Unacked.stays (h : s.Unacked) (hframed : s.Framed) :
    (step gWindowSize s i).wb.wishboneCurrentState = .waitAck ∧
      (step gWindowSize s i).wb.wbCyc = true ∧ (step gWindowSize s i).wb.wbAdr = s.wb.wbAdr := by
  have hstate : s.wb.wishboneCurrentState = .waitAck := hframed.mp h.wbCyc
  simp only [CsrBus.step, WbmWb.step, hstate, h.wbAckT, Bool.false_eq_true, if_false]
  exact ⟨trivial, h.wbCyc, trivial⟩

theorem index_congr {s' : CsrBus gWbSlavesNb} (h : s'.wb.wbAdr = s.wb.wbAdr) :
    s'.index gWindowSize = s.index gWindowSize := by
  simp only [index, master, h]

theorem wbCyc_slaves (h : s.Unacked) (j : Fin gWbSlavesNb) :
    (s.slaves gWindowSize).wbCyc j = decide ((s.index gWindowSize).toNat = j) := by
  simp only [slaves, WbAddrDecoder.slaves, WbAddrDecoder.sWbCycDemuxed, master, h.wbCyc,
    h.wbAckT, getLsbD_onehotDecode, Bool.true_and, Bool.not_false, Bool.and_true]
  rfl

theorem selects_of_index {slave : Fin gWbSlavesNb} (h : s.Unacked)
    (hindex : (s.index gWindowSize).toNat = slave) : s.Selects gWindowSize slave where
  wbCyc := fun j => by
    rw [wbCyc_slaves h, hindex, decide_eq_true_iff, Fin.ext_iff]
    exact eq_comm
  stall := fun i => by
    have hlt : (s.index gWindowSize).toNat < gWbSlavesNb := by
      rw [hindex]
      exact slave.isLt
    have hmux : s.stall gWindowSize i =
        WbAddrDecoder.pStallMux (s.index gWindowSize) i.slaves := rfl
    rw [hmux, WbAddrDecoder.pStallMux, if_pos hlt, hindex]

/-- From the second cycle of an access on, the registered index is that of its address. -/
theorem hears_of_index {slave : Fin gWbSlavesNb} (h : s.Unacked) (hframed : s.Framed)
    (hindex : s.dec.wbPeriphAddr.toNat = slave) : s.Hears gWindowSize slave := by
  have hack : ∀ i, (step gWindowSize s i).dec.wbAckT = i.slaves.wbAck.getLsbD slave := by
    intro i
    simp only [CsrBus.step, WbAddrDecoder.step, WbAddrDecoder.pAckMux, hindex, slave.isLt, if_true]
  refine ⟨hack, fun i => ?_, fun i j hslave => ?_⟩
  · simp only [CsrBus.step, WbAddrDecoder.step, WbAddrDecoder.pDinMux, hindex, slave.isLt, if_true]
  · obtain ⟨hstate, -, -⟩ := h.stays gWindowSize (i := i) hframed
    rw [CsrBus.step]
    simp only [WbmWb.step, hstate, hack i, hslave, if_true]

/-! ## An index that no slave has -/

/-- The bridge waits for a slave that does not exist. -/
structure Hangs (gWindowSize : ℕ) (s : CsrBus gWbSlavesNb) : Prop where
  unacked : s.Unacked
  waits : s.wb.wishboneCurrentState = .waitAck
  absent : gWbSlavesNb ≤ (s.index gWindowSize).toNat
  registered : gWbSlavesNb ≤ s.dec.wbPeriphAddr.toNat

theorem Hangs.step (h : s.Hangs gWindowSize) : (step gWindowSize s i).Hangs gWindowSize := by
  have hframed : s.Framed := ⟨fun _ => h.waits, fun _ => h.unacked.wbCyc⟩
  obtain ⟨hwaits, hcyc, hadr⟩ := h.unacked.stays gWindowSize (i := i) hframed
  -- the guard of `p_ack_mux` holds the acknowledge low for an index without a slave
  have hack : (CsrBus.step gWindowSize s i).dec.wbAckT = false := by
    simp only [CsrBus.step, WbAddrDecoder.step, WbAddrDecoder.pAckMux, h.registered.not_gt, if_false]
  refine ⟨⟨hcyc, hack⟩, hwaits, ?_, h.absent⟩
  rw [index_congr hadr]
  exact h.absent

theorem unseen_of_absent (h : s.Unacked) (hframed : s.Framed)
    (habsent : gWbSlavesNb ≤ (s.index gWindowSize).toNat) : s.Unseen gWindowSize where
  waits := hframed.mp h.wbCyc
  wbCyc := fun j => by
    rw [wbCyc_slaves h, decide_eq_false_iff_not]
    omega

theorem Hangs.unseen (h : s.Hangs gWindowSize) : s.Unseen gWindowSize :=
  unseen_of_absent h.unacked ⟨fun _ => h.waits, fun _ => h.unacked.wbCyc⟩ h.absent

theorem Hangs.run (h : s.Hangs gWindowSize) (js : List (CsrBusIn gWbSlavesNb)) :
    (run (CsrBus.step gWindowSize) s js).Unseen gWindowSize :=
  (stable_run (fun _ _ h => Hangs.step h) h js).unseen

/-- An access that was not acknowledged in its first cycle and whose slave does not exist. -/
theorem hangs_of_absent (h : s.Unacked) (hframed : s.Framed)
    (habsent : gWbSlavesNb ≤ (s.index gWindowSize).toNat)
    (hack : (step gWindowSize s i).dec.wbAckT = false) :
    (step gWindowSize s i).Hangs gWindowSize := by
  obtain ⟨hwaits, hcyc, hadr⟩ := h.stays gWindowSize (i := i) hframed
  refine ⟨⟨hcyc, hack⟩, hwaits, ?_, habsent⟩
  rwa [index_congr hadr]

/-- **The CSR bus answers exactly the addresses of its slaves.**  In every run, an access for
which no acknowledge is pending has its address made up of the index and the local address.  If
a slave has this index, it alone is selected, and from the next cycle on the bridge hears it.  If
none has, no slave is selected, and unless the access ends in its first cycle it never does. -/
theorem access_follows_index (hwindow : log2Ceil gWbSlavesNb < gWindowSize)
    (hsize : gWindowSize ≤ 32) (is : List (CsrBusIn gWbSlavesNb))
    (hs : run (step gWindowSize) reset is = s) (h : s.Unacked) :
    s.master.wbmAdr.toNat % 2 ^ gWindowSize =
        (s.index gWindowSize).toNat * 2 ^ (gWindowSize - log2Ceil gWbSlavesNb) +
          (s.slaves gWindowSize).wbAdr.toNat ∧
      (∀ slave : Fin gWbSlavesNb, (s.index gWindowSize).toNat = slave →
        s.Selects gWindowSize slave ∧
          ∀ i, (step gWindowSize s i).Unacked →
            (step gWindowSize s i).Selects gWindowSize slave ∧
              (step gWindowSize s i).Hears gWindowSize slave) ∧
      (gWbSlavesNb ≤ (s.index gWindowSize).toNat →
        s.Unseen gWindowSize ∧
          ∀ i, (step gWindowSize s i).Unacked → ∀ js,
            (run (step gWindowSize) (step gWindowSize s i) js).Unseen gWindowSize) := by
  have hframed : s.Framed := by
    rw [← hs]
    exact framed_run is
  refine ⟨window_eq hwindow hsize _, ?_, ?_⟩
  · intro slave hindex
    refine ⟨selects_of_index h hindex, fun i hnext => ?_⟩
    have hadr : (step gWindowSize s i).wb.wbAdr = s.wb.wbAdr := (h.stays gWindowSize hframed).2.2
    refine ⟨selects_of_index hnext ?_, hears_of_index hnext hframed.step hindex⟩
    rwa [index_congr hadr]
  · intro habsent
    refine ⟨unseen_of_absent h hframed habsent, fun i hnext js => ?_⟩
    exact (hangs_of_absent h hframed habsent hnext.wbAckT).run js

/-- A read of an address in the window of the second of three slaves. -/
def mappedRead : List (CsrBusIn 3) :=
  let dout : WbRequest := ⟨false, 0x10004#31, 0⟩
  [⟨false, dout, ⟨0, 0, 0, 0⟩⟩, ⟨true, dout, ⟨0, 0, 0, 0⟩⟩, ⟨true, dout, ⟨0, 0, 0, 0⟩⟩]

theorem mapped_read_selects_second : (run (step 18) reset mappedRead).Selects 18 (1 : Fin 3) :=
  ((access_follows_index (by decide +kernel) (by decide) mappedRead rfl
    ⟨by decide +kernel, by decide +kernel⟩).2.1 1 (by decide +kernel)).1

/-- A read behind the windows of the three slaves, and one more cycle. -/
def unmappedRead : List (CsrBusIn 3) :=
  let dout : WbRequest := ⟨false, 0x30000#31, 0⟩
  [⟨false, dout, ⟨0, 0, 0, 0⟩⟩, ⟨true, dout, ⟨0, 0, 0, 0⟩⟩, ⟨true, dout, ⟨0, 0, 0, 0⟩⟩,
    ⟨true, dout, ⟨0, 0, 0, 0⟩⟩]

/-- No slave ever sees the read of an unmapped address, and the bridge waits for ever. -/
theorem unmapped_read_hangs :
    let s := run (step 18) (reset : CsrBus 3) unmappedRead
    s.Unacked ∧ (¬ ∃! j, (s.slaves 18).wbCyc j = true) ∧ ∀ js, (run (step 18) s js).Unseen 18 := by
  have h : (run (step 18) (reset : CsrBus 3) unmappedRead).Hangs 18 :=
    ⟨⟨by decide +kernel, by decide +kernel⟩, by decide +kernel, by decide +kernel, by decide +kernel⟩
  refine ⟨h.unacked, ?_, h.run⟩
  rintro ⟨j, hj, -⟩
  rw [h.unseen.wbCyc j] at hj
  exact Bool.false_ne_true hj

/-! ## Which numbers of slaves leave no gap -/

theorem exists_index (hwindow : log2Ceil gWbSlavesNb < gWindowSize) (hsize : gWindowSize ≤ 31)
    {v : ℕ} (hv : v < 2 ^ log2Ceil gWbSlavesNb) :
    ∃ addr : BitVec 31, (sWbPeriphAddr gWbSlavesNb gWindowSize (0#1 ++ addr)).toNat = v := by
  have hlt : v * 2 ^ (gWindowSize - log2Ceil gWbSlavesNb) < 2 ^ 31 :=
    calc v * 2 ^ (gWindowSize - log2Ceil gWbSlavesNb)
        < 2 ^ log2Ceil gWbSlavesNb * 2 ^ (gWindowSize - log2Ceil gWbSlavesNb) :=
          Nat.mul_lt_mul_of_pos_right hv (Nat.two_pow_pos _)
      _ = 2 ^ gWindowSize := by
          rw [← Nat.pow_add]
          congr 1
          omega
      _ ≤ 2 ^ 31 := Nat.pow_le_pow_right (by decide) hsize
  have haddr : (0#1 ++ BitVec.ofNat 31 (v * 2 ^ (gWindowSize - log2Ceil gWbSlavesNb))).toNat =
      v * 2 ^ (gWindowSize - log2Ceil gWbSlavesNb) := by
    simp only [BitVec.toNat_append, BitVec.toNat_ofNat, Nat.zero_mod, Nat.zero_shiftLeft,
      Nat.zero_or, Nat.mod_eq_of_lt hlt]
  refine ⟨BitVec.ofNat 31 (v * 2 ^ (gWindowSize - log2Ceil gWbSlavesNb)), ?_⟩
  rw [sWbPeriphAddr, BitVec.extractLsb'_toNat, haddr, Nat.shiftRight_eq_div_pow,
    Nat.mul_div_cancel _ (Nat.two_pow_pos _), Nat.mod_eq_of_lt hv]

/-- Every address of the bridge has a slave exactly if their number is a power of two. -/
theorem every_address_has_slave_iff (hwindow : log2Ceil gWbSlavesNb < gWindowSize)
    (hsize : gWindowSize ≤ 31) :
    (∀ addr : BitVec 31,
      (sWbPeriphAddr gWbSlavesNb gWindowSize (0#1 ++ addr)).toNat < gWbSlavesNb) ↔
        gWbSlavesNb = 2 ^ log2Ceil gWbSlavesNb := by
  constructor
  · intro hall
    -- the last index has a slave, so there are as many slaves as indices
    have hlast : 2 ^ log2Ceil gWbSlavesNb - 1 < 2 ^ log2Ceil gWbSlavesNb :=
      Nat.sub_lt (Nat.two_pow_pos _) Nat.one_pos
    obtain ⟨addr, haddr⟩ := exists_index hwindow hsize hlast
    have hbelow := hall addr
    have hle := le_two_pow_log2Ceil gWbSlavesNb
    omega
  · intro hpow addr
    exact lt_of_lt_of_eq (BitVec.isLt _) hpow.symm

end CsrBus

end Gn4124Core
