import Gn4124Core.Rtl.L2pDmaMaster
import Gn4124Core.Rtl.P2lDmaMaster

/-!
# A start while a transfer is under way

Both DMA masters answer a start of their own direction with an error when they are not idle.  The
L2P DMA master ends the reading of carrier memory then: it clears the address counter and the words
that remain, and only what was read before is still sent.  The P2L DMA master leaves its transfer
alone.  An order to fetch the next item has no error; a busy master does not see it.

Two runs are compared, with the start and without it, that have the same inputs from then on.  What
the packet side of the L2P DMA master does is the same in any case (`SamePackets`); the addresses
are the same if all of them were written before (`SameTransfer`).  The two P2L DMA masters differ in
the error flag alone (`SameButError`).
-/

namespace Gn4124Core

open Clocked

/-- The same lines without the start orders. -/
def DmaCtrl.withoutStart (c : DmaCtrl) : DmaCtrl :=
  { c with startL2p := false, startP2l := false, startNext := false }

/-! ## The L2P DMA master -/

namespace L2pDmaMaster

/-- The same inputs without a start. -/
def withoutStart (i : L2pDmaIn) : L2pDmaIn := { i with ctrl := i.ctrl.withoutStart }

/-- The two masters send the same packets. -/
structure SamePackets (a b : L2pDmaMaster) : Prop where
  pktGen : a.pktGen = b.pktGen
  fsm : a.fsm = b.fsm
  dataFifoValid : a.dataFifoValid = b.dataFifoValid

/-- The two masters also write the same addresses. -/
structure SameTransfer (a b : L2pDmaMaster) : Prop where
  packets : SamePackets a b
  dmaLengthCnt : a.targetCnt.dmaLengthCnt = b.targetCnt.dmaLengthCnt
  addrFifoWr : a.targetCnt.addrFifoWr = b.targetCnt.addrFifoWr
  addrFifoDin : a.targetCnt.addrFifoDin = b.targetCnt.addrFifoDin
  targetAddrCnt : a.targetCnt.dmaLengthCnt = 0 ∨ a.targetCnt.targetAddrCnt = b.targetCnt.targetAddrCnt

/-- The address that is written into `addr_fifo`. -/
def addresses (s : L2pDmaMaster) : List Word :=
  if s.targetCnt.addrFifoWr then [s.targetCnt.addrFifoDin] else []

/-- No address remains to be written, and none is being written. -/
structure AllWritten (s : L2pDmaMaster) : Prop where
  noneLeft : s.targetCnt.dmaLengthCnt = 0
  noWrite : s.targetCnt.addrFifoWr = false

variable (gByteSwap : Bool) {a b s : L2pDmaMaster} {i : L2pDmaIn}

theorem SamePackets.step (h : SamePackets a b) (i : L2pDmaIn) :
    SamePackets (a.step gByteSwap i) (b.step gByteSwap i) := by
  obtain ⟨hpkt, hfsm, hvalid⟩ := h
  constructor
  · show a.pPktGen i = b.pPktGen i
    unfold pPktGen
    rw [hfsm, hvalid, hpkt]
  · show a.pPktFsm gByteSwap i = b.pPktFsm gByteSwap i
    unfold pPktFsm dataWord
    rw [hfsm, hvalid, hpkt]
  · show a.pGenDataFifoValid i = b.pGenDataFifoValid i
    unfold pGenDataFifoValid
    rw [hfsm]

theorem SameTransfer.step (h : SameTransfer a b) (i : L2pDmaIn) :
    SameTransfer (a.step gByteSwap i) (b.step gByteSwap i) := by
  obtain ⟨hpackets, hlen, hwr, hdin, haddr⟩ := h
  have ha : (a.step gByteSwap i).targetCnt = a.pTargetCnt i := rfl
  have hb : (b.step gByteSwap i).targetCnt = b.pTargetCnt i := rfl
  have htarget : (a.pTargetCnt i).dmaLengthCnt = (b.pTargetCnt i).dmaLengthCnt ∧
      (a.pTargetCnt i).addrFifoWr = (b.pTargetCnt i).addrFifoWr ∧
      (a.pTargetCnt i).addrFifoDin = (b.pTargetCnt i).addrFifoDin ∧
      ((a.pTargetCnt i).dmaLengthCnt = 0 ∨
        (a.pTargetCnt i).targetAddrCnt = (b.pTargetCnt i).targetAddrCnt) := by
    unfold pTargetCnt
    rw [← hpackets.fsm, ← hlen]
    split_ifs with hstart hidle hmore
    · exact ⟨rfl, hwr, hdin, .inr rfl⟩
    · exact ⟨rfl, hwr, hdin, .inl rfl⟩
    · -- an address is written, so the counters agree
      have hsome : a.targetCnt.dmaLengthCnt ≠ 0 := by simpa using (Bool.and_eq_true_iff.mp hmore).1
      have hsame := haddr.resolve_left hsome
      exact ⟨rfl, rfl, by rw [hsame], .inr (by rw [hsame])⟩
    · exact ⟨hlen, rfl, hdin, haddr⟩
  obtain ⟨hlen', hwr', hdin', haddr'⟩ := htarget
  refine ⟨hpackets.step gByteSwap i, ?_, ?_, ?_, ?_⟩ <;> rw [ha]
  · rw [hb]
    exact hlen'
  · rw [hb]
    exact hwr'
  · rw [hb]
    exact hdin'
  · rw [hb]
    exact haddr'

/-- The packet side of a busy master does not see a start. -/
theorem samePackets_of_busy (hbusy : s.fsm.l2pDmaCurrentState ≠ .idle) :
    SamePackets (s.step gByteSwap i) (s.step gByteSwap (withoutStart i)) := by
  constructor
  · show s.pPktGen i = s.pPktGen (withoutStart i)
    unfold pPktGen
    cases hstate : s.fsm.l2pDmaCurrentState with
    | idle => exact absurd hstate hbusy
    | waitData | header | addrH | addrL | data | lastData | waitRdy => rfl
  · rfl
  · rfl

/-- The master does not accept a start. -/
def AcceptsNone (s : L2pDmaMaster) (i : L2pDmaIn) : Prop :=
  ¬ (i.ctrl.startL2p = true ∧ s.fsm.l2pDmaCurrentState = .idle)

instance (s : L2pDmaMaster) (i : L2pDmaIn) : Decidable (s.AcceptsNone i) :=
  inferInstanceAs (Decidable (¬ _))

/-- Without a new transfer there are no new addresses. -/
theorem AllWritten.step (h : s.AllWritten) (hnone : s.AcceptsNone i) :
    (s.step gByteSwap i).AllWritten := by
  obtain ⟨hlen, hwr⟩ := h
  have htarget : (s.pTargetCnt i).dmaLengthCnt = 0 ∧ (s.pTargetCnt i).addrFifoWr = false := by
    unfold pTargetCnt
    split_ifs with hstart hidle hmore
    · exact absurd ⟨hstart, hidle⟩ hnone
    · exact ⟨rfl, hwr⟩
    · simp [hlen] at hmore
    · exact ⟨hlen, rfl⟩
  exact ⟨htarget.1, htarget.2⟩

theorem AllWritten.addresses (h : s.AllWritten) {is : List L2pDmaIn}
    (legal : Always (L2pDmaMaster.step gByteSwap) AcceptsNone s is) :
    log (L2pDmaMaster.step gByteSwap) (fun s _ => s.addresses) s is = [] := by
  have hinv := Always.of_invariant
    (fun s i (h : s.AllWritten) hnone => AllWritten.step gByteSwap h hnone) legal h
  refine log_eq_nil (fun s i h => ?_) hinv
  simp [L2pDmaMaster.addresses, h.1.noWrite]

/-- What a busy master does with a start: it reports an error and reads no further.  The packets do
not change, and if all addresses were written before neither does the transfer. -/
structure EndsReading (gByteSwap : Bool) (s : L2pDmaMaster) (i : L2pDmaIn) : Prop where
  error : (s.step gByteSwap i).targetCnt.dmaCtrlError = true
  addresses : s.targetCnt.addrFifoWr = false → ∀ is,
    Always (step gByteSwap) AcceptsNone (s.step gByteSwap i) is →
      log (step gByteSwap) (fun s _ => s.addresses) (s.step gByteSwap i) is = []
  packets : ∀ is, SamePackets (run (step gByteSwap) (s.step gByteSwap i) is)
    (run (step gByteSwap) (s.step gByteSwap (withoutStart i)) is)
  transfer : s.AllWritten → ∀ is, SameTransfer (run (step gByteSwap) (s.step gByteSwap i) is)
    (run (step gByteSwap) (s.step gByteSwap (withoutStart i)) is)

theorem endsReading_of_busy (hbusy : s.fsm.l2pDmaCurrentState ≠ .idle)
    (hstart : i.ctrl.startL2p = true) : EndsReading gByteSwap s i := by
  have htarget : (s.step gByteSwap i).targetCnt =
      { s.targetCnt with targetAddrCnt := 0, dmaLengthCnt := 0, dmaCtrlError := true } := by
    show s.pTargetCnt i = _
    rw [pTargetCnt, if_pos hstart, if_neg hbusy]
  have hpackets := samePackets_of_busy gByteSwap (i := i) hbusy
  have hsteps := fun a b i (h : SamePackets a b) => h.step gByteSwap i
  have hwritten : s.targetCnt.addrFifoWr = false → (s.step gByteSwap i).AllWritten := fun hwr =>
    ⟨by rw [htarget], by rw [htarget]; exact hwr⟩
  refine ⟨by rw [htarget], fun hwr is => (hwritten hwr).addresses gByteSwap,
    related_run hsteps hpackets, fun hwritten is => ?_⟩
  have hwithout : (s.step gByteSwap (withoutStart i)).targetCnt =
      { s.targetCnt with addrFifoWr := false } := by
    show s.pTargetCnt (withoutStart i) = _
    have hnone : (withoutStart i).ctrl.startL2p = false := rfl
    simp [pTargetCnt, hnone, hwritten.noneLeft]
  have hsame : SameTransfer (s.step gByteSwap i) (s.step gByteSwap (withoutStart i)) := by
    refine ⟨hpackets, ?_, ?_, ?_, ?_⟩ <;> rw [htarget]
    · rw [hwithout]
      exact hwritten.noneLeft.symm
    · rw [hwithout]
      exact hwritten.noWrite
    · rw [hwithout]
    · exact .inl rfl
  exact related_run (fun a b i (h : SameTransfer a b) => h.step gByteSwap i) hsame is

end L2pDmaMaster

/-! ## The P2L DMA master -/

namespace P2lDmaMaster

/-- The same inputs without a start. -/
def withoutStart (i : P2lDmaIn) : P2lDmaIn := { i with ctrl := i.ctrl.withoutStart }

/-- The two masters differ in `dma_busy_error` at most. -/
def SameButError (a b : P2lDmaMaster) : Prop :=
  ∃ error, a = { b with addrCnt := { b.addrCnt with dmaBusyError := error } }

variable (gByteSwap : Bool) {a b s : P2lDmaMaster} {i : P2lDmaIn}

theorem SameButError.step (h : SameButError a b) (i : P2lDmaIn) :
    SameButError (a.step gByteSwap i) (b.step gByteSwap i) := by
  obtain ⟨error, rfl⟩ := h
  refine ⟨(P2lDmaMaster.step gByteSwap
    { b with addrCnt := { b.addrCnt with dmaBusyError := error } } i).addrCnt.dmaBusyError, ?_⟩
  unfold P2lDmaMaster.step
  congr 1
  unfold pAddrCnt storesWord
  split_ifs <;> rfl

/-- What a busy master does with a start in a cycle in which no word is stored or written: it
reports an error, and nothing else changes. -/
structure KeepsTransfer (gByteSwap : Bool) (s : P2lDmaMaster) (i : P2lDmaIn) : Prop where
  error : (s.step gByteSwap i).dmaCtrlError = true
  same : ∀ is, SameButError (run (step gByteSwap) (s.step gByteSwap i) is)
    (run (step gByteSwap) (s.step gByteSwap (withoutStart i)) is)

/-- A busy master reads nothing of a start but in the address counter. -/
theorem step_of_busy (hbusy : s.fsm.p2lDmaCurrentState ≠ .idle) :
    s.step gByteSwap i =
      { s.step gByteSwap (withoutStart i) with addrCnt := s.pAddrCnt gByteSwap i } := by
  have hread : s.pReadReq i = s.pReadReq (withoutStart i) := by
    unfold pReadReq
    cases hstate : s.fsm.p2lDmaCurrentState with
    | idle => exact absurd hstate hbusy
    | header | addrH | addrL | waitReadCompletion => rfl
  have hfsm : s.pReadReqFsm i = s.pReadReqFsm (withoutStart i) := by
    unfold pReadReqFsm
    cases hstate : s.fsm.p2lDmaCurrentState with
    | idle => exact absurd hstate hbusy
    | header | addrH | addrL | waitReadCompletion => rfl
  unfold step
  rw [hread, hfsm]
  rfl

theorem keepsTransfer_of_busy (hbusy : s.fsm.p2lDmaCurrentState ≠ .idle)
    (hstart : i.ctrl.startP2l = true) (hword : s.storesWord (withoutStart i) = false)
    (hpush : s.addrCnt.toWbFifoWr = false) : KeepsTransfer gByteSwap s i := by
  -- without a word the branch that the start displaces only clears the error and the strobe
  have hwith : s.pAddrCnt gByteSwap i = { s.addrCnt with dmaBusyError := true } := by
    rw [pAddrCnt, if_pos hstart, if_neg hbusy]
  have hwithout : s.pAddrCnt gByteSwap (withoutStart i) =
      { s.addrCnt with dmaBusyError := false } := by
    have hnone : (withoutStart i).ctrl.startP2l = false := rfl
    rw [pAddrCnt, hnone, hword, if_neg (by simp), if_neg (by simp), ← hpush]
  have hstep := step_of_busy gByteSwap (i := i) hbusy
  rw [hwith] at hstep
  have hsame : SameButError (s.step gByteSwap i) (s.step gByteSwap (withoutStart i)) := by
    refine ⟨true, ?_⟩
    have haddr : (s.step gByteSwap (withoutStart i)).addrCnt =
        { s.addrCnt with dmaBusyError := false } := hwithout
    rw [hstep, haddr]
  refine ⟨?_, related_run (fun a b i (h : SameButError a b) => h.step gByteSwap i) hsame⟩
  rw [hstep]
  rfl

/-- A busy master does not see an order to fetch an item. -/
theorem step_startNext_of_busy (hbusy : s.fsm.p2lDmaCurrentState ≠ .idle)
    (hp2l : i.ctrl.startP2l = false) :
    s.step gByteSwap i = s.step gByteSwap (withoutStart i) := by
  have haddr : s.pAddrCnt gByteSwap i = s.pAddrCnt gByteSwap (withoutStart i) := by
    have hnone : (withoutStart i).ctrl.startP2l = false := rfl
    unfold pAddrCnt storesWord
    rw [hp2l, hnone]
    rfl
  rw [step_of_busy gByteSwap hbusy, haddr]
  rfl

end P2lDmaMaster

/-- **A start while a transfer is under way.**  In every state in which the master is not idle: a
start of an L2P transfer raises the error and ends the reading of carrier memory, and the packets
are those that the same inputs give without it.  A start of a P2L transfer in a cycle in which no
word is stored or written raises the error and changes nothing else.  An order to fetch an item is
not seen at all. -/
theorem rejected_starts (gByteSwap : Bool) (s : L2pDmaMaster) (i : L2pDmaIn) (s' : P2lDmaMaster)
    (i' : P2lDmaIn) :
    (s.fsm.l2pDmaCurrentState ≠ .idle → i.ctrl.startL2p = true → s.EndsReading gByteSwap i) ∧
      (s'.fsm.p2lDmaCurrentState ≠ .idle → i'.ctrl.startP2l = true →
        s'.storesWord (P2lDmaMaster.withoutStart i') = false → s'.addrCnt.toWbFifoWr = false →
        s'.KeepsTransfer gByteSwap i') ∧
      (s'.fsm.p2lDmaCurrentState ≠ .idle → i'.ctrl.startP2l = false →
        s'.step gByteSwap i' = s'.step gByteSwap (P2lDmaMaster.withoutStart i')) :=
  ⟨fun hbusy hstart => L2pDmaMaster.endsReading_of_busy gByteSwap hbusy hstart,
    fun hbusy hstart hword hpush =>
      P2lDmaMaster.keepsTransfer_of_busy gByteSwap hbusy hstart hword hpush,
    fun hbusy hp2l => P2lDmaMaster.step_startNext_of_busy gByteSwap hbusy hp2l⟩

/-! ### Starts while a transfer is under way, from reset -/

/-- A cycle of the L2P DMA master under the orders `ctrl`. -/
def readEdge (ctrl : DmaCtrl) (addrFifoFull dataFifoEmpty : Bool) : L2pDmaIn :=
  ⟨ctrl, false, 0b11#2, true, addrFifoFull, dataFifoEmpty, 0⟩

/-- The order of a transfer of three words, in either direction. -/
def threeWords : DmaCtrl := { DmaCtrl.quiet with len := 12, startL2p := true, startP2l := true }

/-- One address is written, then the FIFO is full until the first word is there. -/
def firstWordRead : List L2pDmaIn :=
  [readEdge threeWords false true, readEdge .quiet false true, readEdge .quiet true true,
    readEdge .quiet true false]

def busyL2p : L2pDmaMaster := run (L2pDmaMaster.step false) (.reset 0 false) firstWordRead

def busyP2l : P2lDmaMaster := P2lDmaMaster.step false .reset ⟨threeWords, .quiet, false⟩

/-- An order to fetch an item. -/
def fetchEdge : P2lDmaIn := ⟨{ DmaCtrl.quiet with startNext := true }, .quiet, false⟩

theorem rejected_starts_in_header :
    busyL2p.EndsReading false (readEdge threeWords false false) ∧
      busyP2l.KeepsTransfer false ⟨threeWords, .quiet, false⟩ ∧
      busyP2l.step false fetchEdge = busyP2l.step false (P2lDmaMaster.withoutStart fetchEdge) :=
  ⟨(rejected_starts false busyL2p (readEdge threeWords false false) busyP2l fetchEdge).1
      (by decide) (by decide),
    (rejected_starts false busyL2p (readEdge threeWords false false) busyP2l
      ⟨threeWords, .quiet, false⟩).2.1 (by decide) (by decide) (by decide) (by decide),
    (rejected_starts false busyL2p (readEdge threeWords false false) busyP2l fetchEdge).2.2
      (by decide) (by decide)⟩

/-- A start of an L2P transfer drops the addresses that remain, and an order to fetch an item
raises no error. -/
theorem rejected_start_does_harm :
    let start := readEdge threeWords false false
    let rest := List.replicate 3 (readEdge .quiet false false)
    let addresses s := log (L2pDmaMaster.step false) (fun s _ => L2pDmaMaster.addresses s) s rest
    (busyL2p.fsm.l2pDmaCurrentState ≠ .idle ∧
      addresses (busyL2p.step false start) = [] ∧
      addresses (busyL2p.step false (L2pDmaMaster.withoutStart start)) = [1, 2]) ∧
    (busyP2l.fsm.p2lDmaCurrentState ≠ .idle ∧ fetchEdge.ctrl.startNext = true ∧
      (busyP2l.step false fetchEdge).dmaCtrlError = false) := by
  decide +kernel

end Gn4124Core
