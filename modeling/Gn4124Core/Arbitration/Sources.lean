import Gn4124Core.Rtl.L2pArbiter
import Gn4124Core.Rtl.L2pDmaMaster
import Gn4124Core.Rtl.P2lDmaMaster
import Gn4124Core.Rtl.WbMaster32

/-!
# The three sources keep to the bus protocol

For each source, `Shape` says what its lines show in each FSM state, and every edge keeps it
(`Shape.step`).  From the shapes of two successive states, the phases of the lines follow
the protocol (`Shape.next`).

The shape of the L2P DMA master breaks when a transfer is aborted: the FSM returns to
`L2P_IDLE` in the middle of a packet, and the packet's last word is never sent.
-/

namespace Gn4124Core

open Clocked

/-! ## The Wishbone master -/

namespace WbmClk

variable {s : WbmClk} {i : WbmClkIn}

/-- The lines of the Wishbone master in each FSM state. -/
def Shape (s : WbmClk) : Prop :=
  match s.fsm.l2pReadCplCurrentState with
  | .idle => s.fsm.wbmArbDframe = false ∧ s.fsm.wbmArbReq = false
  | .header =>
      s.fsm.wbmArbDframe = false ∧ s.fsm.wbmArbValid = false ∧ s.fsm.wbmArbReq = true
  | .data => s.fsm.wbmArbDframe = true ∧ s.fsm.wbmArbValid = true ∧ s.fsm.wbmArbReq = false

theorem reset_shape : Shape reset := ⟨rfl, rfl⟩

theorem Shape.step (h : s.Shape) : (step s i).Shape := by
  unfold Shape at h
  cases hstate : s.fsm.l2pReadCplCurrentState with
  | idle =>
      cases hstart : !i.fromWbFifoEmpty && i.pRdDRdy == 0b11#2 <;>
        simp [Shape, WbmClk.step, pReadCplFsm, hstate, hstart]
  | header =>
      rw [hstate] at h
      cases hgnt : i.arbWbmGnt <;> simp [Shape, WbmClk.step, pReadCplFsm, hstate, hgnt, h]
  | data =>
      rw [hstate] at h
      simp [Shape, WbmClk.step, pReadCplFsm, hstate, h]

/-- The Wishbone master keeps to the bus protocol. -/
theorem Shape.next (h : s.Shape) :
    Phase.Next i.arbWbmGnt s.arb.phase (WbmClk.step s i).arb.phase := by
  unfold Shape at h
  cases hstate : s.fsm.l2pReadCplCurrentState with
  | idle =>
      rw [hstate] at h
      apply Phase.Next.of_idle h.1 h.2
      cases hstart : !i.fromWbFifoEmpty && i.pRdDRdy == 0b11#2 <;>
        simp [WbmClk.step, pReadCplFsm, arb, SourceLines.phase, hstate, hstart]
  | header =>
      rw [hstate] at h
      apply Phase.Next.of_request h.1 h.2.2
      cases hgnt : i.arbWbmGnt <;>
        simp [WbmClk.step, pReadCplFsm, arb, SourceLines.phase, hstate, hgnt, h]
  | data =>
      rw [hstate] at h
      refine Phase.Next.of_frame h.1 (.inr ⟨false, ?_⟩)
      simp [WbmClk.step, pReadCplFsm, arb, SourceLines.phase, hstate, h]

end WbmClk

/-! ## The P2L DMA master -/

namespace P2lDmaMaster

variable {gByteSwap : Bool} {s : P2lDmaMaster} {i : P2lDmaIn}

/-- The lines of the P2L DMA master in each FSM state. -/
def Shape (s : P2lDmaMaster) : Prop :=
  match s.fsm.p2lDmaCurrentState with
  | .idle => s.fsm.pdmArbDframe = false ∧ s.fsm.pdmArbValid = false ∧ s.fsm.pdmArbReq = false
  | .header => s.fsm.pdmArbDframe = false ∧ s.fsm.pdmArbValid = false ∧ s.fsm.pdmArbReq = true
  | .addrH => s.fsm.pdmArbDframe = true ∧ s.fsm.pdmArbValid = true ∧ s.fsm.pdmArbReq = false
  | .addrL => s.fsm.pdmArbDframe = true ∧ s.fsm.pdmArbValid = true ∧ s.fsm.pdmArbReq = false
  | .waitReadCompletion => s.fsm.pdmArbDframe = false ∧ s.fsm.pdmArbReq = false

theorem reset_shape : Shape reset := ⟨rfl, rfl, rfl⟩

theorem Shape.step (h : s.Shape) : (step gByteSwap s i).Shape := by
  unfold Shape at h
  cases hstate : s.fsm.p2lDmaCurrentState with
  | idle =>
      rw [hstate] at h
      cases hstart : i.ctrl.startP2l || i.ctrl.startNext <;>
        simp [Shape, P2lDmaMaster.step, pReadReqFsm, hstate, hstart, h]
  | header =>
      rw [hstate] at h
      cases hgnt : i.arbPdmGnt <;> cases h64 : s.readReq.l2p64bAddress <;>
        simp [Shape, P2lDmaMaster.step, pReadReqFsm, hstate, hgnt, h64, h]
  | addrH =>
      rw [hstate] at h
      simp [Shape, P2lDmaMaster.step, pReadReqFsm, hstate, h]
  | addrL =>
      rw [hstate] at h
      simp [Shape, P2lDmaMaster.step, pReadReqFsm, hstate, h]
  | waitReadCompletion =>
      rw [hstate] at h
      simp only [Shape, P2lDmaMaster.step, pReadReqFsm, hstate]
      split_ifs <;> simp [h]

/-- A request comes before the packet. -/
theorem Shape.phase_of_req (h : s.Shape) (hreq : s.fsm.pdmArbReq = true) : s.arb.phase = .asking := by
  rw [SourceLines.phase_eq_asking]
  unfold Shape at h
  cases hstate : s.fsm.p2lDmaCurrentState with
  | header =>
      rw [hstate] at h
      exact h
  | _ => simp [hstate, hreq] at h

/-- The P2L DMA master keeps to the bus protocol. -/
theorem Shape.next (h : s.Shape) :
    Phase.Next i.arbPdmGnt s.arb.phase (P2lDmaMaster.step gByteSwap s i).arb.phase := by
  unfold Shape at h
  cases hstate : s.fsm.p2lDmaCurrentState with
  | idle =>
      rw [hstate] at h
      apply Phase.Next.of_idle h.1 h.2.2
      cases hstart : i.ctrl.startP2l || i.ctrl.startNext <;>
        simp [P2lDmaMaster.step, pReadReqFsm, arb, SourceLines.phase, hstate, hstart, h]
  | header =>
      rw [hstate] at h
      apply Phase.Next.of_request h.1 h.2.2
      cases hgnt : i.arbPdmGnt <;>
        simp [P2lDmaMaster.step, pReadReqFsm, arb, SourceLines.phase, hstate, hgnt, h]
  | addrH =>
      rw [hstate] at h
      refine Phase.Next.of_frame h.1 (.inl ?_)
      simp [P2lDmaMaster.step, pReadReqFsm, arb, SourceLines.phase, hstate, h]
  | addrL =>
      rw [hstate] at h
      refine Phase.Next.of_frame h.1 (.inr ⟨false, ?_⟩)
      simp [P2lDmaMaster.step, pReadReqFsm, arb, SourceLines.phase, hstate, h]
  | waitReadCompletion =>
      rw [hstate] at h
      -- in the first cycle of the state the lines show the last word of the request
      apply Phase.Next.of_idle h.1 h.2
      have hlines : (P2lDmaMaster.step gByteSwap s i).arb.dframe = false ∧
          (P2lDmaMaster.step gByteSwap s i).arb.valid = false := by
        simp only [P2lDmaMaster.step, pReadReqFsm, arb, hstate]
        split_ifs <;> simp [h]
      unfold SourceLines.phase
      rw [hlines.1, hlines.2]
      cases (P2lDmaMaster.step gByteSwap s i).arb.req <;> simp

end P2lDmaMaster

/-! ## The L2P DMA master -/

namespace L2pDmaMaster

variable {gByteSwap : Bool} {s : L2pDmaMaster} {i : L2pDmaIn}

/-- The lines of the L2P DMA master in each FSM state. -/
def Shape (s : L2pDmaMaster) : Prop :=
  match s.fsm.l2pDmaCurrentState with
  | .idle => s.fsm.ldmArbDframe = false ∧ s.fsm.ldmArbReq = false
  | .header => s.fsm.ldmArbDframe = false ∧ s.fsm.ldmArbReq = true
  | _ => s.fsm.ldmArbDframe = true ∧ s.fsm.ldmArbReq = false

theorem reset_shape (addrFifoDin : Word) (dataFifoValid : Bool) :
    Shape (reset addrFifoDin dataFifoValid) := ⟨rfl, rfl⟩

theorem Shape.step (h : s.Shape) (habort : i.ctrl.abort = false) : (step gByteSwap s i).Shape := by
  unfold Shape at h
  simp only [Shape, L2pDmaMaster.step, pPktFsm]
  cases hstate : s.fsm.l2pDmaCurrentState with
  | idle =>
      rw [hstate] at h
      cases hempty : i.dataFifoEmpty <;> simp [h]
  | header =>
      rw [hstate] at h
      cases hgnt : i.arbLdmGnt && i.lWrRdy == 0b11#2 with
      | false => simpa [hstate] using h
      | true => cases h64 : s.pktGen.l2p64bAddress <;> simp
  | addrH =>
      rw [hstate] at h
      simpa using h
  | addrL =>
      rw [hstate] at h
      by_cases hone : s.pktGen.l2pDataCnt ≤ 1#11 <;> simpa [hone] using h
  | data =>
      rw [hstate] at h
      simp only [habort, Bool.false_eq_true, if_false]
      split_ifs <;> simpa [hstate] using h
  | waitRdy =>
      rw [hstate] at h
      cases hrdy : i.l2pRdy <;> by_cases hone : s.pktGen.l2pDataCnt ≤ 1#11 <;>
        simpa [hone, hstate] using h
  | waitData =>
      rw [hstate] at h
      cases hempty : i.dataFifoEmpty <;> by_cases hone : s.pktGen.l2pDataCnt ≤ 1#11 <;>
        simpa [hone, hstate] using h
  | lastData =>
      rw [hstate] at h
      cases hrdy : i.l2pRdy <;> by_cases hmore : 0#30 < s.pktGen.l2pLenCnt <;>
        simp [hmore, h]

/-- Inside a packet the frame stays up, until the last word is sent. -/
theorem next_of_sending {state : L2pDmaState} (hstate : s.fsm.l2pDmaCurrentState = state)
    (hmid : state ≠ .idle ∧ state ≠ .header ∧ state ≠ .lastData) (habort : i.ctrl.abort = false) :
    (L2pDmaMaster.step gByteSwap s i).arb.dframe = s.arb.dframe := by
  obtain ⟨hidle, hheader, hlast⟩ := hmid
  simp only [L2pDmaMaster.step, pPktFsm, arb]
  cases state with
  | idle => exact absurd rfl hidle
  | header => exact absurd rfl hheader
  | lastData => exact absurd rfl hlast
  | addrH => simp [hstate]
  | addrL => simp [hstate]
  | data =>
      simp only [hstate, habort]
      split_ifs <;> rfl
  | waitRdy =>
      simp only [hstate]
      split_ifs <;> rfl
  | waitData =>
      simp only [hstate]
      split_ifs <;> rfl

/-- The L2P DMA master keeps to the bus protocol as long as it is not aborted. -/
theorem Shape.next (h : s.Shape) (habort : i.ctrl.abort = false) :
    Phase.Next i.arbLdmGnt s.arb.phase (L2pDmaMaster.step gByteSwap s i).arb.phase := by
  by_cases hmid : s.fsm.l2pDmaCurrentState ≠ .idle ∧ s.fsm.l2pDmaCurrentState ≠ .header ∧
      s.fsm.l2pDmaCurrentState ≠ .lastData
  · have hdframe : s.arb.dframe = true := by
      unfold Shape at h
      cases hstate : s.fsm.l2pDmaCurrentState <;> simp_all [arb]
    refine Phase.Next.of_frame hdframe (.inl (SourceLines.phase_eq_sending.mpr ?_))
    rw [next_of_sending rfl hmid habort, hdframe]
  · unfold Shape at h
    cases hstate : s.fsm.l2pDmaCurrentState with
    | idle =>
        rw [hstate] at h
        apply Phase.Next.of_idle h.1 h.2
        cases hempty : i.dataFifoEmpty <;>
          simp [L2pDmaMaster.step, pPktFsm, arb, SourceLines.phase, hstate, hempty, h]
    | header =>
        rw [hstate] at h
        -- the next header goes out in the cycle of the last word
        apply Phase.Next.of_request h.1 h.2
        cases hgnt : i.arbLdmGnt && i.lWrRdy == 0b11#2 with
        | false =>
            left
            simp [L2pDmaMaster.step, pPktFsm, arb, SourceLines.phase, hstate, hgnt, h]
        | true =>
            right
            have hgranted := (Bool.and_eq_true_iff.mp hgnt).1
            refine ⟨hgranted, ?_⟩
            simp [L2pDmaMaster.step, pPktFsm, arb, SourceLines.phase, hstate, hgnt]
    | lastData =>
        rw [hstate] at h
        apply Phase.Next.of_frame h.1
        cases hrdy : i.l2pRdy with
        | false =>
            left
            simp [L2pDmaMaster.step, pPktFsm, arb, SourceLines.phase, hstate, hrdy, h]
        | true =>
            refine .inr ⟨(L2pDmaMaster.step gByteSwap s i).arb.req, ?_⟩
            simp [L2pDmaMaster.step, pPktFsm, arb, SourceLines.phase, hstate, hrdy]
    | addrH => simp [hstate] at hmid
    | addrL => simp [hstate] at hmid
    | data => simp [hstate] at hmid
    | waitRdy => simp [hstate] at hmid
    | waitData => simp [hstate] at hmid

end L2pDmaMaster

end Gn4124Core
