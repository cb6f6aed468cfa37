import Gn4124Core.DmaChain.Abort
import Gn4124Core.Rtl.L2pDmaMaster

/-!
# Errors of the DMA masters

The DMA controller with both DMA masters.  `dma_ctrl_error` is the OR of three registers: the
busy error of each master, for a start that found it at work, and the completion error of the
P2L DMA master.  The controller samples it in every cycle of `DMA_TRANSFER`, and the first of
them is the cycle of the start pulse.  The L2P DMA master keeps its busy error until it accepts
a start, so that the error of an earlier transfer is still there when the next pulse comes.

A transfer that both masters are idle for, and that no completion without data answers, ends in
`DMA_ERROR` if and only if one of the registers is still set at its pulse, unless the host aborts
it at the same edge (`no_old_error_iff`).
-/

namespace Gn4124Core

open Clocked

structure DmaCore where
  engine : DmaEngine
  l2p : L2pDmaMaster
deriving DecidableEq

/-- The host's writes, the decoder's lines, the grants, the ready lines of the GN4124 and the
flags of the FIFOs. -/
structure DmaCoreIn where
  loads : DmaLoads
  pd : PdPdm
  arbPdmGnt : Bool
  arbLdmGnt : Bool
  lWrRdy : BitVec 2
  l2pRdy : Bool
  addrFifoFull : Bool
  dataFifoEmpty : Bool
  dataFifoDout : Word
deriving DecidableEq

namespace DmaCore

variable (gByteSwap : Bool) (s : DmaCore) (i : DmaCoreIn)

def controller : DmaController := s.engine.controller

def p2l : P2lDmaMaster := s.engine.master

/-- What the controller and the P2L DMA master read in one clock cycle. -/
def engineIn : DmaEngineIn where
  loads := i.loads
  l2pDone := s.l2p.fsm.dmaCtrlDone
  l2pError := s.l2p.targetCnt.dmaCtrlError
  pd := i.pd
  arbPdmGnt := i.arbPdmGnt

/-- What the L2P DMA master reads in one clock cycle. -/
def l2pIn : L2pDmaIn where
  ctrl := s.controller.lines
  arbLdmGnt := i.arbLdmGnt
  lWrRdy := i.lWrRdy
  l2pRdy := i.l2pRdy
  addrFifoFull := i.addrFifoFull
  dataFifoEmpty := i.dataFifoEmpty
  dataFifoDout := i.dataFifoDout

/-- One edge of `clk_i`. -/
def step : DmaCore := ⟨s.engine.step gByteSwap (s.engineIn i), s.l2p.step gByteSwap (s.l2pIn i)⟩

def reset (addrFifoDin : Word) (dataFifoValid : Bool) : DmaCore :=
  ⟨.reset, .reset addrFifoDin dataFifoValid⟩

/-- `dma_ctrl_error`. -/
def dmaCtrlError : Bool := s.l2p.targetCnt.dmaCtrlError || s.p2l.dmaCtrlError

/-- The start pulse of a transfer, in a cycle in which both masters are idle. -/
def Starts : Prop :=
  (s.controller.fsm.dmaCtrlStartL2p = true ∨ s.controller.fsm.dmaCtrlStartP2l = true) ∧
    s.l2p.fsm.l2pDmaCurrentState = .idle ∧ s.p2l.fsm.p2lDmaCurrentState = .idle

/-- The transfer is under way. -/
def InTransfer : Prop := s.controller.fsm.dmaCtrlCurrentState = .transfer

instance : Decidable s.Starts := inferInstanceAs (Decidable (_ ∧ _))

instance : Decidable s.InTransfer := inferInstanceAs (Decidable (_ = _))

/-- Nothing that an edge of `DMA_TRANSFER` does can set an error register. -/
structure Clean (s : DmaCore) : Prop where
  noError : s.dmaCtrlError = false
  noL2p : s.controller.fsm.dmaCtrlStartL2p = false
  noP2l : s.controller.fsm.dmaCtrlStartP2l = false

variable {gByteSwap s i} {is : List DmaCoreIn}

/-! ## One edge -/

theorem fsm_step : (step gByteSwap s i).controller.fsm =
    s.controller.pFsm (s.engine.controllerIn (s.engineIn i)) := rfl

/-- The L2P DMA master has no busy error behind an edge without a start that it refuses. -/
theorem l2pError_step (h : s.l2p.targetCnt.dmaCtrlError = false)
    (hstart : s.controller.fsm.dmaCtrlStartL2p = true → s.l2p.fsm.l2pDmaCurrentState = .idle) :
    (step gByteSwap s i).l2p.targetCnt.dmaCtrlError = false := by
  show (s.l2p.pTargetCnt (s.l2pIn i)).dmaCtrlError = false
  have hline : (s.l2pIn i).ctrl.startL2p = s.controller.fsm.dmaCtrlStartL2p := rfl
  unfold L2pDmaMaster.pTargetCnt
  rw [hline]
  split_ifs with hpulse hidle
  · rfl
  · exact absurd (hstart hpulse) hidle
  · exact h
  · exact h

theorem dmaBusyError_step (h : s.p2l.addrCnt.dmaBusyError = false)
    (hstart : s.controller.fsm.dmaCtrlStartP2l = true → s.p2l.fsm.p2lDmaCurrentState = .idle) :
    (step gByteSwap s i).p2l.addrCnt.dmaBusyError = false := by
  show (s.p2l.pAddrCnt gByteSwap (s.engine.masterIn (s.engineIn i))).dmaBusyError = false
  have hline : (s.engine.masterIn (s.engineIn i)).ctrl.startP2l = s.controller.fsm.dmaCtrlStartP2l :=
    rfl
  unfold P2lDmaMaster.pAddrCnt
  rw [hline]
  split_ifs with hpulse hidle hstores
  · exact h
  · exact absurd (hstart hpulse) hidle
  · exact h
  · rfl

theorem completionError_step (h : s.p2l.fsm.completionError = false)
    (hcpln : i.pd.masterCpln = false) : (step gByteSwap s i).p2l.fsm.completionError = false := by
  show (s.p2l.pReadReqFsm (s.engine.masterIn (s.engineIn i))).completionError = false
  have hline : (s.engine.masterIn (s.engineIn i)).pd.masterCpln = false := hcpln
  unfold P2lDmaMaster.pReadReqFsm
  cases s.p2l.fsm.p2lDmaCurrentState with
  | idle => rfl
  | header =>
      dsimp only
      split_ifs <;> exact h
  | addrH => exact h
  | addrL => exact h
  | waitReadCompletion =>
      simp only [hline, Bool.false_eq_true, if_false]
      split_ifs <;> exact h

/-- No error register is set behind an edge at which no master refuses a start. -/
theorem dmaCtrlError_step (h : s.dmaCtrlError = false)
    (hl2p : s.controller.fsm.dmaCtrlStartL2p = true → s.l2p.fsm.l2pDmaCurrentState = .idle)
    (hp2l : s.controller.fsm.dmaCtrlStartP2l = true → s.p2l.fsm.p2lDmaCurrentState = .idle)
    (hcpln : i.pd.masterCpln = false) : (step gByteSwap s i).dmaCtrlError = false := by
  simp only [dmaCtrlError, P2lDmaMaster.dmaCtrlError, Bool.or_eq_false_iff] at h ⊢
  obtain ⟨herror, hbusy, hcompletion⟩ := h
  exact ⟨l2pError_step herror hl2p, dmaBusyError_step hbusy hp2l,
    completionError_step hcompletion hcpln⟩

/-- The start pulses last one cycle. -/
theorem InTransfer.pulses_step (h : s.InTransfer) :
    (step gByteSwap s i).controller.fsm.dmaCtrlStartL2p = false ∧
      (step gByteSwap s i).controller.fsm.dmaCtrlStartP2l = false := by
  have hstate : s.controller.fsm.dmaCtrlCurrentState = .transfer := h
  rw [fsm_step]
  simp only [DmaController.pFsm, hstate]
  split_ifs <;> exact ⟨rfl, rfl⟩

/-- The controller fails a transfer for the error line, and for nothing else. -/
theorem InTransfer.error_step (h : s.InTransfer) :
    (step gByteSwap s i).controller.fsm.dmaCtrlCurrentState = .error ↔
      s.dmaCtrlError = true ∧ abortBit s.controller.regs.dmaCtrlReg = false := by
  have hstate : s.controller.fsm.dmaCtrlCurrentState = .transfer := h
  have hline : (s.engine.controllerIn (s.engineIn i)).dmaCtrlError = s.dmaCtrlError := rfl
  rw [fsm_step]
  simp only [DmaController.pFsm, hstate, hline]
  cases habort : abortBit s.controller.regs.dmaCtrlReg with
  | true => simp
  | false =>
      cases herror : s.dmaCtrlError with
      | true => simp
      | false => split_ifs <;> simp_all

theorem Clean.step (h : s.Clean) (htransfer : s.InTransfer) (hcpln : i.pd.masterCpln = false) :
    (step gByteSwap s i).Clean := by
  obtain ⟨herror, hl2p, hp2l⟩ := h
  obtain ⟨hl2p', hp2l'⟩ := htransfer.pulses_step (i := i)
  refine ⟨dmaCtrlError_step herror ?_ ?_ hcpln, hl2p', hp2l'⟩
  · exact fun hpulse => absurd (hl2p.symm.trans hpulse) (by decide)
  · exact fun hpulse => absurd (hp2l.symm.trans hpulse) (by decide)

/-- A start that both masters accept leaves no error behind, if there was none. -/
theorem Starts.step (h : s.Starts) (htransfer : s.InTransfer) (herror : s.dmaCtrlError = false)
    (hcpln : i.pd.masterCpln = false) : (step gByteSwap s i).Clean := by
  obtain ⟨-, hl2p, hp2l⟩ := h
  obtain ⟨hl2p', hp2l'⟩ := htransfer.pulses_step (i := i)
  exact ⟨dmaCtrlError_step herror (fun _ => hl2p) (fun _ => hp2l) hcpln, hl2p', hp2l'⟩

/-! ## Runs -/

/-- A transfer that goes on without an error register set does not fail. -/
theorem Clean.not_error (h : s.Clean) (hnot : s.controller.fsm.dmaCtrlCurrentState ≠ .error)
    (hcpln : ∀ i ∈ is, i.pd.masterCpln = false)
    (hrun : Always (DmaCore.step gByteSwap) (fun s _ => s.InTransfer) s is) :
    (run (DmaCore.step gByteSwap) s is).controller.fsm.dmaCtrlCurrentState ≠ .error := by
  induction is generalizing s with
  | nil => exact hnot
  | cons i is ih =>
      have hi : i.pd.masterCpln = false := hcpln i List.mem_cons_self
      rw [run_cons]
      apply ih
      · exact h.step hrun.1 hi
      · rw [ne_eq, hrun.1.error_step]
        exact fun herror => absurd (h.noError.symm.trans herror.1) (by decide)
      · exact fun j hj => hcpln j (List.mem_cons_of_mem i hj)
      · exact hrun.2

/-- The pulses of the controller are in their states in every run. -/
theorem reachable_of_reset (addrFifoDin : Word) (dataFifoValid : Bool) (hs : List DmaCoreIn) :
    (run (step gByteSwap) (reset addrFifoDin dataFifoValid) hs).engine.Reachable := by
  induction hs using List.reverseRecOn with
  | nil => exact DmaEngine.reset_reachable
  | append_singleton hs i ih =>
      rw [run_concat]
      exact DmaEngine.Reachable.step ih

/-- A cycle in which nothing happens. -/
def quietEdge : DmaCoreIn := ⟨.none, .quiet, false, false, 0b11#2, true, false, true, 0⟩

/-- **Errors.**  Take any run from reset up to the start pulse of a transfer that finds both
masters idle, and go on with any inputs without a completion without data.  As long as the
transfer is under way it does not end in `DMA_ERROR`, whatever the inputs are, if and only if no
error register is still set in the cycle of the pulse, or the host aborts the transfer in it. -/
theorem no_old_error_iff (gByteSwap : Bool) (addrFifoDin : Word) (dataFifoValid : Bool)
    (hs : List DmaCoreIn) :
    let s := run (step gByteSwap) (reset addrFifoDin dataFifoValid) hs
    s.Starts →
    ((∀ is, (∀ i ∈ is, i.pd.masterCpln = false) →
        Always (step gByteSwap) (fun s _ => s.InTransfer) s is →
        (run (step gByteSwap) s is).controller.fsm.dmaCtrlCurrentState ≠ .error) ↔
      s.dmaCtrlError = false ∨ abortBit s.controller.regs.dmaCtrlReg = true) := by
  intro s hstarts
  have htransfer : s.InTransfer :=
    (reachable_of_reset addrFifoDin dataFifoValid hs).startTransfer hstarts.1
  constructor
  · intro hnever
    have hnot := hnever [quietEdge] (by simp [quietEdge, PdPdm.quiet]) ⟨htransfer, trivial⟩
    rw [run_cons, run_nil, ne_eq, htransfer.error_step] at hnot
    cases herror : s.dmaCtrlError with
    | false => exact .inl rfl
    | true =>
        right
        by_contra habort
        exact hnot ⟨herror, by simpa using habort⟩
  · intro hcondition is hcpln hrun
    cases is with
    | nil => simp [run_nil, show s.controller.fsm.dmaCtrlCurrentState = .transfer from htransfer]
    | cons i is =>
        have hi : i.pd.masterCpln = false := hcpln i List.mem_cons_self
        have hnot : (step gByteSwap s i).controller.fsm.dmaCtrlCurrentState ≠ .error := by
          rw [ne_eq, htransfer.error_step]
          rintro ⟨herror, habort⟩
          rcases hcondition with hnone | haborted
          · exact absurd (hnone.symm.trans herror) (by decide)
          · exact absurd (habort.symm.trans haborted) (by decide)
        rw [run_cons]
        rcases hcondition with hnone | haborted
        · refine (hstarts.step htransfer hnone hi).not_error hnot (fun j hj => ?_) hrun.2
          exact hcpln j (List.mem_cons_of_mem i hj)
        · -- behind the edge of the abort the transfer is not under way any more
          cases is with
          | nil => exact hnot
          | cons j is =>
              have habort' : ¬ (step gByteSwap s i).InTransfer := by
                have hstate : s.controller.fsm.dmaCtrlCurrentState = .transfer := htransfer
                rw [InTransfer, fsm_step]
                simp [DmaController.pFsm, hstate, haborted]
              exact absurd hrun.2.1 habort'

/-- A cycle in which the host writes the control register. -/
def loadCtrl (ctrl : Word) : DmaCoreIn :=
  { quietEdge with loads := { DmaLoads.none with dmaCtrl := some ctrl } }

/-- A cycle in which the host writes the registers of an item of one word, and starts it. -/
def loadItem (attrib : Word) : DmaCoreIn :=
  { quietEdge with
    loads := { DmaLoads.none with dmaCtrl := some 1, dmaLen := some 4, dmaAttrib := some attrib } }

/-- An L2P transfer of one word.  The host aborts it while the L2P DMA master waits for the bus,
and starts another one, which the master refuses.  Then the master gets the bus and sends its
packet. -/
def refusedStart : List DmaCoreIn :=
  let quiet := quietEdge
  let ready := { quiet with dataFifoEmpty := false }
  [loadItem 0, quiet, quiet, quiet, ready, loadCtrl 2, quiet, loadCtrl 1, quiet, quiet, quiet, quiet,
    { quiet with arbLdmGnt := true }, quiet, quiet, quiet, quiet]

/-- With both masters idle again, the host starts a P2L transfer of one word.  It fails at once,
for the start that the L2P DMA master has refused. -/
theorem refused_start_fails_next :
    let s := run (step false) (reset 0 false) (refusedStart ++ [loadItem 2, quietEdge, quietEdge])
    s.Starts ∧ s.controller.fsm.dmaCtrlStartP2l = true ∧ s.InTransfer ∧
      (step false s quietEdge).controller.fsm.dmaCtrlCurrentState = .error := by
  decide +kernel

/-- An L2P transfer that is accepted clears the register, and the P2L transfer behind it does not
fail. -/
theorem accepted_start_does_not_fail :
    let s := run (step false) (reset 0 false)
      (refusedStart ++ [loadItem 0, quietEdge, quietEdge, quietEdge, loadItem 2, quietEdge, quietEdge])
    ∀ is, (∀ i ∈ is, i.pd.masterCpln = false) →
      Always (step false) (fun s _ => s.InTransfer) s is →
      (run (step false) s is).controller.fsm.dmaCtrlCurrentState ≠ .error := by
  intro s
  exact (no_old_error_iff false 0 false
    (refusedStart ++ [loadItem 0, quietEdge, quietEdge, quietEdge, loadItem 2, quietEdge, quietEdge])
    (by decide +kernel)).2 (.inl (by decide +kernel))

end DmaCore

end Gn4124Core
