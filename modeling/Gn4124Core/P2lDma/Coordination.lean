import Gn4124Core.DmaChain.Abort
import Gn4124Core.DmaControl.Outcomes

/-!
# The DMA controller and the P2L DMA master in error-free runs

In a run without an abort and without an error the two FSMs follow one another.  `Phase` says
what the P2L DMA master is doing: nothing, a transfer, the report of its end in two steps, an
item fetch, its report, or the report of a failure.  `Coordinated` says where the controller is
meanwhile.  A start pulse then always finds the master with nothing left to do.

The master is taken first, without its controller: `Flags.idle_step` and `Flags.busy_step` say
which flags it has after an edge, `order_step` that it takes an order when it is quiet, and
`Flags.stay_step` that without one it is quiet or goes on with its report.  Of the controller
only the waiting matters (`transfer_stay`, `chain_stay`): without a word from the master it stays
where it is.

`Coordinated.step` puts them together.  Its cases are the phases of the master, and each of them
is a lemma: `quiet_step`, `running_step`, `fetching_step` and, for the three reports,
`report_step`.
-/

namespace Gn4124Core

open Clocked

namespace P2lDmaMaster

/-! ## The master -/

/-- What the master is doing. -/
inductive Phase where
  | quiet
  | running
  | doneT
  | done
  | fetching
  | fetched
  | failed
deriving DecidableEq

/-- The flags that the master reports with: `dma_ctrl_done_t`, `dma_ctrl_done_o`,
`next_item_valid_o` and `completion_error`. -/
structure Flags (m : P2lDmaMaster) (doneT done item failed : Bool) : Prop where
  doneT : m.fsm.dmaCtrlDoneT = doneT
  done : m.ctrlPipe.dmaCtrlDone = done
  item : m.fsm.nextItemValid = item
  failed : m.fsm.completionError = failed

/-- What the registers say of each phase. -/
def InPhase (m : P2lDmaMaster) : Phase → Prop
  | .quiet => m.fsm.p2lDmaCurrentState = .idle ∧ m.addrCnt.toWbFifoWr = false ∧
      m.Flags false false false false
  | .running => m.fsm.p2lDmaCurrentState ≠ .idle ∧ m.readReq.isNextItem = false ∧
      m.Flags false false false false
  | .doneT => m.fsm.p2lDmaCurrentState = .idle ∧ m.Flags true false false false
  | .done => m.fsm.p2lDmaCurrentState = .idle ∧ m.addrCnt.toWbFifoWr = false ∧
      m.Flags false true false false
  | .fetching => m.fsm.p2lDmaCurrentState ≠ .idle ∧ m.readReq.isNextItem = true ∧
      m.addrCnt.toWbFifoWr = false ∧ m.Flags false false false false
  | .fetched => m.fsm.p2lDmaCurrentState = .idle ∧ m.addrCnt.toWbFifoWr = false ∧
      m.Flags false false true false
  | .failed => m.fsm.completionError = true

theorem reset_quiet : reset.InPhase .quiet := ⟨rfl, rfl, rfl, rfl, rfl, rfl⟩

variable (gByteSwap : Bool) {m : P2lDmaMaster} {i : P2lDmaIn} {doneT done item failed : Bool}

/-- An idle master clears its flags, and hands `dma_ctrl_done_t` on. -/
theorem Flags.idle_step (h : m.Flags doneT done item failed)
    (hidle : m.fsm.p2lDmaCurrentState = .idle) :
    (m.step gByteSwap i).Flags false doneT false false := by
  obtain ⟨hdoneT, hitem, hfailed⟩ := reports_of_idle gByteSwap (i := i) hidle
  exact ⟨hdoneT, h.doneT, hitem, hfailed⟩

theorem storesWord_of_idle (hidle : m.fsm.p2lDmaCurrentState = .idle) : m.storesWord i = false := by
  simp [storesWord, hidle]

theorem storesWord_of_item (hitem : m.readReq.isNextItem = true) : m.storesWord i = false := by
  simp [storesWord, hitem]

/-- An idle master without an order is quiet, but for a done flag that it hands on. -/
theorem Flags.stay_step (h : m.Flags doneT done item failed)
    (hidle : m.fsm.p2lDmaCurrentState = .idle) (hp2l : i.ctrl.startP2l = false)
    (hnext : i.ctrl.startNext = false) :
    (m.step gByteSwap i).InPhase (if doneT then .done else .quiet) := by
  have hflags : (m.step gByteSwap i).Flags false doneT false false := h.idle_step gByteSwap hidle
  have hstate : (m.step gByteSwap i).fsm.p2lDmaCurrentState = .idle := by
    show (m.pReadReqFsm i).p2lDmaCurrentState = .idle
    simp [pReadReqFsm, hidle, hp2l, hnext]
  have hwr : (m.step gByteSwap i).addrCnt.toWbFifoWr = false :=
    (toWbFifoWr_step gByteSwap hp2l).trans (storesWord_of_idle hidle)
  cases doneT with
  | true => exact ⟨hstate, hwr, hflags⟩
  | false => exact ⟨hstate, hwr, hflags⟩

/-- A quiet master takes an order. -/
theorem order_step (h : m.InPhase .quiet) (hstart : (i.ctrl.startP2l || i.ctrl.startNext) = true)
    (hone : i.ctrl.startNext = !i.ctrl.startP2l) :
    (m.step gByteSwap i).InPhase (if i.ctrl.startNext then .fetching else .running) := by
  obtain ⟨hidle, hwr, hflags⟩ := h
  have hflags' : (m.step gByteSwap i).Flags false false false false := hflags.idle_step gByteSwap hidle
  have hstate : (m.step gByteSwap i).fsm.p2lDmaCurrentState ≠ .idle := by
    show (m.pReadReqFsm i).p2lDmaCurrentState ≠ .idle
    simp [pReadReqFsm, hidle, hstart]
  have hitem : (m.step gByteSwap i).readReq.isNextItem = i.ctrl.startNext := by
    show (m.pReadReq i).isNextItem = i.ctrl.startNext
    simp [pReadReq, hidle, hstart]
  cases hnext : i.ctrl.startNext with
  | false => exact ⟨hstate, hitem.trans hnext, hflags'⟩
  | true =>
      have hp2l : i.ctrl.startP2l = false := by simpa [hnext] using hone.symm
      have hwr' : (m.step gByteSwap i).addrCnt.toWbFifoWr = false :=
        (toWbFifoWr_step gByteSwap hp2l).trans (storesWord_of_idle hidle)
      exact ⟨hstate, hitem.trans hnext, hwr', hflags'⟩

/-- A master at work goes on, reports the end, or fails. -/
theorem Flags.busy_step (h : m.Flags false false false false)
    (hbusy : m.fsm.p2lDmaCurrentState ≠ .idle) (habort : i.ctrl.abort = false) :
    ((m.step gByteSwap i).fsm.p2lDmaCurrentState ≠ .idle ∧
        (m.step gByteSwap i).Flags false false false false) ∨
      ((m.step gByteSwap i).fsm.p2lDmaCurrentState = .idle ∧
        (m.step gByteSwap i).Flags (!m.readReq.isNextItem) false m.readReq.isNextItem false) ∨
      (m.step gByteSwap i).InPhase .failed := by
  obtain ⟨hdoneT, hdone, hitem, hfailed⟩ := h
  have hfsm : (m.step gByteSwap i).fsm = m.pReadReqFsm i := rfl
  have hpipe : (m.step gByteSwap i).ctrlPipe.dmaCtrlDone = false := hdoneT
  have hflags : ∀ a b c, (m.pReadReqFsm i).dmaCtrlDoneT = a → (m.pReadReqFsm i).nextItemValid = b →
      (m.pReadReqFsm i).completionError = c → (m.step gByteSwap i).Flags a false b c :=
    fun a b c ha hb hc => ⟨ha, hpipe, hb, hc⟩
  cases hstate : m.fsm.p2lDmaCurrentState with
  | idle => exact absurd hstate hbusy
  | header =>
      left
      rw [hfsm]
      refine ⟨?_, hflags _ _ _ ?_ ?_ ?_⟩ <;> simp only [pReadReqFsm, hstate] <;> split_ifs <;>
        simp [hdoneT, hitem, hfailed, hstate]
  | addrH =>
      left
      rw [hfsm]
      refine ⟨?_, hflags _ _ _ ?_ ?_ ?_⟩ <;> simp [pReadReqFsm, hstate, hdoneT, hitem, hfailed]
  | addrL =>
      left
      rw [hfsm]
      refine ⟨?_, hflags _ _ _ ?_ ?_ ?_⟩ <;> simp [pReadReqFsm, hstate, hdoneT, hitem, hfailed]
  | waitReadCompletion =>
      rw [hfsm]
      cases hlast : m.lastWordReceived i with
      | true =>
          cases hpacket : m.readReq.l2pLastPacket with
          | true =>
              right
              left
              refine ⟨?_, hflags _ _ _ ?_ ?_ ?_⟩ <;> cases hnext : m.readReq.isNextItem <;>
                simp [pReadReqFsm, hstate, habort, hlast, hpacket, hnext, hdoneT, hitem, hfailed]
          | false =>
              left
              refine ⟨?_, hflags _ _ _ ?_ ?_ ?_⟩ <;>
                simp [pReadReqFsm, hstate, habort, hlast, hpacket, hdoneT, hitem, hfailed]
      | false =>
          cases hcpln : i.pd.masterCpln with
          | true =>
              right
              right
              show (m.pReadReqFsm i).completionError = true
              simp [pReadReqFsm, hstate, habort, hlast, hcpln]
          | false =>
              left
              refine ⟨?_, hflags _ _ _ ?_ ?_ ?_⟩ <;>
                simp [pReadReqFsm, hstate, habort, hlast, hcpln, hdoneT, hitem, hfailed]

end P2lDmaMaster

/-! ## The controller -/

namespace DmaController

variable {c : DmaController} {i : DmaControllerIn}

/-- Without a word of done the controller waits for the end of the transfer. -/
theorem transfer_stay (hstate : c.fsm.dmaCtrlCurrentState = .transfer)
    (habort : abortBit c.regs.dmaCtrlReg = false) (herror : i.dmaCtrlError = false)
    (hdone : i.dmaCtrlDone = false) :
    (c.step i).fsm.dmaCtrlCurrentState = .transfer ∧ (c.step i).fsm.dmaCtrlStartL2p = false ∧
      (c.step i).fsm.dmaCtrlStartP2l = false := by
  have hfsm : (c.step i).fsm = c.pFsm i := rfl
  rw [hfsm]
  simp [pFsm, hstate, habort, herror, hdone]

/-- Without an item the controller waits for it. -/
theorem chain_stay (hstate : c.fsm.dmaCtrlCurrentState = .chain)
    (habort : abortBit c.regs.dmaCtrlReg = false) (herror : i.dmaCtrlError = false)
    (hitem : i.nextItemValid = false) :
    (c.step i).fsm.dmaCtrlCurrentState = .chain ∧ (c.step i).fsm.dmaCtrlStartNext = false := by
  have hfsm : (c.step i).fsm = c.pFsm i := rfl
  rw [hfsm]
  simp [pFsm, hstate, habort, herror, hitem]

theorem PulsesInState.startNext_of_transfer (h : c.PulsesInState)
    (hstate : c.fsm.dmaCtrlCurrentState = .transfer) : c.fsm.dmaCtrlStartNext = false :=
  Bool.eq_false_iff.mpr fun hnext => absurd (hstate.symm.trans (h.startNext hnext)) (by decide)

theorem PulsesInState.transfer_lines_of_chain (h : c.PulsesInState)
    (hstate : c.fsm.dmaCtrlCurrentState = .chain) :
    c.fsm.dmaCtrlStartL2p = false ∧ c.fsm.dmaCtrlStartP2l = false := by
  constructor
  · exact Bool.eq_false_iff.mpr fun hl2p => absurd (hstate.symm.trans (h.startL2p hl2p)) (by decide)
  · exact Bool.eq_false_iff.mpr fun hp2l => absurd (hstate.symm.trans (h.startP2l hp2l)) (by decide)

/-- Only the abort bit, in a state that looks at it, leads to `DMA_ABORT`. -/
theorem not_abort_step (hstate : c.fsm.dmaCtrlCurrentState ≠ .abort) (hline : c.fsm.dmaCtrlAbort = false)
    (hbit : c.fsm.dmaCtrlCurrentState = .transfer ∨ c.fsm.dmaCtrlCurrentState = .chain →
      abortBit c.regs.dmaCtrlReg = false) :
    (c.step i).fsm.dmaCtrlCurrentState ≠ .abort ∧ (c.step i).fsm.dmaCtrlAbort = false := by
  have hfsm : (c.step i).fsm = c.pFsm i := rfl
  rw [hfsm]
  cases hcase : c.fsm.dmaCtrlCurrentState with
  | idle => simp only [pFsm, hcase]; split_ifs <;> simp [hline]
  | startTransfer => simp only [pFsm, hcase]; split_ifs <;> simp
  | transfer =>
      have hbit' := hbit (.inl hcase)
      simp only [pFsm, hcase, hbit', Bool.false_eq_true, if_false]
      split_ifs <;> simp [hline]
  | startChain => simp [pFsm, hcase, hline]
  | chain =>
      have hbit' := hbit (.inr hcase)
      simp only [pFsm, hcase, hbit', Bool.false_eq_true, if_false]
      split_ifs <;> simp [hline]
  | error => simp only [pFsm, hcase]; split_ifs <;> simp [hline]
  | abort => exact absurd hcase hstate

end DmaController

/-! ## The two together -/

namespace DmaEngine

open P2lDmaMaster

/-- Neither an abort nor an error, and the L2P DMA master reports the end of a transfer only while
it has one. -/
structure ErrorFree (l2pBusy : Bool) (s : DmaEngine) (i : DmaEngineIn) : Prop where
  noAbort : ¬ s.Aborts
  noError : (s.controllerIn i).dmaCtrlError = false
  l2pDone : i.l2pDone = true → l2pBusy = true

instance (l2pBusy : Bool) (s : DmaEngine) (i : DmaEngineIn) : Decidable (ErrorFree l2pBusy s i) :=
  decidable_of_iff
    (¬ s.Aborts ∧ (s.controllerIn i).dmaCtrlError = false ∧ (i.l2pDone = true → l2pBusy = true))
    ⟨fun h => ⟨h.1, h.2.1, h.2.2⟩, fun h => ⟨h.noAbort, h.noError, h.l2pDone⟩⟩

/-- Where the controller is while the P2L DMA master is in a phase. -/
def Expected (c : DmaController) (l2pBusy : Bool) : P2lDmaMaster.Phase → Prop
  | .quiet => l2pBusy = true → c.fsm.dmaCtrlCurrentState = .transfer ∧
      c.fsm.dmaCtrlStartL2p = false ∧ c.fsm.dmaCtrlStartP2l = false
  | .running | .doneT | .done => c.fsm.dmaCtrlCurrentState = .transfer ∧
      c.fsm.dmaCtrlStartL2p = false ∧ c.fsm.dmaCtrlStartP2l = false ∧ l2pBusy = false
  | .fetching | .fetched => c.fsm.dmaCtrlCurrentState = .chain ∧
      c.fsm.dmaCtrlStartNext = false ∧ l2pBusy = false
  | .failed => True

/-- The two FSMs agree on a phase of the master. -/
def Agree (s : DmaEngine) (l2pBusy : Bool) : Prop :=
  ∃ p, s.master.InPhase p ∧ Expected s.controller l2pBusy p

/-- The controller and the master agree on what the master is doing, and no abort is on its way. -/
structure Coordinated (s : DmaEngine) (l2pBusy : Bool) : Prop where
  pulses : s.controller.PulsesInState
  notAbort : s.controller.fsm.dmaCtrlCurrentState ≠ .abort
  noAbort : s.controller.fsm.dmaCtrlAbort = false
  agree : s.Agree l2pBusy

theorem reset_coordinated : reset.Coordinated false :=
  ⟨DmaController.reset_pulsesInState, by decide, rfl, .quiet, reset_quiet, fun h => by simp at h⟩

variable {gByteSwap : Bool} {s : DmaEngine} {i : DmaEngineIn} {l2pBusy : Bool}

/-- Whether the L2P DMA master has a transfer, after an edge. -/
def nextL2pBusy (s : DmaEngine) (l2pBusy : Bool) (i : DmaEngineIn) : Bool :=
  s.controller.fsm.dmaCtrlStartL2p || l2pBusy && !i.l2pDone

theorem ErrorFree.abortBit (h : s.ErrorFree l2pBusy i)
    (hstate : s.controller.fsm.dmaCtrlCurrentState = .transfer ∨
      s.controller.fsm.dmaCtrlCurrentState = .chain) :
    Gn4124Core.abortBit s.controller.regs.dmaCtrlReg = false := by
  by_contra hbit
  exact h.noAbort ⟨hstate, by simpa using hbit⟩

theorem ErrorFree.done_eq (h : s.ErrorFree l2pBusy i) (hbusy : l2pBusy = false) :
    (s.controllerIn i).dmaCtrlDone = s.master.ctrlPipe.dmaCtrlDone := by
  have hl2p : i.l2pDone = false := by
    by_contra hdone
    exact absurd (hbusy.symm.trans (h.l2pDone (by simpa using hdone))) (by decide)
  simp [controllerIn, hl2p]

theorem ErrorFree.not_failed (h : s.ErrorFree l2pBusy i) : ¬ s.master.InPhase .failed := by
  intro hfailed
  have hflag : s.master.fsm.completionError = true := hfailed
  have herror : (s.controllerIn i).dmaCtrlError = true := by
    simp [controllerIn, P2lDmaMaster.dmaCtrlError, hflag]
  exact absurd (herror.symm.trans h.noError) (by decide)

/-! ## One edge, by the phase of the master -/

variable (gByteSwap) in
/-- The controller stays while the master has a transfer. -/
theorem transfer_step (hfree : s.ErrorFree l2pBusy i)
    (hstate : s.controller.fsm.dmaCtrlCurrentState = .transfer)
    (hl2p : s.controller.fsm.dmaCtrlStartL2p = false) (hbusy : l2pBusy = false)
    (hdone : s.master.ctrlPipe.dmaCtrlDone = false) :
    (step gByteSwap s i).controller.fsm.dmaCtrlCurrentState = .transfer ∧
      (step gByteSwap s i).controller.fsm.dmaCtrlStartL2p = false ∧
      (step gByteSwap s i).controller.fsm.dmaCtrlStartP2l = false ∧ s.nextL2pBusy l2pBusy i = false := by
  obtain ⟨hstay, hl2p', hp2l'⟩ := DmaController.transfer_stay (i := s.controllerIn i) hstate
    (hfree.abortBit (.inl hstate)) hfree.noError ((hfree.done_eq hbusy).trans hdone)
  exact ⟨hstay, hl2p', hp2l', by simp [nextL2pBusy, hl2p, hbusy]⟩

/-- The master is quiet: the controller orders something, waits for the L2P DMA master, or has
nothing to do. -/
theorem quiet_step (hpulses : s.controller.PulsesInState) (hfree : s.ErrorFree l2pBusy i)
    (hphase : s.master.InPhase .quiet) (hexpected : Expected s.controller l2pBusy .quiet) :
    Agree (step gByteSwap s i) (s.nextL2pBusy l2pBusy i) := by
  have hdone : s.master.ctrlPipe.dmaCtrlDone = false := hphase.2.2.done
  have hitem : s.master.fsm.nextItemValid = false := hphase.2.2.item
  have hstart : ∀ b, (s.masterIn i).ctrl.startP2l = b ↔ s.controller.fsm.dmaCtrlStartP2l = b :=
    fun _ => Iff.rfl
  have hnext : ∀ b, (s.masterIn i).ctrl.startNext = b ↔ s.controller.fsm.dmaCtrlStartNext = b :=
    fun _ => Iff.rfl
  cases hp2l : s.controller.fsm.dmaCtrlStartP2l with
  | true =>
      -- a P2L transfer is ordered
      have hstate := hpulses.startP2l hp2l
      obtain ⟨-, hnotL2p, -, hnotNext⟩ := hpulses.exclusive
      have hl2p : s.controller.fsm.dmaCtrlStartL2p = false :=
        Bool.eq_false_iff.mpr fun hl2p => hnotL2p ⟨hl2p, hp2l⟩
      have hnot : s.controller.fsm.dmaCtrlStartNext = false :=
        Bool.eq_false_iff.mpr fun hfetch => hnotNext ⟨hp2l, hfetch⟩
      have hbusy : l2pBusy = false := Bool.eq_false_iff.mpr fun hl2pBusy =>
        absurd (hp2l.symm.trans (hexpected hl2pBusy).2.2) (by decide)
      have hrun := order_step gByteSwap (i := s.masterIn i) hphase (by simp [(hstart true).mpr hp2l])
        (by rw [(hstart true).mpr hp2l, (hnext false).mpr hnot]; rfl)
      rw [(hnext false).mpr hnot] at hrun
      exact ⟨.running, hrun, transfer_step gByteSwap hfree hstate hl2p hbusy hdone⟩
  | false =>
      cases hfetch : s.controller.fsm.dmaCtrlStartNext with
      | true =>
          -- the fetch of an item is ordered
          have hstate := hpulses.startNext hfetch
          obtain ⟨-, -, hnotL2p, -⟩ := hpulses.exclusive
          have hl2p : s.controller.fsm.dmaCtrlStartL2p = false :=
            Bool.eq_false_iff.mpr fun hl2p => hnotL2p ⟨hl2p, hfetch⟩
          have hbusy : l2pBusy = false := Bool.eq_false_iff.mpr fun hl2pBusy =>
            absurd (hstate.symm.trans (hexpected hl2pBusy).1) (by decide)
          have hrun := order_step gByteSwap (i := s.masterIn i) hphase
            (by simp [(hnext true).mpr hfetch])
            (by rw [(hstart false).mpr hp2l, (hnext true).mpr hfetch]; rfl)
          rw [(hnext true).mpr hfetch] at hrun
          obtain ⟨hstay, hlow⟩ := DmaController.chain_stay (i := s.controllerIn i) hstate
            (hfree.abortBit (.inr hstate)) hfree.noError hitem
          exact ⟨.fetching, hrun, hstay, hlow, by simp [nextL2pBusy, hl2p, hbusy]⟩
      | false =>
          have hstay := hphase.2.2.stay_step gByteSwap (i := s.masterIn i) hphase.1
            ((hstart false).mpr hp2l) ((hnext false).mpr hfetch)
          refine ⟨.quiet, hstay, fun hbusy => ?_⟩
          -- the controller waits for the L2P DMA master
          have hwaits : s.controller.fsm.dmaCtrlCurrentState = .transfer ∧ i.l2pDone = false := by
            simp only [nextL2pBusy, Bool.or_eq_true, Bool.and_eq_true, Bool.not_eq_true'] at hbusy
            rcases hbusy with hl2p | ⟨hl2pBusy, hnot⟩
            · refine ⟨hpulses.startL2p hl2p, Bool.eq_false_iff.mpr fun hdone' => ?_⟩
              exact absurd (hl2p.symm.trans (hexpected (hfree.l2pDone hdone')).2.1) (by decide)
            · exact ⟨(hexpected hl2pBusy).1, hnot⟩
          exact DmaController.transfer_stay (i := s.controllerIn i) hwaits.1
            (hfree.abortBit (.inl hwaits.1)) hfree.noError (by simp [controllerIn, hwaits.2, hdone])

/-- The master has a P2L transfer: it goes on, ends, or fails. -/
theorem running_step (hfree : s.ErrorFree l2pBusy i) (habort : s.controller.fsm.dmaCtrlAbort = false)
    (hphase : s.master.InPhase .running) (hexpected : Expected s.controller l2pBusy .running) :
    Agree (step gByteSwap s i) (s.nextL2pBusy l2pBusy i) := by
  obtain ⟨hbusy, hitem, hflags⟩ := hphase
  obtain ⟨hstate, hl2p, hp2l, hl2pBusy⟩ := hexpected
  have hwaits := transfer_step gByteSwap hfree hstate hl2p hl2pBusy hflags.done
  have hitem' := isNextItem_step gByteSwap (i := s.masterIn i) (.inl hbusy)
  rcases hflags.busy_step gByteSwap (i := s.masterIn i) hbusy habort with
    ⟨hgo, hnone⟩ | ⟨hidle, hend⟩ | hfailed
  · exact ⟨.running, ⟨hgo, hitem'.trans hitem, hnone⟩, hwaits⟩
  · rw [hitem] at hend
    exact ⟨.doneT, ⟨hidle, hend⟩, hwaits⟩
  · exact ⟨.failed, hfailed, trivial⟩

/-- The master fetches an item: it goes on, ends, or fails. -/
theorem fetching_step (hpulses : s.controller.PulsesInState) (hfree : s.ErrorFree l2pBusy i)
    (habort : s.controller.fsm.dmaCtrlAbort = false) (hphase : s.master.InPhase .fetching)
    (hexpected : Expected s.controller l2pBusy .fetching) :
    Agree (step gByteSwap s i) (s.nextL2pBusy l2pBusy i) := by
  obtain ⟨hbusy, hitem, hwr, hflags⟩ := hphase
  obtain ⟨hstate, hnext, hl2pBusy⟩ := hexpected
  obtain ⟨hl2p, hp2l⟩ := hpulses.transfer_lines_of_chain hstate
  obtain ⟨hstay, hlow⟩ := DmaController.chain_stay (i := s.controllerIn i) hstate
    (hfree.abortBit (.inr hstate)) hfree.noError hflags.item
  have hwaits : Expected (step gByteSwap s i).controller (s.nextL2pBusy l2pBusy i) .fetching :=
    ⟨hstay, hlow, by simp [nextL2pBusy, hl2p, hl2pBusy]⟩
  have hitem' := isNextItem_step gByteSwap (i := s.masterIn i) (.inl hbusy)
  have hwr' := (toWbFifoWr_step gByteSwap (s := s.master) (i := s.masterIn i) hp2l).trans
    (storesWord_of_item hitem)
  rcases hflags.busy_step gByteSwap (i := s.masterIn i) hbusy habort with
    ⟨hgo, hnone⟩ | ⟨hidle, hend⟩ | hfailed
  · exact ⟨.fetching, ⟨hgo, hitem'.trans hitem, hwr', hnone⟩, hwaits⟩
  · rw [hitem] at hend
    exact ⟨.fetched, ⟨hidle, hwr', hend⟩, hwaits⟩
  · exact ⟨.failed, hfailed, trivial⟩

/-- The master reports: without an order it is quiet then, or reports on. -/
theorem report_step {done item failed : Bool} (hflags : s.master.Flags false done item failed)
    (hidle : s.master.fsm.p2lDmaCurrentState = .idle)
    (hp2l : s.controller.fsm.dmaCtrlStartP2l = false) (hnext : s.controller.fsm.dmaCtrlStartNext = false)
    (hl2p : s.controller.fsm.dmaCtrlStartL2p = false) (hl2pBusy : l2pBusy = false) :
    Agree (step gByteSwap s i) (s.nextL2pBusy l2pBusy i) := by
  have hquiet := hflags.stay_step gByteSwap (i := s.masterIn i) hidle hp2l hnext
  exact ⟨.quiet, hquiet, fun hbusy => by simp [nextL2pBusy, hl2p, hl2pBusy] at hbusy⟩

/-- **The two FSMs go together**, whatever an edge without abort and error does. -/
theorem Coordinated.step (h : s.Coordinated l2pBusy) (hfree : s.ErrorFree l2pBusy i) :
    (DmaEngine.step gByteSwap s i).Coordinated (s.nextL2pBusy l2pBusy i) := by
  obtain ⟨hpulses, hnotAbort, habort, p, hphase, hexpected⟩ := h
  obtain ⟨hnotAbort', habort'⟩ := DmaController.not_abort_step (i := s.controllerIn i) hnotAbort habort
    hfree.abortBit
  refine ⟨hpulses.step, hnotAbort', habort', ?_⟩
  cases p with
  | quiet => exact quiet_step hpulses hfree hphase hexpected
  | running => exact running_step hfree habort hphase hexpected
  | doneT =>
      obtain ⟨hstate, hl2p, hp2l, hl2pBusy⟩ := hexpected
      obtain ⟨hidle, hflags⟩ := hphase
      have hnext := hpulses.startNext_of_transfer hstate
      exact ⟨.done, hflags.stay_step gByteSwap (i := s.masterIn i) hidle hp2l hnext,
        transfer_step gByteSwap hfree hstate hl2p hl2pBusy hflags.done⟩
  | done =>
      obtain ⟨hstate, hl2p, hp2l, hl2pBusy⟩ := hexpected
      obtain ⟨hidle, -, hflags⟩ := hphase
      exact report_step hflags hidle hp2l (hpulses.startNext_of_transfer hstate) hl2p hl2pBusy
  | fetching => exact fetching_step hpulses hfree habort hphase hexpected
  | fetched =>
      obtain ⟨hstate, hnext, hl2pBusy⟩ := hexpected
      obtain ⟨hidle, -, hflags⟩ := hphase
      obtain ⟨hl2p, hp2l⟩ := hpulses.transfer_lines_of_chain hstate
      exact report_step hflags hidle hp2l hnext hl2p hl2pBusy
  | failed => exact absurd hphase hfree.not_failed

/-! ## What is known at the ends of a transfer -/

/-- Nothing waits at the input of `to_wb_fifo` when a P2L transfer is ordered, and neither when the
controller learns of its end. -/
theorem Coordinated.toWbFifoWr_eq (h : s.Coordinated l2pBusy) (hfree : s.ErrorFree l2pBusy i)
    (hwhen : s.controller.fsm.dmaCtrlStartP2l = true ∨ s.master.ctrlPipe.dmaCtrlDone = true) :
    s.master.addrCnt.toWbFifoWr = false := by
  obtain ⟨hpulses, -, -, p, hphase, hexpected⟩ := h
  cases p with
  | quiet => exact hphase.2.1
  | done => exact hphase.2.1
  | fetching => exact hphase.2.2.1
  | fetched => exact hphase.2.1
  | failed => exact absurd hphase hfree.not_failed
  | running =>
      rcases hwhen with hp2l | hdone
      · exact absurd (hp2l.symm.trans hexpected.2.2.1) (by decide)
      · exact absurd (hdone.symm.trans hphase.2.2.done) (by decide)
  | doneT =>
      rcases hwhen with hp2l | hdone
      · exact absurd (hp2l.symm.trans hexpected.2.2.1) (by decide)
      · exact absurd (hdone.symm.trans hphase.2.done) (by decide)

end DmaEngine

end Gn4124Core
