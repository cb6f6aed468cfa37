import Gn4124Core.Clocked.Run
import Gn4124Core.Rtl.Package

/-!
# `dma_controller`

The DMA controller holds the registers of one item of a DMA chain and orders its transfer
from the L2P or the P2L DMA master.  The next item of the chain is fetched by the P2L DMA
master and goes into the same registers.  The Wishbone slave of the registers is generated;
what it loads into them, in the `clk_i` domain, is an input here.
-/

namespace Gn4124Core

/-- `dma_ctrl_state_type`. -/
inductive DmaCtrlState where
  | idle
  | startTransfer
  | transfer
  | startChain
  | chain
  | error
  | abort
deriving DecidableEq

def cIdle : BitVec 3 := 0b000#3
def cDone : BitVec 3 := 0b001#3
def cBusy : BitVec 3 := 0b010#3
def cError : BitVec 3 := 0b011#3
def cAbort : BitVec 3 := 0b100#3

/-! ## Signals and registers -/

/-- The words that the host loads into the registers in one cycle. -/
structure DmaLoads where
  dmaCtrl : Option Word
  dmaCstart : Option Word
  dmaHstartl : Option Word
  dmaHstarth : Option Word
  dmaLen : Option Word
  dmaNextl : Option Word
  dmaNexth : Option Word
  dmaAttrib : Option Word
deriving DecidableEq

/-- No load. -/
def DmaLoads.none : DmaLoads :=
  ⟨.none, .none, .none, .none, .none, .none, .none, .none⟩

/-- The inputs of the DMA controller. -/
structure DmaControllerIn where
  loads : DmaLoads
  dmaCtrlDone : Bool
  dmaCtrlError : Bool
  nextItem : DmaItem
  nextItemValid : Bool
deriving DecidableEq

/-- The registers of `p_regs`. -/
structure DmaRegs where
  dmaCtrlReg : Word
  dmaStatReg : Word
  item : DmaItem
deriving DecidableEq

/-- The registers of `p_fsm`. -/
structure DmaFsm where
  dmaCtrlCurrentState : DmaCtrlState
  dmaCtrlCarrierAddr : Word
  dmaCtrlHostAddrH : Word
  dmaCtrlHostAddrL : Word
  dmaCtrlLen : Word
  dmaCtrlStartL2p : Bool
  dmaCtrlStartP2l : Bool
  dmaCtrlStartNext : Bool
  dmaStatus : BitVec 3
  dmaErrorIrq : Bool
  dmaDoneIrq : Bool
  dmaCtrlAbort : Bool
deriving DecidableEq

structure DmaController where
  regs : DmaRegs
  fsm : DmaFsm
deriving DecidableEq

/-- The start bit of a control word: bit 0. -/
def startBit (w : Word) : Bool := w.getLsbD 0

/-- The abort bit of a control word: bit 1. -/
def abortBit (w : Word) : Bool := w.getLsbD 1

/-- The attribute bit 0: there is another item behind this one. -/
def DmaItem.more (item : DmaItem) : Bool := item.attrib.getLsbD 0

/-- The attribute bit 1: from the host to the carrier. -/
def DmaItem.isP2l (item : DmaItem) : Bool := item.attrib.getLsbD 1

/-- The length in words. -/
def DmaItem.words (item : DmaItem) : BitVec 30 := item.len.extractLsb' 2 30

/-! ## The processes -/

namespace DmaController

variable (s : DmaController) (i : DmaControllerIn)

/-- The start bit after an edge: the last assignment to it in `p_regs` counts. -/
def nextStartBit : Bool :=
  if startBit s.regs.dmaCtrlReg then false
  else if i.nextItemValid then true
  else startBit (i.loads.dmaCtrl.getD s.regs.dmaCtrlReg)

def pRegs : DmaRegs where
  dmaCtrlReg :=
    (i.loads.dmaCtrl.getD s.regs.dmaCtrlReg).extractLsb' 1 31 ++ BitVec.ofBool (s.nextStartBit i)
  dmaStatReg := 0#29 ++ s.fsm.dmaStatus
  item :=
    if i.nextItemValid then i.nextItem
    else
      { carrierAddr := i.loads.dmaCstart.getD s.regs.item.carrierAddr
        hostAddrH := i.loads.dmaHstarth.getD s.regs.item.hostAddrH
        hostAddrL := i.loads.dmaHstartl.getD s.regs.item.hostAddrL
        len := i.loads.dmaLen.getD s.regs.item.len
        nextL := i.loads.dmaNextl.getD s.regs.item.nextL
        nextH := i.loads.dmaNexth.getD s.regs.item.nextH
        attrib := i.loads.dmaAttrib.getD s.regs.item.attrib }

def pFsm : DmaFsm :=
  match s.fsm.dmaCtrlCurrentState with
  | .idle =>
      { s.fsm with
        dmaDoneIrq := false
        dmaCtrlCurrentState := if startBit s.regs.dmaCtrlReg then .startTransfer else .idle }
  | .startTransfer =>
      if s.regs.item.words = 0 then
        -- a DMA of 0 words is an error
        { s.fsm with
          dmaCtrlAbort := false
          dmaErrorIrq := true
          dmaCtrlCurrentState := .error }
      else
        -- an abort is taken back whether or not a master has seen it
        { s.fsm with
          dmaCtrlAbort := false
          dmaCtrlStartL2p := if s.regs.item.isP2l then s.fsm.dmaCtrlStartL2p else true
          dmaCtrlStartP2l := if s.regs.item.isP2l then true else s.fsm.dmaCtrlStartP2l
          dmaCtrlCurrentState := .transfer
          dmaCtrlCarrierAddr := s.regs.item.carrierAddr
          dmaCtrlHostAddrH := s.regs.item.hostAddrH
          dmaCtrlHostAddrL := s.regs.item.hostAddrL
          dmaCtrlLen := s.regs.item.len
          dmaStatus := cBusy }
  | .transfer =>
      let fsm := { s.fsm with dmaCtrlStartL2p := false, dmaCtrlStartP2l := false }
      if abortBit s.regs.dmaCtrlReg then { fsm with dmaCtrlCurrentState := .abort }
      else if i.dmaCtrlError then { fsm with dmaErrorIrq := true, dmaCtrlCurrentState := .error }
      else if i.dmaCtrlDone then
        if s.regs.item.more then { fsm with dmaCtrlCurrentState := .startChain }
        else { fsm with dmaStatus := cDone, dmaDoneIrq := true, dmaCtrlCurrentState := .idle }
      else fsm
  | .startChain =>
      { s.fsm with
        dmaCtrlCurrentState := .chain
        dmaCtrlHostAddrH := s.regs.item.nextH
        dmaCtrlHostAddrL := s.regs.item.nextL
        dmaCtrlLen := 0x1C#32
        dmaCtrlStartNext := true }
  | .chain =>
      let fsm := { s.fsm with dmaCtrlStartNext := false }
      if abortBit s.regs.dmaCtrlReg then { fsm with dmaCtrlCurrentState := .abort }
      else if i.dmaCtrlError then { fsm with dmaErrorIrq := true, dmaCtrlCurrentState := .error }
      else if i.nextItemValid then { fsm with dmaCtrlCurrentState := .startTransfer }
      else fsm
  | .error =>
      { s.fsm with
        dmaStatus := cError
        dmaErrorIrq := false
        dmaCtrlCurrentState := if startBit s.regs.dmaCtrlReg then .startTransfer else .error }
  | .abort =>
      { s.fsm with
        dmaStatus := cAbort
        dmaCtrlAbort := true
        dmaCtrlCurrentState := if startBit s.regs.dmaCtrlReg then .startTransfer else .abort }

/-- One edge of `clk_i`. -/
def step : DmaController := ⟨s.pRegs i, s.pFsm i⟩

/-- The registers after an asynchronous reset. -/
def reset : DmaController where
  regs := ⟨0, 0, .reset⟩
  fsm := ⟨.idle, 0, 0, 0, 0, false, false, false, cIdle, false, false, false⟩

/-- The lines to the two DMA masters. -/
def lines : DmaCtrl where
  carrierAddr := s.fsm.dmaCtrlCarrierAddr
  hostAddrH := s.fsm.dmaCtrlHostAddrH
  hostAddrL := s.fsm.dmaCtrlHostAddrL
  len := s.fsm.dmaCtrlLen
  startL2p := s.fsm.dmaCtrlStartL2p
  startP2l := s.fsm.dmaCtrlStartP2l
  startNext := s.fsm.dmaCtrlStartNext
  byteSwap := s.regs.dmaCtrlReg.extractLsb' 2 2
  abort := s.fsm.dmaCtrlAbort

variable {s i}

/-! ## The control register -/

/-- The start bit is loaded from `nextStartBit`, the other bits from the host's word. -/
@[simp] theorem startBit_step : startBit (s.step i).regs.dmaCtrlReg = s.nextStartBit i := by
  have happend := BitVec.getLsbD_append
    (x := (i.loads.dmaCtrl.getD s.regs.dmaCtrlReg).extractLsb' 1 31)
    (y := BitVec.ofBool (s.nextStartBit i)) (i := 0)
  exact happend.trans (by simp)

@[simp] theorem abortBit_step : abortBit (s.step i).regs.dmaCtrlReg =
    abortBit (i.loads.dmaCtrl.getD s.regs.dmaCtrlReg) := by
  have happend := BitVec.getLsbD_append
    (x := (i.loads.dmaCtrl.getD s.regs.dmaCtrlReg).extractLsb' 1 31)
    (y := BitVec.ofBool (s.nextStartBit i)) (i := 1)
  exact happend.trans (by simp [abortBit])

/-- No host write starts a transfer in this cycle. -/
def NoStart (i : DmaControllerIn) : Prop := ∀ w ∈ i.loads.dmaCtrl, startBit w = false

instance (i : DmaControllerIn) : Decidable (NoStart i) :=
  Option.decidableForallMem i.loads.dmaCtrl

/-- Without a host write, only the arrival of a next item sets the start bit. -/
theorem nextStartBit_of_noStart (h : NoStart i) :
    s.nextStartBit i = (!startBit s.regs.dmaCtrlReg && i.nextItemValid) := by
  unfold nextStartBit
  cases hstart : startBit s.regs.dmaCtrlReg with
  | true => rfl
  | false =>
      cases hitem : i.nextItemValid with
      | true => rfl
      | false =>
          cases hload : i.loads.dmaCtrl with
          | none => simpa using hstart
          | some w => simpa using h w hload

end DmaController

end Gn4124Core
