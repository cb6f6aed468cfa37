import Gn4124Core.Clocked.Run
import Gn4124Core.Rtl.Package

/-!
# `p2l_dma_master`, the `clk_i` side

The P2L DMA master sends read requests to the host and receives the completions.  It also
fetches the next item of a DMA chain.  This file has the processes clocked by `clk_i`, one
function each; the Wishbone side reads what they write into `to_wb_fifo`.
-/

namespace Gn4124Core

/-- `p2l_dma_state_type`. -/
inductive P2lDmaState where
  | idle
  | header
  | addrH
  | addrL
  | waitReadCompletion
deriving DecidableEq

/-- `c_MAX_READ_REQ_SIZE`, in 32-bit words. -/
def cMaxReadReqSize : BitVec 11 := 1024#11

/-! ## Signals and registers -/

/-- The signals from the packet decoder. -/
structure PdPdm where
  masterCpld : Bool
  masterCpln : Bool
  dataValid : Bool
  dataLast : Bool
  data : Word
deriving DecidableEq

/-- No completion and no data. -/
def PdPdm.quiet : PdPdm := ⟨false, false, false, false, 0⟩

/-- The inputs of the `clk_i` side. -/
structure P2lDmaIn where
  ctrl : DmaCtrl
  pd : PdPdm
  arbPdmGnt : Bool
deriving DecidableEq

/-- The registers of `p_read_req`. -/
structure ReadReq where
  l2pAddressH : Word
  l2pAddressL : Word
  l2pLenCnt : BitVec 30
  l2pLenHeader : BitVec 10
  l2p64bAddress : Bool
  isNextItem : Bool
  l2pLastPacket : Bool
deriving DecidableEq

/-- The registers of `p_read_req_fsm`. -/
structure ReadReqFsm where
  p2lDmaCurrentState : P2lDmaState
  pdmArbReq : Bool
  pdmArbData : Word
  pdmArbValid : Bool
  pdmArbDframe : Bool
  dmaCtrlDoneT : Bool
  nextItemValid : Bool
  completionError : Bool
  rxErrorT : Bool
deriving DecidableEq

/-- The registers of `p_ctrl_pipe`. -/
structure CtrlPipe where
  rxError : Bool
  dmaCtrlDone : Bool
deriving DecidableEq

/-- A word of `to_wb_fifo`: bits 61 downto 32 and 31 downto 0. -/
structure ToWbWord where
  target : BitVec 30
  data : Word
deriving DecidableEq

/-- The registers of `p_addr_cnt`. -/
structure AddrCnt where
  targetAddrCnt : BitVec 30
  dmaBusyError : Bool
  toWbFifoDin : ToWbWord
  toWbFifoWr : Bool
  toWbFifoByteSwap : BitVec 2
deriving DecidableEq

/-- The `clk_i` registers of the P2L DMA master. -/
structure P2lDmaMaster where
  readReq : ReadReq
  fsm : ReadReqFsm
  ctrlPipe : CtrlPipe
  p2lDataCnt : BitVec 11
  nextItem : DmaItem
  addrCnt : AddrCnt
deriving DecidableEq

/-- The field of the next item that `p_next_item` stores a word in. -/
def DmaItem.store (item : DmaItem) (cnt : BitVec 3) (w : Word) : DmaItem :=
  match cnt with
  | 0b111#3 => { item with carrierAddr := w }
  | 0b110#3 => { item with hostAddrL := w }
  | 0b101#3 => { item with hostAddrH := w }
  | 0b100#3 => { item with len := w }
  | 0b011#3 => { item with nextL := w }
  | 0b010#3 => { item with nextH := w }
  | 0b001#3 => { item with attrib := w }
  | _ => item

/-- A word stored for the second time replaces the first. -/
@[simp] theorem DmaItem.store_store (item : DmaItem) (cnt : BitVec 3) (v w : Word) :
    (item.store cnt v).store cnt w = item.store cnt w := by
  unfold store
  split <;> simp_all

/-- `s_l2p_header`: a memory read request.  The last byte enables must be `"0000"` when
the length is one word, and a length of 1024 words is announced as `0`. -/
def readHeader (l2p64bAddress : Bool) (l2pLenHeader : BitVec 10) : Word :=
  0b000#3 ++ 0b0#1 ++ 0b000#3 ++ BitVec.ofBool l2p64bAddress ++
    (if l2pLenHeader = 1 then 0b0000#4 else 0b1111#4) ++ 0b1111#4 ++ 0b000#3 ++ 0b0#1 ++
    0b01#2 ++ l2pLenHeader

def ReadReq.sL2pHeader (r : ReadReq) : Word := readHeader r.l2p64bAddress r.l2pLenHeader

/-! ## The processes -/

namespace P2lDmaMaster

variable (gByteSwap : Bool) (s : P2lDmaMaster) (i : P2lDmaIn)

/-- `dma_ctrl_error_o`. -/
def dmaCtrlError : Bool := s.addrCnt.dmaBusyError || s.fsm.completionError

def pReadReq : ReadReq :=
  match s.fsm.p2lDmaCurrentState with
  | .idle =>
      if i.ctrl.startP2l || i.ctrl.startNext then
        { s.readReq with
          l2pAddressH := i.ctrl.hostAddrH
          l2pAddressL := i.ctrl.hostAddrL
          l2pLenCnt := i.ctrl.len.extractLsb' 2 30
          isNextItem := i.ctrl.startNext
          l2p64bAddress := i.ctrl.hostAddrH != 0 }
      else s.readReq
  | .header =>
      if cMaxReadReqSize.setWidth 30 < s.readReq.l2pLenCnt then
        { s.readReq with
          l2pLenHeader := cMaxReadReqSize.setWidth 10
          l2pLastPacket := false }
      else if s.readReq.l2pLenCnt = cMaxReadReqSize.setWidth 30 then
        { s.readReq with
          l2pLenHeader := cMaxReadReqSize.setWidth 10
          l2pLastPacket := true }
      else
        { s.readReq with
          l2pLenHeader := s.readReq.l2pLenCnt.setWidth 10
          l2pLastPacket := true }
  | .addrL =>
      if s.readReq.l2pLastPacket then { s.readReq with l2pLenCnt := 0 }
      else { s.readReq with l2pLenCnt := s.readReq.l2pLenCnt - cMaxReadReqSize.setWidth 30 }
  | _ => s.readReq

/-- The last word of the completions of the current read request is received. -/
def lastWordReceived : Bool :=
  i.pd.masterCpld && i.pd.dataLast && decide (s.p2lDataCnt ≤ 1)

def pReadReqFsm : ReadReqFsm :=
  match s.fsm.p2lDmaCurrentState with
  | .idle =>
      { s.fsm with
        dmaCtrlDoneT := false
        nextItemValid := false
        completionError := false
        rxErrorT := false
        pdmArbReq := if i.ctrl.startP2l || i.ctrl.startNext then true else s.fsm.pdmArbReq
        p2lDmaCurrentState := if i.ctrl.startP2l || i.ctrl.startNext then .header else .idle }
  | .header =>
      if i.arbPdmGnt then
        { s.fsm with
          pdmArbReq := false
          pdmArbData := s.readReq.sL2pHeader
          pdmArbValid := true
          pdmArbDframe := true
          p2lDmaCurrentState := if s.readReq.l2p64bAddress then .addrH else .addrL }
      else s.fsm
  | .addrH =>
      { s.fsm with
        pdmArbData := s.readReq.l2pAddressH
        p2lDmaCurrentState := .addrL }
  | .addrL =>
      { s.fsm with
        pdmArbData := s.readReq.l2pAddressL
        pdmArbDframe := false
        p2lDmaCurrentState := .waitReadCompletion }
  | .waitReadCompletion =>
      let fsm := { s.fsm with pdmArbValid := false }
      if i.ctrl.abort then { fsm with rxErrorT := true, p2lDmaCurrentState := .idle }
      else if s.lastWordReceived i then
        if s.readReq.l2pLastPacket then
          if s.readReq.isNextItem then
            { fsm with nextItemValid := true, p2lDmaCurrentState := .idle }
          else { fsm with dmaCtrlDoneT := true, p2lDmaCurrentState := .idle }
        else
          -- the bus is asked for again: a packet ends an arbitration phase
          { fsm with pdmArbReq := true, p2lDmaCurrentState := .header }
      else if i.pd.masterCpln then
        { fsm with completionError := true, p2lDmaCurrentState := .idle }
      else fsm

def pCtrlPipe : CtrlPipe := ⟨s.fsm.rxErrorT, s.fsm.dmaCtrlDoneT⟩

def pRecvDataCnt : BitVec 11 :=
  match s.fsm.p2lDmaCurrentState with
  | .addrL =>
      if s.readReq.l2pLenHeader = 0 then 1024#11 else s.readReq.l2pLenHeader.setWidth 11
  | .waitReadCompletion =>
      if i.pd.dataValid && i.pd.masterCpld then s.p2lDataCnt - 1 else s.p2lDataCnt
  | _ => s.p2lDataCnt

/-- A next item is being received and the decoder strobes a data word. -/
def storesItem : Bool :=
  decide (s.fsm.p2lDmaCurrentState = .waitReadCompletion) && s.readReq.isNextItem && i.pd.dataValid

def pNextItem : DmaItem :=
  if s.storesItem i then s.nextItem.store (s.p2lDataCnt.setWidth 3) i.pd.data else s.nextItem

/-- A P2L transfer is being received and the decoder strobes a data word. -/
def storesWord : Bool :=
  !i.ctrl.startP2l && (decide (s.fsm.p2lDmaCurrentState = .waitReadCompletion) &&
    !s.readReq.isNextItem && i.pd.dataValid)

def pAddrCnt : AddrCnt :=
  -- the start branches leave `to_wb_fifo_wr` as it is
  if i.ctrl.startP2l then
    if s.fsm.p2lDmaCurrentState = .idle then
      { s.addrCnt with
        targetAddrCnt := i.ctrl.carrierAddr.extractLsb' 2 30
        toWbFifoByteSwap := i.ctrl.byteSwap }
    else { s.addrCnt with dmaBusyError := true }
  else if s.storesWord i then
    { s.addrCnt with
      targetAddrCnt := s.addrCnt.targetAddrCnt + 1
      toWbFifoWr := true
      toWbFifoDin :=
        ⟨s.addrCnt.targetAddrCnt, fByteSwap gByteSwap i.pd.data s.addrCnt.toWbFifoByteSwap⟩ }
  else { s.addrCnt with dmaBusyError := false, toWbFifoWr := false }

/-- One edge of `clk_i`. -/
def step : P2lDmaMaster where
  readReq := s.pReadReq i
  fsm := s.pReadReqFsm i
  ctrlPipe := s.pCtrlPipe
  p2lDataCnt := s.pRecvDataCnt i
  nextItem := s.pNextItem i
  addrCnt := s.pAddrCnt gByteSwap i

/-- The registers after an asynchronous reset. -/
def reset : P2lDmaMaster where
  readReq := ⟨0, 0, 0, 0, false, false, false⟩
  fsm := ⟨.idle, false, 0, false, false, false, false, false, false⟩
  ctrlPipe := ⟨false, false⟩
  p2lDataCnt := 0
  nextItem := .reset
  addrCnt := ⟨0, false, ⟨0, 0⟩, false, 0⟩

/-- The lines to the L2P arbiter. -/
def arb : L2pSource := ⟨s.fsm.pdmArbValid, s.fsm.pdmArbDframe, s.fsm.pdmArbData, s.fsm.pdmArbReq⟩

variable {s i}

/-! ## One edge -/

/-- Without a start order the write strobe goes with the words that are stored. -/
theorem toWbFifoWr_step (hp2l : i.ctrl.startP2l = false) :
    (s.step gByteSwap i).addrCnt.toWbFifoWr = s.storesWord i := by
  show (s.pAddrCnt gByteSwap i).toWbFifoWr = s.storesWord i
  simp only [pAddrCnt, hp2l, Bool.false_eq_true, if_false]
  split_ifs with hstores
  · exact hstores.symm
  · simpa using hstores

/-- A start order leaves the write strobe as it is. -/
theorem toWbFifoWr_start (hp2l : i.ctrl.startP2l = true) :
    (s.step gByteSwap i).addrCnt.toWbFifoWr = s.addrCnt.toWbFifoWr := by
  show (s.pAddrCnt gByteSwap i).toWbFifoWr = s.addrCnt.toWbFifoWr
  simp only [pAddrCnt, hp2l, if_true]
  split_ifs <;> rfl

/-- Only an order that an idle master takes changes what it reads for. -/
theorem isNextItem_step (h : s.fsm.p2lDmaCurrentState ≠ .idle ∨
    i.ctrl.startP2l = false ∧ i.ctrl.startNext = false) :
    (s.step gByteSwap i).readReq.isNextItem = s.readReq.isNextItem := by
  show (s.pReadReq i).isNextItem = s.readReq.isNextItem
  cases hstate : s.fsm.p2lDmaCurrentState with
  | idle =>
      obtain hbusy | ⟨hp2l, hnext⟩ := h
      · exact absurd hstate hbusy
      · simp [pReadReq, hstate, hp2l, hnext]
  | header =>
      simp only [pReadReq, hstate]
      split_ifs <;> rfl
  | addrH => simp [pReadReq, hstate]
  | addrL =>
      simp only [pReadReq, hstate]
      split_ifs <;> rfl
  | waitReadCompletion => simp [pReadReq, hstate]

/-- An idle master reports nothing more. -/
theorem reports_of_idle (hidle : s.fsm.p2lDmaCurrentState = .idle) :
    (s.step gByteSwap i).fsm.dmaCtrlDoneT = false ∧ (s.step gByteSwap i).fsm.nextItemValid = false ∧
      (s.step gByteSwap i).fsm.completionError = false := by
  have hfsm : (s.step gByteSwap i).fsm = s.pReadReqFsm i := rfl
  rw [hfsm]
  simp [pReadReqFsm, hidle]

end P2lDmaMaster

end Gn4124Core
