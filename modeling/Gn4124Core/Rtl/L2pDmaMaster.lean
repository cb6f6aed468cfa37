import Gn4124Core.Clocked.Run
import Gn4124Core.Rtl.Package

/-!
# `l2p_dma_master`, the `clk_i` side

The L2P DMA master reads carrier memory and sends the words to the host in write packets.
This file has the processes clocked by `clk_i`: the counter of the addresses to read, the
packet generator and the packet FSM.  The addresses go to the Wishbone side through
`addr_fifo`, the words come back through `data_fifo`.
-/

namespace Gn4124Core

/-- `l2p_dma_state_type`. -/
inductive L2pDmaState where
  | idle
  | waitData
  | header
  | addrH
  | addrL
  | data
  | lastData
  | waitRdy
deriving DecidableEq

/-- `c_L2P_MAX_PAYLOAD`, in 32-bit words. -/
def cL2pMaxPayload : BitVec 11 := 32#11

/-! ## Signals and registers -/

/-- The inputs of the `clk_i` side. -/
structure L2pDmaIn where
  ctrl : DmaCtrl
  arbLdmGnt : Bool
  lWrRdy : BitVec 2
  l2pRdy : Bool
  addrFifoFull : Bool
  dataFifoEmpty : Bool
  dataFifoDout : Word
deriving DecidableEq

/-- The registers of `p_target_cnt`. -/
structure TargetCnt where
  targetAddrCnt : BitVec 30
  dmaLengthCnt : BitVec 30
  dmaCtrlError : Bool
  addrFifoWr : Bool
  addrFifoDin : Word
deriving DecidableEq

/-- The registers of `p_pkt_gen`. -/
structure PktGen where
  l2pLenCnt : BitVec 30
  l2pDataCnt : BitVec 11
  l2pAddressH : Word
  l2pAddressL : Word
  l2p64bAddress : Bool
  l2pLenHeader : BitVec 10
  l2pByteSwap : BitVec 2
  l2pLastPacket : Bool
deriving DecidableEq

/-- The registers of the packet write FSM. -/
structure PktFsm where
  l2pDmaCurrentState : L2pDmaState
  ldmArbReq : Bool
  ldmArbData : Word
  ldmArbValid : Bool
  ldmArbDframe : Bool
  dataFifoRd : Bool
  dmaCtrlDone : Bool
  l2pEdb : Bool
deriving DecidableEq

/-- The `clk_i` registers of the L2P DMA master. -/
structure L2pDmaMaster where
  targetCnt : TargetCnt
  pktGen : PktGen
  fsm : PktFsm
  dataFifoValid : Bool
deriving DecidableEq

/-- `s_l2p_header`: a memory write. -/
def writeHeader (l2p64bAddress : Bool) (l2pLenHeader : BitVec 10) : Word :=
  0b000#3 ++ 0b0#1 ++ 0b001#3 ++ BitVec.ofBool l2p64bAddress ++
    (if l2pLenHeader = 1 then 0b0000#4 else 0b1111#4) ++ 0b1111#4 ++ 0b000#3 ++ 0b0#1 ++
    0b00#2 ++ l2pLenHeader

namespace PktGen

variable (g : PktGen)

def sL2pHeader : Word := writeHeader g.l2p64bAddress g.l2pLenHeader

/-- The size of the next packet, from the words that remain. -/
def loadSize : PktGen :=
  if cL2pMaxPayload.setWidth 30 < g.l2pLenCnt then
    { g with
      l2pDataCnt := cL2pMaxPayload
      l2pLenHeader := cL2pMaxPayload.setWidth 10
      l2pLastPacket := false }
  else if g.l2pLenCnt = cL2pMaxPayload.setWidth 30 then
    { g with
      l2pDataCnt := cL2pMaxPayload
      l2pLenHeader := cL2pMaxPayload.setWidth 10
      l2pLastPacket := true }
  else
    { g with
      l2pDataCnt := g.l2pLenCnt.setWidth 11
      l2pLenHeader := g.l2pLenCnt.setWidth 10
      l2pLastPacket := true }

@[simp] theorem loadSize_l2pLenCnt : g.loadSize.l2pLenCnt = g.l2pLenCnt := by
  unfold loadSize
  split_ifs <;> rfl

@[simp] theorem loadSize_l2pAddressH : g.loadSize.l2pAddressH = g.l2pAddressH := by
  unfold loadSize
  split_ifs <;> rfl

@[simp] theorem loadSize_l2pAddressL : g.loadSize.l2pAddressL = g.l2pAddressL := by
  unfold loadSize
  split_ifs <;> rfl

@[simp] theorem loadSize_l2pByteSwap : g.loadSize.l2pByteSwap = g.l2pByteSwap := by
  unfold loadSize
  split_ifs <;> rfl

@[simp] theorem loadSize_l2p64bAddress : g.loadSize.l2p64bAddress = g.l2p64bAddress := by
  unfold loadSize
  split_ifs <;> rfl

end PktGen

/-! ## The processes -/

namespace L2pDmaMaster

variable (gByteSwap : Bool) (s : L2pDmaMaster) (i : L2pDmaIn)

def pTargetCnt : TargetCnt :=
  if i.ctrl.startL2p then
    if s.fsm.l2pDmaCurrentState = .idle then
      { s.targetCnt with
        targetAddrCnt := i.ctrl.carrierAddr.extractLsb' 2 30
        dmaLengthCnt := i.ctrl.len.extractLsb' 2 30
        dmaCtrlError := false }
    else
      -- a start while a transfer is under way: the addresses that remain are dropped
      { s.targetCnt with
        targetAddrCnt := 0
        dmaLengthCnt := 0
        dmaCtrlError := true }
  else if s.targetCnt.dmaLengthCnt != 0 && !i.addrFifoFull then
    { s.targetCnt with
      addrFifoWr := true
      targetAddrCnt := s.targetCnt.targetAddrCnt + 1
      dmaLengthCnt := s.targetCnt.dmaLengthCnt - 1
      addrFifoDin := 0b00#2 ++ s.targetCnt.targetAddrCnt }
  else { s.targetCnt with addrFifoWr := false }

def pPktGen : PktGen :=
  match s.fsm.l2pDmaCurrentState with
  | .idle =>
      if i.ctrl.startL2p then
        { s.pktGen with
          l2pLenCnt := i.ctrl.len.extractLsb' 2 30
          l2pAddressH := i.ctrl.hostAddrH
          l2pAddressL := i.ctrl.hostAddrL
          l2pByteSwap := i.ctrl.byteSwap }
      else s.pktGen
  | .header => { s.pktGen.loadSize with l2p64bAddress := s.pktGen.l2pAddressH != 0 }
  | .addrL =>
      if s.pktGen.l2pLastPacket then { s.pktGen with l2pLenCnt := 0 }
      else { s.pktGen with l2pLenCnt := s.pktGen.l2pLenCnt - cL2pMaxPayload.setWidth 30 }
  | .data =>
      if s.dataFifoValid then { s.pktGen with l2pDataCnt := s.pktGen.l2pDataCnt - 1 } else s.pktGen
  | .lastData =>
      -- done in every cycle of the state, also while the word cannot be sent
      if s.pktGen.l2pLastPacket then s.pktGen
      else
        { s.pktGen.loadSize with
          l2pAddressL := s.pktGen.l2pAddressL + cL2pMaxPayload.setWidth 32 * 4 }
  | _ => s.pktGen

/-- The word at the output of the data FIFO, with its bytes swapped as ordered. -/
def dataWord : Word := fByteSwap gByteSwap i.dataFifoDout s.pktGen.l2pByteSwap

def pPktFsm : PktFsm :=
  match s.fsm.l2pDmaCurrentState with
  | .idle =>
      -- woken up by a word in the data FIFO, not by the start order
      { s.fsm with
        dataFifoRd := false
        dmaCtrlDone := false
        ldmArbData := 0
        ldmArbValid := false
        ldmArbDframe := false
        l2pEdb := false
        ldmArbReq := if i.dataFifoEmpty then s.fsm.ldmArbReq else true
        l2pDmaCurrentState := if i.dataFifoEmpty then .idle else .header }
  | .header =>
      if i.arbLdmGnt && i.lWrRdy == 0b11#2 then
        { s.fsm with
          ldmArbReq := false
          ldmArbData := s.pktGen.sL2pHeader
          ldmArbValid := true
          ldmArbDframe := true
          dataFifoRd := if s.pktGen.l2p64bAddress then s.fsm.dataFifoRd else true
          l2pDmaCurrentState := if s.pktGen.l2p64bAddress then .addrH else .addrL }
      else { s.fsm with ldmArbValid := false }
  | .addrH =>
      { s.fsm with
        ldmArbData := s.pktGen.l2pAddressH
        dataFifoRd := true
        l2pDmaCurrentState := .addrL }
  | .addrL =>
      -- unlike in the states below, an empty data FIFO makes no difference
      { s.fsm with
        ldmArbData := s.pktGen.l2pAddressL
        dataFifoRd := if s.pktGen.l2pDataCnt ≤ 1 then false else s.fsm.dataFifoRd
        l2pDmaCurrentState := if s.pktGen.l2pDataCnt ≤ 1 then .lastData else .data }
  | .data =>
      let fsm :=
        { s.fsm with
          ldmArbData := if s.dataFifoValid then s.dataWord gByteSwap i else s.fsm.ldmArbData
          ldmArbValid := s.dataFifoValid }
      -- an abort leaves the packet open, and the words that remain in the FIFO
      if i.ctrl.abort then { fsm with l2pEdb := true, l2pDmaCurrentState := .idle }
      else if !i.l2pRdy then
        { fsm with l2pDmaCurrentState := .waitRdy, dataFifoRd := false, ldmArbValid := false }
      else if i.dataFifoEmpty then { fsm with l2pDmaCurrentState := .waitData }
      else if s.pktGen.l2pDataCnt ≤ 2 then
        { fsm with l2pDmaCurrentState := .lastData, dataFifoRd := false }
      else fsm
  | .waitRdy =>
      if i.l2pRdy then
        { s.fsm with
          -- validates the last data read before the de-assertion of `l2p_rdy`
          ldmArbValid := true
          dataFifoRd := if s.pktGen.l2pDataCnt ≤ 1 then s.fsm.dataFifoRd else true
          l2pDmaCurrentState := if s.pktGen.l2pDataCnt ≤ 1 then .lastData else .data }
      else { s.fsm with ldmArbValid := false }
  | .waitData =>
      if i.dataFifoEmpty then { s.fsm with ldmArbValid := false }
      else
        { s.fsm with
          ldmArbValid := false
          dataFifoRd := if s.pktGen.l2pDataCnt ≤ 1 then false else s.fsm.dataFifoRd
          l2pDmaCurrentState := if s.pktGen.l2pDataCnt ≤ 1 then .lastData else .data }
  | .lastData =>
      if i.l2pRdy then
        { s.fsm with
          ldmArbData := s.dataWord gByteSwap i
          ldmArbValid := true
          ldmArbDframe := false
          ldmArbReq := if 0 < s.pktGen.l2pLenCnt then true else s.fsm.ldmArbReq
          dmaCtrlDone := if 0 < s.pktGen.l2pLenCnt then s.fsm.dmaCtrlDone else true
          l2pDmaCurrentState := if 0 < s.pktGen.l2pLenCnt then .header else .idle }
      else { s.fsm with ldmArbValid := false }

/-- `p_gen_data_fifo_valid`. -/
def pGenDataFifoValid : Bool := s.fsm.dataFifoRd && !i.dataFifoEmpty

/-- One edge of `clk_i`. -/
def step : L2pDmaMaster where
  targetCnt := s.pTargetCnt i
  pktGen := s.pPktGen i
  fsm := s.pPktFsm gByteSwap i
  dataFifoValid := s.pGenDataFifoValid i

/-- The registers after an asynchronous reset, which leaves two of them as they are. -/
def reset (addrFifoDin : Word) (dataFifoValid : Bool) : L2pDmaMaster where
  targetCnt := ⟨0, 0, false, false, addrFifoDin⟩
  pktGen := ⟨0, 0, 0, 0, false, 0, 0, false⟩
  fsm := ⟨.idle, false, 0, false, false, false, false, false⟩
  dataFifoValid := dataFifoValid

/-- The lines to the L2P arbiter. -/
def arb : L2pSource := ⟨s.fsm.ldmArbValid, s.fsm.ldmArbDframe, s.fsm.ldmArbData, s.fsm.ldmArbReq⟩

/-! ## What the packet FSM does in one state -/

variable {s i}

theorem header_waits (hstate : s.fsm.l2pDmaCurrentState = .header)
    (hwaits : ¬ (i.arbLdmGnt = true ∧ i.lWrRdy = 0b11#2)) :
    s.pPktFsm gByteSwap i = { s.fsm with ldmArbValid := false } := by
  simp only [pPktFsm, hstate]
  exact if_neg (by simpa using hwaits)

theorem header_sends (hstate : s.fsm.l2pDmaCurrentState = .header) (hgnt : i.arbLdmGnt = true)
    (hrdy : i.lWrRdy = 0b11#2) :
    s.pPktFsm gByteSwap i =
      { s.fsm with
        ldmArbReq := false
        ldmArbData := s.pktGen.sL2pHeader
        ldmArbValid := true
        ldmArbDframe := true
        dataFifoRd := if s.pktGen.l2p64bAddress then s.fsm.dataFifoRd else true
        l2pDmaCurrentState := if s.pktGen.l2p64bAddress then .addrH else .addrL } := by
  simp only [pPktFsm, hstate]
  exact if_pos (by simp [hgnt, hrdy])

theorem addrH_sends (hstate : s.fsm.l2pDmaCurrentState = .addrH) :
    s.pPktFsm gByteSwap i =
      { s.fsm with
        ldmArbData := s.pktGen.l2pAddressH
        dataFifoRd := true
        l2pDmaCurrentState := .addrL } := by
  simp only [pPktFsm, hstate]

theorem addrL_sends (hstate : s.fsm.l2pDmaCurrentState = .addrL) (hrd : s.fsm.dataFifoRd = true) :
    s.pPktFsm gByteSwap i =
      { s.fsm with
        ldmArbData := s.pktGen.l2pAddressL
        dataFifoRd := !decide (s.pktGen.l2pDataCnt ≤ 1#11)
        l2pDmaCurrentState := if s.pktGen.l2pDataCnt ≤ 1#11 then .lastData else .data } := by
  simp only [pPktFsm, hstate, hrd]
  by_cases hone : s.pktGen.l2pDataCnt ≤ 1#11 <;> simp [hone]

/-- Without a stall the word at the output is sent, and the next one is popped if there is one. -/
theorem data_sends (hstate : s.fsm.l2pDmaCurrentState = .data) (habort : i.ctrl.abort = false)
    (hrdy : i.l2pRdy = true) (hrd : s.fsm.dataFifoRd = true) :
    s.pPktFsm gByteSwap i =
      { s.fsm with
        ldmArbData := if s.dataFifoValid then s.dataWord gByteSwap i else s.fsm.ldmArbData
        ldmArbValid := s.dataFifoValid
        dataFifoRd := i.dataFifoEmpty || !decide (s.pktGen.l2pDataCnt ≤ 2#11)
        l2pDmaCurrentState :=
          if i.dataFifoEmpty then .waitData
          else if s.pktGen.l2pDataCnt ≤ 2#11 then .lastData else .data } := by
  simp only [pPktFsm, hstate, habort, hrdy, hrd]
  cases i.dataFifoEmpty <;> by_cases hlow : s.pktGen.l2pDataCnt ≤ 2#11 <;> simp [hlow]

theorem data_stalls (hstate : s.fsm.l2pDmaCurrentState = .data) (habort : i.ctrl.abort = false)
    (hrdy : i.l2pRdy = false) (hvalid : s.dataFifoValid = true) :
    s.pPktFsm gByteSwap i =
      { s.fsm with
        ldmArbData := s.dataWord gByteSwap i
        ldmArbValid := false
        dataFifoRd := false
        l2pDmaCurrentState := .waitRdy } := by
  simp [pPktFsm, hstate, hvalid, habort, hrdy]

theorem waitRdy_waits (hstate : s.fsm.l2pDmaCurrentState = .waitRdy) (hrdy : i.l2pRdy = false) :
    s.pPktFsm gByteSwap i = { s.fsm with ldmArbValid := false } := by
  simp [pPktFsm, hstate, hrdy]

theorem waitRdy_sends (hstate : s.fsm.l2pDmaCurrentState = .waitRdy) (hrdy : i.l2pRdy = true)
    (hone : s.pktGen.l2pDataCnt = 1) :
    s.pPktFsm gByteSwap i =
      { s.fsm with ldmArbValid := true, l2pDmaCurrentState := .lastData } := by
  simp [pPktFsm, hstate, hrdy, hone]

theorem waitData_waits (hstate : s.fsm.l2pDmaCurrentState = .waitData)
    (hempty : i.dataFifoEmpty = true) :
    s.pPktFsm gByteSwap i = { s.fsm with ldmArbValid := false } := by
  simp [pPktFsm, hstate, hempty]

theorem waitData_pops (hstate : s.fsm.l2pDmaCurrentState = .waitData)
    (hempty : i.dataFifoEmpty = false) (hrd : s.fsm.dataFifoRd = true) :
    s.pPktFsm gByteSwap i =
      { s.fsm with
        ldmArbValid := false
        dataFifoRd := !decide (s.pktGen.l2pDataCnt ≤ 1#11)
        l2pDmaCurrentState := if s.pktGen.l2pDataCnt ≤ 1#11 then .lastData else .data } := by
  simp only [pPktFsm, hstate, hempty, hrd]
  by_cases hone : s.pktGen.l2pDataCnt ≤ 1#11 <;> simp [hone]

theorem lastData_waits (hstate : s.fsm.l2pDmaCurrentState = .lastData) (hrdy : i.l2pRdy = false) :
    s.pPktFsm gByteSwap i = { s.fsm with ldmArbValid := false } := by
  simp [pPktFsm, hstate, hrdy]

theorem lastData_sends (hstate : s.fsm.l2pDmaCurrentState = .lastData) (hrdy : i.l2pRdy = true) :
    s.pPktFsm gByteSwap i =
      { s.fsm with
        ldmArbData := s.dataWord gByteSwap i
        ldmArbValid := true
        ldmArbDframe := false
        ldmArbReq := if 0 < s.pktGen.l2pLenCnt then true else s.fsm.ldmArbReq
        dmaCtrlDone := if 0 < s.pktGen.l2pLenCnt then s.fsm.dmaCtrlDone else true
        l2pDmaCurrentState := if 0 < s.pktGen.l2pLenCnt then .header else .idle } := by
  simp only [pPktFsm, hstate, hrdy, if_true]

variable (s i)

/-! ## Before the first read -/

/-- The packet FSM is before the first read of the data FIFO.  `ready` says that there is a word in
the FIFO: without one the FSM does not leave `L2P_IDLE`. -/
def Unread (ready : Prop) : Prop :=
  match s.fsm.l2pDmaCurrentState with
  | .idle => True
  | .header | .addrH => ready
  | .addrL => ready ∧ s.fsm.dataFifoRd = true
  | _ => False

variable {gByteSwap s i}

theorem Unread.mono {ready ready' : Prop} (h : s.Unread ready) (hkept : ready → ready') :
    s.Unread ready' := by
  unfold Unread at h ⊢
  cases hstate : s.fsm.l2pDmaCurrentState <;> simp_all

/-- As long as the FIFO is not read the FSM sends no data. -/
theorem Unread.step {ready ready' : Prop} (h : s.Unread ready) (hempty : i.dataFifoEmpty = false ↔ ready)
    (hnot : ¬ (s.fsm.dataFifoRd = true ∧ ready)) (hkept : ready → ready') :
    (L2pDmaMaster.step gByteSwap s i).Unread ready' := by
  have hfsm : (L2pDmaMaster.step gByteSwap s i).fsm = s.pPktFsm gByteSwap i := rfl
  unfold Unread at h ⊢
  rw [hfsm]
  cases hstate : s.fsm.l2pDmaCurrentState with
  | idle =>
      cases hnone : i.dataFifoEmpty with
      | true => simp [pPktFsm, hstate, hnone]
      | false => simpa [pPktFsm, hstate, hnone] using hkept (hempty.mp hnone)
  | header =>
      simp only [hstate] at h
      have hready := hkept h
      simp only [pPktFsm, hstate]
      split_ifs <;> simp_all
  | addrH =>
      simp only [hstate] at h
      simpa [pPktFsm, hstate] using hkept h
  | addrL =>
      simp only [hstate] at h
      exact absurd ⟨h.2, h.1⟩ hnot
  | waitData | data | lastData | waitRdy => simp [hstate] at h

end L2pDmaMaster

end Gn4124Core
