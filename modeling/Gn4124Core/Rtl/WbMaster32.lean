import Gn4124Core.Clocked.AsyncFifo
import Gn4124Core.Rtl.Package

/-!
# `wbmaster32`

The CSR bridge: target writes and single-word target reads become Wishbone cycles, and the
read data goes back to the host in read completions.  Two clock domains meet in the two
FIFOs, so a step of the entity has an edge of `clk_i`, an edge of `wb_clk_i`, or both.
-/

namespace Gn4124Core

open Clocked

/-- The signals from the packet decoder. -/
structure PdWbm where
  hdrStart : Bool
  hdrCid : BitVec 2
  targetMrd : Bool
  targetMwr : Bool
  addrStart : Bool
  addr : Word
  dataValid : Bool
  data : Word
deriving DecidableEq

/-- No packet. -/
def PdWbm.quiet : PdWbm := ⟨false, 0, false, false, false, 0, false, 0⟩

/-- A word of `to_wb_fifo`: bit 63, bits 62 downto 32 and bits 31 downto 0. -/
structure WbRequest where
  rw : Bool
  addr : BitVec 31
  data : Word
deriving DecidableEq

/-! ## The `clk_i` side -/

/-- The inputs of the `clk_i` side, the output of `from_wb_fifo` included. -/
structure WbmClkIn where
  pd : PdWbm
  arbWbmGnt : Bool
  pRdDRdy : BitVec 2
  fromWbFifoEmpty : Bool
  fromWbFifoDout : Word
deriving DecidableEq

/-- The registers of `p_from_decoder`. -/
structure FromDecoder where
  toWbFifoDin : WbRequest
  toWbFifoWr : Bool
deriving DecidableEq

/-- `l2p_read_cpl_state_type`. -/
inductive L2pReadCplState where
  | idle
  | header
  | data
deriving DecidableEq

/-- The registers of the packet write FSM. -/
structure ReadCplFsm where
  l2pReadCplCurrentState : L2pReadCplState
  wbmArbReq : Bool
  wbmArbData : Word
  wbmArbValid : Bool
  wbmArbDframe : Bool
  fromWbFifoRd : Bool
deriving DecidableEq

/-- The `clk_i` registers. -/
structure WbmClk where
  fromDecoder : FromDecoder
  p2lCid : BitVec 2
  fsm : ReadCplFsm
deriving DecidableEq

/-- `s_l2p_header`: the last and only completion packet of a read of one word. -/
def completionHeader (p2lCid : BitVec 2) : Word :=
  0b000#3 ++ 0b0#1 ++ 0b0101#4 ++ 0b000000#6 ++ 0b00#2 ++ 0b1#1 ++ 0b00#2 ++ 0b0#1 ++ p2lCid ++
    0b0000000001#10

/-- The Wishbone address of a byte address: bit 0 is the BAR. -/
def wbAddr (addr : Word) : BitVec 31 := addr.extractLsb' 0 1 ++ addr.extractLsb' 2 30

namespace WbmClk

variable (s : WbmClk) (i : WbmClkIn)

def pFromDecoder : FromDecoder :=
  if i.pd.targetMwr && i.pd.dataValid then ⟨⟨true, wbAddr i.pd.addr, i.pd.data⟩, true⟩
  else if i.pd.targetMrd && i.pd.addrStart then
    ⟨⟨false, wbAddr i.pd.addr, s.fromDecoder.toWbFifoDin.data⟩, true⟩
  else { s.fromDecoder with toWbFifoWr := false }

def pPktGen : BitVec 2 := if i.pd.hdrStart then i.pd.hdrCid else s.p2lCid

def pReadCplFsm : ReadCplFsm :=
  match s.fsm.l2pReadCplCurrentState with
  | .idle =>
      let start := !i.fromWbFifoEmpty && i.pRdDRdy == 0b11#2
      { s.fsm with
        wbmArbData := 0
        wbmArbValid := false
        wbmArbDframe := false
        wbmArbReq := start
        fromWbFifoRd := if start then true else s.fsm.fromWbFifoRd
        l2pReadCplCurrentState := if start then .header else .idle }
  | .header =>
      if i.arbWbmGnt then
        { s.fsm with
          fromWbFifoRd := false
          wbmArbReq := false
          wbmArbData := completionHeader s.p2lCid
          wbmArbValid := true
          wbmArbDframe := true
          l2pReadCplCurrentState := .data }
      else { s.fsm with fromWbFifoRd := false }
  | .data =>
      { s.fsm with
        l2pReadCplCurrentState := .idle
        wbmArbData := i.fromWbFifoDout
        wbmArbDframe := false }

/-- One edge of `clk_i`. -/
def step : WbmClk := ⟨s.pFromDecoder i, s.pPktGen i, s.pReadCplFsm i⟩

def reset : WbmClk := ⟨⟨⟨false, 0, 0⟩, false⟩, 0, ⟨.idle, false, 0, false, false, false⟩⟩

/-- The lines to the L2P arbiter. -/
def arb : L2pSource := ⟨s.fsm.wbmArbValid, s.fsm.wbmArbDframe, s.fsm.wbmArbData, s.fsm.wbmArbReq⟩

end WbmClk

/-! ## The `wb_clk_i` side -/

/-- The inputs of the `wb_clk_i` side, the output of `to_wb_fifo` included. -/
structure WbmWbIn where
  wbDat : Word
  wbAck : Bool
  wbStall : Bool
  toWbFifoEmpty : Bool
  toWbFifoDout : WbRequest
deriving DecidableEq

/-- `wishbone_state_type`. -/
inductive WishboneState where
  | idle
  | readFifo
  | cycle
  | waitAck
deriving DecidableEq

/-- The registers of `p_wb_fsm`. -/
structure WbmWb where
  wishboneCurrentState : WishboneState
  toWbFifoRd : Bool
  wbCyc : Bool
  wbStb : Bool
  wbWe : Bool
  wbSel : BitVec 4
  wbDatO : Word
  wbAdr : BitVec 31
  fromWbFifoDin : Word
  fromWbFifoWr : Bool
deriving DecidableEq

namespace WbmWb

variable (s : WbmWb) (i : WbmWbIn)

/-- `p_wb_fsm`, one edge of `wb_clk_i`. -/
def step : WbmWb :=
  match s.wishboneCurrentState with
  | .idle =>
      { s with
        fromWbFifoWr := false
        wbCyc := false
        wbStb := false
        wbSel := 0b0000#4
        toWbFifoRd := if i.toWbFifoEmpty then s.toWbFifoRd else true
        wishboneCurrentState := if i.toWbFifoEmpty then .idle else .readFifo }
  | .readFifo => { s with toWbFifoRd := false, wishboneCurrentState := .cycle }
  | .cycle =>
      { s with
        wbCyc := true
        wbStb := true
        wbWe := i.toWbFifoDout.rw
        wbSel := 0b1111#4
        wbAdr := i.toWbFifoDout.addr
        wbDatO := i.toWbFifoDout.data
        wishboneCurrentState := .waitAck }
  | .waitAck =>
      -- there is no time-out: only an acknowledge ends the state
      { s with
        wbStb := if i.wbStall then s.wbStb else false
        fromWbFifoDin := if i.wbAck && !s.wbWe then i.wbDat else s.fromWbFifoDin
        fromWbFifoWr := if i.wbAck && !s.wbWe then true else s.fromWbFifoWr
        wbCyc := if i.wbAck then false else s.wbCyc
        wishboneCurrentState := if i.wbAck then .idle else .waitAck }

def reset : WbmWb := ⟨.idle, false, false, false, false, 0, 0, 0, 0, false⟩

end WbmWb

/-! ## The entity -/

/-- The ports of the `clk_i` domain. -/
structure WbmClkPorts where
  pd : PdWbm
  arbWbmGnt : Bool
  pRdDRdy : BitVec 2
deriving DecidableEq

/-- The ports of the `wb_clk_i` domain. -/
structure WbmWbPorts where
  wbDat : Word
  wbAck : Bool
  wbStall : Bool
deriving DecidableEq

/-- An edge of one of the clocks or of both, with the ports sampled by it, and the words that
finish their way through the two FIFOs. -/
structure WbmTick where
  clk : Option WbmClkPorts
  wb : Option WbmWbPorts
  toWbArrive : ℕ
  fromWbArrive : ℕ
deriving DecidableEq

/-- Both clock domains and the FIFOs between them. -/
structure WbMaster32 where
  clk : WbmClk
  wb : WbmWb
  toWbFifo : AsyncFifo WbRequest
  fromWbFifo : AsyncFifo Word
deriving DecidableEq

namespace WbMaster32

variable (s : WbMaster32) (t : WbmTick)

/-- What an edge of `clk_i` samples. -/
def clkIn (p : WbmClkPorts) : WbmClkIn :=
  ⟨p.pd, p.arbWbmGnt, p.pRdDRdy, s.fromWbFifo.empty, s.fromWbFifo.q⟩

/-- What an edge of `wb_clk_i` samples. -/
def wbIn (p : WbmWbPorts) : WbmWbIn :=
  ⟨p.wbDat, p.wbAck, p.wbStall, s.toWbFifo.empty, s.toWbFifo.q⟩

def stepClk : Option WbmClkPorts → WbmClk
  | some p => s.clk.step (s.clkIn p)
  | none => s.clk

def stepWb : Option WbmWbPorts → WbmWb
  | some p => s.wb.step (s.wbIn p)
  | none => s.wb

def step : WbMaster32 where
  clk := s.stepClk t.clk
  wb := s.stepWb t.wb
  toWbFifo := s.toWbFifo.tick (t.clk.isSome && s.clk.fromDecoder.toWbFifoWr)
    s.clk.fromDecoder.toWbFifoDin (t.wb.isSome && s.wb.toWbFifoRd) t.toWbArrive
  fromWbFifo := s.fromWbFifo.tick (t.wb.isSome && s.wb.fromWbFifoWr) s.wb.fromWbFifoDin
    (t.clk.isSome && s.clk.fsm.fromWbFifoRd) t.fromWbArrive

/-- Reset, which leaves the outputs of the FIFOs open. -/
def reset (toWbFifoDout : WbRequest) (fromWbFifoDout : Word) : WbMaster32 :=
  ⟨.reset, .reset, ⟨[], [], toWbFifoDout⟩, ⟨[], [], fromWbFifoDout⟩⟩

end WbMaster32

end Gn4124Core
