import Gn4124Core.Arbitration.Renewal
import Gn4124Core.DmaWishbone.Exclusion
import Gn4124Core.Rtl.DmaController

/-!
# The L2P DMA engine

The DMA controller, the L2P DMA master with both of its FIFOs and its Wishbone side, and the
arbiter.  The P2L DMA master and the Wishbone master, the other clients of the arbiter and of the
controller, are inputs, and so are the flags of the FIFOs.

`aborted` says that the L2P DMA master has seen an abort, and has not accepted a start since.
-/

namespace Gn4124Core

open Clocked

structure L2pEngine where
  controller : DmaController
  l2p : L2pDmaMaster
  arb : L2pArbiter
  bus : L2pDmaWishbone
  dataFifo : AsyncFifo Word
  aborted : Bool
deriving DecidableEq

/-- The host's writes, the lines of the P2L DMA master to the controller, the ready lines of the
GN4124, the flag of the address FIFO, and the other sources of the arbiter. -/
structure L2pEngineClk where
  loads : DmaLoads
  p2lDone : Bool
  p2lError : Bool
  nextItem : DmaItem
  nextItemValid : Bool
  lWrRdy : BitVec 2
  l2pRdy : Bool
  addrFifoFull : Bool
  wbm : L2pSource
  pdm : L2pSource
deriving DecidableEq

/-- The lines of the slave, the flag of the data FIFO, and the cycle of the P2L DMA master. -/
structure L2pEngineBus where
  l2pDmaAck : Bool
  l2pDmaDat : Word
  l2pDmaStall : Bool
  dataFifoFull : Bool
  p2lDmaCyc : Bool
deriving DecidableEq

/-- An edge of `clk_i`, of the clock of the DMA Wishbone bus or of both, and the words that finish
their way through the FIFOs. -/
structure L2pEngineTick where
  clk : Option L2pEngineClk
  bus : Option L2pEngineBus
  addrArrive : ℕ
  dataArrive : ℕ
deriving DecidableEq

namespace L2pEngine

variable (gByteSwap : Bool) (s : L2pEngine) (t : L2pEngineTick)

/-! ## What each part reads -/

/-- What the controller reads in one clock cycle. -/
def controllerIn (i : L2pEngineClk) : DmaControllerIn where
  loads := i.loads
  dmaCtrlDone := s.l2p.fsm.dmaCtrlDone || i.p2lDone
  dmaCtrlError := s.l2p.targetCnt.dmaCtrlError || i.p2lError
  nextItem := i.nextItem
  nextItemValid := i.nextItemValid

/-- What the L2P DMA master reads in one clock cycle. -/
def l2pIn (i : L2pEngineClk) : L2pDmaIn where
  ctrl := s.controller.lines
  arbLdmGnt := s.arb.gnt.arbLdmGnt
  lWrRdy := i.lWrRdy
  l2pRdy := i.l2pRdy
  addrFifoFull := i.addrFifoFull
  dataFifoEmpty := s.dataFifo.empty
  dataFifoDout := s.dataFifo.q

/-- What the arbiter reads in one clock cycle. -/
def sources (i : L2pEngineClk) : L2pArbiterIn := ⟨i.wbm, i.pdm, s.l2p.arb⟩

/-- `addr_fifo_wr` and `addr_fifo_din`. -/
def addrWrite : Option Word :=
  if t.clk.isSome && s.l2p.targetCnt.addrFifoWr then some s.l2p.targetCnt.addrFifoDin else none

def busTick : DmaWbTick DmaWbPorts Word where
  wb := t.bus.map fun p =>
    (L2pDmaWbPorts.mk p.l2pDmaAck p.l2pDmaStall p.dataFifoFull p.p2lDmaCyc).ports
  write := s.addrWrite t
  arrive := t.addrArrive

/-- `data_fifo_wr`. -/
def dataFifoWr : Bool :=
  match t.bus with
  | some p => p.l2pDmaAck && s.bus.wb.cyc
  | none => false

/-- `data_fifo_din`. -/
def dataFifoDin (t : L2pEngineTick) : Word :=
  match t.bus with
  | some p => p.l2pDmaDat
  | none => 0

/-- The data FIFO is read. -/
def reads : Bool := t.clk.isSome && s.l2p.fsm.dataFifoRd && !s.dataFifo.empty

/-- The L2P DMA master accepts a start. -/
def accepts : Bool :=
  t.clk.isSome && s.controller.fsm.dmaCtrlStartL2p &&
    decide (s.l2p.fsm.l2pDmaCurrentState = .idle)

/-- The L2P DMA master sees an abort. -/
def seesAbort : Bool := t.clk.isSome && s.controller.fsm.dmaCtrlAbort

/-! ## One edge -/

def step : L2pEngine where
  controller := t.clk.elim s.controller fun i => s.controller.step (s.controllerIn i)
  l2p := t.clk.elim s.l2p fun i => s.l2p.step gByteSwap (s.l2pIn i)
  arb := t.clk.elim s.arb fun i => s.arb.step (s.sources i)
  bus := DmaWishbone.step s.bus (s.busTick t)
  dataFifo := s.dataFifo.tick (s.dataFifoWr t) (dataFifoDin t) (s.reads t) t.dataArrive
  aborted := !s.accepts t && (s.aborted || s.seesAbort t)

/-- Reset, which leaves some registers open. -/
def reset (addrFifoDin : Word) (dataFifoValid : Bool) (addrFifoDout dataFifoDout : Word) : L2pEngine where
  controller := .reset
  l2p := .reset addrFifoDin dataFifoValid
  arb := .reset
  bus := .reset addrFifoDout
  dataFifo := ⟨[], [], dataFifoDout⟩
  aborted := false

/-- The header of a packet is sent. -/
def sendsHeader : Bool :=
  match t.clk with
  | some i => decide (s.l2p.fsm.l2pDmaCurrentState = .header) && s.arb.gnt.arbLdmGnt && i.lWrRdy == 0b11#2
  | none => false

end L2pEngine

end Gn4124Core
