import Gn4124Core.Arbitration.Packets
import Gn4124Core.Clocked.AsyncFifo

/-!
# The L2P DMA master, its data FIFO and the arbiter

The words read from carrier memory reach `l2p_dma_master` through `data_fifo`.  The words
that are still on their way there are in the FIFO's `crossing`, and their arrival is an
input.  The other two sources of the arbiter are inputs as well.
-/

namespace Gn4124Core

open Clocked

structure L2pDmaPath where
  ldm : L2pDmaMaster
  dataFifo : AsyncFifo Word
  arb : L2pArbiter
deriving DecidableEq

/-- The orders of the DMA controller, the ready lines of the GN4124, the flags and arrivals
of the FIFOs, and the lines of the other sources. -/
structure L2pDmaPathIn where
  ctrl : DmaCtrl
  lWrRdy : BitVec 2
  l2pRdy : Bool
  addrFifoFull : Bool
  arrive : ℕ
  wbm : L2pSource
  pdm : L2pSource
deriving DecidableEq

namespace L2pDmaPath

variable (gByteSwap : Bool) (s : L2pDmaPath) (i : L2pDmaPathIn)

/-- What the master reads in one clock cycle. -/
def ldmIn : L2pDmaIn where
  ctrl := i.ctrl
  arbLdmGnt := s.arb.gnt.arbLdmGnt
  lWrRdy := i.lWrRdy
  l2pRdy := i.l2pRdy
  addrFifoFull := i.addrFifoFull
  dataFifoEmpty := s.dataFifo.empty
  dataFifoDout := s.dataFifo.q

/-- One edge of `clk_i`. -/
def step : L2pDmaPath where
  ldm := s.ldm.step gByteSwap (s.ldmIn i)
  dataFifo := (s.dataFifo.read s.ldm.fsm.dataFifoRd).arrive i.arrive
  arb := s.arb.step ⟨i.wbm, i.pdm, s.ldm.arb⟩

/-- Reset, with the words `ws` on their way to the data FIFO. -/
def reset (addrFifoDin : Word) (dataFifoValid : Bool) (q : Word) (ws : List Word) : L2pDmaPath :=
  ⟨.reset addrFifoDin dataFifoValid, ⟨[], ws, q⟩, .reset⟩

/-- The word that the master presents as valid. -/
def presented : List (Bool × Word) := s.ldm.arb.word

variable {s i}

/-- Without a request the grant ends with the packet. -/
theorem gnt_released (hreq : s.ldm.fsm.ldmArbReq = false)
    (hlast : s.arb.gnt.arbLdmGnt = true → SourceLines.last s.ldm.arb = true) :
    (step gByteSwap s i).arb.gnt.arbLdmGnt = false :=
  L2pArbiter.ldm_released hreq hlast

end L2pDmaPath

end Gn4124Core
