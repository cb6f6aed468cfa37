import Gn4124Core.Clocked.AsyncFifo
import Gn4124Core.Rtl.P2lDmaMaster

/-!
# The Wishbone sides of the DMA masters

`l2p_dma_master` and `p2l_dma_master` have the same pipelined Wishbone master: it pops the
requests of a FIFO, `addr_fifo` or `to_wb_fifo`, and strobes each of them two cycles later.  The
processes are here once for both, over the type `α` of the requests.  What differs is what holds
the FIFO back: for the L2P DMA master it is the data FIFO and the cycle of the other master, for
the P2L DMA master that cycle alone.
-/

namespace Gn4124Core

open Clocked

/-- The registers of `p_wb_master` and of the two counters, and the valid flag of the FIFO.
`request` is the address register, with the data register of the P2L DMA master. -/
structure DmaWbMaster (α : Type*) where
  fifoValid : Bool
  request : α
  stb : Bool
  sel : BitVec 4
  cyc : Bool
  wbRequestCnt : BitVec 32
  wbAckCnt : BitVec 32
deriving DecidableEq

namespace DmaWbMaster

variable {α : Type*} (s : DmaWbMaster α)

/-- The last acknowledge is received: `wb_ack_cnt = wb_read_cnt-1`, or `wb_write_cnt-1`. -/
def lastAck (ack : Bool) : Bool := decide (s.wbAckCnt = s.wbRequestCnt - 1) && ack

/-- One edge of the clock of the DMA Wishbone bus. -/
def step (fifoRd fifoEmpty : Bool) (fifoDout : α) (ack : Bool) : DmaWbMaster α where
  fifoValid := fifoRd && !fifoEmpty
  -- the stall has its say when the FIFO is read, and none here
  request := if s.fifoValid then fifoDout else s.request
  stb := s.fifoValid
  sel := if s.fifoValid then 0b1111#4 else 0b0000#4
  cyc := if s.fifoValid then true else if s.lastAck ack then false else s.cyc
  wbRequestCnt := if s.fifoValid then s.wbRequestCnt + 1 else s.wbRequestCnt
  wbAckCnt := if ack && s.cyc then s.wbAckCnt + 1 else s.wbAckCnt

/-- The registers after a reset, with the valid flag clear, since the FIFO is empty in reset. -/
def reset (request : α) : DmaWbMaster α := ⟨false, request, false, 0, false, 0, 0⟩

end DmaWbMaster

/-- What a Wishbone side samples at an edge of its clock. -/
structure DmaWbPorts where
  ack : Bool
  stall : Bool
  hold : Bool
deriving DecidableEq

/-- An edge of the clock of the DMA Wishbone bus, which samples the ports `π`, of `clk_i` with a
word that is written into the FIFO, or of both, and the words that finish their way through the
FIFO. -/
structure DmaWbTick (π α : Type*) where
  wb : Option π
  write : Option α
  arrive : ℕ
deriving DecidableEq

/-- The same edge, with the ports of a master as the common Wishbone side reads them. -/
def DmaWbTick.mapPorts {π ρ α : Type*} (f : π → ρ) (t : DmaWbTick π α) : DmaWbTick ρ α :=
  ⟨t.wb.map f, t.write, t.arrive⟩

/-- A Wishbone master and its FIFO. -/
structure DmaWishbone (α : Type*) where
  fifo : AsyncFifo α
  wb : DmaWbMaster α
deriving DecidableEq

namespace DmaWishbone

variable {α : Type*} (s : DmaWishbone α) (t : DmaWbTick DmaWbPorts α)

/-- `addr_fifo_rd`, `to_wb_fifo_rd`. -/
def fifoRd (p : DmaWbPorts) : Bool := !s.fifo.empty && !p.stall && !p.hold

/-- The FIFO is read at this edge. -/
def pops : Bool :=
  match t.wb with
  | some p => s.fifoRd p
  | none => false

def stepWb : DmaWbMaster α :=
  match t.wb with
  | some p => s.wb.step (s.fifoRd p) s.fifo.empty s.fifo.q p.ack
  | none => s.wb

def step : DmaWishbone α where
  fifo := s.fifo.tick t.write.isSome (t.write.getD s.fifo.q) (s.pops t) t.arrive
  wb := s.stepWb t

/-- Reset, which leaves the output of the FIFO open. -/
def reset (request q : α) : DmaWishbone α := ⟨⟨[], [], q⟩, .reset request⟩

end DmaWishbone

/-! ## The two masters -/

/-- The ports of the L2P DMA master on the DMA Wishbone bus, and the flag of its data FIFO. -/
structure L2pDmaWbPorts where
  l2pDmaAck : Bool
  l2pDmaStall : Bool
  dataFifoFull : Bool
  p2lDmaCyc : Bool
deriving DecidableEq

def L2pDmaWbPorts.ports (p : L2pDmaWbPorts) : DmaWbPorts where
  ack := p.l2pDmaAck
  stall := p.l2pDmaStall
  hold := p.dataFifoFull || p.p2lDmaCyc

/-- The ports of the P2L DMA master on the DMA Wishbone bus. -/
structure P2lDmaWbPorts where
  p2lDmaAck : Bool
  p2lDmaStall : Bool
  l2pDmaCyc : Bool
deriving DecidableEq

def P2lDmaWbPorts.ports (p : P2lDmaWbPorts) : DmaWbPorts where
  ack := p.p2lDmaAck
  stall := p.p2lDmaStall
  hold := p.l2pDmaCyc

/-- The Wishbone side of the L2P DMA master, behind `addr_fifo`. -/
abbrev L2pDmaWishbone := DmaWishbone Word

/-- The Wishbone side of the P2L DMA master, behind `to_wb_fifo`. -/
abbrev P2lDmaWishbone := DmaWishbone ToWbWord

namespace L2pDmaWishbone

variable (s : L2pDmaWishbone)

def reset (q : Word) : L2pDmaWishbone := DmaWishbone.reset 0 q

/-- `l2p_dma_adr_o`.  The master only reads. -/
def adr : Word := s.wb.request

end L2pDmaWishbone

namespace P2lDmaWishbone

variable (s : P2lDmaWishbone)

def reset (q : ToWbWord) : P2lDmaWishbone := DmaWishbone.reset ⟨0, 0⟩ q

/-- `p2l_dma_adr_o`.  The master only writes. -/
def adr : Word := 0b00#2 ++ s.wb.request.target

/-- `p2l_dma_dat_o`. -/
def dat : Word := s.wb.request.data

end P2lDmaWishbone

end Gn4124Core
