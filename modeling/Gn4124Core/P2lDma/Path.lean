import Gn4124Core.Decoder.Delivery
import Gn4124Core.P2lDma.ReadRequests

/-!
# From the P2L bus to the Wishbone FIFO

`p2l_decode32` feeding `p2l_dma_master`, as the core wires them: the data strobe and the
type flags of the decoder are shared by every consumer of packets.
-/

namespace Gn4124Core

open Clocked

/-- The decoder and the P2L DMA master, with the master's request of the previous cycle. -/
structure P2lPath where
  decoder : P2lDecode32
  asking : Asking P2lDmaMaster
deriving DecidableEq

/-- The bus, the DMA controller's lines and the arbiter's grant in one clock cycle. -/
structure P2lPathIn where
  des : DesP2l
  ctrl : DmaCtrl
  arbPdmGnt : Bool
deriving DecidableEq

/-- The decoder's lines to the P2L DMA master. -/
def P2lDecode32.pdPdm (s : P2lDecode32) : PdPdm where
  masterCpld := s.type.masterCpld
  masterCpln := s.type.masterCpln
  dataValid := s.data.p2lDValid
  dataLast := s.data.p2lDLast
  data := s.data.p2lD

namespace P2lPath

variable (gByteSwap : Bool) (s : P2lPath) (i : P2lPathIn)

def master : P2lDmaMaster := s.asking.client

/-- What the master reads in one clock cycle. -/
def masterIn : P2lDmaIn := ⟨i.ctrl, s.decoder.pdPdm, i.arbPdmGnt⟩

/-- One edge of `clk_i`. -/
def step : P2lPath where
  decoder := s.decoder.step i.des
  asking := P2lDmaMaster.askingStep gByteSwap s.asking (s.masterIn i)

def reset : P2lPath := ⟨.reset, ⟨.reset, false⟩⟩

/-- What is written into `to_wb_fifo`. -/
def pushes : List ToWbWord :=
  if s.master.addrCnt.toWbFifoWr then [s.master.addrCnt.toWbFifoDin] else []

/-- The next item, when `next_item_valid_o` pulses. -/
def items : List DmaItem := if s.master.fsm.nextItemValid then [s.master.nextItem] else []

/-- The decoder strobes a data word of a master completion. -/
def completionWord : Bool := s.decoder.data.p2lDValid && s.decoder.type.masterCpld

/-- No packet is under way, and nothing is left over from an earlier transfer. -/
structure Quiet (s : P2lPath) : Prop where
  between : s.decoder.Between
  noType : s.decoder.type = .none
  noData : s.decoder.data.p2lDValid = false
  noLast : s.decoder.data.p2lDLast = false
  ready : s.master.Ready
  noPush : s.master.addrCnt.toWbFifoWr = false

theorem reset_quiet : Quiet reset :=
  ⟨P2lDecode32.between_reset, rfl, rfl, rfl, ⟨rfl, rfl, rfl⟩, rfl⟩

/-- Neither a start order nor an abort, and a grant only in answer to a request. -/
def Undisturbed (s : P2lPath) (i : P2lPathIn) : Prop :=
  (i.arbPdmGnt → s.master.fsm.pdmArbReq → s.asking.asked) ∧ i.ctrl.abort = false ∧
    i.ctrl.startP2l = false ∧ i.ctrl.startNext = false

/-- Completions answer requests: their words come while the master waits for them, and the
last word that a request asks for ends a packet. -/
def Answers (s : P2lPath) : Prop :=
  s.completionWord → s.master.fsm.p2lDmaCurrentState = .waitReadCompletion ∧
    (s.master.p2lDataCnt = 1 → s.decoder.data.p2lDLast)

/-- A word of another packet is strobed while the master waits for the words of a P2L
transfer. -/
def ForeignWord (s : P2lPath) : Prop :=
  s.decoder.data.p2lDValid ∧ s.decoder.type.masterCpld = false ∧
    s.master.fsm.p2lDmaCurrentState = .waitReadCompletion ∧ s.master.readReq.isNextItem = false

instance (s : P2lPath) (i : P2lPathIn) : Decidable (Undisturbed s i) :=
  inferInstanceAs (Decidable (_ ∧ _))

instance (s : P2lPath) : Decidable s.Answers := inferInstanceAs (Decidable (_ → _))

instance (s : P2lPath) : Decidable s.ForeignWord := inferInstanceAs (Decidable (_ ∧ _))

end P2lPath

end Gn4124Core
