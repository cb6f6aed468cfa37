import Gn4124Core.L2pDma.Copies
import Gn4124Core.P2lDma.HostToCarrier

/-!
# The DMA engine between two memories

The DMA controller with both DMA masters, their FIFOs, the arbiter and the DMA Wishbone bus, as
`gn4124_core` connects them, between the memory of the host and that of the carrier.  Write packets
change the memory of the host as soon as their last word is sent, and the writes that the slave
accepts change that of the carrier.

Everything that one direction knows of the other is a line between them: the end and the errors of a
transfer, the items of a chain, the request for the L2P bus and its grant, and the cycles on the
Wishbone bus.  So each direction is one of the engines that are known already, in surroundings made
of the other one (`upTick`, `downTick`), and an edge of the system is an edge of each (`down_step`).
-/

namespace Gn4124Core

open Clocked Blocks

/-- The word of host memory at a byte address. -/
def HostWords.read (host : HostWords) (a : BitVec 64) : Word := host (wordAddress a)

/-- The word of carrier memory at a word address on the bus. -/
def CarrierWords.fetch (carrier : CarrierWords) (a : Word) : Word := carrier (a.extractLsb' 0 30)

/-- The controller with the L2P direction (`up`), and the P2L DMA master with its Wishbone side and
what its surroundings remember of it.  `openWrite` is the packet that is being sent to the host. -/
structure DmaSystem where
  up : CarrierToHost
  p2l : P2lDmaMaster
  asked : Bool
  l2pBusy : Bool
  item : ℕ
  toWb : DmaWishbone ItemWord
  openRequest : List Word
  owed : List (BitVec 64)
  openWrite : List Word
  host : HostWords
  carrier : CarrierWords

/-- What an edge of `clk_i` samples from outside. -/
structure DmaSystemClk where
  loads : DmaLoads
  lWrRdy : BitVec 2
  l2pRdy : Bool
  addrFifoFull : Bool
  pd : PdPdm
  wbm : L2pSource
deriving DecidableEq

/-- What an edge of the clock of the bus samples: the lines of the slave, which both masters have,
and the flag of the data FIFO. -/
structure DmaSystemBus where
  dmaAck : Bool
  dmaDat : Word
  dmaStall : Bool
  dataFifoFull : Bool
deriving DecidableEq

/-- An edge of either clock or of both, and the words that finish their way through the FIFOs. -/
structure DmaSystemTick where
  clk : Option DmaSystemClk
  bus : Option DmaSystemBus
  addrArrive : ℕ
  dataArrive : ℕ
  toWbArrive : ℕ
deriving DecidableEq

/-! ## The two directions -/

namespace DmaSystem

variable (gByteSwap : Bool) (s : DmaSystem) (t : DmaSystemTick)

def controller : DmaController := s.up.engine.controller

/-- The P2L direction, with the same controller. -/
def down : HostToCarrier :=
  ⟨⟨⟨s.controller, s.p2l⟩, s.l2pBusy, s.item, s.toWb⟩, s.asked, s.openRequest, s.owed⟩

/-- `l2p_dma_cyc`. -/
def l2pDmaCyc : Bool := s.up.engine.bus.wb.cyc

/-- The edge as the L2P direction sees it. -/
def upTick : L2pEngineTick where
  clk := t.clk.map fun i =>
    { loads := i.loads
      p2lDone := s.p2l.ctrlPipe.dmaCtrlDone
      p2lError := s.p2l.dmaCtrlError
      nextItem := s.p2l.nextItem
      nextItemValid := s.p2l.fsm.nextItemValid
      lWrRdy := i.lWrRdy
      l2pRdy := i.l2pRdy
      addrFifoFull := i.addrFifoFull
      wbm := i.wbm
      pdm := s.p2l.arb }
  bus := t.bus.map fun p =>
    ⟨p.dmaAck, p.dmaDat, p.dmaStall, p.dataFifoFull, s.toWb.wb.cyc⟩
  addrArrive := t.addrArrive
  dataArrive := t.dataArrive

/-- The same edge with the acknowledges of its own cycle only: the others are those of the writes of
the P2L DMA master, and they change nothing (`heard_step`). -/
def heardTick : L2pEngineTick :=
  { s.upTick t with bus := (s.upTick t).bus.map fun p => { p with l2pDmaAck := p.l2pDmaAck && s.l2pDmaCyc } }

/-- The edge as the P2L direction sees it. -/
def downTick : P2lLandingTick where
  clk := t.clk.map fun i =>
    { loads := i.loads
      l2pDone := s.up.engine.l2p.fsm.dmaCtrlDone
      l2pError := s.up.engine.l2p.targetCnt.dmaCtrlError
      pd := i.pd
      arbPdmGnt := s.up.engine.arb.gnt.arbPdmGnt }
  wb := t.bus.map fun p => ⟨p.dmaAck, p.dmaStall, s.l2pDmaCyc⟩
  arrive := t.toWbArrive

/-! ## One edge -/

/-- The packets that are sent whole after an edge, and the words of the one under way. -/
def sent : List (List Word) × List Word :=
  (s.up.sent gByteSwap (s.upTick t)).foldl frameStep ([], s.openWrite)

/-- The writes that the slave accepts.  In a cycle of the L2P DMA master the lines of the other one
are not on the bus. -/
def accepted : List ToWbWord := if s.l2pDmaCyc then [] else s.down.writes (s.downTick t)

def step : DmaSystem :=
  let down := HostToCarrier.step gByteSwap s.down (s.downTick t)
  { up := CarrierToHost.step gByteSwap s.up (s.upTick t)
    p2l := down.landing.engine.master
    asked := down.asked
    l2pBusy := down.landing.l2pBusy
    item := down.landing.item
    toWb := down.landing.wishbone
    openRequest := down.openRequest
    owed := down.owed
    openWrite := (s.sent gByteSwap t).2
    host := (s.sent gByteSwap t).1.foldl hostWrite s.host
    carrier := (s.accepted t).foldl carrierWrite s.carrier }

/-- Reset, which leaves some registers and both memories as they are. -/
def reset (addrFifoDin : Word) (dataFifoValid : Bool) (addrFifoDout dataFifoDout : Word)
    (toWbDout : ToWbWord) (host : HostWords) (carrier : CarrierWords) : DmaSystem :=
  let down := HostToCarrier.reset toWbDout
  { up := .reset addrFifoDin dataFifoValid addrFifoDout dataFifoDout
    p2l := .reset
    asked := down.asked
    l2pBusy := down.landing.l2pBusy
    item := down.landing.item
    toWb := down.landing.wishbone
    openRequest := down.openRequest
    owed := down.owed
    openWrite := []
    host := host
    carrier := carrier }

/-- The orders that the controller starts, in both directions. -/
def orders : List DmaCtrl :=
  if t.clk.isSome && (s.controller.fsm.dmaCtrlStartL2p || s.controller.fsm.dmaCtrlStartP2l) then
    [s.controller.lines]
  else []

variable {gByteSwap s t}

/-! ## The directions follow the system -/

/-- Both directions make the same of the controller. -/
theorem down_step : (step gByteSwap s t).down = HostToCarrier.step gByteSwap s.down (s.downTick t) := by
  have hcontroller : (HostToCarrier.step gByteSwap s.down (s.downTick t)).landing.engine.controller =
      (step gByteSwap s t).controller := by
    cases hclk : t.clk with
    | none =>
        simp [HostToCarrier.step, P2lLanding.step, downTick, hclk, controller, step, down, upTick,
          CarrierToHost.step, L2pEngine.step]
    | some i =>
        simp [HostToCarrier.step, P2lLanding.step, downTick, hclk, controller, step, down, upTick,
          CarrierToHost.step, L2pEngine.step, DmaEngine.step, DmaEngine.controllerIn,
          L2pEngine.controllerIn]
  rw [down, ← hcontroller]
  rfl

variable (gByteSwap s) in
theorem p2l_step {i : DmaSystemClk} (hclk : t.clk = some i) : ∃ j, (s.downTick t).clk = some j ∧
    (step gByteSwap s t).p2l = s.p2l.step gByteSwap (s.down.landing.engine.masterIn j) := by
  obtain ⟨j, hj⟩ : ∃ j, (s.downTick t).clk = some j := ⟨_, by rw [downTick, hclk, Option.map_some]⟩
  refine ⟨j, hj, ?_⟩
  simp [step, HostToCarrier.step, P2lLanding.step, hj, DmaEngine.step, down]

theorem p2l_step_bus (hclk : t.clk = none) : (step gByteSwap s t).p2l = s.p2l := by
  simp [step, HostToCarrier.step, P2lLanding.step, downTick, hclk, down]

/-- An acknowledge outside of its cycle does not concern a master. -/
theorem wb_step_heard {α : Type*} (wb : DmaWbMaster α) (fifoRd fifoEmpty : Bool) (fifoDout : α)
    (ack : Bool) : wb.step fifoRd fifoEmpty fifoDout (ack && wb.cyc) =
      wb.step fifoRd fifoEmpty fifoDout ack := by
  cases hcyc : wb.cyc <;> cases ack <;> simp [DmaWbMaster.step, DmaWbMaster.lastAck, hcyc]

theorem heard_step (hbalanced : s.up.served.Balanced) :
    CarrierToHost.step gByteSwap s.up (s.heardTick t) = CarrierToHost.step gByteSwap s.up (s.upTick t) := by
  cases hbus : t.bus with
  | none =>
      have hsame : s.heardTick t = s.upTick t := by simp [heardTick, upTick, hbus]
      rw [hsame]
  | some p =>
      cases hcyc : s.l2pDmaCyc with
      | true =>
          have hsame : s.heardTick t = s.upTick t := by simp [heardTick, upTick, hbus, hcyc]
          rw [hsame]
      | false =>
          have hclosed : s.up.engine.bus.wb.cyc = false := hcyc
          have hnone : s.up.served.outstanding = [] := by
            by_contra hsome
            exact absurd (hclosed.symm.trans (hbalanced.cyc.mpr hsome)) (by decide)
          have hmaster : DmaWishbone.step s.up.engine.bus (s.up.engine.busTick (s.heardTick t)) =
              DmaWishbone.step s.up.engine.bus (s.up.engine.busTick (s.upTick t)) := by
            have hwb := wb_step_heard s.up.engine.bus.wb
              (s.up.engine.bus.fifoRd ⟨p.dmaAck, p.dmaStall, p.dataFifoFull || s.toWb.wb.cyc⟩)
              s.up.engine.bus.fifo.empty s.up.engine.bus.fifo.q p.dmaAck
            simp only [DmaWishbone.step, DmaWishbone.stepWb, DmaWishbone.pops, heardTick, upTick,
              L2pEngine.busTick, L2pEngine.addrWrite, L2pDmaWbPorts.ports, hbus, Option.map_some, hcyc,
              hclosed] at hwb ⊢
            rw [← hwb]
            rfl
          have hwr : s.up.engine.dataFifoWr (s.heardTick t) = s.up.engine.dataFifoWr (s.upTick t) := by
            simp [L2pEngine.dataFifoWr, heardTick, upTick, hbus, hclosed]
          have hdin : L2pEngine.dataFifoDin (s.heardTick t) = L2pEngine.dataFifoDin (s.upTick t) := by
            simp [L2pEngine.dataFifoDin, heardTick, upTick, hbus]
          have hengine : s.up.engine.step gByteSwap (s.heardTick t) =
              s.up.engine.step gByteSwap (s.upTick t) := by
            simp only [L2pEngine.step, hmaster, hwr, hdin]
            rfl
          have hpending : (s.up.served.step (s.up.busTick (s.heardTick t))).pending =
              (s.up.served.step (s.up.busTick (s.upTick t))).pending := by
            simp [DmaServed.step, CarrierToHost.busTick, heardTick, upTick, hbus, hnone]
          simp only [CarrierToHost.step, hengine, hpending]
          rfl

@[simp] theorem down_controller : s.down.landing.engine.controller = s.controller := rfl

@[simp] theorem down_l2pBusy : s.down.landing.l2pBusy = s.l2pBusy := rfl

@[simp] theorem step_up :
    (step gByteSwap s t).up = CarrierToHost.step gByteSwap s.up (s.upTick t) := rfl

end DmaSystem

end Gn4124Core
