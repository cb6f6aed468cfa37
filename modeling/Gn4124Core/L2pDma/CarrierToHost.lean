import Gn4124Core.DmaWishbone.Accounting
import Gn4124Core.DmaWishbone.Requests
import Gn4124Core.L2pDma.AddressGenerator
import Gn4124Core.L2pDma.Engine
import Gn4124Core.L2pDma.HostWrites

/-!
# From carrier memory to host memory

The L2P DMA engine between the slave on its Wishbone bus and the host.  The slave answers each read
once and in order, after any number of cycles.  A read is held by the address counter, by the
address FIFO, by the Wishbone side or by the slave until it is answered (`requests`), and the word
of the answer goes into the data FIFO: an edge answers the first of the reads and adds none, unless
it takes an order (`requests_conserves`).

So the words of a transfer are there from its beginning, as far as the packet side is concerned: the
ones that are not read yet follow those in the data FIFO (`path`), and one edge of the engine is one
edge of this path or none (`path_step`,
`path_rest`).
-/

namespace Gn4124Core

open Clocked

/-- The engine, the requests that the slave has yet to answer from earlier cycles, and whether the
L2P DMA master has accepted an order that is not done. -/
structure CarrierToHost where
  engine : L2pEngine
  pending : List Word
  ordered : Bool
deriving DecidableEq

namespace CarrierToHost

variable (gByteSwap : Bool) (s : CarrierToHost) (t : L2pEngineTick)

/-- The Wishbone side and its slave. -/
def served : DmaServed Word := ⟨s.engine.bus, s.pending⟩

def busTick : DmaWbTick DmaSlavePorts Word where
  wb := t.bus.map fun p =>
    ⟨(L2pDmaWbPorts.mk p.l2pDmaAck p.l2pDmaStall p.dataFifoFull p.p2lDmaCyc).ports, p.l2pDmaDat⟩
  write := s.engine.addrWrite t
  arrive := t.addrArrive

def step : CarrierToHost where
  engine := s.engine.step gByteSwap t
  pending := (s.served.step (s.busTick t)).pending
  ordered :=
    s.engine.accepts t || s.ordered && !(s.engine.step gByteSwap t).l2p.fsm.dmaCtrlDone

def reset (addrFifoDin : Word) (dataFifoValid : Bool) (addrFifoDout dataFifoDout : Word) :
    CarrierToHost :=
  ⟨.reset addrFifoDin dataFifoValid addrFifoDout dataFifoDout, [], false⟩

/-! ## What an observer sees -/

/-- The words that the L2P DMA master presents to the arbiter. -/
def sent : List (Bool × Word) :=
  if t.clk.isSome then (s.engine.step gByteSwap t).l2p.arb.word else []

/-- The orders that the controller starts. -/
def orders : List DmaCtrl :=
  if t.clk.isSome && s.engine.controller.fsm.dmaCtrlStartL2p then [s.engine.controller.lines] else []

/-- The reads that the slave answers, and the words it answers them with. -/
def answered : List (Word × Word) := s.served.answered (s.busTick t)

/-- The reads behind the address counter that are not answered yet. -/
def inService : List Word :=
  s.served.outstanding ++ (if s.engine.bus.wb.fifoValid then [s.engine.bus.fifo.q] else []) ++
    s.engine.bus.fifo.contents

/-- The reads that are not answered yet. -/
def requests : List Word := s.inService ++ s.engine.l2p.held

/-! ## The packet side -/

/-- The packet side when the words `rest` follow those in the data FIFO. -/
def path (rest : List Word) : L2pDmaPath where
  ldm := s.engine.l2p
  dataFifo := { s.engine.dataFifo with crossing := s.engine.dataFifo.crossing ++ rest }
  arb := s.engine.arb

/-- What the packet side reads in one cycle. -/
def pathIn (i : L2pEngineClk) : L2pDmaPathIn where
  ctrl := s.engine.controller.lines
  lWrRdy := i.lWrRdy
  l2pRdy := i.l2pRdy
  addrFifoFull := i.addrFifoFull
  arrive := 0
  wbm := i.wbm
  pdm := i.pdm

variable {gByteSwap s t}

variable (gByteSwap) in
theorem served_step : (step gByteSwap s t).served = s.served.step (s.busTick t) := by
  have hmaster : (s.busTick t).mapPorts DmaSlavePorts.ports = s.engine.busTick t := by
    unfold busTick L2pEngine.busTick DmaWbTick.mapPorts
    cases t.bus <;> rfl
  have hbus : (s.served.step (s.busTick t)).master = DmaWishbone.step s.engine.bus (s.engine.busTick t) := by
    rw [← hmaster]
    rfl
  have hmaster' : (step gByteSwap s t).engine.bus = (s.served.step (s.busTick t)).master := hbus.symm
  rw [served, hmaster']
  rfl

/-! ## One edge of the reads -/

variable (gByteSwap) in
/-- The first reads are answered, and what the address counter writes comes behind the others. -/
theorem service_conserves (hslave : s.served.Answers (s.busTick t)) :
    Conserves (s.engine.addrWrite t).toList ((s.answered t).map Prod.fst) s.inService
      (step gByteSwap s t).inService := by
  have hfifo := DmaWishbone.fifo_conserves (s := s.served.master)
    (t := DmaServed.masterTick (s.busTick t))
  have hflight := (DmaServed.outstanding_conserves hslave).comp DmaServed.issued_conserves
  have hall := hflight.comp hfifo
  have hsame := congrArg DmaServed.master (served_step gByteSwap (s := s) (t := t))
  rw [← served_step gByteSwap] at hall
  have hbus : DmaWishbone.step s.served.master (DmaServed.masterTick (s.busTick t)) =
      (step gByteSwap s t).engine.bus := hsame.symm
  rw [hbus] at hall
  exact hall

variable (gByteSwap) in
/-- Without an order no read is added. -/
theorem requests_conserves (hslave : s.served.Answers (s.busTick t))
    (hnone : ∀ i ∈ t.clk, s.engine.controller.fsm.dmaCtrlStartL2p = false) :
    Conserves [] ((s.answered t).map Prod.fst) s.requests (step gByteSwap s t).requests := by
  have hheld : Conserves [] (s.engine.addrWrite t).toList s.engine.l2p.held
      (step gByteSwap s t).engine.l2p.held := by
    unfold Conserves
    cases hclk : t.clk with
    | none => simp [step, L2pEngine.step, L2pEngine.addrWrite, hclk]
    | some i =>
        have hstep : (step gByteSwap s t).engine.l2p =
            s.engine.l2p.step gByteSwap (s.engine.l2pIn i) := by
          simp [step, L2pEngine.step, hclk]
        have hstart : (s.engine.l2pIn i).ctrl.startL2p = false := hnone i hclk
        rw [hstep, L2pDmaMaster.held_step gByteSwap hstart, List.append_nil, L2pDmaMaster.held,
          L2pDmaMaster.addresses, L2pEngine.addrWrite, hclk]
        cases s.engine.l2p.targetCnt.addrFifoWr <;> rfl
  exact (service_conserves gByteSwap hslave).comp hheld

/-- The data FIFO gets the answers. -/
theorem dataFifoWr_eq (hbalanced : s.served.Balanced) (hslave : s.served.Answers (s.busTick t)) :
    (if s.engine.dataFifoWr t then [L2pEngine.dataFifoDin t] else []) =
      (s.answered t).map Prod.snd := by
  rw [answered, DmaServed.answered_data hslave]
  have hack := hbalanced.ack hslave
  unfold L2pEngine.dataFifoWr L2pEngine.dataFifoDin DmaServed.acknowledged
  unfold busTick at hack ⊢
  cases hbus : t.bus with
  | none => rfl
  | some p =>
      cases hp : p.l2pDmaAck with
      | false => simp [L2pDmaWbPorts.ports, hp]
      | true =>
          have hopen : s.engine.bus.wb.cyc = true :=
            hack _ (by rw [hbus]; rfl) (by simp [L2pDmaWbPorts.ports, hp])
          simp [L2pDmaWbPorts.ports, hp, hopen]

/-! ## One edge of the packet side -/

/-- An edge of the data FIFO when the words `rest` are still to be written: what is written is the
first of them. -/
theorem dataFifo_tick {f : AsyncFifo Word} {rest rest' : List Word} {we : Bool} {d : Word}
    (hrest : rest = (if we then [d] else []) ++ rest') (rd : Bool) (n : ℕ) :
    ((({ f with crossing := f.crossing ++ rest } : AsyncFifo Word).read rd).arrive 0).contents =
        (f.tick we d (rd && !f.empty) n).contents ++ rest' ∧
      ((({ f with crossing := f.crossing ++ rest } : AsyncFifo Word).read rd).arrive 0).q =
        (f.tick we d (rd && !f.empty) n).q := by
  rw [← AsyncFifo.tick_rd, AsyncFifo.tick, AsyncFifo.contents_arrive, AsyncFifo.contents_arrive,
    AsyncFifo.arrive_q, AsyncFifo.arrive_q, hrest]
  cases hready : f.ready with
  | nil => cases we <;> cases rd <;> simp [AsyncFifo.read, AsyncFifo.write, AsyncFifo.contents, hready]
  | cons x xs =>
      cases we <;> cases rd <;> simp [AsyncFifo.read, AsyncFifo.write, AsyncFifo.contents, hready]

/-- Two packet sides that differ in the time at which their words arrive, and in nothing else. -/
structure UpToArrival (p p' : L2pDmaPath) : Prop where
  ldm : p.ldm = p'.ldm
  arb : p.arb = p'.arb
  contents : p.dataFifo.contents = p'.dataFifo.contents
  q : p.dataFifo.q = p'.dataFifo.q

theorem path_contents (rest : List Word) :
    (s.path rest).dataFifo.contents = s.engine.dataFifo.contents ++ rest := by
  simp [path, AsyncFifo.contents]

variable (gByteSwap) in
/-- An edge of `clk_i` is an edge of the path. -/
theorem path_step {i : L2pEngineClk} (hclk : t.clk = some i) {rest rest' : List Word}
    (hrest : rest = (if s.engine.dataFifoWr t then [L2pEngine.dataFifoDin t] else []) ++ rest') :
    UpToArrival (L2pDmaPath.step gByteSwap (s.path rest) (s.pathIn i))
      ((step gByteSwap s t).path rest') := by
  have hl2p : (step gByteSwap s t).engine.l2p = s.engine.l2p.step gByteSwap (s.engine.l2pIn i) := by
    simp [step, L2pEngine.step, hclk]
  have harb : (step gByteSwap s t).engine.arb = s.engine.arb.step (s.engine.sources i) := by
    simp [step, L2pEngine.step, hclk]
  have hfifo : (step gByteSwap s t).engine.dataFifo = s.engine.dataFifo.tick (s.engine.dataFifoWr t)
      (L2pEngine.dataFifoDin t) (s.engine.reads t) t.dataArrive := rfl
  have hreads : s.engine.reads t = (s.engine.l2p.fsm.dataFifoRd && !s.engine.dataFifo.empty) := by
    simp [L2pEngine.reads, hclk]
  obtain ⟨hcontents, hq⟩ := dataFifo_tick (f := s.engine.dataFifo) hrest
    s.engine.l2p.fsm.dataFifoRd t.dataArrive
  rw [hreads] at hfifo
  rw [← hfifo] at hcontents hq
  exact ⟨hl2p.symm, harb.symm, hcontents.trans (path_contents rest').symm, hq⟩

variable (gByteSwap) in
/-- An edge of the other clock alone is none. -/
theorem path_rest (hclk : t.clk = none) {rest rest' : List Word}
    (hrest : rest = (if s.engine.dataFifoWr t then [L2pEngine.dataFifoDin t] else []) ++ rest') :
    UpToArrival (s.path rest) ((step gByteSwap s t).path rest') := by
  have hl2p : (step gByteSwap s t).engine.l2p = s.engine.l2p := by simp [step, L2pEngine.step, hclk]
  have harb : (step gByteSwap s t).engine.arb = s.engine.arb := by simp [step, L2pEngine.step, hclk]
  have hfifo : (step gByteSwap s t).engine.dataFifo = s.engine.dataFifo.tick (s.engine.dataFifoWr t)
      (L2pEngine.dataFifoDin t) (s.engine.reads t) t.dataArrive := rfl
  have hreads : s.engine.reads t = false := by simp [L2pEngine.reads, hclk]
  obtain ⟨hcontents, hq⟩ := dataFifo_tick (f := s.engine.dataFifo) hrest false t.dataArrive
  rw [hreads] at hfifo
  rw [Bool.false_and, ← hfifo, AsyncFifo.read_false] at hcontents hq
  rw [AsyncFifo.contents_arrive] at hcontents
  exact ⟨hl2p.symm, harb.symm, hcontents.trans (path_contents rest').symm, hq⟩

end CarrierToHost

end Gn4124Core
