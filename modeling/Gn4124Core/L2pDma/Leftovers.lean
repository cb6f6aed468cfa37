import Gn4124Core.L2pDma.Alike

/-!
# What an aborted transfer leaves behind

The only state that looks at the abort line is `L2P_DATA`, which goes back to `L2P_IDLE` in the
middle of the packet and clears nothing.  The length counter goes on writing addresses, the words
read for them still come, and the first of them takes the idle FSM to `L2P_HEADER` again, with the
counters of the aborted transfer.  In the other states the packet under way is finished, and the
next one begins.

The claim of a clean abort has two halves here (`LeavesNothing`).  No header is sent any more; and
from the next start on the engine sends what an engine sends that gets this start with its L2P side
fresh from reset (`fresh`).  Both hold when the branches to `L2P_HEADER` are not taken under the
abort, and nothing is on its way at the next start (`Harmless`): what is left then is in registers
that are loaded again before they are read (`Clean.alike`).
-/

namespace Gn4124Core

open Clocked

namespace L2pDmaMaster

variable {gByteSwap : Bool} {m : L2pDmaMaster} {x : L2pDmaIn}

/-- No branch to `L2P_HEADER` is taken: there is no word for the idle FSM, the packet that ends is
the last one, and a header that waits is sent now. -/
def PassesHeader (m : L2pDmaMaster) (x : L2pDmaIn) : Prop :=
  (m.fsm.l2pDmaCurrentState = .idle → x.dataFifoEmpty = true) ∧
    (m.fsm.l2pDmaCurrentState = .lastData → x.l2pRdy = true → m.pktGen.l2pLenCnt = 0) ∧
    (m.fsm.l2pDmaCurrentState = .header → x.arbLdmGnt = true ∧ x.lWrRdy = 0b11#2)

instance : Decidable (m.PassesHeader x) := inferInstanceAs (Decidable (_ ∧ _))

theorem PassesHeader.step (h : m.PassesHeader x) :
    (L2pDmaMaster.step gByteSwap m x).fsm.l2pDmaCurrentState ≠ .header := by
  obtain ⟨hidle, hlast, hheader⟩ := h
  show (m.pPktFsm gByteSwap x).l2pDmaCurrentState ≠ .header
  cases hstate : m.fsm.l2pDmaCurrentState with
  | idle => simp [pPktFsm, hstate, hidle hstate]
  | header =>
      obtain ⟨hgnt, hrdy⟩ := hheader hstate
      simp only [pPktFsm, hstate, hgnt, hrdy]
      split_ifs <;> simp_all
  | lastData =>
      simp only [pPktFsm, hstate]
      split_ifs with hrdy hmore
      · simp [hlast hstate hrdy] at hmore
      · simp
      · simp
  | addrH => simp [pPktFsm, hstate]
  | addrL | data | waitRdy | waitData =>
      simp only [pPktFsm, hstate]
      split_ifs <;> simp

/-- An idle master with nothing to write and no request takes a start as a fresh one does, but for
the sizes of a packet. -/
theorem alike_of_start (hidle : m.fsm.l2pDmaCurrentState = .idle) (hstart : x.ctrl.startL2p = true)
    (hempty : x.dataFifoEmpty = true) (hreq : m.fsm.ldmArbReq = false)
    (hwr : m.targetCnt.addrFifoWr = false) (addrFifoDin : Word) (dataFifoValid : Bool) :
    (L2pDmaMaster.step gByteSwap m x).Alike
      (L2pDmaMaster.step gByteSwap (reset addrFifoDin dataFifoValid) x) false where
  target := by
    constructor <;> simp [L2pDmaMaster.step, pTargetCnt, reset, hidle, hstart, hwr]
  fsm := by
    simp [L2pDmaMaster.step, pPktFsm, reset, hidle, hempty, hreq]
  dataFifoValid := by
    simp [L2pDmaMaster.step, pGenDataFifoValid, hempty]
  order := by
    constructor <;> simp [L2pDmaMaster.step, pPktGen, reset, hidle, hstart]
  sizes := by
    right
    refine ⟨rfl, .inl ⟨?_, ?_⟩⟩
    · simp [L2pDmaMaster.step, pPktFsm, hidle, hempty]
    · simp [L2pDmaMaster.step, pPktFsm, hidle, hempty, hreq]

end L2pDmaMaster

namespace L2pEngine

variable (gByteSwap : Bool)

/-- The engine after a start that its L2P side gets fresh from reset: the registers of the L2P DMA
master, of its Wishbone side and of both FIFOs, and its grant. -/
def fresh (s : L2pEngine) (t : L2pEngineTick) : L2pEngine :=
  let after := s.step gByteSwap t
  { after with
    l2p := t.clk.elim (.reset 0 false) fun i =>
      (L2pDmaMaster.reset 0 false).step gByteSwap { s.l2pIn i with dataFifoEmpty := true }
    arb := { after.arb with gnt := { after.arb.gnt with arbLdmGnt := false } }
    bus := .reset 0
    dataFifo := ⟨[], [], 0⟩ }

/-- The engines send the same words to the host, and the same requests to the carrier. -/
structure SameOutput (s f : L2pEngine) : Prop where
  l2p : s.l2p.arb = f.l2p.arb
  arb : s.arb = f.arb
  stb : s.bus.wb.stb = f.bus.wb.stb
  adr : s.bus.wb.stb = true → s.bus.wb.request = f.bus.wb.request

/-- An aborted transfer leaves nothing behind, in a run from `s₀`: once the abort has been seen no
header is sent before another start; and whatever comes after that start, what is sent is what an
engine with a fresh L2P side sends. -/
structure LeavesNothing (s₀ : L2pEngine) (is : List L2pEngineTick) : Prop where
  noHeader : Always (step gByteSwap) (fun s t => s.aborted = true → s.sendsHeader t = false) s₀ is
  fresh : Always (step gByteSwap) (fun s t => s.aborted = true → s.accepts t = true →
    ∀ js, SameOutput (run (step gByteSwap) (step gByteSwap s t) js)
      (run (step gByteSwap) (fresh gByteSwap s t) js)) s₀ is

variable {gByteSwap}
variable {s f : L2pEngine} {t : L2pEngineTick} {i : L2pEngineClk}

/-- No address, no read and no word is on its way, and the grant is free or ends with the packet. -/
structure Clean (s : L2pEngine) : Prop where
  addrFifoWr : s.l2p.targetCnt.addrFifoWr = false
  addrFifo : s.bus.fifo.contents = []
  fifoValid : s.bus.wb.fifoValid = false
  stb : s.bus.wb.stb = false
  cyc : s.bus.wb.cyc = false
  dataFifo : s.dataFifo.contents = []
  gnt : s.arb.gnt.arbLdmGnt = true → SourceLines.last s.l2p.arb = true

instance : Decidable s.Clean :=
  decidable_of_iff
    (s.l2p.targetCnt.addrFifoWr = false ∧ s.bus.fifo.contents = [] ∧ s.bus.wb.fifoValid = false ∧
      s.bus.wb.stb = false ∧ s.bus.wb.cyc = false ∧ s.dataFifo.contents = [] ∧
      (s.arb.gnt.arbLdmGnt = true → SourceLines.last s.l2p.arb = true))
    ⟨fun ⟨h₁, h₂, h₃, h₄, h₅, h₆, h₇⟩ => ⟨h₁, h₂, h₃, h₄, h₅, h₆, h₇⟩,
      fun ⟨h₁, h₂, h₃, h₄, h₅, h₆, h₇⟩ => ⟨h₁, h₂, h₃, h₄, h₅, h₆, h₇⟩⟩

/-- The condition on the edges from an abort to the next start. -/
def Harmless (s : L2pEngine) (t : L2pEngineTick) : Prop :=
  (∀ i ∈ t.clk, (s.aborted || s.seesAbort t) = true → s.l2p.PassesHeader (s.l2pIn i)) ∧
    (s.aborted = true → s.accepts t = true → s.Clean)

instance : Decidable (s.Harmless t) :=
  have : Decidable (∀ i ∈ t.clk, (s.aborted || s.seesAbort t) = true → s.l2p.PassesHeader (s.l2pIn i)) :=
    Option.decidableForallMem t.clk
  inferInstanceAs (Decidable (_ ∧ _))

/-! ## A start after a clean abort -/

theorem accepts_iff (hclk : t.clk = some i) :
    s.accepts t = true ↔
      s.controller.fsm.dmaCtrlStartL2p = true ∧ s.l2p.fsm.l2pDmaCurrentState = .idle := by
  simp [accepts, hclk]

theorem Clean.dataFifo_empty (h : s.Clean) : s.dataFifo.empty = true := by
  have hready : s.dataFifo.ready = [] := (List.append_eq_nil_iff.mp h.dataFifo).1
  simp [AsyncFifo.empty, hready]

variable (gByteSwap t) in
/-- No word comes out of a closed cycle. -/
theorem Clean.dataFifo_step (h : s.Clean) : (step gByteSwap s t).dataFifo.contents = [] := by
  have hwr : s.dataFifoWr t = false := by
    unfold dataFifoWr
    cases t.bus <;> simp [h.cyc]
  have hrd : s.reads t = false := by simp [reads, h.dataFifo_empty]
  have hreads : s.reads t = true → s.dataFifo.ready ≠ [] := ready_of_reads
  have hcontents := AsyncFifo.contents_tick hreads (s.dataFifoWr t) (dataFifoDin t) t.dataArrive
  rw [hrd, hwr] at hcontents
  show (s.dataFifo.tick (s.dataFifoWr t) (dataFifoDin t) (s.reads t) t.dataArrive).contents = []
  rw [hrd, hwr]
  simpa [h.dataFifo] using hcontents

theorem Clean.bus_quiet (h : s.Clean) (hclosed : s.bus.Closed) : s.bus.Quiet :=
  ⟨h.addrFifo, h.fifoValid, h.stb, h.cyc, hclosed h.cyc⟩

theorem Clean.bus_step (h : s.Clean) (hclosed : s.bus.Closed) : (step gByteSwap s t).bus.Quiet := by
  apply (h.bus_quiet hclosed).step
  simp [busTick, addrWrite, h.addrFifoWr]

variable (gByteSwap) in
/-- From a clean start on the engine does what an engine with a fresh L2P side does. -/
theorem Clean.alike (h : s.Clean) (hclosed : s.bus.Closed) (hreq : s.l2p.ReqShape)
    (haccepts : s.accepts t = true) : (step gByteSwap s t).Alike (fresh gByteSwap s t) := by
  obtain ⟨i, hclk⟩ : ∃ i, t.clk = some i := by
    apply Option.isSome_iff_exists.mp
    simp only [accepts, Bool.and_eq_true] at haccepts
    exact haccepts.1.1
  obtain ⟨hstart, hidle⟩ := (accepts_iff hclk).mp haccepts
  have hnone : s.l2p.fsm.ldmArbReq = false := by
    simpa [L2pDmaMaster.ReqShape, hidle] using hreq
  have hgnt : (step gByteSwap s t).arb.gnt.arbLdmGnt = false := by
    have hgrant : (step gByteSwap s t).arb.gnt = s.arb.pGrant (s.sources i) := by
      simp [step, hclk, L2pArbiter.step]
    rw [hgrant]
    exact L2pArbiter.ldm_released hnone h.gnt
  have hl2p : (step gByteSwap s t).l2p.Alike (fresh gByteSwap s t).l2p false := by
    have hin : { s.l2pIn i with dataFifoEmpty := true } = s.l2pIn i := by
      simp [l2pIn, h.dataFifo_empty]
    simp only [step, fresh, hclk, Option.elim_some, hin]
    exact L2pDmaMaster.alike_of_start hidle hstart h.dataFifo_empty hnone h.addrFifoWr 0 false
  have hwords := List.append_eq_nil_iff.mp (h.dataFifo_step gByteSwap t)
  refine ⟨rfl, ?_, rfl, ?_, ?_, ?_, ?_⟩
  · show (step gByteSwap s t).arb =
      { (step gByteSwap s t).arb with gnt := { (step gByteSwap s t).arb.gnt with arbLdmGnt := false } }
    rw [← hgnt]
  · rw [hgnt]
    exact hl2p
  · exact (h.bus_step hclosed).alike (DmaWishbone.reset_quiet 0 0)
  · exact ⟨hwords.1, hwords.2⟩
  · right
    have hidle' : (step gByteSwap s t).l2p.fsm.l2pDmaCurrentState = .idle := by
      rw [hl2p.fsm]
      simp [fresh, hclk, L2pDmaMaster.step, L2pDmaMaster.pPktFsm, L2pDmaMaster.reset]
    simp [L2pDmaMaster.Unread, hidle']

theorem Alike.after (h : s.Alike f) (js : List L2pEngineTick) :
    (run (L2pEngine.step gByteSwap) s js).Alike (run (L2pEngine.step gByteSwap) f js) := by
  induction js generalizing s f with
  | nil => exact h
  | cons j js ih => exact ih h.step

theorem Alike.sameOutput (h : s.Alike f) : s.SameOutput f where
  l2p := by
    unfold L2pDmaMaster.arb
    rw [h.l2p.fsm]
  arb := h.arb
  stb := h.bus.stb
  adr := fun hstb => (h.bus.lines hstb).1

/-! ## Runs -/

/-- What holds in every state of a run of harmless edges. -/
structure Tidy (s : L2pEngine) : Prop where
  req : s.l2p.ReqShape
  closed : s.bus.Closed
  noHeader : s.aborted = true → s.l2p.fsm.l2pDmaCurrentState ≠ .header

theorem reset_tidy (addrFifoDin : Word) (dataFifoValid : Bool) (addrFifoDout dataFifoDout : Word) :
    (reset addrFifoDin dataFifoValid addrFifoDout dataFifoDout).Tidy where
  req := rfl
  closed := fun _ => by simp [reset, L2pDmaWishbone.reset, DmaWishbone.reset, DmaWbMaster.reset,
    DmaWbMaster.unacked]
  noHeader := fun habort => by simp [reset] at habort

theorem Tidy.step (h : s.Tidy) (hharmless : s.Harmless t) : (L2pEngine.step gByteSwap s t).Tidy where
  req := by
    cases hclk : t.clk with
    | none => simpa [L2pEngine.step, hclk] using h.req
    | some i => simpa [L2pEngine.step, hclk] using h.req.step
  closed := h.closed.step
  noHeader := by
    intro haborted
    simp only [L2pEngine.step, Bool.and_eq_true] at haborted
    cases hclk : t.clk with
    | none =>
        have hbefore : s.aborted = true := by simpa [seesAbort, hclk] using haborted.2
        simpa [L2pEngine.step, hclk] using h.noHeader hbefore
    | some i =>
        simpa [L2pEngine.step, hclk] using (hharmless.1 i hclk haborted.2).step

theorem Tidy.sendsHeader (h : s.Tidy) (habort : s.aborted = true) : s.sendsHeader t = false := by
  unfold L2pEngine.sendsHeader
  cases t.clk <;> simp [h.noHeader habort]

/-- **A harmless abort leaves nothing behind.** -/
theorem nothing_left_behind (gByteSwap : Bool) (addrFifoDin : Word) (dataFifoValid : Bool)
    (addrFifoDout dataFifoDout : Word) (is : List L2pEngineTick)
    (hharmless : Always (step gByteSwap) Harmless
      (reset addrFifoDin dataFifoValid addrFifoDout dataFifoDout) is) :
    LeavesNothing gByteSwap (reset addrFifoDin dataFifoValid addrFifoDout dataFifoDout) is := by
  have hreset := reset_tidy addrFifoDin dataFifoValid addrFifoDout dataFifoDout
  have hkeeps : ∀ s t, Tidy s → Harmless s t → Tidy (step gByteSwap s t) := fun _ _ h => h.step
  have hrun := Always.of_invariant hkeeps hharmless hreset
  constructor
  · apply hrun.mono
    intro s t hedge habort
    exact hedge.1.sendsHeader habort
  · apply hrun.mono
    intro s t hedge habort haccepts js
    have hclean : s.Clean := hedge.2.2 habort haccepts
    have halike := hclean.alike gByteSwap hedge.1.closed hedge.1.req haccepts
    exact (halike.after js).sameOutput

/-! ### Aborts that the host can time -/

/-- An edge of both clocks at which the slave answers and the other masters rest. -/
def hostEdge (loads : DmaLoads) (l2pRdy : Bool) : L2pEngineTick where
  clk := some
    { loads := loads
      p2lDone := false
      p2lError := false
      nextItem := .reset
      nextItemValid := false
      lWrRdy := 0b11#2
      l2pRdy := l2pRdy
      addrFifoFull := false
      wbm := ⟨false, false, 0, false⟩
      pdm := ⟨false, false, 0, false⟩ }
  bus := some ⟨true, 0xDA7A#32, false, false, false⟩
  addrArrive := 1
  dataArrive := 1

/-- The host orders an L2P transfer of `len` bytes. -/
def orderEdge (len : Word) : L2pEngineTick :=
  hostEdge { DmaLoads.none with dmaCtrl := some 1, dmaLen := some len, dmaHstartl := some 0x1000 } true

/-- The host sets the abort bit. -/
def abortEdge (l2pRdy : Bool) : L2pEngineTick :=
  hostEdge { DmaLoads.none with dmaCtrl := some 2 } l2pRdy

/-- The edges up to the one that accepts a second order.  The first one, of one word, is aborted
while its last word waits for `l2p_rdy`. -/
def lateAbortEdges : List L2pEngineTick :=
  orderEdge 4 :: List.replicate 8 (hostEdge .none true) ++ abortEdge false ::
    List.replicate 4 (hostEdge .none false) ++ List.replicate 2 (hostEdge .none true) ++ orderEdge 8 ::
    List.replicate 2 (hostEdge .none true)

/-- An abort that comes too late to matter, and a second transfer. -/
theorem late_abort_leaves_nothing :
    let s := run (step false) (reset 0 false 0 0) lateAbortEdges
    s.aborted = true ∧ s.accepts (hostEdge .none true) = true ∧
      LeavesNothing false (reset 0 false 0 0) (lateAbortEdges ++ List.replicate 12 (hostEdge .none true)) :=
  ⟨by decide +kernel, by decide +kernel, nothing_left_behind false 0 false 0 0 _ (by decide +kernel)⟩

/-- Six words, and an abort that is seen while the first of them is sent. -/
def earlyAbortEdges : List L2pEngineTick :=
  orderEdge 24 :: List.replicate 8 (hostEdge .none true) ++ abortEdge true ::
    List.replicate 6 (hostEdge .none true)

/-- Two words, an abort that is seen while the last of them is popped, and an order of one word. -/
def keptGrantEdges : List L2pEngineTick :=
  orderEdge 8 :: List.replicate 9 (hostEdge .none true) ++ abortEdge true ::
    List.replicate 3 (hostEdge .none true) ++ orderEdge 4 :: List.replicate 2 (hostEdge .none true)

/-- The first abort is followed by another header of the same transfer.  The second one leaves the
grant with the master, so that the header of the next transfer goes out before its size is loaded:
it announces the two words of the aborted transfer. -/
theorem abort_leaves_header :
    ¬ LeavesNothing false (reset 0 false 0 0) earlyAbortEdges ∧
      ¬ LeavesNothing false (reset 0 false 0 0) (keptGrantEdges ++ [hostEdge .none true]) ∧
      (run (step false) (reset 0 false 0 0)
        (keptGrantEdges ++ List.replicate 8 (hostEdge .none true))).l2p.arb =
          ⟨true, true, writeHeader false 2, false⟩ := by
  refine ⟨?_, ?_, by decide +kernel⟩
  · intro hnothing
    have hheader : ¬ Always (step false) (fun s t => s.aborted = true → s.sendsHeader t = false)
        (reset 0 false 0 0) earlyAbortEdges := by decide +kernel
    exact hheader hnothing.noHeader
  · intro hnothing
    have hstart := ((always_concat _ _ _ _).mp hnothing.fresh).2 (by decide +kernel) (by decide +kernel)
    -- the header is on the lines eight cycles later
    have hlines := (hstart (List.replicate 7 (hostEdge .none true))).l2p
    exact absurd hlines (by decide +kernel)

end L2pEngine

end Gn4124Core
