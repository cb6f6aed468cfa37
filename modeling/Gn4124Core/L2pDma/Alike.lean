import Gn4124Core.DmaWishbone.Alike
import Gn4124Core.L2pDma.Engine

/-!
# L2P DMA engines that do the same

Two engines that agree in all registers but those that are loaded again before they are read: the
sizes in the packet generator, which are loaded in `L2P_HEADER`, before the header is sent as long
as the grant is not there yet (`Unsized`); the output of the data FIFO, which shows another word
before the first data word is sent (`Unread`); and the address and data registers behind a strobe
that is low.  One edge keeps the agreement (`Alike.step`), so the engines send the same for ever.
-/

namespace Gn4124Core

open Clocked

/-! ## The masters -/

namespace L2pDmaMaster

/-- The packet generator loads the sizes of the packet before its header can be sent. -/
def Unsized (s : L2pDmaMaster) (gnt : Bool) : Prop :=
  gnt = false ∧ (s.fsm.l2pDmaCurrentState = .idle ∧ s.fsm.ldmArbReq = false ∨
    s.fsm.l2pDmaCurrentState = .header)

/-- The address counters agree, but for an address that is not written. -/
structure AlikeTarget (a b : TargetCnt) : Prop where
  targetAddrCnt : a.targetAddrCnt = b.targetAddrCnt
  dmaLengthCnt : a.dmaLengthCnt = b.dmaLengthCnt
  dmaCtrlError : a.dmaCtrlError = b.dmaCtrlError
  addrFifoWr : a.addrFifoWr = b.addrFifoWr
  addrFifoDin : a.addrFifoWr = true → a.addrFifoDin = b.addrFifoDin

/-- The packet generators agree, but for the sizes of a packet. -/
structure AlikeOrder (a b : PktGen) : Prop where
  l2pLenCnt : a.l2pLenCnt = b.l2pLenCnt
  l2pAddressH : a.l2pAddressH = b.l2pAddressH
  l2pAddressL : a.l2pAddressL = b.l2pAddressL
  l2pByteSwap : a.l2pByteSwap = b.l2pByteSwap

/-- The two masters do the same from now on, under the grant `gnt`. -/
structure Alike (a b : L2pDmaMaster) (gnt : Bool) : Prop where
  target : AlikeTarget a.targetCnt b.targetCnt
  fsm : a.fsm = b.fsm
  dataFifoValid : a.dataFifoValid = b.dataFifoValid
  order : AlikeOrder a.pktGen b.pktGen
  sizes : a.pktGen = b.pktGen ∨ a.Unsized gnt

variable {gByteSwap : Bool} {a b : L2pDmaMaster} {x : L2pDmaIn} {d : Word} {gnt gnt' : Bool}

theorem AlikeTarget.step (h : AlikeTarget a.targetCnt b.targetCnt) (hfsm : a.fsm = b.fsm) :
    AlikeTarget (a.pTargetCnt x) (b.pTargetCnt { x with dataFifoDout := d }) := by
  obtain ⟨haddr, hlen, herror, hwr, hdin⟩ := h
  unfold pTargetCnt
  rw [← hfsm, ← hlen]
  split_ifs
  · exact ⟨rfl, rfl, rfl, hwr, hdin⟩
  · exact ⟨rfl, rfl, rfl, hwr, hdin⟩
  · exact ⟨by rw [haddr], rfl, herror, rfl, fun _ => by rw [haddr]⟩
  · exact ⟨haddr, hlen, herror, rfl, fun hwritten => by simp at hwritten⟩

/-- With the same sizes the packet generators do the same. -/
theorem pPktGen_congr (hfsm : a.fsm = b.fsm) (hvalid : a.dataFifoValid = b.dataFifoValid)
    (hpkt : a.pktGen = b.pktGen) : a.pPktGen x = b.pPktGen { x with dataFifoDout := d } := by
  unfold pPktGen
  rw [hfsm, hvalid, hpkt]

theorem loadSize_congr {g g' : PktGen} (h : AlikeOrder g g') (high : Bool) :
    { g.loadSize with l2p64bAddress := high } = { g'.loadSize with l2p64bAddress := high } := by
  obtain ⟨hlen, hhigh, hlow, hswap⟩ := h
  unfold PktGen.loadSize
  rw [hlen]
  split_ifs <;> simp [hhigh, hlow, hswap]

/-- The sizes are loaded, or the master still waits for a word. -/
theorem Unsized.step (h : a.Unsized gnt) (horder : AlikeOrder a.pktGen b.pktGen) (hfsm : a.fsm = b.fsm)
    (hfree : gnt = false → a.fsm.ldmArbReq = false → gnt' = false) :
    AlikeOrder (a.pPktGen x) (b.pPktGen { x with dataFifoDout := d }) ∧
      (a.pPktGen x = b.pPktGen { x with dataFifoDout := d } ∨ (a.step gByteSwap x).Unsized gnt') := by
  obtain ⟨hgnt, hstate⟩ := h
  unfold pPktGen
  rw [← hfsm]
  rcases hstate with ⟨hidle, hreq⟩ | hheader
  · have hnext : (a.step gByteSwap x).Unsized gnt' := by
      refine ⟨hfree hgnt hreq, ?_⟩
      show ((a.pPktFsm gByteSwap x).l2pDmaCurrentState = .idle ∧ (a.pPktFsm gByteSwap x).ldmArbReq = false) ∨
        (a.pPktFsm gByteSwap x).l2pDmaCurrentState = .header
      cases hempty : x.dataFifoEmpty <;> simp [pPktFsm, hidle, hempty, hreq]
    refine ⟨?_, .inr hnext⟩
    simp only [hidle]
    split_ifs
    · exact ⟨rfl, rfl, rfl, rfl⟩
    · exact horder
  · simp only [hheader]
    have hsame := loadSize_congr horder (a.pktGen.l2pAddressH != 0)
    rw [← horder.l2pAddressH, ← hsame]
    exact ⟨⟨rfl, rfl, rfl, rfl⟩, .inl rfl⟩

variable (gByteSwap) in
/-- The FSMs do the same. -/
theorem Alike.fsm_step (h : a.Alike b gnt) (hgnt : x.arbLdmGnt = gnt)
    (hdout : x.dataFifoDout = d ∨
      a.fsm.l2pDmaCurrentState ≠ .data ∧ a.fsm.l2pDmaCurrentState ≠ .lastData) :
    a.pPktFsm gByteSwap x = b.pPktFsm gByteSwap { x with dataFifoDout := d } := by
  obtain ⟨-, hfsm, hvalid, -, hsizes⟩ := h
  unfold pPktFsm dataWord
  rcases hsizes with hpkt | ⟨hfree, hidle | hheader⟩
  · rw [← hfsm, ← hvalid, ← hpkt]
    rcases hdout with hsame | ⟨hdata, hlast⟩
    · rw [hsame]
    · cases hstate : a.fsm.l2pDmaCurrentState with
      | data => exact absurd hstate hdata
      | lastData => exact absurd hstate hlast
      | idle | waitData | header | addrH | addrL | waitRdy => rfl
  · rw [← hfsm]
    simp only [hidle.1]
  · rw [← hfsm]
    simp [hheader, hgnt, hfree]

theorem Alike.step (h : a.Alike b gnt) (hgnt : x.arbLdmGnt = gnt)
    (hdout : x.dataFifoDout = d ∨
      a.fsm.l2pDmaCurrentState ≠ .data ∧ a.fsm.l2pDmaCurrentState ≠ .lastData)
    (hfree : gnt = false → a.fsm.ldmArbReq = false → gnt' = false) :
    (L2pDmaMaster.step gByteSwap a x).Alike
      (L2pDmaMaster.step gByteSwap b { x with dataFifoDout := d }) gnt' := by
  have hfsm' := h.fsm_step gByteSwap hgnt hdout
  obtain ⟨htarget, hfsm, hvalid, horder, hsizes⟩ := h
  have hrd : a.pGenDataFifoValid x = b.pGenDataFifoValid { x with dataFifoDout := d } := by
    unfold pGenDataFifoValid
    rw [hfsm]
  have hpkt : AlikeOrder (a.pPktGen x) (b.pPktGen { x with dataFifoDout := d }) ∧
      (a.pPktGen x = b.pPktGen { x with dataFifoDout := d } ∨
        (L2pDmaMaster.step gByteSwap a x).Unsized gnt') := by
    rcases hsizes with hsame | hunsized
    · have heq := pPktGen_congr (x := x) (d := d) hfsm hvalid hsame
      rw [heq]
      exact ⟨⟨rfl, rfl, rfl, rfl⟩, .inl rfl⟩
    · exact hunsized.step horder hfsm hfree
  exact ⟨htarget.step hfsm, hfsm', hrd, hpkt.1, hpkt.2⟩

end L2pDmaMaster

/-! ## The engines -/

namespace L2pEngine

/-- The two engines do the same from now on. -/
structure Alike (s f : L2pEngine) : Prop where
  controller : s.controller = f.controller
  arb : s.arb = f.arb
  aborted : s.aborted = f.aborted
  l2p : s.l2p.Alike f.l2p s.arb.gnt.arbLdmGnt
  bus : DmaWishbone.Alike s.bus f.bus
  dataFifo : s.dataFifo.SameWords f.dataFifo
  q : s.dataFifo.q = f.dataFifo.q ∨ s.l2p.Unread (s.dataFifo.ready ≠ [])

variable {gByteSwap : Bool} {s f : L2pEngine} {t : L2pEngineTick} {i : L2pEngineClk}

theorem Alike.controllerIn (h : s.Alike f) : s.controllerIn i = f.controllerIn i := by
  unfold L2pEngine.controllerIn
  rw [h.l2p.fsm, h.l2p.target.dmaCtrlError]

theorem Alike.l2pIn (h : s.Alike f) : f.l2pIn i = { s.l2pIn i with dataFifoDout := f.dataFifo.q } := by
  unfold L2pEngine.l2pIn
  rw [h.controller, h.arb, h.dataFifo.empty]

theorem Alike.sources (h : s.Alike f) : s.sources i = f.sources i := by
  unfold L2pEngine.sources L2pDmaMaster.arb
  rw [h.l2p.fsm]

theorem Alike.busTick (h : s.Alike f) : s.busTick t = f.busTick t := by
  unfold L2pEngine.busTick addrWrite
  rw [← h.l2p.target.addrFifoWr]
  cases hwr : s.l2p.targetCnt.addrFifoWr with
  | false => simp
  | true => rw [h.l2p.target.addrFifoDin hwr]

theorem Alike.reads (h : s.Alike f) : s.reads t = f.reads t := by
  unfold L2pEngine.reads
  rw [h.l2p.fsm, h.dataFifo.empty]

theorem Alike.dataFifoWr (h : s.Alike f) : s.dataFifoWr t = f.dataFifoWr t := by
  unfold L2pEngine.dataFifoWr
  rw [h.bus.cyc]

theorem ready_of_reads (h : s.reads t = true) : s.dataFifo.ready ≠ [] := by
  apply AsyncFifo.ready_ne_nil
  simp only [L2pEngine.reads, Bool.and_eq_true, Bool.not_eq_true'] at h
  exact h.2

/-- The output of the data FIFO is the same, or it is not read yet. -/
theorem Alike.q_step (h : s.Alike f) :
    (step gByteSwap s t).dataFifo.q = (step gByteSwap f t).dataFifo.q ∨
      (step gByteSwap s t).l2p.Unread ((step gByteSwap s t).dataFifo.ready ≠ []) := by
  have htick : ∀ e : L2pEngine, (step gByteSwap e t).dataFifo =
      e.dataFifo.tick (e.dataFifoWr t) (dataFifoDin t) (e.reads t) t.dataArrive := fun _ => rfl
  rw [htick, htick, ← h.reads, ← h.dataFifoWr]
  cases hreads : s.reads t with
  | true => exact .inl (h.dataFifo.q_tick (.inr ⟨rfl, ready_of_reads hreads⟩) _ _ _ _)
  | false =>
      rcases h.q with hq | hunread
      · left
        rw [AsyncFifo.tick_false_q, AsyncFifo.tick_false_q, hq]
      · right
        have hkept : s.dataFifo.ready ≠ [] →
            (s.dataFifo.tick (s.dataFifoWr t) (dataFifoDin t) false t.dataArrive).ready ≠ [] :=
          fun hready => AsyncFifo.tick_false_ready_ne_nil hready _ _ _
        cases hclk : t.clk with
        | none =>
            have hl2p : (step gByteSwap s t).l2p = s.l2p := by simp [step, hclk]
            rw [hl2p]
            exact hunread.mono hkept
        | some i =>
            have hl2p : (step gByteSwap s t).l2p = s.l2p.step gByteSwap (s.l2pIn i) := by
              simp [step, hclk]
            rw [hl2p]
            refine hunread.step AsyncFifo.empty_eq_false ?_ hkept
            rintro ⟨hrd, hready⟩
            simp [L2pEngine.reads, hclk, hrd, AsyncFifo.empty_eq_false.mpr hready] at hreads

theorem Alike.l2p_step (h : s.Alike f) :
    (step gByteSwap s t).l2p.Alike (step gByteSwap f t).l2p (step gByteSwap s t).arb.gnt.arbLdmGnt := by
  cases hclk : t.clk with
  | none => simpa [step, hclk] using h.l2p
  | some i =>
      have hl2p : ∀ e : L2pEngine, (step gByteSwap e t).l2p = e.l2p.step gByteSwap (e.l2pIn i) :=
        fun _ => by simp [step, hclk]
      have hgnt : (step gByteSwap s t).arb.gnt = s.arb.pGrant (s.sources i) := by
        simp [step, hclk, L2pArbiter.step]
      rw [hl2p, hl2p, h.l2pIn, hgnt]
      apply h.l2p.step rfl
      · rcases h.q with hq | hunread
        · exact .inl hq
        · right
          unfold L2pDmaMaster.Unread at hunread
          constructor <;> intro hstate <;> simp [hstate] at hunread
      · intro hfree hreq
        exact L2pArbiter.ldm_not_granted hreq hfree

/-- **One edge keeps the agreement.** -/
theorem Alike.step (h : s.Alike f) : (L2pEngine.step gByteSwap s t).Alike (L2pEngine.step gByteSwap f t) where
  controller := by
    cases hclk : t.clk with
    | none => simpa [L2pEngine.step, hclk] using h.controller
    | some i => simp [L2pEngine.step, hclk, h.controllerIn, h.controller]
  arb := by
    cases hclk : t.clk with
    | none => simpa [L2pEngine.step, hclk] using h.arb
    | some i => simp [L2pEngine.step, hclk, h.sources, h.arb]
  aborted := by
    simp [L2pEngine.step, accepts, seesAbort, h.controller, h.l2p.fsm, h.aborted]
  l2p := h.l2p_step
  bus := by
    show (DmaWishbone.step s.bus (s.busTick t)).Alike (DmaWishbone.step f.bus (f.busTick t))
    rw [← h.busTick]
    exact h.bus.step
  dataFifo := by
    show (s.dataFifo.tick _ _ (s.reads t) _).SameWords (f.dataFifo.tick _ _ (f.reads t) _)
    rw [← h.reads, ← h.dataFifoWr]
    exact h.dataFifo.tick (fun _ => rfl) _ _
  q := h.q_step

end L2pEngine

end Gn4124Core
