import Gn4124Core.Arbitration.Packets

/-!
# Renewal of the arbitration

The Wishbone master has the highest priority, and a request of it waits for the end of the
packet that is on the bus.  What happens in that cycle depends on the owner's own request.

* If the owner does not ask for the bus, all the grants are cleared, and one cycle later the
  Wishbone master gets the bus (`Released.accepts`).
* The L2P DMA master asks for the bus of its next packet in the very cycle in which the last
  word of the packet before is on its lines.  No other source's request is valid then, and
  its own is, so the grant stays (`Kept.accepts`).

The invariants here hold in aborted runs too.
-/

namespace Gn4124Core

open Clocked

/-! ## The lines in every run -/

namespace L2pDmaMaster

variable {gByteSwap : Bool} {s : L2pDmaMaster} {i : L2pDmaIn}

/-- The request goes with the header state, also after an abort. -/
def ReqShape (s : L2pDmaMaster) : Prop :=
  s.fsm.ldmArbReq = decide (s.fsm.l2pDmaCurrentState = .header)

theorem ReqShape.step (h : s.ReqShape) : (step gByteSwap s i).ReqShape := by
  show (s.pPktFsm gByteSwap i).ldmArbReq =
    decide ((s.pPktFsm gByteSwap i).l2pDmaCurrentState = .header)
  unfold ReqShape at h
  by_cases hheader : s.fsm.l2pDmaCurrentState = .header
  · have hreq : s.fsm.ldmArbReq = true := by simpa [hheader] using h
    simp only [pPktFsm, hheader]
    split_ifs
    · rfl
    · rfl
    · exact hreq
  · have hreq : s.fsm.ldmArbReq = false := by simpa [hheader] using h
    cases hstate : s.fsm.l2pDmaCurrentState with
    | idle =>
        simp only [pPktFsm, hstate]
        split_ifs
        · exact hreq
        · rfl
    | header => exact absurd hstate hheader
    | addrH =>
        simp only [pPktFsm, hstate]
        exact hreq
    | addrL =>
        simp only [pPktFsm, hstate]
        split_ifs <;> exact hreq
    | data =>
        simp only [pPktFsm, hstate]
        split_ifs <;> exact hreq
    | waitRdy =>
        simp only [pPktFsm, hstate]
        split_ifs <;> exact hreq
    | waitData =>
        simp only [pPktFsm, hstate]
        split_ifs <;> exact hreq
    | lastData =>
        simp only [pPktFsm, hstate]
        split_ifs
        · rfl
        · exact hreq
        · exact hreq

end L2pDmaMaster

namespace L2pPath

variable {gByteSwap : Bool} {s : L2pPath} {i : L2pPathIn} {is : List L2pPathIn}

/-! ## The next header -/

/-- The header that is accepted at an edge, by its source. -/
def accepts (s : L2pPath) (i : L2pPathIn) : List Source :=
  (if s.arb.gnt.arbWbmGnt ∧ s.wbm.fsm.l2pReadCplCurrentState = .header then [.wbm] else []) ++
  (if s.arb.gnt.arbLdmGnt ∧ s.ldm.fsm.l2pDmaCurrentState = .header ∧ i.ldm.lWrRdy = 0b11#2 then
    [.ldm] else []) ++
  (if s.arb.gnt.arbPdmGnt ∧ s.pdm.fsm.p2lDmaCurrentState = .header then [.pdm] else [])

/-- The source of the next header that is accepted in a run. -/
def nextHeader (gByteSwap : Bool) (s : L2pPath) (is : List L2pPathIn) : Option Source :=
  (log (step gByteSwap) accepts s is).head?

theorem nextHeader_of_none (h : s.accepts i = []) :
    s.nextHeader gByteSwap (i :: is) = (step gByteSwap s i).nextHeader gByteSwap is := by
  rw [nextHeader, log_cons, h, List.nil_append]
  rfl

theorem nextHeader_of_accepts {k : Source} (h : s.accepts i = [k]) :
    s.nextHeader gByteSwap (i :: is) = some k := by
  rw [nextHeader, log_cons, h]
  rfl

/-- The lines in every run, aborted or not. -/
structure Reachable (s : L2pPath) : Prop where
  wbm : s.wbm.Shape
  pdm : s.pdm.Shape
  ldm : s.ldm.ReqShape
  atMostOne : s.arb.gnt.AtMostOne

theorem reset_reachable (addrFifoDin : Word) (dataFifoValid : Bool) :
    Reachable (reset addrFifoDin dataFifoValid) where
  wbm := WbmClk.reset_shape
  pdm := P2lDmaMaster.reset_shape
  ldm := rfl
  atMostOne := by simp [L2pGrants.AtMostOne, reset, L2pArbiter.reset]

theorem Reachable.step (h : s.Reachable) : (step gByteSwap s i).Reachable where
  wbm := h.wbm.step
  pdm := h.pdm.step
  ldm := h.ldm.step
  atMostOne := L2pArbiter.atMostOne_step h.atMostOne

/-! ## The L2P DMA master keeps the bus -/

/-- The L2P DMA master has the bus and asks for it. -/
structure Kept (s : L2pPath) : Prop where
  gnt : s.arb.gnt = ⟨false, false, true⟩
  header : s.ldm.fsm.l2pDmaCurrentState = .header
  req : s.ldm.fsm.ldmArbReq = true

/-- Until its header is accepted, the L2P DMA master keeps the bus. -/
theorem Kept.step (h : s.Kept) :
    s.accepts i = [.ldm] ∨ s.accepts i = [] ∧ (step gByteSwap s i).Kept := by
  obtain ⟨hgnt, hheader, hreq⟩ := h
  by_cases hrdy : i.ldm.lWrRdy = 0b11#2
  · left
    simp [accepts, hgnt, hheader, hrdy]
  · right
    have hstay : (s.ldm.pPktFsm gByteSwap (s.ldmIn i)) = { s.ldm.fsm with ldmArbValid := false } := by
      simp [L2pDmaMaster.pPktFsm, hheader, ldmIn, hrdy]
    refine ⟨by simp [accepts, hgnt, hrdy], ?_, ?_, ?_⟩
    · simp [L2pPath.step, L2pArbiter.step, L2pArbiter.pGrant, L2pArbiter.wbmArbReqValid,
        L2pArbiter.ldmArbReqValid, sources, L2pDmaMaster.arb, hgnt, hreq]
    · simp [L2pPath.step, L2pDmaMaster.step, hstay, hheader]
    · simp [L2pPath.step, L2pDmaMaster.step, hstay, hreq]

theorem Kept.nextHeader (h : s.Kept) {k : Source} (hk : s.nextHeader gByteSwap is = some k) :
    k = .ldm := by
  induction is generalizing s with
  | nil => simp [L2pPath.nextHeader] at hk
  | cons i is ih =>
      have hstep : s.accepts i = [.ldm] ∨ s.accepts i = [] ∧ (L2pPath.step gByteSwap s i).Kept :=
        h.step
      rcases hstep with haccepts | ⟨haccepts, hkept⟩
      · rw [nextHeader_of_accepts haccepts] at hk
        exact (Option.some.inj hk).symm
      · rw [nextHeader_of_none haccepts] at hk
        exact ih hkept hk

/-! ## The bus is released -/

/-- The Wishbone master asks for the bus, and nobody has it. -/
structure Released (s : L2pPath) : Prop where
  gnt : s.arb.gnt = ⟨false, false, false⟩
  header : s.wbm.fsm.l2pReadCplCurrentState = .header
  req : s.wbm.fsm.wbmArbReq = true

variable (gByteSwap) in
/-- The Wishbone master gets a free bus in the next cycle, and sends its header in the one
after that. -/
theorem Released.accepts (h : s.Released) (i j : L2pPathIn) :
    s.accepts i = [] ∧ (step gByteSwap s i).accepts j = [.wbm] := by
  obtain ⟨hgnt, hheader, hreq⟩ := h
  have hnext : (step gByteSwap s i).arb.gnt = ⟨true, false, false⟩ := by
    simp [L2pPath.step, L2pArbiter.step, L2pArbiter.pGrant, L2pArbiter.wbmArbReqValid, sources,
      WbmClk.arb, hgnt, hreq]
  have hstay : (step gByteSwap s i).wbm.fsm.l2pReadCplCurrentState = .header := by
    simp [L2pPath.step, WbmClk.step, WbmClk.pReadCplFsm, wbmIn, hheader, hgnt]
  exact ⟨by simp [L2pPath.accepts, hgnt], by simp [L2pPath.accepts, hnext, hstay]⟩

variable (gByteSwap is) in
theorem Released.nextHeader (h : s.Released) :
    (∀ k, s.nextHeader gByteSwap is = some k → k = .wbm) ∧
      (2 ≤ is.length → s.nextHeader gByteSwap is = some .wbm) := by
  match is with
  | [] => simp [L2pPath.nextHeader]
  | [i] =>
      rw [nextHeader_of_none (h.accepts gByteSwap i i).1]
      simp [L2pPath.nextHeader]
  | i :: j :: is =>
      obtain ⟨hnone, hwbm⟩ := h.accepts gByteSwap i j
      rw [nextHeader_of_none hnone, nextHeader_of_accepts hwbm]
      exact ⟨fun k hk => (Option.some.inj hk).symm, fun _ => rfl⟩

/-! ## The end of a packet -/

/-- The cycle of the last word of a packet, with a request of the Wishbone master pending. -/
structure Pending (s : L2pPath) : Prop where
  eop : s.arb.eop s.sources = true
  req : s.wbm.fsm.wbmArbReq = true

/-- The L2P DMA master does not ask for the bus while it owns it. -/
def OwnerYields (s : L2pPath) : Prop := ¬ (s.arb.gnt.arbLdmGnt ∧ s.ldm.fsm.ldmArbReq)

theorem Pending.wbm_header (h : s.Pending) (hreach : s.Reachable) :
    s.wbm.fsm.l2pReadCplCurrentState = .header ∧ s.wbm.arb.last = false := by
  have hshape := hreach.wbm
  have hreq := h.req
  unfold WbmClk.Shape at hshape
  cases hstate : s.wbm.fsm.l2pReadCplCurrentState <;>
    simp_all [SourceLines.last, WbmClk.arb]

/-- Without a valid request the end of a packet clears all the grants. -/
theorem Pending.released (h : s.Pending) (hreach : s.Reachable) (i : L2pPathIn)
    (hwbm : s.arb.wbmArbReqValid s.sources = false) (hldm : s.arb.ldmArbReqValid s.sources = false)
    (hpdm : s.arb.pdmArbReqValid s.sources = false) (hgnt : s.arb.gnt.arbWbmGnt = false) :
    (step gByteSwap s i).Released := by
  obtain ⟨hheader, -⟩ := h.wbm_header hreach
  refine ⟨?_, ?_, ?_⟩
  · simp [L2pPath.step, L2pArbiter.step, L2pArbiter.pGrant, hwbm, hldm, hpdm, h.eop]
  · simp [L2pPath.step, WbmClk.step, WbmClk.pReadCplFsm, wbmIn, hheader, hgnt]
  · simpa [L2pPath.step, WbmClk.step, WbmClk.pReadCplFsm, wbmIn, hheader, hgnt] using h.req

variable (gByteSwap) in
/-- Either the L2P DMA master keeps the bus for its next packet, or the bus is released. -/
theorem Pending.cases (h : s.Pending) (hreach : s.Reachable) (i : L2pPathIn) :
    s.Kept ∧ ¬ s.OwnerYields ∨
      s.accepts i = [] ∧ (step gByteSwap s i).Released ∧ s.OwnerYields := by
  obtain ⟨hheader, hnotLast⟩ := h.wbm_header hreach
  have heop := h.eop
  simp only [L2pArbiter.eop, sources, hnotLast] at heop
  rcases hreach.atMostOne.cases with hg | hg | hg | hg
  · simp [hg] at heop
  · simp [hg] at heop
  · -- the P2L DMA master never asks in the cycle of its last word
    have hpdm : s.pdm.arb.last = true := by simpa [hg] using heop
    have hwait : s.pdm.fsm.p2lDmaCurrentState = .waitReadCompletion ∧ s.pdm.fsm.pdmArbReq = false := by
      have hshape := hreach.pdm
      unfold P2lDmaMaster.Shape at hshape
      cases hstate : s.pdm.fsm.p2lDmaCurrentState <;>
        simp_all [SourceLines.last, P2lDmaMaster.arb]
    have hyields : s.OwnerYields := by simp [OwnerYields, hg]
    refine .inr ⟨by simp [accepts, hg, hwait.1], h.released hreach i ?_ ?_ ?_ ?_, hyields⟩
    · simp [L2pArbiter.wbmArbReqValid, hg]
    · simp [L2pArbiter.ldmArbReqValid, hg]
    · simp [L2pArbiter.pdmArbReqValid, sources, P2lDmaMaster.arb, hwait.2]
    · rw [hg]
  · cases hreq : s.ldm.fsm.ldmArbReq with
    | true =>
        have hldm : s.ldm.fsm.l2pDmaCurrentState = .header := by
          simpa [L2pDmaMaster.ReqShape, hreq] using hreach.ldm
        exact .inl ⟨⟨hg, hldm, hreq⟩, by simp [OwnerYields, hg, hreq]⟩
    | false =>
        have hldm : s.ldm.fsm.l2pDmaCurrentState ≠ .header := by
          simpa [L2pDmaMaster.ReqShape, hreq] using hreach.ldm
        have hyields : s.OwnerYields := by simp [OwnerYields, hreq]
        refine .inr ⟨by simp [accepts, hg, hldm], h.released hreach i ?_ ?_ ?_ ?_, hyields⟩
        · simp [L2pArbiter.wbmArbReqValid, hg]
        · simp [L2pArbiter.ldmArbReqValid, sources, L2pDmaMaster.arb, hreq]
        · simp [L2pArbiter.pdmArbReqValid, hg]
        · rw [hg]

/-- **Renewal of the arbitration.**  Take any state that can be reached from reset, aborts
included, in which a packet ends while the Wishbone master asks for the bus.  The next
header accepted from any source is the Wishbone master's if and only if the L2P DMA master
does not both own the bus and ask for it in this cycle.  In that case the header follows
within three cycles. -/
theorem next_header_iff (gByteSwap : Bool) (addrFifoDin : Word) (dataFifoValid : Bool)
    (hs is : List L2pPathIn) :
    let s := run (step gByteSwap) (reset addrFifoDin dataFifoValid) hs
    s.Pending →
      (∀ k, s.nextHeader gByteSwap is = some k → (k = .wbm ↔ s.OwnerYields)) ∧
      (s.OwnerYields → 3 ≤ is.length → s.nextHeader gByteSwap is = some .wbm) := by
  intro s hpending
  have hreach : s.Reachable :=
    stable_run (fun _ _ h => h.step) (reset_reachable addrFifoDin dataFifoValid) hs
  match is with
  | [] => simp [nextHeader]
  | i :: is =>
      rcases hpending.cases gByteSwap hreach i with ⟨hkept, hkeeps⟩ | ⟨hnone, hreleased, hyields⟩
      · refine ⟨fun k hk => ?_, fun h => absurd h hkeeps⟩
        obtain rfl := hkept.nextHeader hk
        simp [hkeeps]
      · rw [nextHeader_of_none hnone]
        obtain ⟨honly, hsoon⟩ := hreleased.nextHeader gByteSwap is
        refine ⟨fun k hk => iff_of_true (honly k hk) hyields, fun _ hlen => hsoon ?_⟩
        rw [List.length_cons] at hlen
        omega

/-- The read data has been waiting since long before the end of the first packet, and yet the
second packet of the DMA follows the first. -/
theorem dma_keeps_bus :
    let s := run (step false) (reset 0 false) (twoPackets 26)
    (s.arb.eop s.sources = true ∧ s.wbm.fsm.wbmArbReq = true) ∧
      s.nextHeader false [readyEdge false true true] = some .ldm := by
  decide +kernel

theorem csr_after_dma :
    let s := run (step false) (reset 0 false) (twoPackets 29)
    s.nextHeader false (List.replicate 3 (readyEdge false true true)) = some .wbm := by
  have hpending : (run (step false) (reset 0 false) (twoPackets 29)).Pending :=
    ⟨by decide +kernel, by decide +kernel⟩
  have hyields : (run (step false) (reset 0 false) (twoPackets 29)).OwnerYields := by
    unfold OwnerYields
    decide +kernel
  exact (next_header_iff false 0 false (twoPackets 29) _ hpending).2 hyields (by decide)

end L2pPath

end Gn4124Core
