import Gn4124Core.Arbitration.Sources

/-!
# The arbiter and its three sources

`l2p_arbiter` with the packet FSMs of `wbmaster32`, `p2l_dma_master` and `l2p_dma_master`.
The FIFOs, the host and the DMA controller are inputs, so that every timing of them is
covered.

The arbiter is seen as an arbiter of a shared bus: its grant registers name the owner
(`L2pGrants.owner`), and an edge changes the owner as the bus protocol allows
(`nextOwner_step`).  The sources keep to the protocol too, so the stream on the bus is made
of whole packets.  The output registers delay this stream by two cycles (`output_eq`).
-/

namespace Gn4124Core

open Clocked

/-- The sources of L2P packets. -/
inductive Source where
  | wbm
  | pdm
  | ldm
deriving DecidableEq

namespace L2pGrants

variable (g : L2pGrants)

/-- At most one grant is set. -/
def AtMostOne : Prop :=
  ¬ (g.arbWbmGnt ∧ g.arbPdmGnt) ∧ ¬ (g.arbWbmGnt ∧ g.arbLdmGnt) ∧ ¬ (g.arbPdmGnt ∧ g.arbLdmGnt)

/-- The source that has the grant. -/
def owner : Option Source :=
  if g.arbWbmGnt then some .wbm
  else if g.arbPdmGnt then some .pdm
  else if g.arbLdmGnt then some .ldm
  else none

/-- The grant of one source. -/
def granted : Source → Bool
  | .wbm => g.arbWbmGnt
  | .pdm => g.arbPdmGnt
  | .ldm => g.arbLdmGnt

variable {g}

theorem AtMostOne.granted_eq (h : g.AtMostOne) (k : Source) : g.granted k = decide (g.owner = some k) := by
  obtain ⟨w, p, l⟩ := g
  cases k <;> cases w <;> cases p <;> cases l <;> simp_all [AtMostOne, granted, owner]

/-- The grant registers are one-hot or clear. -/
theorem AtMostOne.cases (h : g.AtMostOne) :
    g = ⟨false, false, false⟩ ∨ g = ⟨true, false, false⟩ ∨ g = ⟨false, true, false⟩ ∨
      g = ⟨false, false, true⟩ := by
  obtain ⟨w, p, l⟩ := g
  cases w <;> cases p <;> cases l <;> simp_all [AtMostOne]

end L2pGrants

/-- The word in an output register. -/
def L2pSer.word (w : L2pSer) : List (Bool × Word) := if w.valid then [(w.dframe, w.data)] else []

/-- The lines of the three sources, by source. -/
def L2pArbiterIn.lines (i : L2pArbiterIn) : Source → L2pSource
  | .wbm => i.wbm
  | .pdm => i.pdm
  | .ldm => i.ldm

namespace L2pArbiter

variable {s : L2pArbiter} {i : L2pArbiterIn}

theorem atMostOne_step (h : s.gnt.AtMostOne) : (s.pGrant i).AtMostOne := by
  unfold pGrant
  split_ifs
  · simp [L2pGrants.AtMostOne]
  · simp [L2pGrants.AtMostOne]
  · simp [L2pGrants.AtMostOne]
  · simp [L2pGrants.AtMostOne]
  · exact h

/-- Without a request there is no grant. -/
theorem ldm_not_granted (hreq : i.ldm.req = false) (hgnt : s.gnt.arbLdmGnt = false) :
    (s.pGrant i).arbLdmGnt = false := by
  simp only [pGrant, ldmArbReqValid, hreq, Bool.false_and, Bool.false_eq_true, if_false]
  split_ifs
  · rfl
  · rfl
  · rfl
  · exact hgnt

/-- Without a request the grant ends with the packet. -/
theorem ldm_released (hreq : i.ldm.req = false)
    (hlast : s.gnt.arbLdmGnt = true → SourceLines.last i.ldm = true) :
    (s.pGrant i).arbLdmGnt = false := by
  cases hgnt : s.gnt.arbLdmGnt with
  | false => exact ldm_not_granted hreq hgnt
  | true =>
      have heop : s.eop i = true := by simp [eop, hgnt, hlast hgnt]
      simp only [pGrant, ldmArbReqValid, hreq, heop, Bool.false_and, Bool.false_eq_true, if_false, if_true]
      split_ifs <;> rfl

/-- A source has the grant because it asks for the bus, or it keeps it within its packet. -/
theorem pdm_granted (hgnt : (s.pGrant i).arbPdmGnt = true) :
    i.pdm.req = true ∨ s.gnt.arbPdmGnt = true ∧ SourceLines.last i.pdm = false := by
  unfold pGrant at hgnt
  split_ifs at hgnt with hwbm hldm hpdm heop
  · left
    exact (Bool.and_eq_true_iff.mp hpdm).1
  · right
    refine ⟨hgnt, Bool.eq_false_iff.mpr fun hlast => heop ?_⟩
    simp [eop, hgnt, hlast]

theorem ldm_granted (hgnt : (s.pGrant i).arbLdmGnt = true) :
    i.ldm.req = true ∨ s.gnt.arbLdmGnt = true ∧ SourceLines.last i.ldm = false := by
  unfold pGrant at hgnt
  split_ifs at hgnt with hwbm hldm hpdm heop
  · left
    exact (Bool.and_eq_true_iff.mp hldm).1
  · right
    refine ⟨hgnt, Bool.eq_false_iff.mpr fun hlast => heop ?_⟩
    simp [eop, hgnt, hlast]

/-- The arbiter keeps to the bus protocol. -/
theorem nextOwner_step (h : s.gnt.AtMostOne) :
    NextOwner i.lines s.gnt.owner (s.pGrant i).owner := by
  rcases h.cases with hg | hg | hg | hg
  · -- a free bus goes to the source with the highest priority that asks for it
    cases hw : i.wbm.req <;> cases hl : i.ldm.req <;> cases hp : i.pdm.req <;>
      simp [NextOwner, L2pGrants.owner, L2pArbiterIn.lines, pGrant, wbmArbReqValid,
        ldmArbReqValid, pdmArbReqValid, eop, hg, hw, hl, hp]
  · cases hreq : i.wbm.req <;> cases hlast : i.wbm.last <;>
      simp [NextOwner, L2pGrants.owner, L2pArbiterIn.lines, pGrant, wbmArbReqValid,
        ldmArbReqValid, pdmArbReqValid, eop, hg, hreq, hlast]
  · cases hreq : i.pdm.req <;> cases hlast : i.pdm.last <;>
      simp [NextOwner, L2pGrants.owner, L2pArbiterIn.lines, pGrant, wbmArbReqValid,
        ldmArbReqValid, pdmArbReqValid, eop, hg, hreq, hlast]
  · cases hreq : i.ldm.req <;> cases hlast : i.ldm.last <;>
      simp [NextOwner, L2pGrants.owner, L2pArbiterIn.lines, pGrant, wbmArbReqValid,
        ldmArbReqValid, pdmArbReqValid, eop, hg, hreq, hlast]

/-- The first output register takes the word on the bus. -/
theorem word_pSerT (h : s.gnt.AtMostOne) :
    (s.pSerT i).word = untagged (busWord s.gnt.owner i.lines) := by
  rcases h.cases with hg | hg | hg | hg
  · simp [pSerT, L2pGrants.owner, L2pSer.none, L2pSer.word, busWord, untagged, hg]
  · simp only [pSerT, L2pGrants.owner, hg, if_true, untagged_busWord]
    rfl
  · simp only [pSerT, L2pGrants.owner, hg, if_true, Bool.false_eq_true, if_false, untagged_busWord]
    rfl
  · simp only [pSerT, L2pGrants.owner, hg, if_true, Bool.false_eq_true, if_false, untagged_busWord]
    rfl

end L2pArbiter

/-! ## The system -/

/-- The arbiter and its sources. -/
structure L2pPath where
  wbm : WbmClk
  pdm : P2lDmaMaster
  ldm : L2pDmaMaster
  arb : L2pArbiter
deriving DecidableEq

/-- The inputs of the three sources.  The arbiter drives their grants. -/
structure L2pPathIn where
  wbm : WbmClkIn
  pdm : P2lDmaIn
  ldm : L2pDmaIn
deriving DecidableEq

namespace L2pPath

variable (gByteSwap : Bool) (s : L2pPath) (i : L2pPathIn)

def sources : L2pArbiterIn := ⟨s.wbm.arb, s.pdm.arb, s.ldm.arb⟩

def wbmIn : WbmClkIn := { i.wbm with arbWbmGnt := s.arb.gnt.arbWbmGnt }

def pdmIn : P2lDmaIn := { i.pdm with arbPdmGnt := s.arb.gnt.arbPdmGnt }

def ldmIn : L2pDmaIn := { i.ldm with arbLdmGnt := s.arb.gnt.arbLdmGnt }

/-- One edge of `clk_i`. -/
def step : L2pPath where
  wbm := s.wbm.step (s.wbmIn i)
  pdm := s.pdm.step gByteSwap (s.pdmIn i)
  ldm := s.ldm.step gByteSwap (s.ldmIn i)
  arb := s.arb.step s.sources

def reset (addrFifoDin : Word) (dataFifoValid : Bool) : L2pPath :=
  ⟨.reset, .reset, .reset addrFifoDin dataFifoValid, .reset⟩

/-- No DMA is aborted. -/
def NoAbort (i : L2pPathIn) : Prop := i.pdm.ctrl.abort = false ∧ i.ldm.ctrl.abort = false

instance (i : L2pPathIn) : Decidable (NoAbort i) := inferInstanceAs (Decidable (_ ∧ _))

/-- The lines are in the phase that the FSM states say, and the owner of the bus is the
only source with a packet under way. -/
structure Arbitrated (s : L2pPath) : Prop where
  wbm : s.wbm.Shape
  pdm : s.pdm.Shape
  ldm : s.ldm.Shape
  atMostOne : s.arb.gnt.AtMostOne
  owned : Owned s.arb.gnt.owner s.sources.lines

theorem reset_arbitrated (addrFifoDin : Word) (dataFifoValid : Bool) :
    Arbitrated (reset addrFifoDin dataFifoValid) where
  wbm := WbmClk.reset_shape
  pdm := P2lDmaMaster.reset_shape
  ldm := L2pDmaMaster.reset_shape _ _
  atMostOne := by simp [L2pGrants.AtMostOne, reset, L2pArbiter.reset]
  owned := by
    refine ⟨fun k hbusy => ?_, fun k hk => ?_⟩
    · cases k <;> exact hbusy.elim
    · simp [reset, L2pArbiter.reset, L2pGrants.owner] at hk

variable {gByteSwap s i}

theorem Arbitrated.next (h : s.Arbitrated) (hi : NoAbort i) (k : Source) :
    Phase.Next (decide (s.arb.gnt.owner = some k)) (s.sources.lines k).phase
      ((step gByteSwap s i).sources.lines k).phase := by
  rw [← h.atMostOne.granted_eq]
  cases k with
  | wbm => exact h.wbm.next (i := s.wbmIn i)
  | pdm => exact h.pdm.next (i := s.pdmIn i)
  | ldm => exact h.ldm.next (i := s.ldmIn i) hi.2

theorem Arbitrated.step (h : s.Arbitrated) (hi : NoAbort i) :
    (step gByteSwap s i).Arbitrated where
  wbm := h.wbm.step
  pdm := h.pdm.step
  ldm := h.ldm.step hi.2
  atMostOne := L2pArbiter.atMostOne_step h.atMostOne
  owned := h.owned.step (h.next hi) (L2pArbiter.nextOwner_step h.atMostOne)

/-! ## The stream at the output -/

/-- The word on the bus, under the name of its source. -/
def busWords (s : L2pPath) : List (Bool × Source × Word) := busWord s.arb.gnt.owner s.sources.lines

/-- The words on the bus along a run. -/
abbrev merged (gByteSwap : Bool) (s : L2pPath) (is : List L2pPathIn) : List (Bool × Source × Word) :=
  log (step gByteSwap) (fun s _ => s.busWords) s is

/-- The words that one source presents as valid along a run. -/
abbrev presented (gByteSwap : Bool) (s : L2pPath) (is : List L2pPathIn) (k : Source) :
    List (Bool × Word) :=
  log (step gByteSwap) (fun s _ => (s.sources.lines k).word) s is

/-- The words with `arb_ser_valid_o = '1'` along a run. -/
abbrev output (gByteSwap : Bool) (s : L2pPath) (is : List L2pPathIn) : List (Bool × Word) :=
  log (step gByteSwap) (fun s _ => s.arb.arbSerO.word) s is

/-- The words in the output registers of the arbiter. -/
def inPipeline (s : L2pPath) : List (Bool × Word) := s.arb.arbSerO.word ++ s.arb.arbSerT.word

variable {is : List L2pPathIn}

/-- The output is the stream on the bus, two cycles later. -/
theorem output_eq (harb : Always (step gByteSwap) (fun s _ => s.Arbitrated) s is) :
    output gByteSwap s is ++ (run (step gByteSwap) s is).inPipeline =
      s.inPipeline ++ untagged (merged gByteSwap s is) := by
  have hsecond : log (step gByteSwap) (fun s _ => s.arb.arbSerO.word) s is ++
      (run (step gByteSwap) s is).arb.arbSerO.word =
        s.arb.arbSerO.word ++ log (step gByteSwap) (fun s _ => s.arb.arbSerT.word) s is :=
    log_view (fun s => s.arb.arbSerO.word) s is
  have hfirst : log (step gByteSwap) (fun s _ => s.arb.arbSerT.word) s is ++
      (run (step gByteSwap) s is).arb.arbSerT.word =
        s.arb.arbSerT.word ++
          log (step gByteSwap) (after (step gByteSwap) fun s => s.arb.arbSerT.word) s is :=
    log_view (fun s => s.arb.arbSerT.word) s is
  have hbus : log (step gByteSwap) (after (step gByteSwap) fun s => s.arb.arbSerT.word) s is =
      log (step gByteSwap) (fun s _ => untagged s.busWords) s is :=
    log_congr (fun s i h => L2pArbiter.word_pSerT h.atMostOne) harb
  have huntagged : untagged (merged gByteSwap s is) =
      log (step gByteSwap) (fun s _ => untagged s.busWords) s is := by
    unfold untagged
    exact (log_map _ (fun s _ => busWords s) s is).symm
  calc output gByteSwap s is ++ (run (step gByteSwap) s is).inPipeline
      = (output gByteSwap s is ++ (run (step gByteSwap) s is).arb.arbSerO.word) ++
          (run (step gByteSwap) s is).arb.arbSerT.word := (List.append_assoc ..).symm
    _ = s.arb.arbSerO.word ++ (log (step gByteSwap) (fun s _ => s.arb.arbSerT.word) s is ++
          (run (step gByteSwap) s is).arb.arbSerT.word) := by rw [hsecond, List.append_assoc]
    _ = s.inPipeline ++ log (step gByteSwap) (fun s _ => untagged s.busWords) s is := by
          rw [hfirst, hbus, inPipeline, List.append_assoc]
    _ = s.inPipeline ++ untagged (merged gByteSwap s is) := by rw [huntagged]

theorem merging_run (h : s.Arbitrated)
    (legal : Always (step gByteSwap) (fun _ i => NoAbort i) s is) :
    (run (step gByteSwap) s is).Arbitrated ∧
      Merging (run (step gByteSwap) s is).arb.gnt.owner (run (step gByteSwap) s is).sources.lines
        (merged gByteSwap s is) := by
  have hnil : Merging s.arb.gnt.owner s.sources.lines [] :=
    ⟨fun p hp => by simp at hp, fun w hw => by simp at hw⟩
  refine invariant_log (motive := fun s words => s.Arbitrated ∧
    Merging s.arb.gnt.owner s.sources.lines words) ?_ legal ⟨h, hnil⟩
  intro s i words hs hi
  obtain ⟨harb, hmerging⟩ := hs
  refine ⟨harb.step hi, ?_⟩
  exact hmerging.step (harb.next hi) (L2pArbiter.nextOwner_step harb.atMostOne)

/-- The stream on the bus has the words of every source. -/
theorem wordsOf_merged (harb : Always (step gByteSwap) (fun s _ => s.Arbitrated) s is)
    (k : Source) : wordsOf k (merged gByteSwap s is) = presented gByteSwap s is k := by
  have hbus : log (step gByteSwap) (fun s _ => wordsOf k s.busWords) s is =
      presented gByteSwap s is k := log_congr (fun s _ h => h.owned.wordsOf_busWord k) harb
  rw [← hbus]
  exact (log_filterMap _ (fun s _ => busWords s) s is).symm

/-- **Packets of the L2P sources.**  In every run from reset without abort, at most one
grant is set, and the output of the arbiter, with the two words in its registers, is a
stream of whole packets: each packet is one that a source presented, with all its words in
order, and the packets of every source appear in its order and exactly once. -/
theorem packets_not_mixed (addrFifoDin : Word) (dataFifoValid : Bool)
    (legal : Always (step gByteSwap) (fun _ i => NoAbort i) (reset addrFifoDin dataFifoValid) is) :
    let s := reset addrFifoDin dataFifoValid
    (run (step gByteSwap) s is).arb.gnt.AtMostOne ∧
      output gByteSwap s is ++ (run (step gByteSwap) s is).inPipeline =
        untagged (merged gByteSwap s is) ∧
      Merges (presented gByteSwap s is) (merged gByteSwap s is) ∧
      ∀ k, packets (presented gByteSwap s is k) =
        ((packets (merged gByteSwap s is)).filter (comesFrom k)).map (List.map Prod.snd) := by
  intro s
  have hreset : s.Arbitrated := reset_arbitrated addrFifoDin dataFifoValid
  obtain ⟨hrun, hmerging⟩ := merging_run hreset legal
  have harb : Always (step gByteSwap) (fun s _ => s.Arbitrated) s is :=
    (Always.of_invariant (fun _ _ h hi => h.step hi) legal hreset).mono fun _ _ h => h.1
  refine ⟨hrun.atMostOne, ?_, ⟨hmerging.whole, hmerging.oneSource, wordsOf_merged harb⟩, fun k => ?_⟩
  · rw [output_eq harb]
    rfl
  · rw [← wordsOf_merged harb k]
    exact (packets_wordsOf hmerging.whole hmerging.oneSource k).1

/-! ### An L2P DMA of two packets and CSR read data -/

/-- A cycle with all the ready lines up.  `order` orders an L2P DMA of 33 words, `csr` is read
data in `from_wb_fifo`, and `dma` is data in `data_fifo`. -/
def readyEdge (order csr dma : Bool) : L2pPathIn where
  wbm := ⟨.quiet, false, 0b11#2, !csr, 0xcafe⟩
  pdm := ⟨.quiet, .quiet, false⟩
  ldm :=
    { ctrl := if order then { DmaCtrl.quiet with hostAddrL := 0x1000, len := 132, startL2p := true }
        else .quiet
      arbLdmGnt := false
      lWrRdy := 0b11#2
      l2pRdy := true
      addrFifoFull := false
      dataFifoEmpty := !dma
      dataFifoDout := 0xd }

/-- The first packet is under way for some cycles when the read data comes, and `n` cycles
follow. -/
def twoPackets (n : ℕ) : List L2pPathIn :=
  readyEdge true false false ::
    (List.replicate 10 (readyEdge false false true) ++ List.replicate n (readyEdge false true true))

theorem twoPackets_merged :
    Merges (presented false (reset 0 false) (twoPackets 36)) (merged false (reset 0 false) (twoPackets 36)) ∧
      (packets (merged false (reset 0 false) (twoPackets 36))).map
          (fun p => (p.head?.map Prod.fst, p.length)) =
        [(some .ldm, 34), (some .ldm, 3), (some .wbm, 2)] :=
  ⟨(packets_not_mixed 0 false (by decide +kernel)).2.2.1, by decide +kernel⟩

end L2pPath

end Gn4124Core
