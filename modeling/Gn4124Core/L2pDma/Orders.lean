import Gn4124Core.L2pDma.CarrierToHost

/-!
# Orders of the L2P DMA engine

What an order asks for (`copy`: words of carrier memory at a place in host memory), what is
assumed of the surroundings while orders are carried out (`Legal`), and what does not depend on
an order being under way: a controller that nobody tells to abort, and packet sides that differ
in the time at which their words arrive.

The results about single transfers (`Front`, `Flow`) are about a packet side of which all words
are known at the start.  Here they arrive while the transfer is under way.  `UpToArrival.front`
and `UpToArrival.flow` carry the invariants over to a path with more words on their way, and
`Flow.timely` tells which packets look at the time of the arrival: those of one or two words, for
which `Legal` has a condition of its own.
-/

namespace Gn4124Core

open Clocked Blocks

/-! ## The controller -/

namespace DmaController

/-- What holds of a controller that is never told to abort. -/
structure NeverAborts (s : DmaController) : Prop where
  bit : abortBit s.regs.dmaCtrlReg = false
  state : s.fsm.dmaCtrlCurrentState ≠ .abort
  line : s.fsm.dmaCtrlAbort = false
  start : s.fsm.dmaCtrlStartL2p = true →
    s.fsm.dmaCtrlCurrentState = .transfer ∧ s.fsm.dmaCtrlLen.extractLsb' 2 30 ≠ 0

variable {s : DmaController} {i : DmaControllerIn}

theorem reset_neverAborts : reset.NeverAborts := ⟨rfl, by decide, rfl, by decide⟩

theorem NeverAborts.step (h : s.NeverAborts) (hload : ∀ w ∈ i.loads.dmaCtrl, abortBit w = false) :
    (s.step i).NeverAborts := by
  obtain ⟨hbit, hstate, hline, hstart⟩ := h
  have hnostart : s.fsm.dmaCtrlCurrentState ≠ .transfer → s.fsm.dmaCtrlStartL2p = false := by
    intro hother
    by_contra hset
    exact hother (hstart (by simpa using hset)).1
  refine ⟨?_, ?_, ?_, ?_⟩
  · rw [abortBit_step]
    cases hctrl : i.loads.dmaCtrl with
    | none => exact hbit
    | some w => exact hload w hctrl
  · show (s.pFsm i).dmaCtrlCurrentState ≠ .abort
    cases hnow : s.fsm.dmaCtrlCurrentState with
    | idle | error =>
        simp only [pFsm, hnow]
        split <;> simp
    | startTransfer =>
        simp only [pFsm, hnow]
        split <;> simp
    | transfer | chain =>
        simp only [pFsm, hnow, hbit, Bool.false_eq_true, if_false]
        split_ifs <;> simp
    | startChain => simp [pFsm, hnow]
    | abort => exact absurd hnow hstate
  · show (s.pFsm i).dmaCtrlAbort = false
    cases hnow : s.fsm.dmaCtrlCurrentState with
    | idle | error => simpa only [pFsm, hnow] using hline
    | startTransfer =>
        simp only [pFsm, hnow]
        split <;> rfl
    | transfer | chain =>
        simp only [pFsm, hnow]
        split_ifs <;> exact hline
    | startChain => simpa only [pFsm, hnow] using hline
    | abort => exact absurd hnow hstate
  · show (s.pFsm i).dmaCtrlStartL2p = true →
      (s.pFsm i).dmaCtrlCurrentState = .transfer ∧ (s.pFsm i).dmaCtrlLen.extractLsb' 2 30 ≠ 0
    intro hset
    cases hnow : s.fsm.dmaCtrlCurrentState with
    | idle | error | startChain =>
        have hclear := hnostart (by simp [hnow])
        simp only [pFsm, hnow] at hset
        exact absurd (hclear.symm.trans hset) (by decide)
    | startTransfer =>
        have hclear := hnostart (by simp [hnow])
        simp only [pFsm, hnow] at hset ⊢
        split at hset
        · exact absurd (hclear.symm.trans hset) (by decide)
        · next hwords =>
            rw [if_neg hwords]
            exact ⟨rfl, hwords⟩
    | transfer =>
        simp only [pFsm, hnow] at hset
        split_ifs at hset
    | chain =>
        have hclear := hnostart (by simp [hnow])
        simp only [pFsm, hnow] at hset
        split_ifs at hset <;> exact absurd (hclear.symm.trans hset) (by decide)
    | abort => exact absurd hnow hstate

/-- The controller waits for the end of a transfer. -/
theorem transfer_waits (hnow : s.fsm.dmaCtrlCurrentState = .transfer)
    (hbit : abortBit s.regs.dmaCtrlReg = false) (herror : i.dmaCtrlError = false)
    (hdone : i.dmaCtrlDone = false) :
    (s.step i).fsm.dmaCtrlCurrentState = .transfer ∧ (s.step i).fsm.dmaCtrlStartL2p = false := by
  show (s.pFsm i).dmaCtrlCurrentState = .transfer ∧ (s.pFsm i).dmaCtrlStartL2p = false
  simp [pFsm, hnow, hbit, herror, hdone]

end DmaController

/-! ## The orders -/

/-- The transfer of the words in carrier memory that an order asks for. -/
def DmaCtrl.carrierTransfer (c : DmaCtrl) (mem : Word → Word) : WriteTransfer :=
  c.writeTransfer ((carrierArea c.carrierAddr (c.len.toNat / 4)).map mem)

/-- Host memory when the first `n` words of an order are copied. -/
def copyFirst (gByteSwap : Bool) (mem : Word → Word) (n : ℕ) (host : HostWords) (c : DmaCtrl) :
    HostWords :=
  store host (wordAddress (c.hostAddrH ++ c.hostAddrL))
    (((carrierArea c.carrierAddr (c.len.toNat / 4)).map fun a =>
      fByteSwap gByteSwap (mem a) c.byteSwap).take n)

/-- Host memory when an order is carried out. -/
def copy (gByteSwap : Bool) (mem : Word → Word) (host : HostWords) (c : DmaCtrl) : HostWords :=
  copyFirst gByteSwap mem (c.len.toNat / 4) host c

/-- The packets of an order do not leave the 4 GB that it begins in. -/
def DmaCtrl.Fits (c : DmaCtrl) : Prop :=
  c.hostAddrL.toNat + 128 * ((c.len.toNat / 4 + 31) / 32 - 1) < 2 ^ 32

instance (c : DmaCtrl) : Decidable c.Fits := inferInstanceAs (Decidable (_ < _))

namespace DmaCtrl

variable (c : DmaCtrl) (mem : Word → Word) (gByteSwap : Bool)

theorem len_carrierTransfer : (c.carrierTransfer mem).len = c.len.toNat / 4 := by
  simp [carrierTransfer, writeTransfer, WriteTransfer.len, carrierArea]

theorem hostWords_carrierTransfer : (c.carrierTransfer mem).hostWords gByteSwap =
    (carrierArea c.carrierAddr (c.len.toNat / 4)).map fun a =>
      fByteSwap gByteSwap (mem a) c.byteSwap := by
  simp [carrierTransfer, writeTransfer, WriteTransfer.hostWords, Function.comp_def]

end DmaCtrl

namespace CarrierToHost

variable (gByteSwap : Bool) (mem : Word → Word)

/-! ## What is assumed of an edge -/

structure Legal (s : CarrierToHost) (t : L2pEngineTick) : Prop where
  /-- The slave answers only what it is asked for, with the word in its memory. -/
  answers : ∀ p ∈ t.bus, p.l2pDmaAck = true → s.served.outstanding ≠ []
  fromMemory : ∀ a ∈ s.answered t, a.2 = mem a.1
  noAbort : ∀ i ∈ t.clk, ∀ w ∈ i.loads.dmaCtrl, abortBit w = false
  l2pRdy : ∀ i ∈ t.clk, i.l2pRdy = true
  /-- The words of a packet of one or two words are in time. -/
  timely : t.clk.isSome = true →
    s.engine.l2p.pktGen.l2pLenHeader = 1 ∨ s.engine.l2p.pktGen.l2pLenHeader = 2 →
      L2pDmaPath.Timely (s.path [])
  /-- The P2L DMA master reports nothing while the L2P DMA master has an order. -/
  p2l : ∀ i ∈ t.clk, (s.engine.controller.fsm.dmaCtrlStartL2p || s.ordered) = true →
    i.p2lDone = false ∧ i.p2lError = false
  fits : s.engine.accepts t = true → s.engine.controller.lines.Fits

instance (s : CarrierToHost) (t : L2pEngineTick) : Decidable (Legal mem s t) :=
  have : Decidable (∀ p ∈ t.bus, p.l2pDmaAck = true → s.served.outstanding ≠ []) :=
    Option.decidableForallMem t.bus
  have : Decidable (∀ a ∈ s.answered t, a.2 = mem a.1) := List.decidableBAll _ _
  have (i : L2pEngineClk) : Decidable (∀ w ∈ i.loads.dmaCtrl, abortBit w = false) :=
    Option.decidableForallMem i.loads.dmaCtrl
  have : Decidable (∀ i ∈ t.clk, ∀ w ∈ i.loads.dmaCtrl, abortBit w = false) :=
    Option.decidableForallMem t.clk
  have : Decidable (∀ i ∈ t.clk, i.l2pRdy = true) := Option.decidableForallMem t.clk
  have : Decidable (∀ i ∈ t.clk, (s.engine.controller.fsm.dmaCtrlStartL2p || s.ordered) = true →
      i.p2lDone = false ∧ i.p2lError = false) :=
    Option.decidableForallMem t.clk
  decidable_of_iff
    ((∀ p ∈ t.bus, p.l2pDmaAck = true → s.served.outstanding ≠ []) ∧
      (∀ a ∈ s.answered t, a.2 = mem a.1) ∧
      (∀ i ∈ t.clk, ∀ w ∈ i.loads.dmaCtrl, abortBit w = false) ∧
      (∀ i ∈ t.clk, i.l2pRdy = true) ∧
      (t.clk.isSome = true → s.engine.l2p.pktGen.l2pLenHeader = 1 ∨ s.engine.l2p.pktGen.l2pLenHeader = 2 →
        L2pDmaPath.Timely (s.path [])) ∧
      (∀ i ∈ t.clk, (s.engine.controller.fsm.dmaCtrlStartL2p || s.ordered) = true →
        i.p2lDone = false ∧ i.p2lError = false) ∧
      (s.engine.accepts t = true → s.engine.controller.lines.Fits))
    ⟨fun ⟨h₁, h₂, h₃, h₄, h₅, h₆, h₇⟩ => ⟨h₁, h₂, h₃, h₄, h₅, h₆, h₇⟩,
      fun ⟨h₁, h₂, h₃, h₄, h₅, h₆, h₇⟩ => ⟨h₁, h₂, h₃, h₄, h₅, h₆, h₇⟩⟩

variable {gByteSwap mem} {s : CarrierToHost} {t : L2pEngineTick} {c : DmaCtrl} {k : ℕ}
  {words : List (Bool × Word)}

/-! ## Paths that differ in the time of arrival -/

theorem UpToArrival.front {x : WriteTransfer} {Low : ℕ → Word → Prop} {p p' : L2pDmaPath}
    (h : UpToArrival p p') (hfront : x.Front Low k p words) : x.Front Low k p' words := by
  obtain ⟨ldm, f, arb⟩ := p
  obtain ⟨ldm', f', arb'⟩ := p'
  obtain ⟨hldm, harb, -, -⟩ := h
  obtain rfl : ldm = ldm' := hldm
  obtain rfl : arb = arb' := harb
  refine ⟨hfront.count, hfront.headed, hfront.done, hfront.bound, hfront.addrH, ?_⟩
  have hat := hfront.atFront
  unfold WriteTransfer.AtFront at hat ⊢
  have hbody : x.Body Low k ⟨ldm, f, arb⟩ words → x.Body Low k ⟨ldm, f', arb⟩ words :=
    fun h => ⟨h.more, h.headed, h.dframe, h.lenCnt, h.wide⟩
  cases hstate : ldm.fsm.l2pDmaCurrentState with
  | idle | header | addrH | addrL =>
      simp only [hstate] at hat ⊢
      exact hat
  | data | waitData | waitRdy | lastData =>
      simp only [hstate] at hat ⊢
      exact ⟨hbody hat.1, hat.2⟩

theorem UpToArrival.flow {x : WriteTransfer} {p p' : L2pDmaPath} (h : UpToArrival p p')
    (hflow : x.Flow gByteSwap k p words) : x.Flow gByteSwap k p' words := by
  have hfront := h.front hflow.front
  obtain ⟨ldm, f, arb⟩ := p
  obtain ⟨ldm', f', arb'⟩ := p'
  obtain ⟨hldm, harb, hcontents, hq⟩ := h
  obtain rfl : ldm = ldm' := hldm
  obtain rfl : arb = arb' := harb
  refine ⟨hfront, hflow.delivered, hflow.lengths, hflow.byteSwap, ?_⟩
  have hrest : ∀ m, x.Rest m f → x.Rest m f' := fun m h => hcontents.symm.trans h
  have hnext : ∀ m, x.Next m f → x.Next m f' := by
    intro m hm
    have hsame : f'.q :: f'.contents = f.q :: f.contents := by rw [hcontents, hq]
    exact hsame.trans hm
  have hat := hflow.atFlow
  unfold WriteTransfer.AtFlow at hat ⊢
  cases hstate : ldm.fsm.l2pDmaCurrentState with
  | idle =>
      simp only [hstate] at hat ⊢
      exact fun hdone => ⟨(hat hdone).1, hrest _ (hat hdone).2⟩
  | header | addrH | addrL =>
      simp only [hstate] at hat ⊢
      exact ⟨hat.1, hrest _ hat.2⟩
  | data =>
      simp only [hstate] at hat ⊢
      obtain ⟨j, hopen, hcnt, htwo, hrd, hfifo⟩ := hat
      refine ⟨j, hopen, hcnt, htwo, hrd, ?_⟩
      split
      · next hvalid => exact hnext _ (by rwa [if_pos hvalid] at hfifo)
      · next hvalid => exact hrest _ (by rwa [if_neg hvalid] at hfifo)
  | waitData =>
      simp only [hstate] at hat ⊢
      obtain ⟨j, hopen, hcnt, hone, hrd, hfifo⟩ := hat
      exact ⟨j, hopen, hcnt, hone, hrd, hrest _ hfifo⟩
  | lastData =>
      simp only [hstate] at hat ⊢
      obtain ⟨j, hopen, hj, hrd, hfifo⟩ := hat
      exact ⟨j, hopen, hj, hrd, hnext _ hfifo⟩
  | waitRdy => simp [hstate] at hat

/-! ## Packets of one or two words -/

end CarrierToHost

namespace WriteTransfer

open L2pDmaPath

variable {gByteSwap : Bool} {x : WriteTransfer} {k : ℕ} {p : L2pDmaPath} {i : L2pDmaPathIn}
  {words : List (Bool × Word)}

variable (x) in
/-- In `L2P_DATA`, as long as no word is at the output, the counter has all the words of the
packet. -/
def Unpopped (k : ℕ) (p : L2pDmaPath) : Prop :=
  p.ldm.fsm.l2pDmaCurrentState = .data → p.ldm.dataFifoValid = false → x.Sized k p.ldm.pktGen

/-- A packet that depends on the time at which its words arrive has one word or two. -/
theorem Flow.timely (h : x.Flow gByteSwap k p words) (hunpopped : x.Unpopped k p)
    (hshort : p.ldm.pktGen.l2pLenHeader = 1 ∨ p.ldm.pktGen.l2pLenHeader = 2 → Timely p) :
    Timely p := by
  constructor
  · intro hstate hone
    have hat := h.front.atFront
    simp only [AtFront, hstate] at hat
    obtain ⟨-, ⟨hmore, -, ⟨hcnt, hlength, -⟩, -, -⟩, -, -⟩ := hat
    have hle : x.chunk k ≤ 1 := hcnt ▸ hone
    have hchunk : x.chunk k = 1 := by
      unfold chunk at hle ⊢
      omega
    rw [hchunk] at hlength
    exact (hshort (.inl hlength)).one hstate hone
  · intro hstate hvalid htwo
    obtain ⟨hcnt, hlength, -⟩ := hunpopped hstate hvalid
    have hat := h.atFlow
    simp only [AtFlow, hstate] at hat
    obtain ⟨j, -, -, hlow, -⟩ := hat
    have hle : p.ldm.pktGen.l2pDataCnt.toNat ≤ 2 := htwo
    have hchunk : x.chunk k = 2 := by omega
    rw [hchunk] at hlength
    exact (hshort (.inr hlength)).two hstate hvalid htwo

theorem Flow.unpopped_step (h : x.Flow gByteSwap k p words) (hgo : Ongoing p i)
    (htimely : Timely p) {k' : ℕ}
    (hflow' : x.Flow gByteSwap k' (L2pDmaPath.step gByteSwap p i) (wordsAfter gByteSwap p i words)) :
    x.Unpopped k' (L2pDmaPath.step gByteSwap p i) := by
  intro hdata hvalid
  have hfsm : (L2pDmaPath.step gByteSwap p i).ldm.fsm = p.ldm.pPktFsm gByteSwap (p.ldmIn i) := rfl
  have hpop : (L2pDmaPath.step gByteSwap p i).ldm.dataFifoValid =
      (p.ldm.fsm.dataFifoRd && !p.dataFifo.empty) := rfl
  have hempty : (p.ldmIn i).dataFifoEmpty = p.dataFifo.empty := rfl
  have hat := h.atFlow
  rw [hfsm] at hdata
  rw [hpop] at hvalid
  cases hstate : p.ldm.fsm.l2pDmaCurrentState with
  | addrL =>
      -- the packet has just begun
      obtain rfl : k = k' := by
        rw [← (h.addrL_step hgo htimely hstate).front.count, hflow'.front.count]
      have hfront := h.front.atFront
      simp only [AtFront, hstate] at hfront
      obtain ⟨-, ⟨hmore, hlen, hsized, -, -⟩, -, -⟩ := hfront
      obtain ⟨lenCnt, hregs, -⟩ := lenCnt_addrL (x := p.ldmIn i) hstate hmore hlen hsized.2.2
      show x.Sized k (p.ldm.pPktGen (p.ldmIn i))
      rw [hregs]
      exact hsized
  | data =>
      simp only [AtFlow, hstate] at hat
      obtain ⟨j, -, -, -, hrd, -⟩ := hat
      have hnone : p.dataFifo.empty = true := by simpa [hrd] using hvalid
      simp only [L2pDmaMaster.pPktFsm, hstate, hempty, hnone] at hdata
      split_ifs at hdata
  | waitData =>
      simp only [AtFlow, hstate] at hat
      obtain ⟨j, -, -, -, hrd, -⟩ := hat
      have hnone : p.dataFifo.empty = true := by simpa [hrd] using hvalid
      simp only [L2pDmaMaster.pPktFsm, hstate, hempty, hnone, if_true] at hdata
      exact absurd hdata (by simp)
  | waitRdy => simp [AtFlow, hstate] at hat
  | addrH => simp [L2pDmaMaster.pPktFsm, hstate] at hdata
  | idle | header | lastData =>
      simp only [L2pDmaMaster.pPktFsm, hstate] at hdata
      split_ifs at hdata

end WriteTransfer

end Gn4124Core
