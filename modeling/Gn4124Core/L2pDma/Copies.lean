import Gn4124Core.L2pDma.Orders

/-!
# L2P transfers copy

Whatever orders the host writes into the registers, and whatever they find there: the packets that
leave the engine write into host memory what the accepted orders say, one after the other, and
nothing else.  At each time the last order may be carried out in part, namely up to the end of a
packet; and as soon as the controller has left the state TRANSFER it is carried out.

Between two orders nothing is on its way any more (`Resting`); that is why the next one finds the
FIFOs as after a reset.  During an order (`Copying`) the controller stays in TRANSFER and accepts no
other one, and the packet side keeps `WriteTransfer.Flow`, with the words that the slave
has yet to answer behind those in the data FIFO.

What is assumed of the surroundings is `Legal`.  The slave answers from a memory that does not
change; nobody aborts; the GN4124 does not stall; a buffer does not cross a boundary of 4 GB; and
the memory is in time for packets of one or two words, the only ones that depend on it.
-/

namespace Gn4124Core

open Clocked Blocks

namespace CarrierToHost

variable {gByteSwap : Bool} {mem : Word → Word} {s : CarrierToHost} {t : L2pEngineTick}
  {c : DmaCtrl} {k : ℕ} {words : List (Bool × Word)}

/-! ## What holds in every state -/

structure Sound (s : CarrierToHost) : Prop where
  controller : s.engine.controller.NeverAborts
  error : s.engine.l2p.targetCnt.dmaCtrlError = false
  settled : (s.path []).Settled
  balanced : s.served.Balanced
  few : s.requests.length < 2 ^ 30

theorem reset_sound (addrFifoDin : Word) (dataFifoValid : Bool) (addrFifoDout dataFifoDout : Word) :
    (reset addrFifoDin dataFifoValid addrFifoDout dataFifoDout).Sound where
  controller := DmaController.reset_neverAborts
  error := rfl
  settled := L2pDmaPath.reset_settled addrFifoDin dataFifoValid dataFifoDout []
  balanced := DmaServed.reset_balanced 0 addrFifoDout
  few := by
    have hnone : (reset addrFifoDin dataFifoValid addrFifoDout dataFifoDout).requests = [] := rfl
    rw [hnone]
    decide

theorem Sound.answers (h : s.Sound) (hlegal : Legal mem s t) : s.served.Answers (s.busTick t) := by
  constructor
  · intro p hp hack
    obtain ⟨p', hp', rfl⟩ := Option.map_eq_some_iff.mp hp
    exact hlegal.answers p' hp' hack
  · have hfew := h.few
    simp only [requests, inService, List.length_append] at hfew
    omega

theorem Sound.step (h : s.Sound) (hlegal : Legal mem s t)
    (hidle : s.engine.controller.fsm.dmaCtrlStartL2p = true →
      s.engine.l2p.fsm.l2pDmaCurrentState = .idle)
    (hfew : (step gByteSwap s t).requests.length < 2 ^ 30) : (step gByteSwap s t).Sound := by
  have hbalanced : (CarrierToHost.step gByteSwap s t).served.Balanced := by
    rw [served_step gByteSwap]
    exact h.balanced.step (h.answers hlegal)
  cases hclk : t.clk with
  | none =>
      have hcontroller : (CarrierToHost.step gByteSwap s t).engine.controller = s.engine.controller := by
        simp [CarrierToHost.step, L2pEngine.step, hclk]
      have hl2p : (CarrierToHost.step gByteSwap s t).engine.l2p = s.engine.l2p := by
        simp [CarrierToHost.step, L2pEngine.step, hclk]
      have harb : (CarrierToHost.step gByteSwap s t).engine.arb = s.engine.arb := by
        simp [CarrierToHost.step, L2pEngine.step, hclk]
      refine ⟨by rw [hcontroller]; exact h.controller, by rw [hl2p]; exact h.error, ?_, hbalanced, hfew⟩
      obtain ⟨hshape, hreads, hgranted⟩ := h.settled
      refine ⟨?_, ?_, ?_⟩
      · show (CarrierToHost.step gByteSwap s t).engine.l2p.Shape
        rwa [hl2p]
      · show L2pDmaPath.ReadsInPacket (CarrierToHost.step gByteSwap s t).engine.l2p
        rwa [hl2p]
      · show (CarrierToHost.step gByteSwap s t).engine.arb.gnt.arbLdmGnt = true →
          (CarrierToHost.step gByteSwap s t).engine.l2p.arb.phase ≠ .silent
        rwa [hl2p, harb]
  | some i =>
      have hcontroller : (CarrierToHost.step gByteSwap s t).engine.controller =
          s.engine.controller.step (s.engine.controllerIn i) := by
        simp [CarrierToHost.step, L2pEngine.step, hclk]
      have hl2p : (CarrierToHost.step gByteSwap s t).engine.l2p =
          s.engine.l2p.step gByteSwap (s.engine.l2pIn i) := by
        simp [CarrierToHost.step, L2pEngine.step, hclk]
      have harb : (CarrierToHost.step gByteSwap s t).engine.arb = s.engine.arb.step (s.engine.sources i) := by
        simp [CarrierToHost.step, L2pEngine.step, hclk]
      have habort : (s.pathIn i).ctrl.abort = false := h.controller.line
      refine ⟨?_, ?_, ?_, hbalanced, hfew⟩
      · rw [hcontroller]
        exact h.controller.step (hlegal.noAbort i hclk)
      · rw [hl2p]
        show (s.engine.l2p.pTargetCnt (s.engine.l2pIn i)).dmaCtrlError = false
        unfold L2pDmaMaster.pTargetCnt
        split_ifs with hstart hstate
        · rfl
        · exact absurd (hidle hstart) hstate
        · exact h.error
        · exact h.error
      · have hsettled : (L2pDmaPath.step gByteSwap (s.path []) (s.pathIn i)).Settled :=
          h.settled.step habort
        obtain ⟨hshape, hreads, hgranted⟩ := hsettled
        refine ⟨?_, ?_, ?_⟩
        · show (CarrierToHost.step gByteSwap s t).engine.l2p.Shape
          rw [hl2p]
          exact hshape
        · show L2pDmaPath.ReadsInPacket (CarrierToHost.step gByteSwap s t).engine.l2p
          rw [hl2p]
          exact hreads
        · show (CarrierToHost.step gByteSwap s t).engine.arb.gnt.arbLdmGnt = true →
            (CarrierToHost.step gByteSwap s t).engine.l2p.arb.phase ≠ .silent
          rw [hl2p, harb]
          exact hgranted

/-! ## During an order -/

/-- The first `k` packets of the order `c` are sent. -/
structure Copying (gByteSwap : Bool) (mem : Word → Word) (c : DmaCtrl) (k : ℕ) (s : CarrierToHost)
    (words : List (Bool × Word)) : Prop where
  state : s.engine.controller.fsm.dmaCtrlCurrentState = .transfer
  start : s.engine.controller.fsm.dmaCtrlStartL2p = false
  undone : s.engine.l2p.fsm.dmaCtrlDone = false
  flow : (c.carrierTransfer mem).Flow gByteSwap k (s.path (s.requests.map mem)) words
  front : (c.carrierTransfer mem).Front (fun k w => w = WriteTransfer.lowWord c.hostAddrL k) k
    (s.path (s.requests.map mem)) words
  unpopped : (c.carrierTransfer mem).Unpopped k (s.path (s.requests.map mem))

/-- No order is under way, and nothing is left of the one before. -/
structure Resting (s : CarrierToHost) : Prop where
  idle : s.engine.l2p.fsm.l2pDmaCurrentState = .idle
  requests : s.requests = []
  dataFifo : s.engine.dataFifo.contents = []
  done : s.engine.l2p.fsm.dmaCtrlDone = true →
    s.engine.controller.fsm.dmaCtrlCurrentState = .transfer ∧
      s.engine.controller.fsm.dmaCtrlStartL2p = false

variable (gByteSwap) in
/-- The words of the reads that are not answered are those that are written now and those that are
not answered then. -/
theorem Sound.words_step (h : s.Sound) (hlegal : Legal mem s t)
    (hnone : ∀ i ∈ t.clk, s.engine.controller.fsm.dmaCtrlStartL2p = false) :
    s.requests.map mem =
      (if s.engine.dataFifoWr t then [L2pEngine.dataFifoDin t] else []) ++
        (CarrierToHost.step gByteSwap s t).requests.map mem := by
  have hanswers := h.answers hlegal
  have hconserves : (s.answered t).map Prod.fst ++ (CarrierToHost.step gByteSwap s t).requests =
      s.requests ++ [] := requests_conserves gByteSwap hanswers hnone
  have hwords : (s.answered t).map Prod.snd = ((s.answered t).map Prod.fst).map mem := by
    rw [List.map_map]
    exact List.map_congr_left fun a ha => hlegal.fromMemory a ha
  rw [dataFifoWr_eq h.balanced hanswers, hwords, ← List.map_append, hconserves, List.append_nil]

variable (gByteSwap) in
theorem Sound.few_step (h : s.Sound) (hlegal : Legal mem s t)
    (hnone : ∀ i ∈ t.clk, s.engine.controller.fsm.dmaCtrlStartL2p = false) :
    (CarrierToHost.step gByteSwap s t).requests.length < 2 ^ 30 := by
  have hlength := congrArg List.length (h.words_step gByteSwap hlegal hnone)
  have hfew := h.few
  rw [List.length_append, List.length_map, List.length_map] at hlength
  omega

variable (gByteSwap) in
/-- The controller goes on waiting for the L2P DMA master. -/
theorem Sound.controller_waits (h : s.Sound) (hlegal : Legal mem s t) {i : L2pEngineClk}
    (hclk : t.clk = some i) (hstate : s.engine.controller.fsm.dmaCtrlCurrentState = .transfer)
    (hundone : s.engine.l2p.fsm.dmaCtrlDone = false)
    (hbusy : (s.engine.controller.fsm.dmaCtrlStartL2p || s.ordered) = true) :
    (CarrierToHost.step gByteSwap s t).engine.controller.fsm.dmaCtrlCurrentState = .transfer ∧
      (CarrierToHost.step gByteSwap s t).engine.controller.fsm.dmaCtrlStartL2p = false := by
  have hcontroller : (CarrierToHost.step gByteSwap s t).engine.controller =
      s.engine.controller.step (s.engine.controllerIn i) := by
    simp [CarrierToHost.step, L2pEngine.step, hclk]
  obtain ⟨hdone, herror⟩ := hlegal.p2l i hclk hbusy
  rw [hcontroller]
  exact DmaController.transfer_waits hstate h.controller.bit
    (by simp [L2pEngine.controllerIn, h.error, herror])
    (by simp [L2pEngine.controllerIn, hundone, hdone])

/-- An edge of the clock of the bus alone. -/
theorem Copying.step_bus (h : s.Copying gByteSwap mem c k words) (hsound : s.Sound)
    (hlegal : Legal mem s t) (hclk : t.clk = none) :
    (CarrierToHost.step gByteSwap s t).Copying gByteSwap mem c k words := by
  have hl2p : (CarrierToHost.step gByteSwap s t).engine.l2p = s.engine.l2p := by
    simp [CarrierToHost.step, L2pEngine.step, hclk]
  have hcontroller : (CarrierToHost.step gByteSwap s t).engine.controller = s.engine.controller := by
    simp [CarrierToHost.step, L2pEngine.step, hclk]
  have hsame := path_rest gByteSwap hclk (hsound.words_step gByteSwap hlegal (by simp [hclk]))
  refine ⟨?_, ?_, ?_, hsame.flow h.flow, hsame.front h.front, ?_⟩
  · rw [hcontroller]
    exact h.state
  · rw [hcontroller]
    exact h.start
  · rw [hl2p]
    exact h.undone
  · intro hdata hvalid
    rw [← hsame.ldm] at hdata hvalid ⊢
    exact h.unpopped hdata hvalid

theorem Copying.ongoing (h : s.Copying gByteSwap mem c k words) (hsound : s.Sound)
    (i : L2pEngineClk) (rest : List Word) : L2pDmaPath.Ongoing (s.path rest) (s.pathIn i) :=
  ⟨hsound.controller.line, fun _ => h.start, h.undone⟩

/-- **An edge during an order.**  It goes on, or it is done and carried out. -/
theorem Copying.step (h : s.Copying gByteSwap mem c k words) (hsound : s.Sound)
    (hlegal : Legal mem s t) (hordered : s.ordered = true) (hfits : c.Fits)
    {i : L2pEngineClk} (hclk : t.clk = some i) :
    ((CarrierToHost.step gByteSwap s t).engine.l2p.fsm.dmaCtrlDone = false ∧
        ∃ k', (CarrierToHost.step gByteSwap s t).Copying gByteSwap mem c k' (words ++ s.sent gByteSwap t)) ∨
      ((CarrierToHost.step gByteSwap s t).engine.l2p.fsm.dmaCtrlDone = true ∧ (CarrierToHost.step gByteSwap s t).Resting ∧
        openPacket (words ++ s.sent gByteSwap t) = [] ∧
        ∀ host, (packets (words ++ s.sent gByteSwap t)).foldl hostWrite host =
          copy gByteSwap mem host c) := by
  have hnone : ∀ i ∈ t.clk, s.engine.controller.fsm.dmaCtrlStartL2p = false := fun _ _ => h.start
  have hwords := hsound.words_step gByteSwap hlegal hnone
  have hsame := path_step gByteSwap hclk hwords
  have hgo := h.ongoing hsound i (s.requests.map mem)
  have hrdy : (s.pathIn i).l2pRdy = true := hlegal.l2pRdy i hclk
  have htimely : L2pDmaPath.Timely (s.path (s.requests.map mem)) := by
    refine h.flow.timely h.unpopped fun hshort => ?_
    obtain ⟨hone, htwo⟩ := hlegal.timely (by rw [hclk]; rfl) hshort
    exact ⟨hone, htwo⟩
  have hcontroller := hsound.controller_waits gByteSwap hlegal hclk h.state h.undone
    (by rw [hordered, Bool.or_true])
  have hsteady : L2pDmaPath.Steady (s.path (s.requests.map mem)) (s.pathIn i) := fun _ _ _ => hrdy
  obtain ⟨k', hflow⟩ := h.flow.step hgo hrdy htimely
  obtain ⟨k'', hfront⟩ : ∃ k'', (c.carrierTransfer mem).Front
      (fun k w => w = WriteTransfer.lowWord c.hostAddrL k) k''
      (L2pDmaPath.step gByteSwap (s.path (s.requests.map mem)) (s.pathIn i))
      (WriteTransfer.wordsAfter gByteSwap (s.path (s.requests.map mem)) (s.pathIn i) words) :=
    h.front.step hgo (fun k w hw => hw ▸ WriteTransfer.nextLow_lowWord _ k) (.inl hsteady)
  obtain rfl : k'' = k' := hfront.count.symm.trans hflow.front.count
  have hunpopped := h.flow.unpopped_step hgo htimely hflow
  have hsent : WriteTransfer.wordsAfter gByteSwap (s.path (s.requests.map mem)) (s.pathIn i) words =
      words ++ s.sent gByteSwap t := by
    rw [WriteTransfer.wordsAfter, L2pDmaPath.presented, hsame.ldm, sent, hclk]
    rfl
  rw [hsent] at hflow hfront
  have hldm := hsame.ldm
  cases hdone : (CarrierToHost.step gByteSwap s t).engine.l2p.fsm.dmaCtrlDone with
  | false =>
      refine .inl ⟨rfl, k'', hcontroller.1, hcontroller.2, hdone, hsame.flow hflow,
        hsame.front hfront, fun hdata hvalid => ?_⟩
      rw [← hldm] at hdata hvalid ⊢
      exact hunpopped hdata hvalid
  | true =>
      have hdone' : (L2pDmaPath.step gByteSwap (s.path (s.requests.map mem)) (s.pathIn i)).ldm.fsm.dmaCtrlDone =
          true := by
        rw [hldm]
        exact hdone
      obtain ⟨hcontents, hrd, hidle⟩ := h.flow.drained hgo hdone'
      rw [path_contents, List.append_eq_nil_iff] at hcontents
      have hrequests : s.requests = [] := List.map_eq_nil_iff.mp hcontents.2
      rw [hrequests, List.map_nil, eq_comm, List.append_eq_nil_iff] at hwords
      have hfifo : (CarrierToHost.step gByteSwap s t).engine.dataFifo.contents = [] := by
        have hafter := hsame.contents
        rw [path_contents, L2pDmaPath.step, AsyncFifo.contents_arrive, hrd, AsyncFifo.read_false,
          path_contents, hcontents.1, hcontents.2, List.append_nil, eq_comm,
          List.append_eq_nil_iff] at hafter
        exact hafter.1
      refine .inr ⟨rfl, ⟨?_, List.map_eq_nil_iff.mp hwords.2, hfifo, fun _ => hcontroller⟩,
        (hfront.done hdone').2, fun host => ?_⟩
      · rw [hldm] at hidle
        exact hidle
      · have hlen := c.len_carrierTransfer mem
        have hlt := c.len.isLt
        have hall := hfront.hostMemory_done hflow hdone' (by omega)
          (by rw [WriteTransfer.packetCount, hlen]; exact hfits) host
        rw [hall, c.hostWords_carrierTransfer, copy, copyFirst, List.take_of_length_le]
        · rfl
        · simp [carrierArea]

/-! ## Between two orders -/

theorem Resting.dataFifo_empty (h : s.Resting) : s.engine.dataFifo.empty = true := by
  have hready : s.engine.dataFifo.ready = [] := (List.append_eq_nil_iff.mp h.dataFifo).1
  rw [AsyncFifo.empty, hready]
  rfl

variable (gByteSwap) in
/-- What an edge of `clk_i` makes of a master that has nothing to do. -/
theorem Resting.l2p_step (h : s.Resting) (i : L2pEngineClk) :
    (s.engine.l2p.step gByteSwap (s.engine.l2pIn i)).fsm.l2pDmaCurrentState = .idle ∧
      (s.engine.l2p.step gByteSwap (s.engine.l2pIn i)).fsm.dmaCtrlDone = false ∧
        (s.engine.l2p.step gByteSwap (s.engine.l2pIn i)).arb.word = [] := by
  have hempty : (s.engine.l2pIn i).dataFifoEmpty = true := h.dataFifo_empty
  have hfsm : (s.engine.l2p.step gByteSwap (s.engine.l2pIn i)).fsm =
      s.engine.l2p.pPktFsm gByteSwap (s.engine.l2pIn i) := rfl
  simp [hfsm, L2pDmaMaster.arb, SourceLines.word, L2pDmaMaster.pPktFsm, h.idle, hempty]

theorem Resting.sent (h : s.Resting) : s.sent gByteSwap t = [] := by
  unfold CarrierToHost.sent
  cases hclk : t.clk with
  | none => rfl
  | some i =>
      have hl2p : (s.engine.step gByteSwap t).l2p = s.engine.l2p.step gByteSwap (s.engine.l2pIn i) := by
        simp [L2pEngine.step, hclk]
      rw [hl2p, (h.l2p_step gByteSwap i).2.2]
      rfl

theorem Resting.step (h : s.Resting) (hsound : s.Sound) (hlegal : Legal mem s t)
    (haccepts : s.engine.accepts t = false) : (CarrierToHost.step gByteSwap s t).Resting := by
  have hnone : ∀ i ∈ t.clk, s.engine.controller.fsm.dmaCtrlStartL2p = false := by
    intro i hi
    have hclk : t.clk = some i := hi
    simpa [L2pEngine.accepts, hclk, h.idle] using haccepts
  have hwords := hsound.words_step gByteSwap hlegal hnone
  have hempty := hwords
  rw [h.requests, List.map_nil, eq_comm, List.append_eq_nil_iff] at hempty
  have hrequests : (CarrierToHost.step gByteSwap s t).requests = [] := List.map_eq_nil_iff.mp hempty.2
  have hpath : ∀ rest, rest = [] → (s.path rest).dataFifo.contents = [] := by
    rintro rest rfl
    rw [path_contents, h.dataFifo, List.append_nil]
  cases hclk : t.clk with
  | none =>
      have hl2p : (CarrierToHost.step gByteSwap s t).engine.l2p = s.engine.l2p := by
        simp [CarrierToHost.step, L2pEngine.step, hclk]
      have hcontroller : (CarrierToHost.step gByteSwap s t).engine.controller = s.engine.controller := by
        simp [CarrierToHost.step, L2pEngine.step, hclk]
      have hcontents := (path_rest gByteSwap hclk hwords).contents
      rw [hpath _ (by rw [h.requests]; rfl), path_contents, eq_comm, List.append_eq_nil_iff] at hcontents
      refine ⟨by rw [hl2p]; exact h.idle, hrequests, hcontents.1, ?_⟩
      rw [hl2p, hcontroller]
      exact h.done
  | some i =>
      have hl2p : (CarrierToHost.step gByteSwap s t).engine.l2p =
          s.engine.l2p.step gByteSwap (s.engine.l2pIn i) := by
        simp [CarrierToHost.step, L2pEngine.step, hclk]
      obtain ⟨hidle, hundone, -⟩ := h.l2p_step gByteSwap i
      have hrd : s.engine.l2p.fsm.dataFifoRd = false := by
        have hreads := hsound.settled.reads
        rwa [L2pDmaPath.ReadsInPacket, show (s.path []).ldm.fsm.l2pDmaCurrentState = .idle from h.idle]
          at hreads
      have hcontents := (path_step gByteSwap hclk hwords).contents
      rw [L2pDmaPath.step, AsyncFifo.contents_arrive, show (s.path _).ldm.fsm.dataFifoRd = false from hrd,
        AsyncFifo.read_false, hpath _ (by rw [h.requests]; rfl), path_contents, eq_comm,
        List.append_eq_nil_iff] at hcontents
      refine ⟨by rw [hl2p]; exact hidle, hrequests, hcontents.1, fun hdone => ?_⟩
      rw [hl2p, hundone] at hdone
      exact absurd hdone (by decide)

variable (gByteSwap) in
/-- An order that is accepted: all its addresses are held. -/
theorem Resting.requests_accept (h : s.Resting) (hsound : s.Sound) (hlegal : Legal mem s t)
    (haccepts : s.engine.accepts t = true) :
    (CarrierToHost.step gByteSwap s t).requests =
        carrierArea s.engine.controller.lines.carrierAddr (s.engine.controller.lines.len.toNat / 4) ∧
      s.engine.dataFifoWr t = false := by
  obtain ⟨i, hclk⟩ : ∃ i, t.clk = some i := by
    apply Option.isSome_iff_exists.mp
    simp only [L2pEngine.accepts, Bool.and_eq_true] at haccepts
    exact haccepts.1.1
  have hstart : (s.engine.l2pIn i).ctrl.startL2p = true := by
    simp only [L2pEngine.accepts, Bool.and_eq_true] at haccepts
    exact haccepts.1.2
  have hrequests := h.requests
  simp only [CarrierToHost.requests, inService, List.append_eq_nil_iff] at hrequests
  obtain ⟨⟨⟨houtstanding, hvalid⟩, hfifo⟩, hheld⟩ := hrequests
  have hwritten : s.engine.l2p.AllWritten := by
    rw [L2pDmaMaster.held, List.append_eq_nil_iff] at hheld
    constructor
    · have hlength := congrArg List.length hheld.2
      rw [TargetCnt.length_remaining] at hlength
      exact BitVec.eq_of_toNat_eq hlength
    · by_contra hwr
      simp [L2pDmaMaster.addresses, hwr] at hheld
  have hanswers := hsound.answers hlegal
  -- the Wishbone side and the slave stay empty
  have hservice := service_conserves gByteSwap hanswers
  have hwrite : s.engine.addrWrite t = none := by simp [L2pEngine.addrWrite, hwritten.noWrite]
  have hservice' : (CarrierToHost.step gByteSwap s t).inService = [] ∧ s.answered t = [] := by
    have hnone : s.inService = [] := by simp [inService, houtstanding, hvalid, hfifo]
    have hall : (s.answered t).map Prod.fst ++ (CarrierToHost.step gByteSwap s t).inService = [] := by
      have hconserves : _ ++ _ = _ ++ _ := hservice
      rw [hnone, hwrite] at hconserves
      exact hconserves
    rw [List.append_eq_nil_iff, List.map_eq_nil_iff] at hall
    exact ⟨hall.2, hall.1⟩
  have hl2p : (CarrierToHost.step gByteSwap s t).engine.l2p =
      s.engine.l2p.step gByteSwap (s.engine.l2pIn i) := by
    simp [CarrierToHost.step, L2pEngine.step, hclk]
  obtain ⟨hwr, hremaining⟩ := L2pDmaMaster.held_start gByteSwap hwritten h.idle hstart
  constructor
  · rw [CarrierToHost.requests, hservice'.1, hl2p, L2pDmaMaster.held, L2pDmaMaster.addresses, hwr, hremaining]
    rfl
  · have hdata := dataFifoWr_eq hsound.balanced hanswers
    rw [hservice'.2] at hdata
    by_contra hset
    simp [hset] at hdata

/-- **An order is accepted.** -/
theorem Resting.accept (h : s.Resting) (hsound : s.Sound) (hlegal : Legal mem s t)
    (haccepts : s.engine.accepts t = true) :
    (CarrierToHost.step gByteSwap s t).Copying gByteSwap mem s.engine.controller.lines 0 [] := by
  obtain ⟨hrequests, hwr⟩ := h.requests_accept gByteSwap hsound hlegal haccepts
  obtain ⟨i, hclk⟩ : ∃ i, t.clk = some i := by
    apply Option.isSome_iff_exists.mp
    simp only [L2pEngine.accepts, Bool.and_eq_true] at haccepts
    exact haccepts.1.1
  have hstart : s.engine.controller.fsm.dmaCtrlStartL2p = true := by
    simp only [L2pEngine.accepts, Bool.and_eq_true] at haccepts
    exact haccepts.1.2
  obtain ⟨hstate, hnonzero⟩ := hsound.controller.start hstart
  have hundone : s.engine.l2p.fsm.dmaCtrlDone = false := by
    by_contra hdone
    have hnot := (h.done (by simpa using hdone)).2
    exact absurd (hnot.symm.trans hstart) (by decide)
  have hcontroller := hsound.controller_waits gByteSwap hlegal hclk hstate hundone (by rw [hstart]; rfl)
  -- the words of the order, behind an empty FIFO
  let ws := (CarrierToHost.step gByteSwap s t).requests.map mem
  have hsame : UpToArrival (L2pDmaPath.step gByteSwap (s.path ws) (s.pathIn i))
      ((CarrierToHost.step gByteSwap s t).path ws) := path_step gByteSwap hclk (by rw [hwr]; rfl)
  have hparts := List.append_eq_nil_iff.mp h.dataFifo
  have hcrossing : (s.path ws).dataFifo.crossing = ws := by simp [path, hparts.2]
  have hready : (s.path ws).dataFifo.ready = [] := hparts.1
  have hlen : ws.length = ((s.pathIn i).ctrl.len.extractLsb' 2 30).toNat := by
    have hsame : (s.pathIn i).ctrl.len = s.engine.controller.lines.len := rfl
    rw [hsame, DmaCtrl.toNat_words]
    simp [ws, hrequests, carrierArea]
  have hpos : 0 < ws.length := by
    rw [hlen]
    refine Nat.pos_of_ne_zero fun hzero => hnonzero ?_
    exact BitVec.eq_of_toNat_eq hzero
  have hsettled : (s.path ws).Settled := ⟨hsound.settled.shape, hsound.settled.reads, hsound.settled.granted⟩
  have htransfer : (s.pathIn i).ctrl.writeTransfer ws =
      s.engine.controller.lines.carrierTransfer mem := by
    simp only [ws, hrequests]
    rfl
  have hfront : ((s.pathIn i).ctrl.writeTransfer ws).Front
      (fun k w => w = WriteTransfer.lowWord s.engine.controller.lines.hostAddrL k) 0
      (L2pDmaPath.step gByteSwap (s.path ws) (s.pathIn i)) [] :=
    hsettled.front h.idle hready hstart hlen hpos (BitVec.add_zero _).symm
  have hflow : ((s.pathIn i).ctrl.writeTransfer (s.path ws).dataFifo.crossing).Flow gByteSwap 0
      (L2pDmaPath.step gByteSwap (s.path ws) (s.pathIn i)) [] :=
    hsettled.flow h.idle hready hstart (by rw [hcrossing]; exact hlen) (by rw [hcrossing]; exact hpos)
  rw [hcrossing] at hflow
  rw [htransfer] at hfront hflow
  have hl2p : (CarrierToHost.step gByteSwap s t).engine.l2p =
      s.engine.l2p.step gByteSwap (s.engine.l2pIn i) := by
    simp [CarrierToHost.step, L2pEngine.step, hclk]
  have hidle := h.l2p_step gByteSwap i
  refine ⟨hcontroller.1, hcontroller.2, by rw [hl2p]; exact hidle.2.1, hsame.flow hflow,
    hsame.front hfront, fun hdata => ?_⟩
  have hnow : ((CarrierToHost.step gByteSwap s t).path ws).ldm.fsm.l2pDmaCurrentState = .idle := by
    show (CarrierToHost.step gByteSwap s t).engine.l2p.fsm.l2pDmaCurrentState = .idle
    rw [hl2p]
    exact hidle.1
  exact absurd (hnow.symm.trans hdata) (by decide)

/-! ## Runs -/

/-- How far the host has got with the orders, by the words it has received. -/
inductive Progress (gByteSwap : Bool) (mem : Word → Word) (s : CarrierToHost) :
    List (Bool × Word) → List DmaCtrl → Prop
  /-- All orders are carried out. -/
  | resting {words orders} (hordered : s.ordered = false) (hresting : s.Resting)
      (hopen : openPacket words = [])
      (hhost : ∀ host, (packets words).foldl hostWrite host = orders.foldl (copy gByteSwap mem) host) :
      Progress gByteSwap mem s words orders
  /-- The last order is under way since the words `new`. -/
  | copying {old new earlier c k} (hordered : s.ordered = true) (hfits : c.Fits)
      (hopen : openPacket old = [])
      (hhost : ∀ host, (packets old).foldl hostWrite host = earlier.foldl (copy gByteSwap mem) host)
      (hcopying : s.Copying gByteSwap mem c k new) :
      Progress gByteSwap mem s (old ++ new) (earlier ++ [c])

variable {cs : List DmaCtrl}

/-- The L2P DMA master is idle when it gets an order, and so it takes it. -/
theorem Progress.orders_eq (h : Progress gByteSwap mem s words cs) :
    s.orders t = if s.engine.accepts t then [s.engine.controller.lines] else [] := by
  have haccepts : s.engine.accepts t = (t.clk.isSome && s.engine.controller.fsm.dmaCtrlStartL2p) := by
    unfold L2pEngine.accepts
    cases h with
    | resting _ hresting => simp [hresting.idle]
    | copying _ _ _ _ hcopying => simp [hcopying.start]
  rw [haccepts]
  rfl

/-- The packets of an order come behind those of the orders before it. -/
theorem foldl_packets_append {old new : List (Bool × Word)} (hopen : openPacket old = [])
    (host : HostWords) : (packets (old ++ new)).foldl hostWrite host =
      (packets new).foldl hostWrite ((packets old).foldl hostWrite host) := by
  rw [packets_append, hopen, List.foldl_append]
  rfl

theorem Progress.step (h : Progress gByteSwap mem s words cs) (hsound : s.Sound)
    (hlegal : Legal mem s t) :
    (CarrierToHost.step gByteSwap s t).Sound ∧
      Progress gByteSwap mem (CarrierToHost.step gByteSwap s t) (words ++ s.sent gByteSwap t)
        (cs ++ s.orders t) := by
  rw [h.orders_eq]
  have hordered' : (CarrierToHost.step gByteSwap s t).ordered =
      (s.engine.accepts t ||
        s.ordered && !(CarrierToHost.step gByteSwap s t).engine.l2p.fsm.dmaCtrlDone) := rfl
  cases h with
  | resting hordered hresting hopen hhost =>
      have hidle : s.engine.controller.fsm.dmaCtrlStartL2p = true →
          s.engine.l2p.fsm.l2pDmaCurrentState = .idle := fun _ => hresting.idle
      rw [hresting.sent, List.append_nil]
      cases haccepts : s.engine.accepts t with
      | false =>
          have hnone : ∀ i ∈ t.clk, s.engine.controller.fsm.dmaCtrlStartL2p = false := by
            intro i hi
            have hclk : t.clk = some i := hi
            simpa [L2pEngine.accepts, hclk, hresting.idle] using haccepts
          refine ⟨hsound.step hlegal hidle (hsound.few_step gByteSwap hlegal hnone), ?_⟩
          rw [if_neg Bool.false_ne_true, List.append_nil]
          exact .resting (by rw [hordered', haccepts, hordered]; rfl)
            (hresting.step hsound hlegal haccepts) hopen hhost
      | true =>
          have hfew : (CarrierToHost.step gByteSwap s t).requests.length < 2 ^ 30 := by
            have hlt := s.engine.controller.lines.len.isLt
            rw [(hresting.requests_accept gByteSwap hsound hlegal haccepts).1]
            simp only [carrierArea, List.length_map, List.length_range]
            omega
          refine ⟨hsound.step hlegal hidle hfew, ?_⟩
          rw [if_pos rfl, ← List.append_nil words]
          exact .copying (by rw [hordered', haccepts]; rfl) (hlegal.fits haccepts) hopen hhost
            (hresting.accept hsound hlegal haccepts)
  | @copying old new earlier c k hordered hfits hopen hhost hcopying =>
      have hnone : ∀ i ∈ t.clk, s.engine.controller.fsm.dmaCtrlStartL2p = false :=
        fun _ _ => hcopying.start
      have haccepts : s.engine.accepts t = false := by simp [L2pEngine.accepts, hcopying.start]
      have hidle : s.engine.controller.fsm.dmaCtrlStartL2p = true →
          s.engine.l2p.fsm.l2pDmaCurrentState = .idle :=
        fun hstart => absurd (hcopying.start.symm.trans hstart) (by decide)
      refine ⟨hsound.step hlegal hidle (hsound.few_step gByteSwap hlegal hnone), ?_⟩
      rw [haccepts, if_neg Bool.false_ne_true, List.append_nil,
        List.append_assoc]
      cases hclk : t.clk with
      | none =>
          have hsent : s.sent gByteSwap t = [] := by simp [CarrierToHost.sent, hclk]
          have hnext := hcopying.step_bus hsound hlegal hclk
          rw [hsent, List.append_nil]
          exact .copying (by rw [hordered', hordered, hnext.undone]; simp) hfits hopen hhost hnext
      | some i =>
          obtain ⟨hundone, k', hnext⟩ | ⟨hdone, hrest, hclosed, hcopied⟩ :=
            hcopying.step hsound hlegal hordered hfits hclk
          · exact .copying (by rw [hordered', hordered, hundone]; simp) hfits hopen hhost hnext
          · refine .resting (by rw [hordered', haccepts, hdone]; simp) hrest ?_ fun host => ?_
            · rw [openPacket_append, hopen]
              exact hclosed
            · rw [foldl_packets_append hopen, hhost, hcopied, List.foldl_append]
              rfl

variable (gByteSwap) in
theorem reset_progress (addrFifoDin : Word) (dataFifoValid : Bool) (addrFifoDout dataFifoDout : Word) :
    Progress gByteSwap mem (reset addrFifoDin dataFifoValid addrFifoDout dataFifoDout) [] [] :=
  .resting rfl ⟨rfl, rfl, rfl, fun h => nomatch h⟩ rfl fun _ => rfl

/-- What the host memory is while the orders are under way. -/
theorem Progress.hostMemory (h : Progress gByteSwap mem s words cs) (host : HostWords) :
    (packets words).foldl hostWrite host = cs.foldl (copy gByteSwap mem) host ∨
      s.engine.controller.fsm.dmaCtrlCurrentState = .transfer ∧
        ∃ earlier c k, cs = earlier ++ [c] ∧ (packets words).foldl hostWrite host =
          copyFirst gByteSwap mem (32 * k) (earlier.foldl (copy gByteSwap mem) host) c := by
  cases h with
  | resting _ _ _ hhost => exact .inl (hhost host)
  | @copying old new earlier c k _ hfits hopen hhost hcopying =>
      refine .inr ⟨hcopying.state, earlier, c, k, rfl, ?_⟩
      have hlen := c.len_carrierTransfer mem
      have hlt := c.len.isLt
      rw [foldl_packets_append hopen, hhost, hcopying.front.hostMemory hcopying.flow (by omega)
        (by rw [WriteTransfer.packetCount, hlen]; exact hfits), c.hostWords_carrierTransfer]
      rfl

/-- An edge of both clocks, at which the slave answers one request of the cycles before. -/
def servedEdge (mem : Word → Word) (s : CarrierToHost) (loads : DmaLoads) : L2pEngineTick where
  clk := some
    { loads := loads
      p2lDone := false
      p2lError := false
      nextItem := .reset
      nextItemValid := false
      lWrRdy := 0b11#2
      l2pRdy := true
      addrFifoFull := false
      wbm := ⟨false, false, 0, false⟩
      pdm := ⟨false, false, 0, false⟩ }
  bus := some ⟨!s.pending.isEmpty, s.pending.head?.elim 0 mem, false, false, false⟩
  addrArrive := 1
  dataArrive := 1

def servedEdges (mem : Word → Word) : CarrierToHost → List DmaLoads → List L2pEngineTick
  | _, [] => []
  | s, loads :: more =>
      servedEdge mem s loads ::
        servedEdges mem (CarrierToHost.step false s (servedEdge mem s loads)) more

/-- Three words to 0x1000, and then five words to 0x2000 in the other half of host memory. -/
def twoOrders : List DmaLoads :=
  { DmaLoads.none with dmaCtrl := some 1, dmaLen := some 12, dmaHstartl := some 0x1000 } ::
    List.replicate 20 .none ++
  { DmaLoads.none with
      dmaCtrl := some 1, dmaLen := some 20, dmaHstartl := some 0x2000, dmaHstarth := some 0x80000000 } ::
    List.replicate 24 .none

end CarrierToHost

end Gn4124Core
