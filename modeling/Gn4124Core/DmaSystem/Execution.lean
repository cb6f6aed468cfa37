import Gn4124Core.DmaSystem.Model

/-!
# The orders are carried out one after the other

Between two memories the DMA engine does with each order what a program would do with it: it copies
the words from the one memory to the other (`execute`), after all orders before it and before all
orders behind it.  An order may read what the one before it has written, in either direction, and
the items of a chain are taken from the memory that the orders before them have left.

There are two phases (`Progress`).  As long as the L2P DMA master has nothing to do, the P2L DMA
master goes through its orders, and what it has stored may still be on its way to the slave.  While
the L2P DMA master has an order, the other one rests, and nothing is on its way.  That is the one
thing the engine does not see to by itself: an order for the L2P DMA master has to wait until the
words of the P2L transfers before it have landed (`Legal.landed`).
-/

namespace Gn4124Core

open Clocked Blocks

namespace DmaCtrl

variable (gByteSwap : Bool)

/-- Both memories when the first `n` words of an order are copied. -/
def executeFirst (n : ℕ) (m : HostWords × CarrierWords) (c : DmaCtrl) : HostWords × CarrierWords :=
  if c.startP2l then (m.1, copyInFirst gByteSwap m.1.read n m.2 c)
  else (copyFirst gByteSwap m.2.fetch n m.1 c, m.2)

/-- Both memories when an order is carried out. -/
def execute (m : HostWords × CarrierWords) (c : DmaCtrl) : HostWords × CarrierWords :=
  executeFirst gByteSwap (c.len.toNat / 4) m c

variable {gByteSwap} {m : HostWords × CarrierWords} {c : DmaCtrl} {n : ℕ}

theorem executeFirst_p2l (h : c.startP2l = true) :
    executeFirst gByteSwap n m c = (m.1, copyInFirst gByteSwap m.1.read n m.2 c) := if_pos h

theorem executeFirst_l2p (h : c.startP2l = false) :
    executeFirst gByteSwap n m c = (copyFirst gByteSwap m.2.fetch n m.1 c, m.2) :=
  if_neg (ne_true_of_eq_false h)

/-- P2L orders leave the memory of the host as it is. -/
theorem foldl_execute_p2l {cs : List DmaCtrl} (h : ∀ c ∈ cs, c.startP2l = true)
    (m : HostWords × CarrierWords) :
    cs.foldl (execute gByteSwap) m = (m.1, cs.foldl (copyIn gByteSwap m.1.read) m.2) := by
  induction cs generalizing m with
  | nil => rfl
  | cons c cs ih =>
      rw [List.foldl_cons, ih fun c' hc' => h c' (List.mem_cons_of_mem c hc'), execute,
        executeFirst_p2l (h c List.mem_cons_self)]
      rfl

end DmaCtrl

namespace DmaSystem

variable {gByteSwap : Bool} {s : DmaSystem} {t : DmaSystemTick}

/-! ## What is assumed of an edge -/

structure Legal (s : DmaSystem) (t : DmaSystemTick) : Prop where
  /-- The slave answers a read with the word in its memory, and does not stall a write. -/
  fromMemory : ∀ a ∈ s.up.answered (s.heardTick t), a.2 = s.carrier.fetch a.1
  unstalled : ∀ p ∈ t.bus, s.toWb.wb.stb = true → p.dmaStall = false
  /-- The host completes its read requests with the words in its memory. -/
  answers : ∀ i ∈ (s.downTick t).clk, s.down.served.Answers (fun a => some (s.host.read a)) i
  noCpln : ∀ i ∈ t.clk, i.pd.masterCpln = false
  lastValid : ∀ i ∈ t.clk, i.pd.dataLast = true → i.pd.dataValid = true
  noForeign : ∀ i ∈ t.clk, s.p2l.fsm.p2lDmaCurrentState = .waitReadCompletion →
    i.pd.dataValid = true → i.pd.masterCpld = true
  noAbort : ∀ i ∈ t.clk, ∀ w ∈ i.loads.dmaCtrl, abortBit w = false
  l2pRdy : ∀ i ∈ t.clk, i.l2pRdy = true
  /-- The words of a packet of one or two words are in time. -/
  timely : t.clk.isSome = true →
    s.up.engine.l2p.pktGen.l2pLenHeader = 1 ∨ s.up.engine.l2p.pktGen.l2pLenHeader = 2 →
      L2pDmaPath.Timely (s.up.path [])
  /-- An L2P order does not cross a boundary of 4 GB, and finds the words of the P2L transfers before
  it in carrier memory. -/
  fits : s.up.engine.accepts (s.upTick t) = true → s.controller.lines.Fits
  landed : s.up.engine.accepts (s.upTick t) = true → s.down.held = []
  /-- A P2L order is for at most 1024 words. -/
  short : ∀ c ∈ s.down.orders (s.downTick t), c.len.toNat ≤ 4096

instance (s : DmaSystem) (t : DmaSystemTick) : Decidable (s.Legal t) :=
  have : Decidable (∀ a ∈ s.up.answered (s.heardTick t), a.2 = s.carrier.fetch a.1) :=
    List.decidableBAll _ _
  have : Decidable (∀ p ∈ t.bus, s.toWb.wb.stb = true → p.dmaStall = false) :=
    Option.decidableForallMem t.bus
  have : Decidable (∀ i ∈ (s.downTick t).clk,
      s.down.served.Answers (fun a => some (s.host.read a)) i) :=
    Option.decidableForallMem (s.downTick t).clk
  have : Decidable (∀ i ∈ t.clk, i.pd.masterCpln = false) := Option.decidableForallMem t.clk
  have : Decidable (∀ i ∈ t.clk, i.pd.dataLast = true → i.pd.dataValid = true) :=
    Option.decidableForallMem t.clk
  have : Decidable (∀ i ∈ t.clk, s.p2l.fsm.p2lDmaCurrentState = .waitReadCompletion →
      i.pd.dataValid = true → i.pd.masterCpld = true) :=
    Option.decidableForallMem t.clk
  have (i : DmaSystemClk) : Decidable (∀ w ∈ i.loads.dmaCtrl, abortBit w = false) :=
    Option.decidableForallMem i.loads.dmaCtrl
  have : Decidable (∀ i ∈ t.clk, ∀ w ∈ i.loads.dmaCtrl, abortBit w = false) :=
    Option.decidableForallMem t.clk
  have : Decidable (∀ i ∈ t.clk, i.l2pRdy = true) := Option.decidableForallMem t.clk
  have : Decidable (∀ c ∈ s.down.orders (s.downTick t), c.len.toNat ≤ 4096) :=
    List.decidableBAll _ _
  decidable_of_iff
    ((∀ a ∈ s.up.answered (s.heardTick t), a.2 = s.carrier.fetch a.1) ∧
      (∀ p ∈ t.bus, s.toWb.wb.stb = true → p.dmaStall = false) ∧
      (∀ i ∈ (s.downTick t).clk, s.down.served.Answers (fun a => some (s.host.read a)) i) ∧
      (∀ i ∈ t.clk, i.pd.masterCpln = false) ∧
      (∀ i ∈ t.clk, i.pd.dataLast = true → i.pd.dataValid = true) ∧
      (∀ i ∈ t.clk, s.p2l.fsm.p2lDmaCurrentState = .waitReadCompletion →
        i.pd.dataValid = true → i.pd.masterCpld = true) ∧
      (∀ i ∈ t.clk, ∀ w ∈ i.loads.dmaCtrl, abortBit w = false) ∧
      (∀ i ∈ t.clk, i.l2pRdy = true) ∧
      (t.clk.isSome = true →
        s.up.engine.l2p.pktGen.l2pLenHeader = 1 ∨ s.up.engine.l2p.pktGen.l2pLenHeader = 2 →
          L2pDmaPath.Timely (s.up.path [])) ∧
      (s.up.engine.accepts (s.upTick t) = true → s.controller.lines.Fits) ∧
      (s.up.engine.accepts (s.upTick t) = true → s.down.held = []) ∧
      ∀ c ∈ s.down.orders (s.downTick t), c.len.toNat ≤ 4096)
    ⟨fun ⟨h₁, h₂, h₃, h₄, h₅, h₆, h₇, h₈, h₉, h₁₀, h₁₁, h₁₂⟩ =>
        ⟨h₁, h₂, h₃, h₄, h₅, h₆, h₇, h₈, h₉, h₁₀, h₁₁, h₁₂⟩,
      fun ⟨h₁, h₂, h₃, h₄, h₅, h₆, h₇, h₈, h₉, h₁₀, h₁₁, h₁₂⟩ =>
        ⟨h₁, h₂, h₃, h₄, h₅, h₆, h₇, h₈, h₉, h₁₀, h₁₁, h₁₂⟩⟩

/-! ## What holds in every state -/

/-- The arbiter grants the bus to the P2L DMA master only while its lines say that it has a use for
it, and only what it has asked for in the cycle before. -/
structure Granting (s : DmaSystem) : Prop where
  shape : s.p2l.Shape
  claimed : s.up.engine.arb.gnt.arbPdmGnt = true → s.p2l.arb.phase ≠ .silent
  asked : s.up.engine.arb.gnt.arbPdmGnt = true → s.p2l.fsm.pdmArbReq = true → s.asked = true

theorem Granting.step (h : s.Granting) : (DmaSystem.step gByteSwap s t).Granting := by
  cases hclk : t.clk with
  | none =>
      have harb : (DmaSystem.step gByteSwap s t).up.engine.arb = s.up.engine.arb := by
        simp [CarrierToHost.step, L2pEngine.step, upTick, hclk]
      have hasked : (DmaSystem.step gByteSwap s t).asked = s.asked := by
        simp [DmaSystem.step, HostToCarrier.step, downTick, hclk, down]
      constructor
      · rw [p2l_step_bus hclk]
        exact h.shape
      · rw [p2l_step_bus hclk, harb]
        exact h.claimed
      · rw [p2l_step_bus hclk, harb, hasked]
        exact h.asked
  | some i =>
      obtain ⟨j, hj, hp2l⟩ := p2l_step gByteSwap s hclk
      have hshape : (DmaSystem.step gByteSwap s t).p2l.Shape := hp2l ▸ h.shape.step
      have hnext : Phase.Next s.up.engine.arb.gnt.arbPdmGnt s.p2l.arb.phase
          (DmaSystem.step gByteSwap s t).p2l.arb.phase := by
        have hgnt : (s.down.landing.engine.masterIn j).arbPdmGnt = s.up.engine.arb.gnt.arbPdmGnt := by
          rw [downTick, hclk, Option.map_some, Option.some.injEq] at hj
          rw [← hj]
          rfl
        rw [hp2l, ← hgnt]
        exact h.shape.next
      have hasked : (DmaSystem.step gByteSwap s t).asked = s.p2l.fsm.pdmArbReq := by
        simp only [DmaSystem.step, HostToCarrier.step, hj, Option.elim_some]
        rfl
      -- the grant goes to a request, or stays in a packet
      have hclaims : (DmaSystem.step gByteSwap s t).up.engine.arb.gnt.arbPdmGnt = true →
          s.p2l.fsm.pdmArbReq = true ∨
            s.p2l.arb.phase ≠ .silent ∧ SourceLines.last s.p2l.arb = false := by
        intro hgnt
        simp only [DmaSystem.step, CarrierToHost.step, L2pEngine.step, upTick, hclk, Option.map_some,
          Option.elim_some] at hgnt
        obtain hreq | ⟨hbefore, hlast⟩ := L2pArbiter.pdm_granted hgnt
        · exact .inl hreq
        · exact .inr ⟨h.claimed hbefore, hlast⟩
      refine ⟨hshape, fun hgnt => ?_, fun hgnt hreq => ?_⟩
      · exact SourceLines.next_not_silent hnext (hclaims hgnt)
      · rw [hshape.phase_of_req hreq] at hnext
        rw [hasked]
        exact SourceLines.req_of_next_asking hnext (hclaims hgnt)

structure Sound (s : DmaSystem) : Prop where
  up : s.up.Sound
  down : s.down.Sound
  granting : s.Granting
  noBusyError : s.p2l.addrCnt.dmaBusyError = false
  busy : s.l2pBusy = (s.up.ordered || s.up.engine.l2p.fsm.dmaCtrlDone)

/-- While either master is given an order, or the L2P DMA master has one, the P2L DMA master is
quiet. -/
theorem Sound.quiet (h : s.Sound)
    (hgiven : s.controller.fsm.dmaCtrlStartL2p = true ∨ s.controller.fsm.dmaCtrlStartP2l = true ∨
      s.l2pBusy = true) : s.p2l.InPhase .quiet := by
  obtain ⟨hpulses, -, -, p, hphase, hexpected⟩ := h.down.landing.coordinated
  have hnoFailure : s.p2l.fsm.completionError = false := h.down.noFailure
  cases p with
  | quiet => exact hphase
  | running | doneT | done =>
      obtain ⟨-, hl2p, hp2l, hbusy⟩ := hexpected
      rcases hgiven with hstart | hstart | hstart
      · exact absurd (hl2p.symm.trans hstart) (by decide)
      · exact absurd (hp2l.symm.trans hstart) (by decide)
      · exact absurd (hbusy.symm.trans hstart) (by decide)
  | fetching | fetched =>
      obtain ⟨hstate, -, hbusy⟩ := hexpected
      rcases hgiven with hstart | hstart | hstart
      · exact absurd (hstate.symm.trans (hpulses.startL2p hstart)) (by decide)
      · exact absurd (hstate.symm.trans (hpulses.startP2l hstart)) (by decide)
      · exact absurd (hbusy.symm.trans hstart) (by decide)
  | failed => exact absurd (hnoFailure.symm.trans hphase) (by decide)

/-- While the L2P DMA master has an order or is given one, the P2L DMA master is given none. -/
theorem Sound.no_p2l (h : s.Sound)
    (hgiven : s.controller.fsm.dmaCtrlStartL2p = true ∨ s.l2pBusy = true) :
    s.controller.fsm.dmaCtrlStartP2l = false ∧ s.controller.fsm.dmaCtrlStartNext = false := by
  obtain ⟨-, -, -, p, hphase, hexpected⟩ := id h.down.landing.coordinated
  have hpulses := h.down.landing.coordinated.pulses
  obtain ⟨-, hdirection, hnext, -⟩ := hpulses.exclusive
  rcases hgiven with hstart | hbusy
  · exact ⟨Bool.eq_false_iff.mpr fun hp2l => hdirection ⟨hstart, hp2l⟩,
      Bool.eq_false_iff.mpr fun hn => hnext ⟨hstart, hn⟩⟩
  · have hquiet := h.quiet (.inr (.inr hbusy))
    cases p with
    | quiet =>
        obtain ⟨hstate, -, hp2l⟩ := hexpected hbusy
        exact ⟨hp2l, hpulses.startNext_of_transfer hstate⟩
    | running | doneT | done => exact absurd (hexpected.2.2.2.symm.trans hbusy) (by decide)
    | fetching | fetched => exact absurd (hexpected.2.2.symm.trans hbusy) (by decide)
    | failed => exact absurd (hquiet.2.2.failed.symm.trans hphase) (by decide)

/-- What the P2L direction is assumed to see. -/
theorem Sound.legal_down (h : s.Sound) (hlegal : s.Legal t) :
    HostToCarrier.Legal s.host.read s.down (s.downTick t) := by
  constructor
  · intro i hi
    obtain ⟨i', hclk, rfl⟩ := Option.map_eq_some_iff.mp hi
    refine ⟨⟨?_, ?_, fun hdone => ?_⟩, hlegal.noCpln i' hclk, hlegal.lastValid i' hclk,
      fun hgnt => h.granting.asked hgnt, hlegal.answers _ hi, hlegal.noForeign i' hclk⟩
    · rintro ⟨-, hbit⟩
      exact absurd (h.up.controller.bit.symm.trans hbit) (by decide)
    · show (s.up.engine.l2p.targetCnt.dmaCtrlError || s.p2l.dmaCtrlError) = false
      have hnoFailure : s.p2l.fsm.completionError = false := h.down.noFailure
      rw [h.up.error, P2lDmaMaster.dmaCtrlError, h.noBusyError, hnoFailure]
      rfl
    · have hl2p : s.up.engine.l2p.fsm.dmaCtrlDone = true := hdone
      show s.l2pBusy = true
      rw [h.busy, hl2p, Bool.or_true]
  · intro p hp hstb
    obtain ⟨p', hbus, rfl⟩ := Option.map_eq_some_iff.mp hp
    exact hlegal.unstalled p' hbus hstb

/-- What the L2P direction is assumed to see. -/
theorem Sound.legal_up (h : s.Sound) (hlegal : s.Legal t) :
    CarrierToHost.Legal s.carrier.fetch s.up (s.heardTick t) := by
  have hclk : ∀ i ∈ (s.heardTick t).clk, ∃ i' ∈ t.clk, i.loads = i'.loads ∧ i.l2pRdy = i'.l2pRdy ∧
      i.p2lDone = s.p2l.ctrlPipe.dmaCtrlDone ∧ i.p2lError = s.p2l.dmaCtrlError := by
    intro i hi
    obtain ⟨i', hi', rfl⟩ := Option.map_eq_some_iff.mp hi
    exact ⟨i', hi', rfl, rfl, rfl, rfl⟩
  refine ⟨?_, hlegal.fromMemory, ?_, ?_, ?_, ?_, hlegal.fits⟩
  · intro p hp hack
    obtain ⟨p', -, rfl⟩ := Option.map_eq_some_iff.mp hp
    obtain ⟨-, hcyc⟩ := Bool.and_eq_true_iff.mp hack
    exact h.up.balanced.cyc.mp hcyc
  · intro i hi w hw
    obtain ⟨i', hi', hloads, -⟩ := hclk i hi
    exact hlegal.noAbort i' hi' w (hloads ▸ hw)
  · intro i hi
    obtain ⟨i', hi', -, hrdy, -⟩ := hclk i hi
    exact hrdy.trans (hlegal.l2pRdy i' hi')
  · intro hsome
    have hsome' : t.clk.isSome = true := by simpa [heardTick, upTick] using hsome
    exact hlegal.timely hsome'
  · intro i hi hordered
    obtain ⟨i', -, -, -, hdone, herror⟩ := hclk i hi
    have hquiet : s.p2l.InPhase .quiet := by
      refine h.quiet ?_
      rcases Bool.or_eq_true_iff.mp hordered with hstart | hord
      · exact .inl hstart
      · exact .inr (.inr (by rw [h.busy, hord, Bool.true_or]))
    obtain ⟨-, -, hflags⟩ := hquiet
    rw [hdone, herror, P2lDmaMaster.dmaCtrlError, hflags.done, hflags.failed, h.noBusyError]
    exact ⟨rfl, rfl⟩

/-! ## The two phases -/

/-- Where the engine is in its orders, which began with the memories `m`. -/
inductive Progress (gByteSwap : Bool) (m : HostWords × CarrierWords) (s : DmaSystem) :
    List DmaCtrl → Prop
  /-- Behind the orders `earlier` the P2L DMA master has had the orders `cs`, or is at the last. -/
  | down {earlier cs ws} (hordered : s.up.ordered = false) (hresting : s.up.Resting)
      (hopen : s.openWrite = []) (hhost : s.host = (earlier.foldl (DmaCtrl.execute gByteSwap) m).1)
      (hcarrier : s.down.held.foldl carrierWrite s.carrier =
        ws.foldl carrierWrite (earlier.foldl (DmaCtrl.execute gByteSwap) m).2)
      (hp2l : ∀ c ∈ cs, c.startP2l = true ∧ c.len.toNat ≤ 4096)
      (hcopying : s.down.served.Copying gByteSwap s.host.read ws cs) :
      Progress gByteSwap m s (earlier ++ cs)
  /-- Behind the orders `earlier` the L2P DMA master is at the order `c`, since the words `new`. -/
  | up {earlier c k new} (hordered : s.up.ordered = true) (hfits : c.Fits) (hl2p : c.startP2l = false)
      (hrest : s.down.served.AtRest) (hheld : s.down.held = [])
      (hcarrier : s.carrier = (earlier.foldl (DmaCtrl.execute gByteSwap) m).2)
      (hhost : s.host = (packets new).foldl hostWrite (earlier.foldl (DmaCtrl.execute gByteSwap) m).1)
      (hopen : s.openWrite = openPacket new)
      (hcopying : s.up.Copying gByteSwap s.carrier.fetch c k new) :
      Progress gByteSwap m s (earlier ++ [c])

variable {m : HostWords × CarrierWords} {cs : List DmaCtrl}

/-- The L2P direction on its own, since the last order it was given. -/
theorem Progress.upward (h : Progress gByteSwap m s cs) :
    ∃ words orders, CarrierToHost.Progress gByteSwap s.carrier.fetch s.up words orders := by
  cases h with
  | down hordered hresting => exact ⟨[], [], .resting hordered hresting rfl fun _ => rfl⟩
  | @up earlier c k new hordered hfits _ _ _ _ _ _ hcopying =>
      exact ⟨[] ++ new, [] ++ [c], .copying hordered hfits rfl (fun _ => rfl) hcopying⟩

theorem Sound.step_up (h : s.Sound) (hlegal : s.Legal t) (hprogress : Progress gByteSwap m s cs) :
    (step gByteSwap s t).up.Sound := by
  obtain ⟨words, orders, hup⟩ := hprogress.upward
  rw [DmaSystem.step_up, ← heard_step h.up.balanced]
  exact (hup.step h.up (h.legal_up hlegal)).1

/-- The P2L DMA master is idle when it is given an order. -/
theorem Sound.noBusyError_step (h : s.Sound) : (step gByteSwap s t).p2l.addrCnt.dmaBusyError = false := by
  cases hclk : t.clk with
  | none =>
      rw [p2l_step_bus hclk]
      exact h.noBusyError
  | some i =>
      obtain ⟨j, -, hp2l⟩ := p2l_step gByteSwap s hclk
      rw [hp2l]
      show (s.p2l.pAddrCnt gByteSwap (s.down.landing.engine.masterIn j)).dmaBusyError = false
      unfold P2lDmaMaster.pAddrCnt
      split_ifs with hstart hidle
      · exact h.noBusyError
      · exact absurd (h.quiet (.inr (.inl hstart))).1 hidle
      · exact h.noBusyError
      · rfl

/-- The flag of the controller's surroundings goes with the order and the report of its end. -/
theorem Sound.busy_step (h : s.Sound) (hprogress : Progress gByteSwap m s cs) :
    (step gByteSwap s t).l2pBusy =
      ((step gByteSwap s t).up.ordered || (step gByteSwap s t).up.engine.l2p.fsm.dmaCtrlDone) := by
  have hordered' : (step gByteSwap s t).up.ordered = (s.up.engine.accepts (s.upTick t) ||
      s.up.ordered && !(step gByteSwap s t).up.engine.l2p.fsm.dmaCtrlDone) := rfl
  rw [hordered']
  cases hclk : t.clk with
  | none =>
      have hl2p : (step gByteSwap s t).up.engine.l2p = s.up.engine.l2p := by
        simp [CarrierToHost.step, L2pEngine.step, upTick, hclk]
      have hbusy : (step gByteSwap s t).l2pBusy = s.l2pBusy := by
        simp [step, HostToCarrier.step, P2lLanding.step, downTick, hclk]
      have haccepts : s.up.engine.accepts (s.upTick t) = false := by
        simp [L2pEngine.accepts, upTick, hclk]
      rw [hl2p, hbusy, haccepts, h.busy]
      cases s.up.ordered <;> cases s.up.engine.l2p.fsm.dmaCtrlDone <;> rfl
  | some i =>
      have hbusy : (step gByteSwap s t).l2pBusy = (s.controller.fsm.dmaCtrlStartL2p ||
          s.l2pBusy && !s.up.engine.l2p.fsm.dmaCtrlDone) := by
        simp [step, HostToCarrier.step, P2lLanding.step, downTick, hclk, DmaEngine.nextL2pBusy]
      rw [hbusy, h.busy]
      cases hprogress with
      | down hordered hresting =>
          obtain ⟨j, hj⟩ : ∃ j, (s.upTick t).clk = some j := ⟨_, by rw [upTick, hclk, Option.map_some]⟩
          have hl2p : (step gByteSwap s t).up.engine.l2p =
              s.up.engine.l2p.step gByteSwap (s.up.engine.l2pIn j) := by
            simp [CarrierToHost.step, L2pEngine.step, hj]
          have haccepts : s.up.engine.accepts (s.upTick t) = s.controller.fsm.dmaCtrlStartL2p := by
            simp [L2pEngine.accepts, hj, hresting.idle, controller]
          rw [hl2p, (hresting.l2p_step gByteSwap j).2.1, haccepts, hordered]
          cases s.up.engine.l2p.fsm.dmaCtrlDone <;> simp
      | up hordered _ _ _ _ _ _ _ hcopying =>
          rw [hordered, hcopying.undone]
          cases s.up.engine.accepts (s.upTick t) <;>
            cases (step gByteSwap s t).up.engine.l2p.fsm.dmaCtrlDone <;> simp

theorem Sound.step (h : s.Sound) (hlegal : s.Legal t) (hprogress : Progress gByteSwap m s cs) :
    (DmaSystem.step gByteSwap s t).Sound where
  up := h.step_up hlegal hprogress
  down := by
    rw [down_step]
    exact h.down.step (h.legal_down hlegal)
  granting := h.granting.step
  noBusyError := h.noBusyError_step
  busy := h.busy_step hprogress

/-- Between two L2P orders the bus is the other master's. -/
theorem Sound.accepted_eq (h : s.Sound) (hresting : s.up.Resting) :
    s.accepted t = s.down.writes (s.downTick t) := by
  have hcyc : s.l2pDmaCyc = false := by
    refine Bool.eq_false_iff.mpr fun hopen => h.up.balanced.cyc.mp hopen ?_
    have hrequests := hresting.requests
    simp only [CarrierToHost.requests, CarrierToHost.inService, List.append_eq_nil_iff] at hrequests
    exact hrequests.1.1.1
  rw [accepted, hcyc, if_neg Bool.false_ne_true]

variable (gByteSwap) in
/-- Nothing is on its way to the slave, and the P2L DMA master has nothing to do. -/
theorem Sound.nothing_held (h : s.Sound) (hlegal : s.Legal t) (hheld : s.down.held = [])
    (hidle : s.p2l.fsm.p2lDmaCurrentState = .idle) :
    s.accepted t = [] ∧ (DmaSystem.step gByteSwap s t).down.held = [] := by
  have hreceived : s.down.landing.received gByteSwap (s.downTick t) = [] := by
    cases hclk : (s.downTick t).clk with
    | none => rw [P2lLanding.received, hclk]
    | some i =>
        apply List.map_eq_nil_iff.mp
        rw [HostToCarrier.received_eq hclk]
        exact ServedEngine.stored_eq_nil (P2lDmaMaster.storesWord_of_idle hidle)
  have hconserves : s.down.writes (s.downTick t) ++ (DmaSystem.step gByteSwap s t).down.held =
      s.down.held ++ (s.down.landing.received gByteSwap (s.downTick t)).map Prod.fst := by
    rw [down_step]
    exact HostToCarrier.held_conserves h.down (h.legal_down hlegal)
  rw [hheld, hreceived, List.map_nil, List.append_nil, List.append_eq_nil_iff] at hconserves
  rw [accepted, hconserves.1, ite_self]
  exact ⟨rfl, hconserves.2⟩

/-- The P2L DMA master rests as long as it is given nothing. -/
theorem served_rest (hrest : s.down.served.AtRest) (hp2l : s.controller.fsm.dmaCtrlStartP2l = false)
    (hnext : s.controller.fsm.dmaCtrlStartNext = false) :
    (step gByteSwap s t).down.served.AtRest := by
  rw [down_step]
  cases hclk : (s.downTick t).clk with
  | none =>
      rw [HostToCarrier.served_rest hclk]
      exact hrest
  | some i =>
      rw [HostToCarrier.served_step hclk]
      exact hrest.step gByteSwap hp2l hnext

variable (gByteSwap t) in
/-- What is sent of a packet goes on with what was sent of it before. -/
theorem sent_eq {new : List (Bool × Word)} (hopen : s.openWrite = openPacket new) :
    packets new ++ (s.sent gByteSwap t).1 = packets (new ++ s.up.sent gByteSwap (s.upTick t)) ∧
      (s.sent gByteSwap t).2 = openPacket (new ++ s.up.sent gByteSwap (s.upTick t)) := by
  rw [packets_append, openPacket_append, ← hopen]
  exact ⟨rfl, rfl⟩

/-- The orders of an edge, by their direction. -/
theorem orders_up (haccepts : s.up.engine.accepts (s.upTick t) = true) :
    s.orders t = [s.controller.lines] := by
  simp only [L2pEngine.accepts, Bool.and_eq_true, upTick, Option.isSome_map] at haccepts
  obtain ⟨⟨hclk, hstart⟩, -⟩ := haccepts
  have hstart' : s.controller.fsm.dmaCtrlStartL2p = true := hstart
  rw [orders, hclk, hstart']
  rfl

theorem orders_down (hresting : s.up.Resting)
    (haccepts : s.up.engine.accepts (s.upTick t) = false) :
    s.orders t = s.down.orders (s.downTick t) := by
  unfold orders HostToCarrier.orders ServedEngine.orders
  cases hclk : t.clk with
  | none => simp [downTick, hclk]
  | some i =>
      have hstart : s.controller.fsm.dmaCtrlStartL2p = false := by
        simpa [L2pEngine.accepts, upTick, hclk, hresting.idle, controller] using haccepts
      simp only [hstart, downTick, hclk, Option.map_some, Option.isSome_some, Bool.true_and,
        Bool.false_or, if_true]
      rfl

theorem startP2l_of_orders {c : DmaCtrl} (hc : c ∈ s.down.orders (s.downTick t)) :
    c.startP2l = true := by
  unfold HostToCarrier.orders ServedEngine.orders at hc
  split_ifs at hc with hclk hstart
  · obtain rfl := List.mem_singleton.mp hc
    exact hstart
  · cases hc
  · cases hc

/-- What P2L orders that are all stored leave in carrier memory. -/
theorem foldl_stores_eq {cs : List DmaCtrl} (hp2l : ∀ c ∈ cs, c.startP2l = true ∧ c.len.toNat ≤ 4096)
    (m : HostWords × CarrierWords) :
    (cs.flatMap (DmaCtrl.stores gByteSwap m.1.read)).foldl carrierWrite m.2 =
      (cs.foldl (DmaCtrl.execute gByteSwap) m).2 := by
  rw [HostToCarrier.foldl_copies fun c hc => (hp2l c hc).2,
    DmaCtrl.foldl_execute_p2l fun c hc => (hp2l c hc).1]

/-- An edge at which the L2P DMA master is given nothing. -/
theorem Progress.down_step {earlier cs : List DmaCtrl} {ws : List ToWbWord} (hsound : s.Sound)
    (hlegal : s.Legal t) (hordered : s.up.ordered = false) (hresting : s.up.Resting)
    (hopen : s.openWrite = []) (hhost : s.host = (earlier.foldl (DmaCtrl.execute gByteSwap) m).1)
    (hcarrier : s.down.held.foldl carrierWrite s.carrier =
      ws.foldl carrierWrite (earlier.foldl (DmaCtrl.execute gByteSwap) m).2)
    (hp2l : ∀ c ∈ cs, c.startP2l = true ∧ c.len.toNat ≤ 4096)
    (hcopying : s.down.served.Copying gByteSwap s.host.read ws cs)
    (haccepts : s.up.engine.accepts (s.upTick t) = false) :
    Progress gByteSwap m (DmaSystem.step gByteSwap s t) (earlier ++ cs ++ s.orders t) := by
  have hup := hsound.legal_up hlegal
  have hdown := hsound.legal_down hlegal
  have hrest : (DmaSystem.step gByteSwap s t).up.Resting := by
    rw [step_up, ← heard_step hsound.up.balanced]
    exact hresting.step hsound.up hup haccepts
  have hsent : s.sent gByteSwap t = ([], []) := by
    rw [sent, hresting.sent, hopen]
    rfl
  have hhost' : (DmaSystem.step gByteSwap s t).host = s.host := by
    show (s.sent gByteSwap t).1.foldl hostWrite s.host = s.host
    rw [hsent]
    rfl
  have hopen' : (DmaSystem.step gByteSwap s t).openWrite = [] := by
    show (s.sent gByteSwap t).2 = []
    rw [hsent]
  rw [orders_down hresting haccepts, List.append_assoc]
  have hcopying' : (DmaSystem.step gByteSwap s t).down.served.Copying gByteSwap
      (DmaSystem.step gByteSwap s t).host.read
      (ws ++ (s.down.landing.received gByteSwap (s.downTick t)).map Prod.fst)
      (cs ++ s.down.orders (s.downTick t)) := by
    rw [hhost', DmaSystem.down_step]
    exact HostToCarrier.copying_step hsound.down hdown hcopying
  refine .down ?_ hrest hopen' (hhost'.trans hhost) ?_ ?_ hcopying'
  · show (s.up.engine.accepts (s.upTick t) || s.up.ordered && _) = false
    rw [haccepts, hordered]
    rfl
  · -- what the slave has accepted and what is on its way are what was on its way and what came in
    have hconserves : s.down.writes (s.downTick t) ++ (DmaSystem.step gByteSwap s t).down.held =
        s.down.held ++ (s.down.landing.received gByteSwap (s.downTick t)).map Prod.fst := by
      rw [DmaSystem.down_step]
      exact HostToCarrier.held_conserves hsound.down hdown
    show (DmaSystem.step gByteSwap s t).down.held.foldl carrierWrite
      ((s.accepted t).foldl carrierWrite s.carrier) = _
    rw [hsound.accepted_eq hresting, ← List.foldl_append, hconserves, List.foldl_append, hcarrier,
      List.foldl_append]
  · intro c hc
    rcases List.mem_append.mp hc with hc | hc
    · exact hp2l c hc
    · exact ⟨startP2l_of_orders hc, hlegal.short c hc⟩

/-- The P2L DMA master has stored all that it was ordered, when it is idle. -/
theorem copying_of_idle {host : BitVec 64 → Word} {ws : List ToWbWord} {cs : List DmaCtrl}
    (h : s.down.served.Copying gByteSwap host ws cs) (hidle : s.p2l.fsm.p2lDmaCurrentState = .idle) :
    s.down.served.AtRest ∧ ws = cs.flatMap (DmaCtrl.stores gByteSwap host) := by
  cases h with
  | resting atRest => exact ⟨atRest, rfl⟩
  | fetching reading => exact absurd hidle reading.busy
  | storing reading => exact absurd hidle reading.busy

/-- **The L2P DMA master is given an order.** -/
theorem Progress.accept_step {earlier cs : List DmaCtrl} {ws : List ToWbWord} (hsound : s.Sound)
    (hlegal : s.Legal t) (hresting : s.up.Resting) (hopen : s.openWrite = [])
    (hhost : s.host = (earlier.foldl (DmaCtrl.execute gByteSwap) m).1)
    (hcarrier : s.down.held.foldl carrierWrite s.carrier =
      ws.foldl carrierWrite (earlier.foldl (DmaCtrl.execute gByteSwap) m).2)
    (hp2l : ∀ c ∈ cs, c.startP2l = true ∧ c.len.toNat ≤ 4096)
    (hcopying : s.down.served.Copying gByteSwap s.host.read ws cs)
    (haccepts : s.up.engine.accepts (s.upTick t) = true) :
    Progress gByteSwap m (DmaSystem.step gByteSwap s t) (earlier ++ cs ++ s.orders t) := by
  have hup := hsound.legal_up hlegal
  have hstart : s.controller.fsm.dmaCtrlStartL2p = true := by
    simp only [L2pEngine.accepts, Bool.and_eq_true] at haccepts
    exact haccepts.1.2
  have hidle := (hsound.quiet (.inl hstart)).1
  obtain ⟨hnop2l, hnonext⟩ := hsound.no_p2l (.inl hstart)
  have hheld := hlegal.landed haccepts
  obtain ⟨haccepted, hheld'⟩ := hsound.nothing_held gByteSwap hlegal hheld hidle
  obtain ⟨hrest, hstored⟩ := copying_of_idle hcopying hidle
  -- the orders so far are carried out
  have hall : (earlier ++ cs).foldl (DmaCtrl.execute gByteSwap) m = (s.host, s.carrier) := by
    have hcarrier' : s.carrier =
        (cs.foldl (DmaCtrl.execute gByteSwap) (earlier.foldl (DmaCtrl.execute gByteSwap) m)).2 := by
      rw [← foldl_stores_eq hp2l, ← hhost, ← hstored, ← hcarrier, hheld]
      rfl
    rw [List.foldl_append]
    refine Prod.ext ?_ hcarrier'.symm
    rw [DmaCtrl.foldl_execute_p2l fun c hc => (hp2l c hc).1]
    exact hhost.symm
  have hsent : s.sent gByteSwap t = ([], []) := by
    rw [sent, hresting.sent, hopen]
    rfl
  have hcarrier' : (DmaSystem.step gByteSwap s t).carrier = s.carrier := by
    show (s.accepted t).foldl carrierWrite s.carrier = s.carrier
    rw [haccepted]
    rfl
  rw [orders_up haccepts]
  have hcopying' : (DmaSystem.step gByteSwap s t).up.Copying gByteSwap
      (DmaSystem.step gByteSwap s t).carrier.fetch s.controller.lines 0 [] := by
    rw [hcarrier', step_up, ← heard_step hsound.up.balanced]
    exact hresting.accept hsound.up hup haccepts
  refine .up ?_ (hlegal.fits haccepts) hnop2l (served_rest hrest hnop2l hnonext) hheld' ?_ ?_ ?_
    hcopying'
  · show (s.up.engine.accepts (s.upTick t) || _) = true
    rw [haccepts, Bool.true_or]
  · rw [hcarrier', hall]
  · show (s.sent gByteSwap t).1.foldl hostWrite s.host = _
    rw [hsent, hall]
    rfl
  · show (s.sent gByteSwap t).2 = _
    rw [hsent]
    rfl

/-- **An edge while the L2P DMA master has an order.** -/
theorem Progress.up_step {earlier : List DmaCtrl} {c : DmaCtrl} {k : ℕ} {new : List (Bool × Word)}
    (hsound : s.Sound) (hlegal : s.Legal t) (hordered : s.up.ordered = true) (hfits : c.Fits)
    (hl2p : c.startP2l = false) (hrest : s.down.served.AtRest) (hheld : s.down.held = [])
    (hcarrier : s.carrier = (earlier.foldl (DmaCtrl.execute gByteSwap) m).2)
    (hhost : s.host = (packets new).foldl hostWrite (earlier.foldl (DmaCtrl.execute gByteSwap) m).1)
    (hopen : s.openWrite = openPacket new)
    (hcopying : s.up.Copying gByteSwap s.carrier.fetch c k new) :
    Progress gByteSwap m (DmaSystem.step gByteSwap s t) (earlier ++ [c] ++ s.orders t) := by
  have hup := hsound.legal_up hlegal
  have hbusy : s.l2pBusy = true := by rw [hsound.busy, hordered, Bool.true_or]
  have hidle := (hsound.quiet (.inr (.inr hbusy))).1
  obtain ⟨hnop2l, hnonext⟩ := hsound.no_p2l (.inr hbusy)
  obtain ⟨haccepted, hheld'⟩ := hsound.nothing_held gByteSwap hlegal hheld hidle
  have hcarrier' : (DmaSystem.step gByteSwap s t).carrier = s.carrier := by
    show (s.accepted t).foldl carrierWrite s.carrier = s.carrier
    rw [haccepted]
    rfl
  have hrest' : (DmaSystem.step gByteSwap s t).down.served.AtRest := served_rest hrest hnop2l hnonext
  have hnone : s.orders t = [] := by
    have hstart : s.controller.fsm.dmaCtrlStartL2p = false := hcopying.start
    rw [orders, hstart, hnop2l, Bool.or_false, Bool.and_false, if_neg Bool.false_ne_true]
  obtain ⟨hpackets, hopen'⟩ := sent_eq gByteSwap t hopen
  have hhost' : (DmaSystem.step gByteSwap s t).host =
      (packets (new ++ s.up.sent gByteSwap (s.upTick t))).foldl hostWrite
        (earlier.foldl (DmaCtrl.execute gByteSwap) m).1 := by
    rw [← hpackets, List.foldl_append, ← hhost]
    rfl
  have hordered' : (DmaSystem.step gByteSwap s t).up.ordered = (s.up.engine.accepts (s.upTick t) ||
      s.up.ordered && !(DmaSystem.step gByteSwap s t).up.engine.l2p.fsm.dmaCtrlDone) := rfl
  have haccepts : s.up.engine.accepts (s.upTick t) = false := by simp [L2pEngine.accepts, hcopying.start]
  have hheard : s.up.sent gByteSwap (s.heardTick t) = s.up.sent gByteSwap (s.upTick t) := rfl
  rw [hnone, List.append_nil]
  cases hclk : (s.heardTick t).clk with
  | none =>
      have hsent : s.up.sent gByteSwap (s.upTick t) = [] := by
        rw [← hheard, CarrierToHost.sent, hclk]
        rfl
      have hnext := hcopying.step_bus hsound.up hup hclk
      rw [heard_step hsound.up.balanced] at hnext
      rw [hsent, List.append_nil] at hhost' hopen'
      refine .up ?_ hfits hl2p hrest' hheld' (hcarrier'.trans hcarrier) hhost' hopen'
        (hcarrier' ▸ hnext)
      rw [hordered', hordered, show (DmaSystem.step gByteSwap s t).up.engine.l2p.fsm.dmaCtrlDone = false
        from hnext.undone]
      simp
  | some i =>
      have hstep := hcopying.step hsound.up hup hordered hfits hclk
      rw [heard_step hsound.up.balanced, hheard] at hstep
      obtain ⟨hundone, k', hnext⟩ | ⟨hdone, hresting, hclosed, hcopied⟩ := hstep
      · refine .up ?_ hfits hl2p hrest' hheld' (hcarrier'.trans hcarrier) hhost' hopen'
          (hcarrier' ▸ hnext)
        rw [hordered', hordered, show (DmaSystem.step gByteSwap s t).up.engine.l2p.fsm.dmaCtrlDone = false
          from hundone]
        simp
      · -- the order is carried out
        have hexecuted : (earlier ++ [c]).foldl (DmaCtrl.execute gByteSwap) m =
            ((DmaSystem.step gByteSwap s t).host, (DmaSystem.step gByteSwap s t).carrier) := by
          rw [List.foldl_append, List.foldl_cons, List.foldl_nil, DmaCtrl.execute,
            DmaCtrl.executeFirst_l2p hl2p, hhost', hcarrier', hcopied, ← hcarrier]
          rfl
        rw [← List.append_nil (earlier ++ [c])]
        refine .down ?_ hresting (hopen'.trans hclosed) (by rw [hexecuted]) ?_
          (fun _ hc => absurd hc List.not_mem_nil) (.resting hrest')
        · rw [hordered', haccepts,
            show (DmaSystem.step gByteSwap s t).up.engine.l2p.fsm.dmaCtrlDone = true from hdone]
          simp
        · rw [hheld', hexecuted]
          rfl

/-- **An edge**, whatever the engine does. -/
theorem Progress.step (h : Progress gByteSwap m s cs) (hsound : s.Sound) (hlegal : s.Legal t) :
    (DmaSystem.step gByteSwap s t).Sound ∧
      Progress gByteSwap m (DmaSystem.step gByteSwap s t) (cs ++ s.orders t) := by
  refine ⟨hsound.step hlegal h, ?_⟩
  cases h with
  | down hordered hresting hopen hhost hcarrier hp2l hcopying =>
      cases haccepts : s.up.engine.accepts (s.upTick t) with
      | false =>
          exact down_step hsound hlegal hordered hresting hopen hhost hcarrier hp2l hcopying haccepts
      | true => exact accept_step hsound hlegal hresting hopen hhost hcarrier hp2l hcopying haccepts
  | up hordered hfits hl2p hrest hheld hcarrier hhost hopen hcopying =>
      exact up_step hsound hlegal hordered hfits hl2p hrest hheld hcarrier hhost hopen hcopying

/-! ## Runs -/

theorem reset_sound (addrFifoDin : Word) (dataFifoValid : Bool) (addrFifoDout dataFifoDout : Word)
    (toWbDout : ToWbWord) (host : HostWords) (carrier : CarrierWords) :
    (reset addrFifoDin dataFifoValid addrFifoDout dataFifoDout toWbDout host carrier).Sound where
  up := CarrierToHost.reset_sound addrFifoDin dataFifoValid addrFifoDout dataFifoDout
  down := HostToCarrier.reset_sound toWbDout
  granting :=
    { shape := P2lDmaMaster.reset_shape
      claimed := fun hgnt => absurd hgnt Bool.false_ne_true
      asked := fun hgnt => absurd hgnt Bool.false_ne_true }
  noBusyError := rfl
  busy := rfl

variable (gByteSwap) in
theorem reset_progress (addrFifoDin : Word) (dataFifoValid : Bool) (addrFifoDout dataFifoDout : Word)
    (toWbDout : ToWbWord) (host : HostWords) (carrier : CarrierWords) :
    Progress gByteSwap (host, carrier)
      (reset addrFifoDin dataFifoValid addrFifoDout dataFifoDout toWbDout host carrier) [] := by
  have hrest : (reset addrFifoDin dataFifoValid addrFifoDout dataFifoDout toWbDout host
      carrier).down.served.AtRest := ⟨⟨rfl, rfl, rfl⟩, rfl, rfl⟩
  have hcopying : (reset addrFifoDin dataFifoValid addrFifoDout dataFifoDout toWbDout host
      carrier).down.served.Copying gByteSwap host.read
        (([] : List DmaCtrl).flatMap (DmaCtrl.stores gByteSwap host.read)) [] := .resting hrest
  rw [← List.append_nil ([] : List DmaCtrl)]
  refine .down rfl ⟨rfl, rfl, rfl, fun h => nomatch h⟩ rfl rfl ?_
    (fun _ hc => absurd hc List.not_mem_nil) hcopying
  rfl

/-- The memories, with the words that are on their way to the slave. -/
def memories (s : DmaSystem) : HostWords × CarrierWords :=
  (s.host, s.down.held.foldl carrierWrite s.carrier)

/-- What the memories are while the orders are under way. -/
theorem Progress.memories (h : Progress gByteSwap m s cs) (hsound : s.Sound) :
    s.memories = cs.foldl (DmaCtrl.execute gByteSwap) m ∨
      s.controller.fsm.dmaCtrlCurrentState = .transfer ∧ ∃ earlier c n, cs = earlier ++ [c] ∧
        s.memories = DmaCtrl.executeFirst gByteSwap n (earlier.foldl (DmaCtrl.execute gByteSwap) m) c := by
  cases h with
  | @down earlier cs ws hordered hresting hopen hhost hcarrier hp2l hcopying =>
      have hlanded : s.memories =
          (s.host, ws.foldl carrierWrite (earlier.foldl (DmaCtrl.execute gByteSwap) m).2) := by
        rw [DmaSystem.memories, hcarrier]
      rw [hlanded, List.foldl_append]
      cases hcopying with
      | resting | fetching =>
          left
          rw [hhost, foldl_stores_eq hp2l, DmaCtrl.foldl_execute_p2l fun c hc => (hp2l c hc).1]
      | @storing cs c k k' ws reading storing received =>
          right
          have hshort := hp2l c (List.mem_append_right _ List.mem_cons_self)
          have hbefore : ∀ c ∈ cs, c.startP2l = true ∧ c.len.toNat ≤ 4096 :=
            fun c hc => hp2l c (List.mem_append_left _ hc)
          refine ⟨?_, earlier ++ cs, c, ws.length, (List.append_assoc ..).symm, ?_⟩
          · obtain ⟨-, -, -, p, hphase, hexpected⟩ := hsound.down.landing.coordinated
            cases p with
            | quiet | doneT | done | fetched => exact absurd hphase.1 reading.busy
            | running => exact hexpected.1
            | fetching => exact absurd (hphase.2.1.symm.trans storing.transfer) (by decide)
            | failed => exact absurd (hsound.down.noFailure.symm.trans hphase) (by decide)
          · have hall : (earlier ++ cs).foldl (DmaCtrl.execute gByteSwap) m =
                (s.host, (cs.flatMap (DmaCtrl.stores gByteSwap s.host.read)).foldl carrierWrite
                  (earlier.foldl (DmaCtrl.execute gByteSwap) m).2) := by
              rw [List.foldl_append, hhost, foldl_stores_eq hbefore]
              refine Prod.ext ?_ rfl
              rw [DmaCtrl.foldl_execute_p2l fun c hc => (hbefore c hc).1]
            rw [DmaCtrl.executeFirst_p2l hshort.1, hall, List.foldl_append,
              DmaCtrl.foldl_fifoWords_isPrefix received hshort.2]
  | @up earlier c k new hordered hfits hl2p hrest hheld hcarrier hhost hopen hcopying =>
      right
      refine ⟨hcopying.state, earlier, c, 32 * k, rfl, ?_⟩
      have hlen := c.len_carrierTransfer s.carrier.fetch
      have hlt := c.len.isLt
      rw [DmaSystem.memories, hheld, hhost, hcopying.front.hostMemory hcopying.flow (by omega)
        (by rw [WriteTransfer.packetCount, hlen]; exact hfits), c.hostWords_carrierTransfer,
        DmaCtrl.executeFirst_l2p hl2p, hcarrier]
      rfl

/-- An edge of both clocks, at which the slave and the host answer as soon as they may. -/
def servedEdge (s : DmaSystem) (loads : DmaLoads) : DmaSystemTick where
  clk := some
    { loads := loads
      lWrRdy := 0b11#2
      l2pRdy := true
      addrFifoFull := false
      pd :=
        { masterCpld := !s.owed.isEmpty
          masterCpln := false
          dataValid := !s.owed.isEmpty
          dataLast := s.owed.length == 1
          data := s.owed.head?.elim 0 s.host.read }
      wbm := ⟨false, false, 0, false⟩ }
  bus := some ⟨!s.up.pending.isEmpty || s.toWb.wb.cyc, s.up.pending.head?.elim 0 s.carrier.fetch,
    false, false⟩
  addrArrive := 1
  dataArrive := 1
  toWbArrive := 1

def servedEdges : DmaSystem → List DmaLoads → List DmaSystemTick
  | _, [] => []
  | s, loads :: more =>
      s.servedEdge loads :: servedEdges (s.step false (s.servedEdge loads)) more

/-- At 0x1000 lies an item for two words from 0x40 to 0x3000, and everywhere else the address. -/
def itemHost (a : BitVec 62) : Word :=
  let item : DmaItem := ⟨0x40, 0x0, 0x3000, 8, 0x0, 0x0, 0⟩
  if a - 0x400#62 < 7#62 then item.hostWords[(a - 0x400#62).toNat]?.getD 0
  else a.extractLsb' 0 30 ++ 0b00#2

/-- Three words from 0x2000 to 0x40, and the item at 0x1000 behind them. -/
def thereAndBack : List DmaLoads :=
  ⟨some 1, some 0x40, some 0x2000, none, some 12, some 0x1000, none, some 3⟩ :: List.replicate 70 .none

end DmaSystem

end Gn4124Core
