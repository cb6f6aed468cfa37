import Gn4124Core.DmaWishbone.Requests
import Gn4124Core.P2lDma.Coordination

/-!
# When a P2L transfer has landed

The DMA controller and the P2L DMA master with `to_wb_fifo` and the Wishbone side behind it.  The
two clocks are independent of one another: an edge of the run is one of `clk_i`, of the clock of
the bus, or of both.

`dma_ctrl_done` goes from the master straight to the controller, while the words of the transfer
still have the FIFO and two registers before them.  The words are numbered here by the transfer
they belong to.  When the controller acts on the end of a transfer, the slave has accepted all its
words if and only if none of them is left in the FIFO or on its way from there to the bus, and no
strobe of one of them was stalled (`landed_iff`).
-/

namespace Gn4124Core

open Clocked

/-- A word of `to_wb_fifo`, and the number of the P2L transfer that it belongs to. -/
abbrev ItemWord := ToWbWord × ℕ

/-- The words of the transfer `n`. -/
def ofItem (n : ℕ) (ws : List ItemWord) : List ItemWord := ws.filter fun w => w.2 = n

/-- The engine, whether the L2P DMA master has a transfer, the number of P2L transfers ordered so
far, and the Wishbone side of the P2L DMA master. -/
structure P2lLanding where
  engine : DmaEngine
  l2pBusy : Bool
  item : ℕ
  wishbone : DmaWishbone ItemWord
deriving DecidableEq

/-- An edge of `clk_i`, of the clock of the DMA Wishbone bus or of both, and the words that finish
their way through the FIFO. -/
structure P2lLandingTick where
  clk : Option DmaEngineIn
  wb : Option P2lDmaWbPorts
  arrive : ℕ
deriving DecidableEq

namespace P2lLanding

variable (gByteSwap : Bool) (s : P2lLanding) (t : P2lLandingTick)

/-- What waits at the input of the FIFO for an edge of `clk_i`. -/
def pending : List ItemWord :=
  if s.engine.master.addrCnt.toWbFifoWr then [(s.engine.master.addrCnt.toWbFifoDin, s.item)] else []

/-- What is written into the FIFO. -/
def write : Option ItemWord := if t.clk.isSome then s.pending.head? else none

def wbTick : DmaWbTick DmaWbPorts ItemWord := ⟨t.wb.map P2lDmaWbPorts.ports, s.write t, t.arrive⟩

def step : P2lLanding where
  engine :=
    match t.clk with
    | some i => s.engine.step gByteSwap i
    | none => s.engine
  l2pBusy :=
    match t.clk with
    | some i => s.engine.nextL2pBusy s.l2pBusy i
    | none => s.l2pBusy
  item := if t.clk.isSome && s.engine.controller.fsm.dmaCtrlStartP2l then s.item + 1 else s.item
  wishbone := s.wishbone.step (s.wbTick t)

def reset (q : ToWbWord) : P2lLanding := ⟨.reset, false, 0, .reset (⟨0, 0⟩, 0) (q, 0)⟩

/-- The data words that the master receives for a P2L transfer, each with its address. -/
def received : List ItemWord :=
  match t.clk with
  | some i =>
      if s.engine.master.storesWord (s.engine.masterIn i) then
        [((s.engine.step gByteSwap i).master.addrCnt.toWbFifoDin, s.item)]
      else []
  | none => []

/-- The words strobed on the bus. -/
def strobed : List ItemWord := s.wishbone.strobed (s.wbTick t)

/-- The writes that the slave accepts. -/
def accepted : List ItemWord := s.wishbone.accepted (s.wbTick t)

/-- The words between the completions and the bus. -/
def held : List ItemWord := s.wishbone.inFlight ++ (s.wishbone.fifo.contents ++ s.pending)

/-- Neither an abort nor an error. -/
def ErrorFree : Prop := ∀ i ∈ t.clk, s.engine.ErrorFree s.l2pBusy i

/-- The controller acts on the end of a P2L transfer. -/
def Acts : Prop :=
  t.clk.isSome = true ∧ s.engine.controller.fsm.dmaCtrlCurrentState = .transfer ∧
    s.l2pBusy = false ∧ s.engine.master.ctrlPipe.dmaCtrlDone = true

/-- No strobe of a word of the transfer `n` is stalled. -/
def Unstalled (n : ℕ) : Prop :=
  ∀ p ∈ t.wb, s.wishbone.wb.stb = true → s.wishbone.wb.request.2 = n → p.p2lDmaStall = false

/-- No word of the transfer `n` is in the FIFO, or on its way from there to the bus. -/
def Drained (n : ℕ) : Prop := ∀ w ∈ s.wishbone.inFlight ++ s.wishbone.fifo.contents, w.2 ≠ n

instance : Decidable (s.ErrorFree t) := Option.decidableForallMem t.clk

instance : Decidable (s.Acts t) := inferInstanceAs (Decidable (_ ∧ _))

instance (n : ℕ) : Decidable (s.Unstalled t n) := Option.decidableForallMem t.wb

instance (n : ℕ) : Decidable (s.Drained n) := inferInstanceAs (Decidable (∀ w ∈ _, _))

variable {gByteSwap s t}

/-! ## One edge -/

/-- What the controller does when it acts on the end of a transfer. -/
theorem acts_step {i : DmaEngineIn} (hclk : t.clk = some i) (hacts : s.Acts t)
    (hfree : s.ErrorFree t) :
    (step gByteSwap s t).engine.controller.fsm.dmaCtrlCurrentState = .startChain ∨
      (step gByteSwap s t).engine.controller.fsm.dmaDoneIrq = true ∧
        (step gByteSwap s t).engine.controller.fsm.dmaStatus = cDone := by
  obtain ⟨-, hstate, -, hdone⟩ := hacts
  have hfree' := hfree i hclk
  have habort := hfree'.abortBit (.inl hstate)
  have herror := hfree'.noError
  have hline : (s.engine.controllerIn i).dmaCtrlDone = true := by simp [DmaEngine.controllerIn, hdone]
  have hfsm : (step gByteSwap s t).engine.controller.fsm =
      s.engine.controller.pFsm (s.engine.controllerIn i) := by simp [step, hclk, DmaEngine.step,
        DmaController.step]
  rw [hfsm]
  cases hmore : s.engine.controller.regs.item.more with
  | true => left; simp [DmaController.pFsm, hstate, habort, herror, hline, hmore]
  | false => right; simp [DmaController.pFsm, hstate, habort, herror, hline, hmore]

/-- What holds in every run without an error. -/
structure Sound (s : P2lLanding) : Prop where
  coordinated : s.engine.Coordinated s.l2pBusy
  cyc : s.wishbone.wb.stb = true → s.wishbone.wb.cyc = true

theorem reset_sound (q : ToWbWord) : (reset q).Sound :=
  ⟨DmaEngine.reset_coordinated, fun h => by simp [reset, DmaWishbone.reset, DmaWbMaster.reset] at h⟩

theorem Sound.step (h : s.Sound) (hfree : s.ErrorFree t) : (P2lLanding.step gByteSwap s t).Sound := by
  obtain ⟨hcoordinated, hcyc⟩ := h
  refine ⟨?_, DmaWishbone.cyc_step hcyc⟩
  cases hclk : t.clk with
  | none => simpa [P2lLanding.step, hclk] using hcoordinated
  | some i => simpa [P2lLanding.step, hclk] using hcoordinated.step (hfree i hclk)

/-- A word that is received waits for the next edge of `clk_i`, and is written at that edge. -/
theorem pending_conserves (h : s.Sound) (hfree : s.ErrorFree t) :
    Conserves (s.received gByteSwap t) (s.wishbone.written (s.wbTick t)) s.pending
      (step gByteSwap s t).pending := by
  unfold Conserves DmaWishbone.written
  cases hclk : t.clk with
  | none => simp [received, wbTick, write, pending, step, hclk]
  | some i =>
      have hwritten : (s.wbTick t).write.toList = s.pending := by
        simp only [wbTick, write, hclk, pending]
        cases s.engine.master.addrCnt.toWbFifoWr <;> rfl
      rw [hwritten, List.append_cancel_left_eq]
      have hengine : (step gByteSwap s t).engine = s.engine.step gByteSwap i := by simp [step, hclk]
      cases hp2l : s.engine.controller.fsm.dmaCtrlStartP2l with
      | true =>
          -- the write strobe keeps its value at this edge, but it is low
          have hwr := h.coordinated.toWbFifoWr_eq (hfree i hclk) (.inl hp2l)
          have hkept := P2lDmaMaster.toWbFifoWr_start gByteSwap (s := s.engine.master)
            (i := s.engine.masterIn i) hp2l
          have hstores : s.engine.master.storesWord (s.engine.masterIn i) = false := by
            simp [P2lDmaMaster.storesWord, DmaEngine.masterIn, DmaController.lines, hp2l]
          simp [pending, received, hclk, hengine, DmaEngine.step, hkept, hwr, hstores]
      | false =>
          have hstores := P2lDmaMaster.toWbFifoWr_step gByteSwap (s := s.engine.master)
            (i := s.engine.masterIn i) hp2l
          have hitem : (step gByteSwap s t).item = s.item := by simp [step, hp2l]
          simp [pending, received, hclk, hengine, hitem, DmaEngine.step, hstores]

/-- Nothing is lost between the completions and the strobes. -/
theorem held_conserves (h : s.Sound) (hfree : s.ErrorFree t) :
    Conserves (s.received gByteSwap t) (s.strobed t) s.held (step gByteSwap s t).held :=
  DmaWishbone.inFlight_conserves.comp
    (DmaWishbone.fifo_conserves.comp (pending_conserves h hfree))

/-! ## The words of one transfer -/

/-- Of the words of a transfer the slave accepts those whose strobe it does not stall. -/
theorem accepted_le (n : ℕ) (hcyc : s.wishbone.wb.stb = true → s.wishbone.wb.cyc = true) :
    (ofItem n (s.accepted t)).length ≤ (ofItem n (s.strobed t)).length ∧
      ((ofItem n (s.accepted t)).length = (ofItem n (s.strobed t)).length ↔ s.Unstalled t n) := by
  unfold accepted strobed DmaWishbone.accepted DmaWishbone.strobed Unstalled wbTick ofItem
  cases hwb : t.wb with
  | none => simp
  | some p =>
      cases hstb : s.wishbone.wb.stb with
      | false => simp
      | true =>
          by_cases hitem : s.wishbone.wb.request.2 = n
          · cases hstall : p.p2lDmaStall <;> simp [P2lDmaWbPorts.ports, hcyc hstb, hitem, hstall]
          · cases hstall : p.p2lDmaStall <;> simp [P2lDmaWbPorts.ports, hcyc hstb, hitem, hstall]

theorem accepted_eq_strobed (n : ℕ) (hcyc : s.wishbone.wb.stb = true → s.wishbone.wb.cyc = true)
    (hunstalled : s.Unstalled t n) : ofItem n (s.accepted t) = ofItem n (s.strobed t) := by
  unfold accepted strobed DmaWishbone.accepted DmaWishbone.strobed wbTick ofItem
  cases hwb : t.wb with
  | none => simp
  | some p =>
      cases hstb : s.wishbone.wb.stb with
      | false => simp
      | true =>
          by_cases hitem : s.wishbone.wb.request.2 = n
          · simp [P2lDmaWbPorts.ports, hcyc hstb, hunstalled p hwb hstb hitem]
          · cases hstall : p.p2lDmaStall <;> simp [P2lDmaWbPorts.ports, hcyc hstb, hitem, hstall]

/-! ## Runs -/

variable {q : ToWbWord} {is : List P2lLandingTick}

/-- All data words received of the transfer `n` are accepted, in the order of the completions. -/
def Landed (gByteSwap : Bool) (q : ToWbWord) (n : ℕ) (is : List P2lLandingTick) : Prop :=
  ofItem n (log (step gByteSwap) accepted (reset q) is) =
    ofItem n (log (step gByteSwap) (received gByteSwap) (reset q) is)

instance (n : ℕ) : Decidable (Landed gByteSwap q n is) := inferInstanceAs (Decidable (_ = _))

theorem sound_step (gByteSwap : Bool) (s : P2lLanding) (t : P2lLandingTick) (h : s.Sound)
    (hfree : s.ErrorFree t) : (step gByteSwap s t).Sound := h.step hfree

theorem sound_run (legal : Always (step gByteSwap) ErrorFree (reset q) is) :
    (run (step gByteSwap) (reset q) is).Sound :=
  invariant_run (sound_step gByteSwap) legal (reset_sound q)

/-- What is received is what is strobed and what is held. -/
theorem strobed_flow (legal : Always (step gByteSwap) ErrorFree (reset q) is) :
    log (step gByteSwap) strobed (reset q) is ++ (run (step gByteSwap) (reset q) is).held =
      log (step gByteSwap) (received gByteSwap) (reset q) is := by
  have hflow := flow_run (sound_step gByteSwap) (fun _ _ h hfree => held_conserves h hfree) legal
    (reset_sound q)
  have hempty : (reset q).held = [] := rfl
  rwa [hempty, List.nil_append] at hflow

/-- What is accepted of a transfer is what is strobed of it if and only if no strobe is stalled. -/
theorem accepted_iff (n : ℕ) (legal : Always (step gByteSwap) ErrorFree (reset q) is) :
    (ofItem n (log (step gByteSwap) accepted (reset q) is)).length =
        (ofItem n (log (step gByteSwap) strobed (reset q) is)).length ↔
      Always (step gByteSwap) (fun s t => s.Unstalled t n) (reset q) is := by
  have hsound := Always.of_invariant (sound_step gByteSwap) legal (reset_sound q)
  unfold ofItem
  rw [← log_filter, ← log_filter]
  apply length_log_eq_iff _ _ hsound
  · exact fun s t h => (accepted_le n h.1.cyc).1
  · exact fun s t h => (accepted_le n h.1.cyc).2

theorem drained_iff {n : ℕ} (hpending : s.pending = []) : ofItem n s.held = [] ↔ s.Drained n := by
  unfold ofItem Drained held
  rw [hpending, List.append_nil, List.filter_eq_nil_iff]
  simp

/-- When the controller acts, nothing waits at the input of the FIFO any more. -/
theorem Sound.pending_of_acts (h : s.Sound) (hfree : s.ErrorFree t) (hacts : s.Acts t) :
    s.pending = [] := by
  obtain ⟨hclk, -, -, hdone⟩ := hacts
  obtain ⟨i, hi⟩ := Option.isSome_iff_exists.mp hclk
  simp [pending, h.coordinated.toWbFifoWr_eq (hfree i hi) (.inr hdone)]

/-- **When a transfer has landed.**  Take any error-free run from reset and an edge behind it at
which the controller acts on the end of a P2L transfer.  The slave has accepted all data words of
the transfer, each at its address and in order, if and only if none of them is left in the FIFO or
on its way from there to the bus and no strobe of one of them was stalled. -/
theorem landed_iff (gByteSwap : Bool) (q : ToWbWord) (is : List P2lLandingTick) (t : P2lLandingTick)
    (legal : Always (step gByteSwap) ErrorFree (reset q) (is ++ [t]))
    (hacts : (run (step gByteSwap) (reset q) is).Acts t) :
    let s := run (step gByteSwap) (reset q) is
    Landed gByteSwap q s.item is ↔
      s.Drained s.item ∧ Always (step gByteSwap) (fun s' t' => s'.Unstalled t' s.item) (reset q) is := by
  intro s
  obtain ⟨hrun, hlast⟩ := (always_concat _ _ is t).mp legal
  have hpending : s.pending = [] := (sound_run hrun).pending_of_acts hlast hacts
  have hflow : ofItem s.item (log (step gByteSwap) strobed (reset q) is) ++ ofItem s.item s.held =
      ofItem s.item (log (step gByteSwap) (received gByteSwap) (reset q) is) := by
    unfold ofItem
    rw [← List.filter_append, strobed_flow hrun]
  have hlen := congrArg List.length hflow
  rw [List.length_append] at hlen
  have hsound := Always.of_invariant (sound_step gByteSwap) hrun (reset_sound q)
  have hle : (ofItem s.item (log (step gByteSwap) accepted (reset q) is)).length ≤
      (ofItem s.item (log (step gByteSwap) strobed (reset q) is)).length := by
    unfold ofItem
    rw [← log_filter, ← log_filter]
    exact length_log_le (fun s t h => (accepted_le _ h.1.cyc).1) hsound
  -- a word that is not accepted is still held, or was strobed in vain
  rw [← drained_iff hpending, ← accepted_iff s.item hrun]
  unfold Landed
  constructor
  · intro hlanded
    have hsame := congrArg List.length hlanded
    have hheld : (ofItem s.item s.held).length = 0 := by omega
    exact ⟨List.length_eq_zero_iff.mp hheld, by omega⟩
  · rintro ⟨hheld, hsame⟩
    have hunstalled := (accepted_iff s.item hrun).mp hsame
    rw [hheld, List.append_nil] at hflow
    rw [← hflow]
    unfold ofItem
    rw [← log_filter, ← log_filter]
    refine log_congr ?_ (hsound.and hunstalled)
    exact fun s t h => accepted_eq_strobed _ h.1.1.cyc h.2

/-! ### A transfer of one word -/

/-- An edge of `clk_i` alone. -/
def clkEdge (loads : DmaLoads) (pd : PdPdm) (gnt : Bool) (arrive : ℕ) : P2lLandingTick :=
  ⟨some ⟨loads, false, false, pd, gnt⟩, none, arrive⟩

/-- The host orders a P2L transfer of one word, and the completion comes.  The word is written into
the FIFO at the last edge. -/
def oneWordTicks : List P2lLandingTick :=
  [clkEdge { DmaLoads.none with dmaCtrl := some 1, dmaLen := some 4, dmaAttrib := some 2 } .quiet false 0] ++
    List.replicate 5 (clkEdge .none .quiet true 0) ++
    [clkEdge .none ⟨true, false, true, true, 0xa⟩ false 0, clkEdge .none .quiet false 1]

/-- An edge of the bus clock alone, with a slave that does not stall. -/
def wbEdge : P2lLandingTick := ⟨none, some ⟨false, false, false⟩, 0⟩

/-- Without an edge of the bus clock the controller acts before the word has been accepted. -/
theorem done_before_landing :
    let t := clkEdge .none .quiet false 0
    let s := run (step false) (reset ⟨0, 0⟩) oneWordTicks
    Always (step false) ErrorFree (reset ⟨0, 0⟩) (oneWordTicks ++ [t]) ∧ s.Acts t ∧
      log (step false) (received false) (reset ⟨0, 0⟩) oneWordTicks = [(⟨0, 0xa⟩, s.item)] ∧
      log (step false) accepted (reset ⟨0, 0⟩) oneWordTicks = [] ∧
      ¬ Landed false ⟨0, 0⟩ s.item oneWordTicks := by
  decide +kernel

/-- With three of them it has been accepted. -/
theorem done_behind_landing :
    let is := oneWordTicks ++ List.replicate 3 wbEdge
    let s := run (step false) (reset ⟨0, 0⟩) is
    Landed false ⟨0, 0⟩ s.item is := by
  intro is s
  exact (landed_iff false ⟨0, 0⟩ is (clkEdge .none .quiet false 0) (by decide +kernel)
    (by decide +kernel)).mpr (by decide +kernel)

end P2lLanding

end Gn4124Core
