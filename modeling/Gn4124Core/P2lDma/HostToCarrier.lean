import Gn4124Core.P2lDma.Landing
import Gn4124Core.P2lDma.Orders

/-!
# From host memory to carrier memory

The P2L DMA engine between the host that answers its read requests and the slave that takes its
writes.  The slave is written what the orders say (`orders_copied`).  The controller learns of
the end of a transfer from the master, which knows nothing of the words behind it, so a transfer
that is done has still to reach the slave.

This holds in a quiet surrounding only, and `Legal` is the whole list of what is assumed of an
edge:

* no abort, no error, and no end of an L2P transfer but of one under way;
* a completion with data for every read request, from a host memory that does not change, and no
  other word from the host while the master waits for one;
* a grant only for a request of the cycle before;
* a slave that does not stall.

An abort in the middle of a transfer, for instance, leaves words of its order unwritten for good.

The engine's part is `Copying.step`: which words are stored, in which order.  The part of the way
behind it is `held_conserves`: what is stored is written or held on the way, since a slave that
does not stall accepts every strobe (`writes_eq`).  `copying_run` adds the two up over a run.
-/

namespace Gn4124Core

open Clocked Blocks

/-- The engine with `to_wb_fifo` and the Wishbone side behind it, and what the arbiter and the host
remember. -/
structure HostToCarrier where
  landing : P2lLanding
  asked : Bool
  openRequest : List Word
  owed : List (BitVec 64)
deriving DecidableEq

namespace HostToCarrier

variable (gByteSwap : Bool) (host : BitVec 64 → Word) (s : HostToCarrier) (t : P2lLandingTick)

/-- The engine and its host. -/
def served : ServedEngine :=
  ⟨s.landing.engine, s.asked, s.landing.l2pBusy, s.openRequest, s.owed⟩

def step : HostToCarrier where
  landing := s.landing.step gByteSwap t
  asked := t.clk.elim s.asked fun i => (s.served.step gByteSwap i).asked
  openRequest := t.clk.elim s.openRequest fun i => (s.served.step gByteSwap i).openRequest
  owed := t.clk.elim s.owed fun i => (s.served.step gByteSwap i).owed

def reset (q : ToWbWord) : HostToCarrier := ⟨.reset q, false, [], []⟩

/-- The P2L orders that the controller starts. -/
def orders : List DmaCtrl := if t.clk.isSome then s.served.orders else []

/-- The writes that the slave accepts. -/
def writes : List ToWbWord := (s.landing.accepted t).map Prod.fst

/-- The words on their way to the slave. -/
def held : List ToWbWord := s.landing.held.map Prod.fst

/-- What is assumed of an edge.  The engine is served: there is neither an abort nor an error, the
host answers what is asked for and sends nothing else while the master waits, no completion is one
without data, and a grant is one for a request of the cycle before.  The slave does not stall. -/
structure Legal (host : BitVec 64 → Word) (s : HostToCarrier) (t : P2lLandingTick) : Prop where
  serving : ∀ i ∈ t.clk, s.served.Serving host i
  unstalled : ∀ p ∈ t.wb, s.landing.wishbone.wb.stb = true → p.p2lDmaStall = false

instance : Decidable (Legal host s t) :=
  have : Decidable (∀ i ∈ t.clk, s.served.Serving host i) := Option.decidableForallMem t.clk
  have : Decidable (∀ p ∈ t.wb, s.landing.wishbone.wb.stb = true → p.p2lDmaStall = false) :=
    Option.decidableForallMem t.wb
  decidable_of_iff ((∀ i ∈ t.clk, s.served.Serving host i) ∧
      ∀ p ∈ t.wb, s.landing.wishbone.wb.stb = true → p.p2lDmaStall = false)
    ⟨fun ⟨h₁, h₂⟩ => ⟨h₁, h₂⟩, fun ⟨h₁, h₂⟩ => ⟨h₁, h₂⟩⟩

/-- What holds in every state. -/
structure Sound (s : HostToCarrier) : Prop where
  landing : s.landing.Sound
  hasWords : s.served.controller.HasWords
  noFailure : s.served.master.fsm.completionError = false

variable {gByteSwap host s t}

theorem served_step {i : DmaEngineIn} (hclk : t.clk = some i) :
    (step gByteSwap s t).served = s.served.step gByteSwap i := by
  simp only [served, step, P2lLanding.step, hclk, Option.elim_some]
  rfl

theorem served_rest (hclk : t.clk = none) : (step gByteSwap s t).served = s.served := by
  simp [served, step, P2lLanding.step, hclk]

/-- What the master stores goes to `to_wb_fifo`. -/
theorem received_eq {i : DmaEngineIn} (hclk : t.clk = some i) :
    (s.landing.received gByteSwap t).map Prod.fst = s.served.stored gByteSwap i := by
  unfold P2lLanding.received ServedEngine.stored
  have hstores : s.landing.engine.master.storesWord (s.landing.engine.masterIn i) =
      s.served.master.storesWord (s.served.engine.masterIn i) := rfl
  cases hword : s.served.master.storesWord (s.served.engine.masterIn i) with
  | false => simp [hclk, hstores, hword]
  | true =>
      simp only [hclk, hstores, hword, if_true]
      rfl

theorem Legal.errorFree (h : Legal host s t) : s.landing.ErrorFree t :=
  fun i hi => (h.serving i hi).errorFree

theorem Sound.step (h : s.Sound) (hlegal : Legal host s t) :
    (HostToCarrier.step gByteSwap s t).Sound := by
  have hlanding : (HostToCarrier.step gByteSwap s t).landing.Sound := h.landing.step hlegal.errorFree
  cases hclk : t.clk with
  | none =>
      have hsame : (HostToCarrier.step gByteSwap s t).served = s.served := served_rest hclk
      exact ⟨hlanding, by rw [hsame]; exact h.hasWords, by rw [hsame]; exact h.noFailure⟩
  | some i =>
      have hserved : (HostToCarrier.step gByteSwap s t).served = s.served.step gByteSwap i :=
        served_step hclk
      refine ⟨hlanding, ?_, ?_⟩
      · rw [hserved]
        exact DmaController.hasWords_step h.landing.coordinated.pulses
      · rw [hserved]
        exact ServedEngine.completionError_step gByteSwap h.noFailure (hlegal.serving i hclk).noCpln

/-- The orders given so far, and the words stored of them. -/
theorem copying_step {ws : List ToWbWord} {cs : List DmaCtrl} (h : s.Sound) (hlegal : Legal host s t)
    (hcopying : s.served.Copying gByteSwap host ws cs) :
    (step gByteSwap s t).served.Copying gByteSwap host
      (ws ++ (s.landing.received gByteSwap t).map Prod.fst) (cs ++ s.orders t) := by
  cases hclk : t.clk with
  | none =>
      have hreceived : s.landing.received gByteSwap t = [] := by rw [P2lLanding.received, hclk]
      have horders : s.orders t = [] := by simp [orders, hclk]
      rw [served_rest hclk, hreceived, horders, List.map_nil, List.append_nil, List.append_nil]
      exact hcopying
  | some i =>
      have horders : s.orders t = s.served.orders := by simp [orders, hclk]
      rw [served_step hclk, received_eq hclk, horders]
      exact hcopying.step h.landing.coordinated h.hasWords (hlegal.serving i hclk)

/-- Without a stall the slave accepts what is strobed. -/
theorem writes_eq (h : s.Sound) (hlegal : Legal host s t) :
    s.writes t = (s.landing.strobed t).map Prod.fst := by
  have hcyc := h.landing.cyc
  unfold writes P2lLanding.accepted P2lLanding.strobed DmaWishbone.accepted DmaWishbone.strobed
    P2lLanding.wbTick
  cases hwb : t.wb with
  | none => rfl
  | some p =>
      cases hstb : s.landing.wishbone.wb.stb with
      | false => simp
      | true => simp [hcyc hstb, hlegal.unstalled p hwb hstb, P2lDmaWbPorts.ports]

/-- No word is lost on the way to the slave. -/
theorem held_conserves (h : s.Sound) (hlegal : Legal host s t) :
    s.writes t ++ (step gByteSwap s t).held =
      s.held ++ (s.landing.received gByteSwap t).map Prod.fst := by
  have hconserves : s.landing.strobed t ++ (s.landing.step gByteSwap t).held =
      s.landing.held ++ s.landing.received gByteSwap t :=
    P2lLanding.held_conserves h.landing hlegal.errorFree
  rw [writes_eq h hlegal, held, held, ← List.map_append, ← List.map_append, ← hconserves]
  rfl

/-! ## Runs -/

theorem reset_sound (q : ToWbWord) : (reset q).Sound :=
  ⟨P2lLanding.reset_sound q, (fun h => nomatch h), rfl⟩

/-- The writes so far and the words on their way are what the orders say. -/
theorem copying_run {q : ToWbWord} {is : List P2lLandingTick}
    (legal : Always (step gByteSwap) (Legal host) (reset q) is) :
    (run (step gByteSwap) (reset q) is).Sound ∧
      (run (step gByteSwap) (reset q) is).served.Copying gByteSwap host
        (log (step gByteSwap) writes (reset q) is ++ (run (step gByteSwap) (reset q) is).held)
        (log (step gByteSwap) orders (reset q) is) := by
  refine run_induction (motive := fun js => (run (step gByteSwap) (reset q) js).Sound ∧
    (run (step gByteSwap) (reset q) js).served.Copying gByteSwap host
      (log (step gByteSwap) writes (reset q) js ++ (run (step gByteSwap) (reset q) js).held)
      (log (step gByteSwap) orders (reset q) js)) legal ?_ ?_
  · refine ⟨reset_sound q, ?_⟩
    show (reset q).served.Copying gByteSwap host
      (([] : List DmaCtrl).flatMap (DmaCtrl.stores gByteSwap host)) []
    exact .resting ⟨⟨rfl, rfl, rfl⟩, rfl, rfl⟩
  · intro js t _ hlegal hbefore
    obtain ⟨hsound, hcopying⟩ := hbefore
    have hnext := copying_step hsound hlegal hcopying
    rw [run_concat, log_concat, log_concat]
    refine ⟨hsound.step hlegal, ?_⟩
    rwa [List.append_assoc, ← held_conserves hsound hlegal, ← List.append_assoc] at hnext

/-- Orders of at most 1024 words, all of whose writes are made. -/
theorem foldl_copies {cs : List DmaCtrl} (hshort : ∀ c ∈ cs, c.len.toNat ≤ 4096)
    (carrier : CarrierWords) :
    (cs.flatMap (DmaCtrl.stores gByteSwap host)).foldl carrierWrite carrier =
      cs.foldl (DmaCtrl.copyIn gByteSwap host) carrier := by
  induction cs generalizing carrier with
  | nil => rfl
  | cons c cs ih =>
      rw [List.flatMap_cons, List.foldl_append, List.foldl_cons,
        DmaCtrl.foldl_stores (hshort c List.mem_cons_self),
        ih fun c' hc' => hshort c' (List.mem_cons_of_mem c hc')]

/-- **P2L transfers copy.**  In every run from reset that meets `Legal`, without aborts and errors
and with a slave that does not stall, the slave is written what the orders say, in their order and
none of it twice.  When the controller does not wait for the end of a transfer, all of it is written
or on its way; and when nothing is on its way, and no order was for more than 1024 words, the orders
are carried out. -/
theorem orders_copied (gByteSwap : Bool) (host : BitVec 64 → Word) (q : ToWbWord)
    (is : List P2lLandingTick) (legal : Always (step gByteSwap) (Legal host) (reset q) is) :
    let s := run (step gByteSwap) (reset q) is
    let ws := log (step gByteSwap) writes (reset q) is
    let cs := log (step gByteSwap) orders (reset q) is
    ws <+: cs.flatMap (DmaCtrl.stores gByteSwap host) ∧
      (s.served.controller.fsm.dmaCtrlCurrentState ≠ .transfer →
        ws ++ s.held = cs.flatMap (DmaCtrl.stores gByteSwap host) ∧
          (s.held = [] → (∀ c ∈ cs, c.len.toNat ≤ 4096) →
            ∀ carrier, ws.foldl carrierWrite carrier =
              cs.foldl (DmaCtrl.copyIn gByteSwap host) carrier)) := by
  intro s ws cs
  obtain ⟨hsound, hcopying⟩ := copying_run legal
  refine ⟨(List.prefix_append ws s.held).trans hcopying.isPrefix, fun hstate => ?_⟩
  have hall : ws ++ s.held = cs.flatMap (DmaCtrl.stores gByteSwap host) :=
    hcopying.eq_of_state hsound.landing.coordinated hsound.noFailure hstate
  refine ⟨hall, fun hheld hshort carrier => ?_⟩
  rw [hheld, List.append_nil] at hall
  rw [hall, foldl_copies hshort]

/-! ### A chain of two orders -/

/-- An edge of both clocks, at which the arbiter grants and the host answers as soon as they may. -/
def servedEdge (host : BitVec 64 → Word) (s : HostToCarrier) (loads : DmaLoads) : P2lLandingTick where
  clk := some
    { loads := loads
      l2pDone := false
      l2pError := false
      pd :=
        { masterCpld := !s.owed.isEmpty
          masterCpln := false
          dataValid := !s.owed.isEmpty
          dataLast := s.owed.length == 1
          data := s.owed.head?.elim 0 host }
      arbPdmGnt := s.asked && s.served.master.fsm.pdmArbReq }
  wb := some ⟨true, false, false⟩
  arrive := 1

def servedEdges (host : BitVec 64 → Word) : HostToCarrier → List DmaLoads → List P2lLandingTick
  | _, [] => []
  | s, loads :: more =>
      servedEdge host s loads :: servedEdges host (step false s (servedEdge host s loads)) more

/-- At 0x1000 lies an item for two words from 0x3000 to 0x80, and everywhere else the address. -/
def itemHost (a : BitVec 64) : Word :=
  let item : DmaItem := ⟨0x80, 0x0, 0x3000, 8, 0x0, 0x0, 2⟩
  if a - 0x1000#64 < 28#64 then item.hostWords[(a - 0x1000#64).toNat / 4]?.getD 0
  else a.extractLsb' 0 32

/-- Three words from 0x2000 to 0x40, and the item at 0x1000 behind them. -/
def firstOrder : List DmaLoads :=
  ⟨some 1, some 0x40, some 0x2000, none, some 12, some 0x1000, none, some 3⟩ :: List.replicate 40 .none

theorem firstOrder_copied :
    let ws := log (step false) writes (reset ⟨0, 0⟩) (servedEdges itemHost (reset ⟨0, 0⟩) firstOrder)
    let cs := log (step false) orders (reset ⟨0, 0⟩) (servedEdges itemHost (reset ⟨0, 0⟩) firstOrder)
    cs.map (fun c => (c.hostAddrL, c.carrierAddr, c.len)) = [(0x2000, 0x40, 12), (0x3000, 0x80, 8)] ∧
      ∀ carrier, ws.foldl carrierWrite carrier = cs.foldl (DmaCtrl.copyIn false itemHost) carrier := by
  refine ⟨by decide +kernel, ?_⟩
  have hcopied := orders_copied false itemHost ⟨0, 0⟩
    (servedEdges itemHost (reset ⟨0, 0⟩) firstOrder) (by decide +kernel)
  exact (hcopied.2 (by decide +kernel)).2 (by decide +kernel) (by decide +kernel)

end HostToCarrier

end Gn4124Core
