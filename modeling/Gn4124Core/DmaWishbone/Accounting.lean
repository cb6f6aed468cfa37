import Gn4124Core.DmaWishbone.Exclusion

/-!
# The accounts of a DMA Wishbone master

A master with the slave that it has for itself: the slave answers each strobe once and in order,
after any number of cycles or in the very cycle of the strobe.  `outstanding` has the requests
that are strobed and not answered, the one on the bus included.

The two counters of the master differ by the number of outstanding requests, and the cycle is open
exactly while there are any (`Balanced`).  `wb_ack_cnt = wb_read_cnt-1` tells the last one from the
others as long as there are fewer than 2^32, whatever the counters have wrapped to.

`Balanced.step` keeps the invariant at every edge, of either clock, and `closes_run` reads the
accounts of a run off it.  That the answers are those of the popped addresses, in their order, does
not depend on the counters: it is the composition of two flows, from the FIFO to the strobes
(`issued_conserves`) and from the strobes to the answers (`outstanding_conserves`).
-/

namespace Gn4124Core

open Clocked

/-- What a master samples, with the data of the slave. -/
structure DmaSlavePorts where
  ports : DmaWbPorts
  dat : Word
deriving DecidableEq

/-- A Wishbone side, and the requests that its slave has yet to answer from earlier cycles. -/
structure DmaServed (α : Type*) where
  master : DmaWishbone α
  pending : List α
deriving DecidableEq

namespace DmaServed

variable {α : Type*} (s : DmaServed α) (t : DmaWbTick DmaSlavePorts α)

/-- The edge as the master sees it. -/
def masterTick : DmaWbTick DmaWbPorts α := t.mapPorts DmaSlavePorts.ports

/-- The requests strobed and not answered, the one on the bus included. -/
def outstanding : List α := s.pending ++ if s.master.wb.stb then [s.master.wb.request] else []

def step : DmaServed α where
  master := s.master.step (masterTick t)
  pending :=
    match t.wb with
    | some p => if p.ports.ack then s.outstanding.tail else s.outstanding
    | none => s.pending

def reset (request q : α) : DmaServed α := ⟨.reset request q, []⟩

/-- The slave answers only what is strobed, and there are fewer than 2^32 requests outstanding. -/
def Answers : Prop :=
  (∀ p ∈ t.wb, p.ports.ack = true → s.outstanding ≠ []) ∧ s.outstanding.length < 2 ^ 32

/-! ## What an observer sees -/

/-- The addresses popped from the FIFO. -/
def popped : List α := s.master.popped (masterTick t)

/-- The strobes, at the edge that puts them on the bus. -/
def issued : List α := if t.wb.isSome && s.master.wb.fifoValid then [s.master.fifo.q] else []

/-- The acknowledges on the bus. -/
def acknowledged (_ : DmaServed α) (t : DmaWbTick DmaSlavePorts α) : List Word :=
  match t.wb with
  | some p => if p.ports.ack then [p.dat] else []
  | none => []

/-- What the slave answers, and to which request. -/
def answered : List (α × Word) :=
  match t.wb with
  | some p => if p.ports.ack then s.outstanding.head?.toList.map fun r => (r, p.dat) else []
  | none => []

/-- The words written into the data FIFO of the L2P DMA master: `data_fifo_wr`. -/
def dataFifoWritten : List Word :=
  match t.wb with
  | some p => if p.ports.ack && s.master.wb.cyc then [p.dat] else []
  | none => []

/-- An acknowledge meets an open cycle. -/
def AckInCycle : Prop := ∀ p ∈ t.wb, p.ports.ack = true → s.master.wb.cyc = true

/-- The counters and the cycle tell what is outstanding. -/
structure Balanced : Prop where
  counters : s.master.wb.unacked = BitVec.ofNat 32 s.outstanding.length
  cyc : s.master.wb.cyc = true ↔ s.outstanding ≠ []

variable {s t}

/-! ## One edge -/

theorem wb_step {p : DmaSlavePorts} (h : t.wb = some p) :
    (s.step t).master.wb = s.master.wb.step (s.master.fifoRd p.ports) s.master.fifo.empty
      s.master.fifo.q p.ports.ack := by
  simp [step, masterTick, DmaWbTick.mapPorts, DmaWishbone.step, DmaWishbone.stepWb, h]

theorem wb_step_none (h : t.wb = none) : (s.step t).master.wb = s.master.wb := by
  simp [step, masterTick, DmaWbTick.mapPorts, DmaWishbone.step, DmaWishbone.stepWb, h]

theorem issued_eq {p : DmaSlavePorts} (h : t.wb = some p) :
    s.issued t = if s.master.wb.fifoValid then [s.master.fifo.q] else [] := by
  simp [issued, h]

theorem outstanding_step {p : DmaSlavePorts} (h : t.wb = some p) :
    (s.step t).outstanding = (if p.ports.ack then s.outstanding.tail else s.outstanding) ++
      s.issued t := by
  rw [outstanding, wb_step h, issued_eq h]
  simp only [step, h, DmaWbMaster.step]
  by_cases hvalid : s.master.wb.fifoValid = true <;> simp [hvalid]

theorem outstanding_step_none (h : t.wb = none) : (s.step t).outstanding = s.outstanding := by
  rw [outstanding, wb_step_none h]
  simp only [step, h]
  rfl

/-- The slave answers the oldest request, and a new strobe comes behind the others. -/
theorem outstanding_conserves (hslave : s.Answers t) :
    Conserves (s.issued t) ((s.answered t).map Prod.fst) s.outstanding (s.step t).outstanding := by
  unfold Conserves
  cases hwb : t.wb with
  | none => simp [answered, issued, hwb, outstanding_step_none hwb]
  | some p =>
      rw [outstanding_step hwb]
      simp only [answered, hwb]
      cases hack : p.ports.ack with
      | false => simp
      | true =>
          obtain ⟨r, rs, hrs⟩ := List.exists_cons_of_ne_nil (hslave.1 p hwb hack)
          simp [hrs]

theorem answered_data (hslave : s.Answers t) :
    (s.answered t).map Prod.snd = s.acknowledged t := by
  unfold answered acknowledged
  cases hwb : t.wb with
  | none => rfl
  | some p =>
      cases hack : p.ports.ack with
      | false => simp [hack]
      | true =>
          obtain ⟨r, rs, hrs⟩ := List.exists_cons_of_ne_nil (hslave.1 p hwb hack)
          simp [hack, hrs]

/-- A popped request is strobed in the cycle after the next. -/
theorem issued_conserves : Conserves (s.popped t) (s.issued t)
    (if s.master.wb.fifoValid then [s.master.fifo.q] else [])
    (if (s.step t).master.wb.fifoValid then [(s.step t).master.fifo.q] else []) := by
  unfold Conserves
  cases hwb : t.wb with
  | none =>
      have htick : (masterTick t).wb = none := by simp [masterTick, DmaWbTick.mapPorts, hwb]
      have hpops := DmaWishbone.pops_of_none (s := s.master) htick
      have hq : (s.step t).master.fifo.q = s.master.fifo.q := by
        simp [step, DmaWishbone.step, hpops]
      simp [popped, DmaWishbone.popped, issued, hwb, hpops, hq, wb_step_none hwb]
  | some p =>
      have htick : (masterTick t).wb = some p.ports := by simp [masterTick, DmaWbTick.mapPorts, hwb]
      have hvalid : (s.step t).master.wb.fifoValid = s.master.pops (masterTick t) :=
        DmaWishbone.fifoValid_step htick
      rw [issued_eq hwb, hvalid]
      rfl

theorem Balanced.ack (h : s.Balanced) (hslave : s.Answers t) : s.AckInCycle t := by
  intro p hp hack
  exact h.cyc.mpr (hslave.1 p hp hack)

theorem Balanced.step (h : s.Balanced) (hslave : s.Answers t) : (s.step t).Balanced := by
  cases hwb : t.wb with
  | none =>
      constructor
      · rw [wb_step_none hwb, outstanding_step_none hwb]
        exact h.counters
      · rw [wb_step_none hwb, outstanding_step_none hwb]
        exact h.cyc
  | some p =>
      have hopen := h.ack hslave p hwb
      -- below 2^32 the difference of the counters tells the number exactly
      have hone : s.master.wb.unacked = 1 ↔ s.outstanding.length = 1 := by
        rw [h.counters, ← BitVec.toNat_inj, BitVec.toNat_ofNat, Nat.mod_eq_of_lt hslave.2]
        rfl
      have hcounters := DmaWbMaster.unacked_step (s := s.master.wb) (s.master.fifoRd p.ports)
        s.master.fifo.empty s.master.fifo.q p.ports.ack
      rw [← wb_step hwb, h.counters] at hcounters
      constructor
      · rw [outstanding_step hwb, issued_eq hwb]
        cases hack : p.ports.ack with
        | false =>
            rw [hack] at hcounters
            cases hvalid : s.master.wb.fifoValid <;> simpa [hvalid, BitVec.ofNat_add] using hcounters
        | true =>
            obtain ⟨r, rs, hrs⟩ := List.exists_cons_of_ne_nil (hslave.1 p hwb hack)
            rw [hack, hopen hack, hrs, List.length_cons, BitVec.ofNat_add] at hcounters
            cases hvalid : s.master.wb.fifoValid with
            | false =>
                rw [hvalid] at hcounters
                simpa [hrs] using hcounters
            | true =>
                rw [hvalid] at hcounters
                simpa [hrs, BitVec.ofNat_add] using hcounters
      · rw [wb_step hwb, DmaWbMaster.cyc_step_iff, outstanding_step hwb, issued_eq hwb]
        cases hvalid : s.master.wb.fifoValid with
        | true => simp
        | false =>
            cases hack : p.ports.ack with
            | false => simp [DmaWbMaster.lastAck, h.cyc]
            | true =>
                obtain ⟨r, rs, hrs⟩ := List.exists_cons_of_ne_nil (hslave.1 p hwb hack)
                -- the comparison with `wb_ack_cnt` sees the last acknowledge in its own cycle
                have hlast : s.master.wb.lastAck true = false ↔ rs ≠ [] := by
                  rw [← Bool.not_eq_true, DmaWbMaster.lastAck_iff, hone, hrs]
                  simp
                simp [hlast, hopen hack, hrs]

/-! ## Runs -/

theorem reset_balanced (request q : α) : (reset request q).Balanced := by
  constructor
  · simp [reset, outstanding, DmaWishbone.reset, DmaWbMaster.reset, DmaWbMaster.unacked]
  · simp [reset, outstanding, DmaWishbone.reset, DmaWbMaster.reset]

theorem balanced_run {request q : α} {ts : List (DmaWbTick DmaSlavePorts α)}
    (legal : Always step Answers (reset request q) ts) :
    (run step (reset request q) ts).Balanced :=
  invariant_run (fun _ _ h hslave => h.step hslave) legal (reset_balanced request q)

/-- The accounts of a run: the cycle is open exactly while strobes are unacknowledged, the counters
differ by their number, and no acknowledge comes outside of the cycle. -/
structure Closes (s : DmaServed α) (ts : List (DmaWbTick DmaSlavePorts α)) : Prop where
  cyc : (run step s ts).master.wb.cyc = true ↔
    (log step issued s ts).length ≠ (log step acknowledged s ts).length
  counters : (log step acknowledged s ts).length ≤ (log step issued s ts).length ∧
    (run step s ts).master.wb.unacked =
      BitVec.ofNat 32 ((log step issued s ts).length - (log step acknowledged s ts).length)
  acks : Always step AckInCycle s ts

/-- Every strobe is answered or outstanding. -/
theorem issued_flow {request q : α} {ts : List (DmaWbTick DmaSlavePorts α)}
    (legal : Always step Answers (reset request q) ts) :
    (log step answered (reset request q) ts).map Prod.fst ++
        (run step (reset request q) ts).outstanding =
      log step issued (reset request q) ts := by
  have hkeeps : ∀ (s : DmaServed α) (t : DmaWbTick DmaSlavePorts α), True → s.Answers t → True :=
    fun _ _ _ _ => trivial
  have hflow := flow_run hkeeps
    (fun s t _ (hslave : s.Answers t) => outstanding_conserves hslave) legal trivial
  have hnone : (reset request q).outstanding = [] := rfl
  rwa [log_map, hnone, List.nil_append] at hflow

theorem acknowledged_eq {request q : α} {ts : List (DmaWbTick DmaSlavePorts α)}
    (legal : Always step Answers (reset request q) ts) :
    log step acknowledged (reset request q) ts =
      (log step answered (reset request q) ts).map Prod.snd := by
  rw [← log_map]
  exact log_congr (fun s t hslave => (answered_data hslave).symm) legal

theorem closes_run {request q : α} {ts : List (DmaWbTick DmaSlavePorts α)}
    (legal : Always step Answers (reset request q) ts) : (reset request q).Closes ts := by
  have hbalanced := balanced_run legal
  have hacks : (log step acknowledged (reset request q) ts).length +
      (run step (reset request q) ts).outstanding.length =
        (log step issued (reset request q) ts).length := by
    rw [acknowledged_eq legal, ← issued_flow legal]
    simp
  refine ⟨?_, ⟨by omega, ?_⟩, ?_⟩
  · rw [hbalanced.cyc, ne_eq, ← List.length_eq_zero_iff]
    omega
  · rw [hbalanced.counters]
    congr 1
    omega
  · have hinv := Always.of_invariant (fun s t (h : s.Balanced) hslave => h.step hslave) legal
      (reset_balanced request q)
    exact hinv.mono fun s t h => h.1.ack h.2

/-- The words written into the data FIFO are the answers to the popped addresses, in order. -/
theorem dataFifo_flow {request q : α} {ts : List (DmaWbTick DmaSlavePorts α)}
    (legal : Always step Answers (reset request q) ts) :
    log step dataFifoWritten (reset request q) ts =
        (log step answered (reset request q) ts).map Prod.snd ∧
      (log step answered (reset request q) ts).map Prod.fst <+:
        log step popped (reset request q) ts := by
  constructor
  · -- `data_fifo_wr` is the acknowledge within the cycle, and there is no other
    rw [← acknowledged_eq legal]
    refine log_congr (fun s t hack => ?_) (closes_run legal).acks
    unfold dataFifoWritten acknowledged
    cases hwb : t.wb with
    | none => rfl
    | some p =>
        have hopen := hack p hwb
        cases hp : p.ports.ack with
        | false => simp [hp]
        | true => simp [hp, hopen hp]
  · have hstrobes := flow_always step (fun s t => issued_conserves (s := s) (t := t))
      (reset request q) ts
    have hvalid : (if (reset request q).master.wb.fifoValid then [(reset request q).master.fifo.q]
        else []) = [] := rfl
    rw [hvalid, List.nil_append] at hstrobes
    rw [← hstrobes, ← issued_flow legal, List.append_assoc]
    exact List.prefix_append ..

end DmaServed

/-- The ports of a master, with the data of the slave. -/
def DmaWbTick.withData {π α : Type*} (f : π → DmaWbPorts) (t : DmaWbTick (π × Word) α) :
    DmaWbTick DmaSlavePorts α :=
  t.mapPorts fun p => ⟨f p.1, p.2⟩

namespace DmaServed

open DmaWbTick

/-- **The accounts of both DMA masters close.**  For any latency of the slave and whatever holds
the FIFO back: the cycle is open exactly while strobes are unacknowledged, the counters differ by
the number of these whatever they have wrapped to, every acknowledge comes within the cycle, and
the words that the L2P DMA master writes into its data FIFO answer the addresses that it has taken
from the address FIFO, one by one. -/
theorem accounts_close (q : Word) (is : List (DmaWbTick (L2pDmaWbPorts × Word) Word)) (q' : ToWbWord)
    (is' : List (DmaWbTick (P2lDmaWbPorts × Word) ToWbWord)) :
    let ts := is.map (withData L2pDmaWbPorts.ports)
    let ts' := is'.map (withData P2lDmaWbPorts.ports)
    Always step Answers (reset (0 : Word) q) ts → Always step Answers (reset ⟨0, 0⟩ q') ts' →
      (Closes (reset (0 : Word) q) ts ∧
        log step dataFifoWritten (reset (0 : Word) q) ts =
          (log step answered (reset (0 : Word) q) ts).map Prod.snd ∧
        (log step answered (reset (0 : Word) q) ts).map Prod.fst <+:
          log step popped (reset (0 : Word) q) ts) ∧
      Closes (reset ⟨0, 0⟩ q') ts' :=
  fun legal legal' => ⟨⟨closes_run legal, dataFifo_flow legal⟩, closes_run legal'⟩

instance (s : DmaServed α) (t : DmaWbTick DmaSlavePorts α) : Decidable (s.Answers t) :=
  inferInstanceAs (Decidable ((∀ p ∈ t.wb, p.ports.ack = true → s.outstanding ≠ []) ∧ _))

/-- Two reads: the first is answered in the cycle after its strobe, while the second is strobed,
and the second two cycles later. -/
def twoReads : List (DmaWbTick (L2pDmaWbPorts × Word) Word) :=
  let edge ack dat := ⟨some (⟨ack, false, false, false⟩, dat), none, 0⟩
  [⟨none, some 0x40, 1⟩, ⟨none, some 0x41, 1⟩, edge false 0, edge false 0, edge false 0,
    edge true 0xa, edge false 0, edge true 0xb]

/-- One write, answered in the cycle of its strobe. -/
def oneWrite : List (DmaWbTick (P2lDmaWbPorts × Word) ToWbWord) :=
  let edge ack := ⟨some (⟨ack, false, false⟩, 0), none, 0⟩
  [⟨none, some ⟨0x40, 0xa⟩, 1⟩, edge false, edge false, edge true]

theorem accounts_close_two_reads :
    Closes (reset (0 : Word) 0) (twoReads.map (withData L2pDmaWbPorts.ports)) ∧
      log step dataFifoWritten (reset (0 : Word) 0) (twoReads.map (withData L2pDmaWbPorts.ports)) =
        [0xa, 0xb] ∧
      Closes (reset ⟨0, 0⟩ ⟨0, 0⟩) (oneWrite.map (withData P2lDmaWbPorts.ports)) := by
  have h := accounts_close 0 twoReads ⟨0, 0⟩ oneWrite (by decide +kernel) (by decide +kernel)
  exact ⟨h.1.1, h.1.2.1.trans (by decide +kernel), h.2⟩

end DmaServed

end Gn4124Core
