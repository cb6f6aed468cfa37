import Gn4124Core.Clocked.Flow
import Gn4124Core.Rtl.DmaWishbone

/-!
# Requests on the DMA Wishbone bus

A request flows through the FIFO and, once it is popped, through two registers to the bus: it is
behind the valid flag in the next cycle, and strobed in the one after it.  The strobe lasts one
cycle whatever the slave does.  The stall is sampled when the request is popped, two cycles too
early, so a strobe that the slave stalls is lost.

What is strobed is always what is popped, in the same order (`strobed_flow`).  What the slave
accepts is all of it if and only if it never stalls a strobe (`accepted_flow_iff`).

Both are flows of `Clocked.Flow`.  The conservation at one edge is `fifo_conserves` for the FIFO and
`inFlight_conserves` for the two registers.  The slave accepts no more than what is strobed, and as
much at an edge exactly if it does not stall there (`accepted_le`), so that comparing the lengths is
enough for the whole run.
-/

namespace Gn4124Core

open Clocked

namespace DmaWishbone

variable {α : Type*} (s : DmaWishbone α) (t : DmaWbTick DmaWbPorts α)

/-! ## What an observer sees -/

/-- The requests written into the FIFO. -/
def written (_ : DmaWishbone α) (t : DmaWbTick DmaWbPorts α) : List α := t.write.toList

/-- The requests popped from the FIFO. -/
def popped : List α := if s.pops t then [(s.step t).fifo.q] else []

/-- The requests strobed on the bus. -/
def strobed : List α := if t.wb.isSome && s.wb.stb then [s.wb.request] else []

/-- The requests that the slave accepts. -/
def accepted : List α :=
  match t.wb with
  | some p => if s.wb.cyc && s.wb.stb && !p.stall then [s.wb.request] else []
  | none => []

/-- The requests popped and not yet strobed. -/
def inFlight : List α :=
  (if s.wb.stb then [s.wb.request] else []) ++ if s.wb.fifoValid then [s.fifo.q] else []

/-- The slave does not stall a strobe. -/
def Unstalled : Prop := ∀ p ∈ t.wb, s.wb.stb = true → p.stall = false

instance : Decidable (s.Unstalled t) :=
  match h : t.wb with
  | some p => decidable_of_iff (s.wb.stb = true → p.stall = false) (by simp [Unstalled, h])
  | none => .isTrue (by simp [Unstalled, h])

variable {s t}

/-! ## One edge -/

theorem ready_of_pops (h : s.pops t = true) : s.fifo.ready ≠ [] := by
  unfold pops fifoRd at h
  cases hwb : t.wb with
  | none => simp [hwb] at h
  | some p =>
      apply AsyncFifo.ready_ne_nil
      simp only [hwb, Bool.and_eq_true, Bool.not_eq_true'] at h
      exact h.1.1

/-- Without an edge of its clock the Wishbone side pops nothing. -/
theorem pops_of_none (h : t.wb = none) : s.pops t = false := by simp [pops, h]

theorem fifo_conserves :
    Conserves (s.written t) (s.popped t) s.fifo.contents (s.step t).fifo.contents := by
  have htick := AsyncFifo.contents_tick (ready_of_pops (s := s) (t := t)) t.write.isSome
    (t.write.getD s.fifo.q) t.arrive
  have hwritten : (if t.write.isSome then [t.write.getD s.fifo.q] else []) = s.written t := by
    unfold written
    cases t.write <;> rfl
  rw [hwritten] at htick
  exact htick

theorem fifoValid_step {p : DmaWbPorts} (h : t.wb = some p) :
    (s.step t).wb.fifoValid = s.pops t := by
  have hrd : (s.fifoRd p && !s.fifo.empty) = s.fifoRd p := by
    unfold fifoRd
    cases s.fifo.empty <;> simp
  simp [step, stepWb, pops, h, DmaWbMaster.step, hrd]

/-- A request is strobed two cycles after it is popped. -/
theorem inFlight_conserves : Conserves (s.popped t) (s.strobed t) s.inFlight (s.step t).inFlight := by
  unfold Conserves
  cases hwb : t.wb with
  | none =>
      have hpops : s.pops t = false := pops_of_none hwb
      have hq : (s.step t).fifo.q = s.fifo.q := by simp [step, hpops]
      simp [strobed, popped, inFlight, hwb, hpops, hq, show (s.step t).wb = s.wb by simp [step, stepWb, hwb]]
  | some p =>
      have hvalid := fifoValid_step (s := s) hwb
      have hstb : (s.step t).wb.stb = s.wb.fifoValid := by simp [step, stepWb, hwb, DmaWbMaster.step]
      have hrequest : (s.step t).wb.request = if s.wb.fifoValid then s.fifo.q else s.wb.request := by
        simp [step, stepWb, hwb, DmaWbMaster.step]
      simp only [strobed, popped, inFlight, hwb, hvalid, hstb, hrequest, Option.isSome_some,
        Bool.true_and]
      cases s.wb.fifoValid <;> simp

/-- A strobe comes with its cycle. -/
theorem cyc_step (h : s.wb.stb = true → s.wb.cyc = true) :
    (s.step t).wb.stb = true → (s.step t).wb.cyc = true := by
  cases hwb : t.wb with
  | none => simpa [step, stepWb, hwb] using h
  | some p => simp +contextual [step, stepWb, hwb, DmaWbMaster.step]

/-! ## Runs -/

variable {request q : α} {is : List (DmaWbTick DmaWbPorts α)}

/-- What is popped is what is written, in the same order. -/
theorem popped_flow (is : List (DmaWbTick DmaWbPorts α)) :
    log step popped s is ++ (run step s is).fifo.contents =
      s.fifo.contents ++ log step written s is := by
  have hconserves : ∀ (s : DmaWishbone α) t,
      Conserves (s.written t) (s.popped t) s.fifo.contents (s.step t).fifo.contents :=
    fun _ _ => fifo_conserves
  exact flow_always _ hconserves s is

/-- What is strobed is what is popped, in the same order. -/
theorem strobed_flow (is : List (DmaWbTick DmaWbPorts α)) :
    log step strobed s is ++ (run step s is).inFlight = s.inFlight ++ log step popped s is :=
  flow_always _ (fun _ _ => inFlight_conserves) s is

/-- The slave accepts only what is strobed. -/
theorem strobed_of_accepted {request : α} (h : request ∈ s.accepted t) : request ∈ s.strobed t := by
  unfold accepted at h
  unfold strobed
  cases hwb : t.wb with
  | none => simp [hwb] at h
  | some p =>
      simp only [hwb] at h
      split_ifs at h with haccepts
      · simp_all
      · simp at h

theorem accepted_le (h : s.wb.stb = true → s.wb.cyc = true) :
    (s.accepted t).length ≤ (s.strobed t).length ∧
      ((s.accepted t).length = (s.strobed t).length ↔ s.Unstalled t) := by
  unfold accepted strobed Unstalled
  cases hwb : t.wb with
  | none => simp
  | some p =>
      cases hstb : s.wb.stb with
      | false => simp
      | true => cases hstall : p.stall <;> simp [h hstb, hstall]

theorem accepted_eq_strobed (h : s.wb.stb = true → s.wb.cyc = true) (hunstalled : s.Unstalled t) :
    s.accepted t = s.strobed t := by
  unfold accepted strobed
  cases hwb : t.wb with
  | none => simp
  | some p =>
      cases hstb : s.wb.stb with
      | false => simp
      | true => simp [h hstb, hunstalled p hwb hstb]

/-- The slave accepts what is popped, in the same order, if and only if it stalls no strobe. -/
theorem accepted_flow_iff (h : s.wb.stb = true → s.wb.cyc = true)
    (is : List (DmaWbTick DmaWbPorts α)) :
    log step accepted s is ++ (run step s is).inFlight = s.inFlight ++ log step popped s is ↔
      Always step Unstalled s is := by
  have hkeeps : ∀ (s : DmaWishbone α) t, (s.wb.stb = true → s.wb.cyc = true) →
      ((s.step t).wb.stb = true → (s.step t).wb.cyc = true) := fun _ _ h => cyc_step h
  have hcyc := always_stable hkeeps h is
  rw [← strobed_flow is, List.append_left_inj]
  constructor
  · intro heq
    refine (length_log_eq_iff ?_ ?_ hcyc).mp (congrArg List.length heq)
    · intro s t hs
      exact (accepted_le hs).1
    · intro s t hs
      exact (accepted_le hs).2
  · intro hunstalled
    refine log_congr ?_ (hcyc.and hunstalled)
    intro s t hs
    exact accepted_eq_strobed hs.1 hs.2

/-- Every request popped from the FIFO is accepted by the slave exactly once and in the order of
the FIFO, but for those on their way from the FIFO to the bus. -/
def AcceptsOnce (s : DmaWishbone α) (is : List (DmaWbTick DmaWbPorts α)) : Prop :=
  log step accepted s is ++ (run step s is).inFlight = log step popped s is ∧
    log step popped s is ++ (run step s is).fifo.contents = log step written s is

instance [DecidableEq α] (s : DmaWishbone α) (is : List (DmaWbTick DmaWbPorts α)) :
    Decidable (AcceptsOnce s is) := inferInstanceAs (Decidable (_ ∧ _))

theorem acceptsOnce_iff (request q : α) (is : List (DmaWbTick DmaWbPorts α)) :
    AcceptsOnce (reset request q) is ↔ Always step Unstalled (reset request q) is := by
  have hflow := popped_flow (s := reset request q) is
  have haccepted := accepted_flow_iff (s := reset request q) (by simp [reset, DmaWbMaster.reset]) is
  have hnone : (reset request q).inFlight = [] := rfl
  have hempty : (reset request q).fifo.contents = [] := rfl
  rw [hempty, List.nil_append] at hflow
  rw [hnone, List.nil_append] at haccepted
  exact ⟨fun h => haccepted.mp h.1, fun h => ⟨haccepted.mpr h, hflow⟩⟩

/-- **Requests under stalls.**  For both DMA masters, under any stalls and acknowledges and any
arrivals in the FIFO: every request popped is accepted exactly once and in order if and only if the
slave stalls no strobe. -/
theorem requests_accepted_iff (q : Word) (is : List (DmaWbTick L2pDmaWbPorts Word)) (q' : ToWbWord)
    (is' : List (DmaWbTick P2lDmaWbPorts ToWbWord)) :
    let ts := is.map (DmaWbTick.mapPorts L2pDmaWbPorts.ports)
    let ts' := is'.map (DmaWbTick.mapPorts P2lDmaWbPorts.ports)
    (AcceptsOnce (L2pDmaWishbone.reset q) ts ↔ Always step Unstalled (L2pDmaWishbone.reset q) ts) ∧
      (AcceptsOnce (P2lDmaWishbone.reset q') ts' ↔
        Always step Unstalled (P2lDmaWishbone.reset q') ts') :=
  ⟨acceptsOnce_iff 0 q _, acceptsOnce_iff (⟨0, 0⟩ : ToWbWord) q' _⟩

/-- One address in the FIFO, and a slave that stalls for one cycle, two cycles after the address
is popped. -/
def stalledTicks : List (DmaWbTick L2pDmaWbPorts Word) :=
  let edge stall := ⟨some ⟨false, stall, false, false⟩, none, 0⟩
  [⟨none, some 0x40, 1⟩, edge false, edge false, edge true, edge false, edge false]

/-- The address is lost: it is popped and strobed, but never accepted. -/
theorem stalled_request_lost :
    let ts := stalledTicks.map (DmaWbTick.mapPorts L2pDmaWbPorts.ports)
    log step popped (L2pDmaWishbone.reset 0) ts = [0x40] ∧
      log step accepted (L2pDmaWishbone.reset 0) ts = [] ∧
      (run step (L2pDmaWishbone.reset 0) ts).inFlight = [] ∧
      ¬ AcceptsOnce (L2pDmaWishbone.reset 0) ts := by
  decide +kernel

end DmaWishbone

end Gn4124Core
