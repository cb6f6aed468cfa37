import Gn4124Core.Csr.Bridge

/-!
# The CSR bridge finishes its work

`work` counts the steps that are left for all the requests and read data inside the bridge:
twelve for a request that has just come from the decoder, and less by one after each step.  The
bridge is served by the edges of its two clocks, where the bus, the arbiter and the host answer
what it waits for, and by the two FIFOs (`Serves`).  Every service it needs takes it one step
further.

The measure is a sum of two, `clkWork` and `wbWork`, for the sides of the two clocks, and a
request moves from one to the other and back.  So each side has its own lemma: `clk_work` and
`wb_work` say that an edge leaves less work for it, or as much if the side was not served, with
the words that it pushes to the other side on both accounts.  They go through the states of the
two FSMs:

* on the side of `clk_i`, `clk_work_idle` and `clk_work_header`, where a word is popped before or
  with the grant;
* on the side of `wb_clk_i`, `wb_work_idle` and `wb_work_waitAck`, where a read leaves its data
  to be pushed, which is less work than the cycle was.

`less_or_same` puts the sides together in the form that the rule for runs asks for
(`Clocked.less_or_unserved`), and `quiescent_of_work` says what is reached with it.
-/

namespace Gn4124Core

open Clocked

namespace WbMaster32

/-! ## Services -/

/-- The ways in which the bridge is served. -/
inductive Service where
  | clk
  | wb
  | toWbFifo
  | fromWbFifo

/-- An edge of `clk_i` serves when the host is ready for a completion, or the grant is given to
one; an edge of `wb_clk_i` serves when the cycle on the bus is acknowledged. -/
def Serves : Service → WbMaster32 → WbmTick → Prop
  | .clk, s, t => ∃ p ∈ t.clk, (s.clk.fsm.l2pReadCplCurrentState = .idle → p.pRdDRdy = 0b11#2) ∧
      (s.clk.fsm.l2pReadCplCurrentState = .header → p.arbWbmGnt = true)
  | .wb, s, t => ∃ p ∈ t.wb, s.wb.wishboneCurrentState = .waitAck → p.wbAck = true
  | .toWbFifo, _, t => 1 ≤ t.toWbArrive
  | .fromWbFifo, _, t => 1 ≤ t.fromWbArrive

variable (s : WbMaster32)

/-! ## The work that is left -/

/-- The steps left for the words in `from_wb_fifo` and for the completion under way. -/
def clkWork : ℕ :=
  4 * (s.fromWbFifo.ready.length - s.clk.fsm.fromWbFifoRd.toNat) +
    match s.clk.fsm.l2pReadCplCurrentState with
    | .idle => 0
    | .header => 2 + s.clk.fsm.fromWbFifoRd.toNat
    | .data => 1

/-- The steps left for the requests in `to_wb_fifo` and for the cycle under way. -/
def wbWork : ℕ :=
  10 * (s.toWbFifo.ready.length - s.wb.toWbFifoRd.toNat) +
    match s.wb.wishboneCurrentState with
    | .idle => 0
    | .readFifo => 9
    | .cycle => 8
    | .waitAck => 7

/-- The steps left for everything inside the bridge. -/
def work : ℕ :=
  12 * s.unwritten.length + 11 * s.toWbFifo.crossing.length +
    (s.wbWork + 6 * s.unpushed.length) + 5 * s.fromWbFifo.crossing.length + s.clkWork

/-- The services that would take the bridge further. -/
def Needs : Service → WbMaster32 → Prop
  | .clk, s => s.unwritten.length + s.clkWork ≠ 0
  | .wb, s => s.wbWork + 6 * s.unpushed.length ≠ 0
  | .toWbFifo, s => s.toWbFifo.crossing.length ≠ 0
  | .fromWbFifo, s => s.fromWbFifo.crossing.length ≠ 0

/-- No request and no read data is inside the bridge. -/
structure Quiescent : Prop where
  clk : s.clk.fsm.l2pReadCplCurrentState = .idle
  wb : s.wb.wishboneCurrentState = .idle
  toWbFifoWr : s.clk.fromDecoder.toWbFifoWr = false
  toWbFifo : s.toWbFifo.contents = []
  fromWbFifoWr : s.wb.fromWbFifoWr = false
  fromWbFifo : s.fromWbFifo.contents = []

variable {s} {t : WbmTick}

/-! ## One edge -/

theorem unwritten_work (hnone : s.requested t = []) :
    (step s t).unwritten.length + (s.writtenToWb t).length = s.unwritten.length ∧
      (Serves .clk s t → (s.writtenToWb t).length = s.unwritten.length) := by
  have hflow : (s.writtenToWb t).map WbRequest.csr ++ (step s t).unwritten.map WbRequest.csr =
      s.unwritten.map WbRequest.csr ++ s.requested t := unwritten_conserves
  have hlengths := congrArg List.length hflow
  simp only [hnone, List.length_append, List.length_map, List.length_nil] at hlengths
  refine ⟨by omega, fun hserves => ?_⟩
  obtain ⟨p, hp, -⟩ := hserves
  simp [writtenToWb, unwritten, Option.mem_def.mp hp]

/-! ### The side of `clk_i` -/

section Clk

variable {m : ℕ}

/-- With `m` words more, less work is left for the side of `clk_i`, or as much, and none was left if
the side was served. -/
def ClkMoves (s : WbMaster32) (t : WbmTick) (m : ℕ) : Prop :=
  (step s t).clkWork < s.clkWork + 4 * m ∨
    (step s t).clkWork = s.clkWork + 4 * m ∧ (Serves .clk s t → s.clkWork = 0)

/-- A side without an edge only sees words become ready. -/
theorem clk_work_none (h : s.Legal) (hedge : t.clk = none)
    (hready : (step s t).fromWbFifo.ready.length = s.fromWbFifo.ready.length + m) :
    s.ClkMoves t m := by
  have hsame : (step s t).clk = s.clk := by simp [step, stepClk, hedge]
  refine .inr ⟨?_, fun hserves => ?_⟩
  · simp only [clkWork, hsame, hready]
    cases hrd : s.clk.fsm.fromWbFifoRd with
    | false =>
        simp only [Bool.toNat_false]
        omega
    | true =>
        have hpos := List.length_pos_iff.mpr (h.read_fromWb hrd)
        simp only [Bool.toNat_true]
        omega
  · obtain ⟨p, hp, -⟩ := hserves
    simp [hedge] at hp

variable {p : WbmClkPorts}

theorem clkFsm_step (hedge : t.clk = some p) :
    (step s t).clk.fsm = s.clk.pReadCplFsm (s.clkIn p) := by
  simp [step, stepClk, hedge, WbmClk.step]

theorem clk_work_idle (h : s.Legal) (hedge : t.clk = some p)
    (hstate : s.clk.fsm.l2pReadCplCurrentState = .idle)
    (hready : (step s t).fromWbFifo.ready.length + s.clk.fsm.fromWbFifoRd.toNat =
      s.fromWbFifo.ready.length + m) : s.ClkMoves t m := by
  have hclk := h.clk
  simp only [hstate] at hclk
  rw [hclk, Bool.toNat_false] at hready
  simp only [ClkMoves, clkWork, clkFsm_step hedge, WbmClk.pReadCplFsm, hstate]
  cases hstart : !s.fromWbFifo.empty && p.pRdDRdy == 0b11#2 with
  | true =>
      left
      have hempty : s.fromWbFifo.empty = false := by
        simp only [Bool.and_eq_true, Bool.not_eq_true'] at hstart
        exact hstart.1
      have hpos := List.length_pos_iff.mpr (AsyncFifo.ready_ne_nil hempty)
      simp only [clkIn, hstart, hclk, if_true, Bool.toNat_true, Bool.toNat_false]
      omega
  | false =>
      right
      simp only [clkIn, hstart, hclk, Bool.false_eq_true, if_false, Bool.toNat_false]
      refine ⟨by omega, fun hserves => ?_⟩
      obtain ⟨p', hp', hrdy, -⟩ := hserves
      obtain rfl : p = p' := by simpa [hedge] using hp'
      have hempty : s.fromWbFifo.ready = [] := by
        simpa [hrdy hstate, AsyncFifo.empty] using hstart
      simp [hempty]

/-- The word is popped in the first cycle of the state, before or with the grant. -/
theorem clk_work_header (h : s.Legal) (hedge : t.clk = some p)
    (hstate : s.clk.fsm.l2pReadCplCurrentState = .header)
    (hready : (step s t).fromWbFifo.ready.length + s.clk.fsm.fromWbFifoRd.toNat =
      s.fromWbFifo.ready.length + m) : s.ClkMoves t m := by
  simp only [ClkMoves, clkWork, clkFsm_step hedge, WbmClk.pReadCplFsm, hstate]
  cases hrd : s.clk.fsm.fromWbFifoRd with
  | true =>
      left
      have hpos := List.length_pos_iff.mpr (h.read_fromWb hrd)
      simp only [hrd, Bool.toNat_true] at hready
      cases hgnt : p.arbWbmGnt <;>
        simp only [clkIn, hgnt, Bool.false_eq_true, if_false, if_true, Bool.toNat_true,
          Bool.toNat_false] <;>
        omega
  | false =>
      simp only [hrd, Bool.toNat_false] at hready
      cases hgnt : p.arbWbmGnt with
      | true =>
          left
          simp only [clkIn, hgnt, if_true, Bool.toNat_false]
          omega
      | false =>
          right
          simp only [clkIn, hgnt, Bool.false_eq_true, if_false, Bool.toNat_false]
          refine ⟨by omega, fun hserves => ?_⟩
          obtain ⟨p', hp', -, hgnt'⟩ := hserves
          obtain rfl : p = p' := by simpa [hedge] using hp'
          rw [hgnt' hstate] at hgnt
          exact absurd hgnt (by decide)

theorem clk_work (h : s.Legal)
    (hready : (step s t).fromWbFifo.ready.length + (t.clk.isSome && s.clk.fsm.fromWbFifoRd).toNat =
      s.fromWbFifo.ready.length + m) : s.ClkMoves t m := by
  cases hedge : t.clk with
  | none =>
      rw [hedge, Option.isSome_none, Bool.false_and, Bool.toNat_false] at hready
      exact clk_work_none h hedge hready
  | some p =>
      rw [hedge, Option.isSome_some, Bool.true_and] at hready
      cases hstate : s.clk.fsm.l2pReadCplCurrentState with
      | idle => exact clk_work_idle h hedge hstate hready
      | header => exact clk_work_header h hedge hstate hready
      | data =>
          have hclk := h.clk
          simp only [hstate] at hclk
          rw [hclk.1, Bool.toNat_false] at hready
          left
          simp only [clkWork, clkFsm_step hedge, WbmClk.pReadCplFsm, hstate, hclk.1,
            Bool.toNat_false]
          omega

end Clk

/-! ### The side of `wb_clk_i` -/

section Wb

variable {m : ℕ}

/-- The same for the side of `wb_clk_i`, and the words that it pushes. -/
def WbMoves (s : WbMaster32) (t : WbmTick) (m : ℕ) : Prop :=
  (step s t).wbWork + 6 * (step s t).unpushed.length + 6 * (s.pushed t).length <
      s.wbWork + 6 * s.unpushed.length + 10 * m ∨
    (step s t).wbWork + 6 * (step s t).unpushed.length + 6 * (s.pushed t).length =
        s.wbWork + 6 * s.unpushed.length + 10 * m ∧
      (Serves .wb s t → s.wbWork = 0 ∧ (s.pushed t).length = s.unpushed.length)

theorem wb_work_none (h : s.Legal) (hedge : t.wb = none)
    (hready : (step s t).toWbFifo.ready.length = s.toWbFifo.ready.length + m) :
    s.WbMoves t m := by
  have hsame : (step s t).wb = s.wb := by simp [step, stepWb, hedge]
  refine .inr ⟨?_, fun hserves => ?_⟩
  · simp only [wbWork, unpushed, pushed, hedge, hsame, hready, List.length_nil]
    cases hrd : s.wb.toWbFifoRd with
    | false =>
        simp only [Bool.toNat_false]
        omega
    | true =>
        have hpos := List.length_pos_iff.mpr (h.read_toWb hrd)
        simp only [Bool.toNat_true]
        omega
  · obtain ⟨p, hp, -⟩ := hserves
    simp [hedge] at hp

variable {p : WbmWbPorts}

theorem wb_step (hedge : t.wb = some p) : (step s t).wb = s.wb.step (s.wbIn p) := by
  simp [step, stepWb, hedge]

theorem wb_work_idle (h : s.Legal) (hedge : t.wb = some p)
    (hstate : s.wb.wishboneCurrentState = .idle)
    (hready : (step s t).toWbFifo.ready.length + s.wb.toWbFifoRd.toNat =
      s.toWbFifo.ready.length + m) : s.WbMoves t m := by
  have hwb := h.wb
  simp only [hstate] at hwb
  rw [hwb.1, Bool.toNat_false] at hready
  simp only [WbMoves, wbWork, unpushed, pushed, hedge, wb_step hedge, WbmWb.step, hstate]
  cases hempty : s.toWbFifo.empty with
  | false =>
      left
      have hpos := List.length_pos_iff.mpr (AsyncFifo.ready_ne_nil hempty)
      simp only [wbIn, hempty, hwb.1, Bool.false_eq_true, if_false, Bool.toNat_true,
        Bool.toNat_false, List.length_nil]
      omega
  | true =>
      right
      have hnone : s.toWbFifo.ready = [] := by simpa [AsyncFifo.empty] using hempty
      simp only [wbIn, hempty, hwb.1, if_true, Bool.toNat_false, Bool.false_eq_true, if_false,
        List.length_nil, hnone] at hready ⊢
      exact ⟨by omega, fun _ => ⟨trivial, trivial⟩⟩

/-- A read leaves its data to be pushed, which is less work than the cycle was. -/
theorem wb_work_waitAck (h : s.Legal) (hedge : t.wb = some p)
    (hstate : s.wb.wishboneCurrentState = .waitAck)
    (hready : (step s t).toWbFifo.ready.length + s.wb.toWbFifoRd.toNat =
      s.toWbFifo.ready.length + m) : s.WbMoves t m := by
  have hwb := h.wb
  simp only [hstate] at hwb
  rw [hwb.1, Bool.toNat_false] at hready
  simp only [WbMoves, wbWork, unpushed, pushed, hedge, wb_step hedge, WbmWb.step, hstate]
  cases hack : p.wbAck with
  | true =>
      left
      cases hwe : s.wb.wbWe <;>
        simp only [wbIn, hack, hwb, Bool.not_true, Bool.not_false, Bool.and_true,
          Bool.and_false, Bool.toNat_false, Bool.false_eq_true, if_false, if_true,
          List.length_nil, List.length_singleton] <;>
        omega
  | false =>
      right
      simp only [wbIn, hack, hwb, Bool.false_and, Bool.toNat_false, Bool.false_eq_true,
        if_false, List.length_nil]
      refine ⟨by omega, fun hserves => ?_⟩
      obtain ⟨p', hp', hack'⟩ := hserves
      obtain rfl : p = p' := by simpa [hedge] using hp'
      rw [hack' hstate] at hack
      exact absurd hack (by decide)

theorem wb_work (h : s.Legal)
    (hready : (step s t).toWbFifo.ready.length + (t.wb.isSome && s.wb.toWbFifoRd).toNat =
      s.toWbFifo.ready.length + m) : s.WbMoves t m := by
  cases hedge : t.wb with
  | none =>
      rw [hedge, Option.isSome_none, Bool.false_and, Bool.toNat_false] at hready
      exact wb_work_none h hedge hready
  | some p =>
      rw [hedge, Option.isSome_some, Bool.true_and] at hready
      cases hstate : s.wb.wishboneCurrentState with
      | idle => exact wb_work_idle h hedge hstate hready
      | waitAck => exact wb_work_waitAck h hedge hstate hready
      | readFifo =>
          have hwb := h.wb
          simp only [hstate] at hwb
          have hpos := List.length_pos_iff.mpr hwb.2.1
          rw [hwb.1, Bool.toNat_true] at hready
          left
          simp only [wbWork, unpushed, pushed, hedge, wb_step hedge, WbmWb.step, hstate, hwb,
            Bool.toNat_true, Bool.toNat_false, Bool.false_eq_true, if_false, List.length_nil]
          omega
      | cycle =>
          have hwb := h.wb
          simp only [hstate] at hwb
          rw [hwb.1, Bool.toNat_false] at hready
          left
          simp only [wbWork, unpushed, pushed, hedge, wb_step hedge, WbmWb.step, hstate, hwb,
            Bool.toNat_false, Bool.false_eq_true, if_false, List.length_nil]
          omega

end Wb

/-! ### The whole bridge -/

/-- An edge takes something inside the bridge further, or leaves all the needs as they are. -/
theorem less_or_same (h : s.Legal) (hnone : s.requested t = []) :
    (step s t).work < s.work ∨
      (step s t).work = s.work ∧ ∀ k, Needs k s → ¬ Serves k s t ∧ Needs k (step s t) := by
  obtain ⟨hunwritten, hwritten⟩ := unwritten_work hnone
  have hwe : (s.writtenToWb t).length =
      (t.clk.isSome && s.clk.fromDecoder.toWbFifoWr).toNat := by
    unfold writtenToWb
    cases t.clk.isSome && s.clk.fromDecoder.toWbFifoWr <;> rfl
  have hpush : (s.pushed t).length = (t.wb.isSome && s.wb.fromWbFifoWr).toNat := by
    unfold pushed
    cases t.wb <;> cases s.wb.fromWbFifoWr <;> rfl
  have htoReady : (step s t).toWbFifo.ready.length + (t.wb.isSome && s.wb.toWbFifoRd).toNat = _ :=
    AsyncFifo.length_ready_tick
      (fun hrd => h.read_toWb (Bool.and_eq_true_iff.mp hrd).2) _ s.clk.fromDecoder.toWbFifoDin _
  have htoCrossing : (step s t).toWbFifo.crossing.length + _ = _ :=
    AsyncFifo.length_crossing_tick _ _ _ _ _
  have hfromReady : (step s t).fromWbFifo.ready.length +
      (t.clk.isSome && s.clk.fsm.fromWbFifoRd).toNat = _ :=
    AsyncFifo.length_ready_tick
      (fun hrd => h.read_fromWb (Bool.and_eq_true_iff.mp hrd).2) _ s.wb.fromWbFifoDin _
  have hfromCrossing : (step s t).fromWbFifo.crossing.length + _ = _ :=
    AsyncFifo.length_crossing_tick _ _ _ _ _
  have hto : s.toWbFifo.crossing.length ≠ 0 → 1 ≤ t.toWbArrive →
      1 ≤ s.toWbFifo.arrivals (t.clk.isSome && s.clk.fromDecoder.toWbFifoWr) t.toWbArrive := by
    unfold AsyncFifo.arrivals
    omega
  have hfrom : s.fromWbFifo.crossing.length ≠ 0 → 1 ≤ t.fromWbArrive →
      1 ≤ s.fromWbFifo.arrivals (t.wb.isSome && s.wb.fromWbFifoWr) t.fromWbArrive := by
    unfold AsyncFifo.arrivals
    omega
  have hwb := wb_work h htoReady
  have hclk := clk_work h hfromReady
  unfold WbMoves at hwb
  unfold ClkMoves at hclk
  simp only [work]
  by_cases hless : (step s t).work < s.work
  · exact .inl hless
  · right
    simp only [work] at hless
    -- no part of the sum has become larger, so each is the same
    obtain ⟨hwbSame, hwbServed⟩ := hwb.resolve_left (by omega)
    obtain ⟨hclkSame, hclkServed⟩ := hclk.resolve_left (by omega)
    refine ⟨by omega, fun k hk => ?_⟩
    cases k with
    | clk =>
        simp only [Needs] at hk ⊢
        refine ⟨fun hserves => ?_, by omega⟩
        have hzero := hclkServed hserves
        have hmoved := hwritten hserves
        omega
    | wb =>
        simp only [Needs] at hk ⊢
        refine ⟨fun hserves => ?_, by omega⟩
        have hzero := hwbServed hserves
        omega
    | toWbFifo =>
        simp only [Needs] at hk ⊢
        refine ⟨fun hserves => ?_, by omega⟩
        have harrives := hto hk hserves
        omega
    | fromWbFifo =>
        simp only [Needs] at hk ⊢
        refine ⟨fun hserves => ?_, by omega⟩
        have harrives := hfrom hk hserves
        omega

theorem needed (hwork : s.work ≠ 0) : ∃ k, Needs k s := by
  by_contra hnone
  have hclk : ¬ Needs .clk s := fun h => hnone ⟨_, h⟩
  have hwb : ¬ Needs .wb s := fun h => hnone ⟨_, h⟩
  have hto : ¬ Needs .toWbFifo s := fun h => hnone ⟨_, h⟩
  have hfrom : ¬ Needs .fromWbFifo s := fun h => hnone ⟨_, h⟩
  simp only [Needs] at hclk hwb hto hfrom
  unfold work at hwork
  omega

/-- Without work left the bridge is quiescent. -/
theorem quiescent_of_work (h : s.Legal) (hwork : s.work = 0) : s.Quiescent := by
  have hwb := h.wb
  have hclk := h.clk
  simp only [work, wbWork, clkWork] at hwork
  have hwbIdle : s.wb.wishboneCurrentState = .idle := by
    cases hstate : s.wb.wishboneCurrentState <;> simp_all
  have hclkIdle : s.clk.fsm.l2pReadCplCurrentState = .idle := by
    cases hstate : s.clk.fsm.l2pReadCplCurrentState <;> simp_all
  rw [hwbIdle] at hwb
  rw [hclkIdle] at hclk
  simp only [hwbIdle, hclkIdle, hwb.1, hclk, Bool.toNat_false] at hwork
  have htoReady : s.toWbFifo.ready = [] := List.length_eq_zero_iff.mp (by omega)
  have htoCrossing : s.toWbFifo.crossing = [] := List.length_eq_zero_iff.mp (by omega)
  have hfromReady : s.fromWbFifo.ready = [] := List.length_eq_zero_iff.mp (by omega)
  have hfromCrossing : s.fromWbFifo.crossing = [] := List.length_eq_zero_iff.mp (by omega)
  have hunwritten : s.unwritten.length = 0 := by omega
  have hunpushed : s.unpushed.length = 0 := by omega
  refine ⟨hclkIdle, hwbIdle, ?_, ?_, ?_, ?_⟩
  · cases hwr : s.clk.fromDecoder.toWbFifoWr <;> simp_all [unwritten]
  · rw [AsyncFifo.contents, htoReady, htoCrossing, List.append_nil]
  · cases hwr : s.wb.fromWbFifoWr <;> simp_all [unpushed]
  · rw [AsyncFifo.contents, hfromReady, hfromCrossing, List.append_nil]

end WbMaster32

end Gn4124Core
