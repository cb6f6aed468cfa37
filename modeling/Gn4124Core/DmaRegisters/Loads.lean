import Gn4124Core.Clocked.Flow
import Gn4124Core.DmaRegisters.Accesses

/-!
# Every host write reaches the DMA controller once

`dma_controller` with its Wishbone slave, on the clock of the bus and on `clk_i`.  A write that
the slave accepts crosses to `clk_i` as a rise of the level of its register, waits there in the
load strobe, and is taken by the controller at the next edge.  Both steps conserve the writes.
Since an access is over for both clocks before the next one begins, they come in the order in
which the host has made them, also those of different registers.

All that is asked of the clocks is that `clk_i` has an edge in every two periods of the bus clock.

The two steps are `At.written_conserves`, for the one register that is in an access, and
`seen_conserves`; `written_conserves` is their composition.  A rise that is under way is one of
the chain of `Clocked.LevelChain`, which the pace lets through before the access is over; so a
slave that is free has nothing on the way (`onTheWay_of_free`), and no two writes are seen at one
edge (`At.length_seen`).
-/

namespace Gn4124Core

open Clocked

/-- What the DMA masters tell the controller. -/
structure DmaReports where
  dmaCtrlDone : Bool
  dmaCtrlError : Bool
  nextItem : DmaItem
  nextItemValid : Bool
deriving DecidableEq

/-- The controller and the slave, and the edges of the bus clock since the last one of `clk_i`. -/
structure DmaRegisters where
  slave : DmaControllerWbSlave
  controller : DmaController
  lag : ℕ

/-- An edge of the bus clock, of `clk_i`, or of both. -/
structure DmaRegistersTick where
  wb : Option DmaRegsBus
  clk : Option DmaReports
deriving DecidableEq

namespace DmaControllerWbSlave

variable (s : DmaControllerWbSlave) (t : DmaRegsTick)

/-- The writes that the slave accepts. -/
def written : List (DmaReg × Word) :=
  match t.wb with
  | some b =>
      if s.accepts b && b.wbWe then (DmaReg.ofAddr b.wbAddr).toList.map fun r => (r, b.wbData)
      else []
  | none => []

/-- The writes that have been accepted and that `clk_i` has not seen yet. -/
def onTheWay : List (DmaReg × Word) :=
  DmaReg.all.filterMap fun r =>
    if (s.reg r).chain.underWay && (s.reg r).rwsel then some (r, (s.reg r).intWrite) else none

/-- The writes that `clk_i` sees at this edge. -/
def seen : List (DmaReg × Word) :=
  DmaReg.all.filterMap fun r =>
    if t.clk.isSome && (s.reg r).chain.rise && (s.reg r).rwsel then some (r, (s.reg r).intWrite)
    else none

/-- The load strobes that are high. -/
def loading : List (DmaReg × Word) := DmaReg.all.filterMap fun r => (s.load r).map fun d => (r, d)

end DmaControllerWbSlave

namespace DmaRegisters

variable (pace : ℕ) (s : DmaRegisters) (t : DmaRegistersTick)

/-- The edge, as the slave sees it. -/
def slaveTick : DmaRegsTick := ⟨t.wb, t.clk.map fun _ => s.controller.shown⟩

/-- The edge, as the controller sees it. -/
def controllerIn (m : DmaReports) : DmaControllerIn where
  loads := s.slave.loads
  dmaCtrlDone := m.dmaCtrlDone
  dmaCtrlError := m.dmaCtrlError
  nextItem := m.nextItem
  nextItemValid := m.nextItemValid

def step : DmaRegisters where
  slave := s.slave.step (s.slaveTick t)
  controller :=
    match t.clk with
    | some m => s.controller.step (s.controllerIn m)
    | none => s.controller
  lag := LevelChain.nextLag s.lag t.wb.isSome t.clk.isSome

def reset : DmaRegisters := ⟨.reset, .reset, 0⟩

/-- `clk_i` has an edge in every `pace` periods of the bus clock. -/
def Paced : Prop := LevelChain.Paced pace s.lag t.wb.isSome t.clk.isSome

instance : Decidable (Paced pace s t) :=
  inferInstanceAs (Decidable (LevelChain.Paced _ _ _ _))

/-- The writes that the slave accepts. -/
def written : List (DmaReg × Word) := s.slave.written (s.slaveTick t)

/-- The load strobes at an edge of `clk_i`.  The controller takes the loads, but for that of the
status register, whose port is left open. -/
def taken : List (DmaReg × Word) := if t.clk.isSome then s.slave.loading else []

/-- The writes between the bus and the controller. -/
def between : List (DmaReg × Word) := s.slave.loading ++ s.slave.onTheWay

end DmaRegisters

/-! ## One register at a time -/

namespace DmaReg

/-- A list over all registers in which only one has something to say. -/
theorem filterMap_all {β : Type*} {f : DmaReg → Option β} (r : DmaReg)
    (h : ∀ r', r' ≠ r → f r' = none) : all.filterMap f = (f r).toList := by
  have hsplit : ∀ l : List DmaReg, l.Nodup →
      l.filterMap f = if r ∈ l then (f r).toList else [] := by
    intro l hl
    induction l with
    | nil => rfl
    | cons r' l ih =>
        obtain ⟨hnot, hl'⟩ := List.nodup_cons.mp hl
        by_cases heq : r' = r
        · subst heq
          rw [List.filterMap_cons, ih hl', if_neg hnot, if_pos List.mem_cons_self]
          cases f r' <;> rfl
        · have hmem : (r ∈ r' :: l) = (r ∈ l) := by
            rw [List.mem_cons]
            simp [Ne.symm heq]
          rw [List.filterMap_cons, h r' heq, ih hl']
          simp only [hmem]
  rw [hsplit all nodup_all, if_pos (mem_all r)]

theorem filterMap_none {β : Type*} {f : DmaReg → Option β} (h : ∀ r, f r = none) :
    all.filterMap f = [] := by
  rw [filterMap_all ctrl (fun r' _ => h r'), h ctrl]
  rfl

end DmaReg

namespace DmaControllerWbSlave

variable {pace lag j : ℕ} {stage : DmaRegsStage} {s : DmaControllerWbSlave} {t : DmaRegsTick}
  {b : DmaRegsBus} {r : DmaReg} {we : Bool}

/-- No rise is on its way in the other registers. -/
theorem At.idle_of_ne (h : At pace lag (.busy r we j) s) {r' : DmaReg} (hne : r' ≠ r) :
    (s.reg r').Idle :=
  (DmaRegsStage.regAt_other hne).mp (h.reg r')

theorem At.during (h : At pace lag (.busy r we j) s) : (s.reg r).During pace lag we j :=
  DmaRegsStage.regAt_self.mp (h.reg r)

theorem At.onTheWay_busy (h : At pace lag (.busy r we j) s) :
    s.onTheWay = if (s.reg r).chain.underWay && we then [(r, (s.reg r).intWrite)] else [] := by
  rw [onTheWay, DmaReg.filterMap_all r, h.during.rwsel]
  · split <;> rfl
  · intro r' hne
    rw [(h.idle_of_ne hne).rests.quiet]
    rfl

theorem At.seen_busy (h : At pace lag (.busy r we j) s) :
    s.seen t = if t.clk.isSome && (s.reg r).chain.rise && we then [(r, (s.reg r).intWrite)]
      else [] := by
  rw [seen, DmaReg.filterMap_all r, h.during.rwsel]
  · split <;> rfl
  · intro r' hne
    rw [LevelChain.rise_of_not_underWay (h.idle_of_ne hne).rests.quiet]
    simp

/-- Between two accesses nothing is on the way. -/
theorem onTheWay_of_idle (h : ∀ r, (s.reg r).Idle) : s.onTheWay = [] := by
  apply DmaReg.filterMap_none
  intro r
  rw [(h r).rests.quiet]
  rfl

theorem seen_of_idle (h : ∀ r, (s.reg r).Idle) : s.seen t = [] := by
  apply DmaReg.filterMap_none
  intro r
  rw [LevelChain.rise_of_not_underWay (h r).rests.quiet]
  simp

theorem At.written_of_inProgress (h : At pace lag stage s) (hbusy : stage.inProgress = true) :
    s.written t = [] := by
  unfold written
  cases t.wb with
  | none => rfl
  | some b =>
      have hnot : s.accepts b = false := by
        rw [h.accepts, hbusy]
        rfl
      simp [hnot]

/-- A register in an access keeps what is to be written. -/
theorem At.intWrite_step (h : At pace lag (.busy r we j) s) :
    ((s.step t).reg r).intWrite = (s.reg r).intWrite := by
  cases hwb : t.wb with
  | none => rw [step_reg_clk s hwb, AsyncReg.clkTick_intWrite]
  | some b =>
      have hnot : s.accepts b = false := by
        rw [h.accepts]
        rfl
      rw [step_reg_wb s hwb, regWb, h.ackInProgress, hnot]
      simp only [DmaRegsStage.inProgress, if_true]
      split
      · exact AsyncReg.clkTick_intWrite
      · exact AsyncReg.clkTick_intWrite

/-- The level of a register in an access after an edge. -/
theorem At.chain_step (h : At pace lag (.busy r we j) s) :
    ((s.step t).reg r).chain =
      (s.reg r).chain.edge t.clk.isSome (decide (j + t.wb.isSome.toNat < 2)) := by
  have hduring := h.during
  cases hwb : t.wb with
  | none =>
      rw [step_reg_clk s hwb, AsyncReg.clkTick_chain, isSome_regIn, hduring.level]
      rfl
  | some b =>
      have hbounded : j ≤ 5 := h.bounded
      rw [step_reg_wb s hwb, regWb, h.ackInProgress, h.ackSreg, getLsbD_ackSreg h.bounded]
      simp only [DmaRegsStage.inProgress, if_true, decide_eq_true_eq, Option.isSome_some,
        Bool.toNat_true]
      split
      · next hlast =>
          have hold : decide (j < 2) = decide (j + 1 < 2) :=
            decide_eq_decide.mpr (by omega)
          rw [AsyncReg.clkTick_chain, isSome_regIn, hduring.level, hold]
      · have hdelay : decide (j < 1) = decide (j + 1 < 2) := decide_eq_decide.mpr (by omega)
        rw [AsyncReg.advance_chain, isSome_regIn, hduring.lwDelay, hdelay]

theorem At.underWay_step (h : At pace lag (.busy r we j) s) (hlag : lag ≤ pace) (hpace : pace ≤ 2)
    (hpaced : LevelChain.Paced pace lag t.wb.isSome t.clk.isSome) :
    ((s.step t).reg r).chain.underWay =
      ((s.reg r).chain.underWay && !(t.clk.isSome && (s.reg r).chain.rise)) := by
  have hpaced' : LevelChain.Paced pace lag t.wb.isSome (regIn t r).isSome := by
    rwa [isSome_regIn]
  have hedge := h.during.underWay_edge hlag hpace hpaced' rfl
  rw [isSome_regIn] at hedge
  rw [h.chain_step, hedge]

/-- A rise that is seen was on its way. -/
theorem underWay_of_rise {c : LevelChain} (h : c.rise = true) : c.underWay = true := by
  rw [LevelChain.underWay, h, Bool.or_true]

/-- What is on the way after an edge in an access, also if the access ends with it. -/
theorem At.onTheWay_step (h : At pace lag (.busy r we j) s) (hlag : lag ≤ pace) (hone : 1 ≤ pace)
    (hpace : pace ≤ 2) (hpaced : LevelChain.Paced pace lag t.wb.isSome t.clk.isSome) :
    (s.step t).onTheWay =
      if (s.reg r).chain.underWay && !(t.clk.isSome && (s.reg r).chain.rise) && we then
        [(r, (s.reg r).intWrite)]
      else [] := by
  have hnext := h.step hlag hone hpace hpaced
  rw [← h.underWay_step hlag hpace hpaced, ← h.intWrite_step (t := t)]
  cases hwb : t.wb with
  | none =>
      have hsame : nextStage t (.busy r we j) = .busy r we j := by rw [nextStage, hwb]
      rw [hsame] at hnext
      exact hnext.onTheWay_busy
  | some b =>
      by_cases hj : j < 5
      · have hbusy : nextStage t (.busy r we j) = .busy r we (j + 1) := by
          rw [nextStage, hwb]
          exact if_pos hj
        rw [hbusy] at hnext
        exact hnext.onTheWay_busy
      · have hfree : nextStage t (.busy r we j) = .free := by
          rw [nextStage, hwb]
          exact if_neg hj
        rw [hfree] at hnext
        have hidle : ((s.step t).reg r).Idle := hnext.reg r
        rw [onTheWay_of_idle hnext.reg, hidle.rests.quiet]
        rfl

/-- An access that begins. -/
theorem At.step_accept (h : At pace lag .free s) (hwb : t.wb = some b)
    (hask : (b.wbCyc && b.wbStb) = true) (hreg : DmaReg.ofAddr b.wbAddr = some r) :
    (s.step t).reg r = ((s.reg r).clkTick (regIn t r)).access b.wbWe b.wbData := by
  rw [step_reg_wb s hwb, regWb, h.accepts, h.ackInProgress]
  simp [DmaRegsStage.inProgress, hask, hreg]

theorem At.written_accept (h : At pace lag .free s) (hwb : t.wb = some b)
    (hask : (b.wbCyc && b.wbStb) = true) (hreg : DmaReg.ofAddr b.wbAddr = some r) :
    s.written t = if b.wbWe then [(r, b.wbData)] else [] := by
  have haccepts : s.accepts b = true := by
    rw [h.accepts, hask]
    rfl
  simp [written, hwb, haccepts, hreg]

/-- An access that begins puts its write on the way. -/
theorem At.onTheWay_accept (h : At pace lag .free s) (hlag : lag ≤ pace) (hone : 1 ≤ pace)
    (hpace : pace ≤ 2) (hpaced : LevelChain.Paced pace lag t.wb.isSome t.clk.isSome)
    (hwb : t.wb = some b) (hask : (b.wbCyc && b.wbStb) = true)
    (hreg : DmaReg.ofAddr b.wbAddr = some r) :
    (s.step t).onTheWay = s.written t := by
  have hnext := h.step hlag hone hpace hpaced
  have hbusy : nextStage t .free = .busy r b.wbWe 0 := by
    rw [nextStage, hwb]
    simp [DmaRegsStage.next, hask, hreg]
  have hidle : (s.reg r).Idle := h.reg r
  have hchain : ((s.step t).reg r).chain = (s.reg r).chain.edge t.clk.isSome true := by
    rw [h.step_accept hwb hask hreg, AsyncReg.access_chain, isSome_regIn]
  have hunderWay : ((s.step t).reg r).chain.underWay = true := by
    rw [hchain]
    exact hidle.rests.edge_high.underWay
  rw [hbusy] at hnext
  rw [hnext.onTheWay_busy, hunderWay, Bool.true_and, h.written_accept hwb hask hreg,
    h.step_accept hwb hask hreg]
  cases hwe : b.wbWe <;> simp [AsyncReg.access]

/-- A slave that is free and stays so. -/
theorem At.onTheWay_free (h : At pace lag stage s) (hlag : lag ≤ pace) (hone : 1 ≤ pace)
    (hpace : pace ≤ 2) (hpaced : LevelChain.Paced pace lag t.wb.isSome t.clk.isSome)
    (hfree : nextStage t stage = .free ∨ nextStage t stage = .invalid) :
    (s.step t).onTheWay = [] := by
  have hnext := h.step hlag hone hpace hpaced
  apply onTheWay_of_idle
  intro r
  have hreg := hnext.reg r
  rcases hfree with hfree | hfree <;> rwa [hfree] at hreg

/-- **The writes that the slave accepts are those that `clk_i` sees.** -/
theorem At.written_conserves (h : At pace lag stage s) (hlag : lag ≤ pace) (hone : 1 ≤ pace)
    (hpace : pace ≤ 2) (hpaced : LevelChain.Paced pace lag t.wb.isSome t.clk.isSome) :
    Conserves (s.written t) (s.seen t) s.onTheWay (s.step t).onTheWay := by
  unfold Conserves
  cases stage with
  | busy r we j =>
      rw [h.onTheWay_step hlag hone hpace hpaced, h.written_of_inProgress rfl, h.seen_busy,
        h.onTheWay_busy]
      cases hrise : (s.reg r).chain.rise with
      | false => simp
      | true =>
          rw [underWay_of_rise hrise]
          cases t.clk.isSome <;> cases we <;> simp
  | invalid =>
      have hfree : nextStage t .invalid = .free ∨ nextStage t .invalid = .invalid := by
        cases hwb : t.wb <;> simp [nextStage, hwb, DmaRegsStage.next]
      rw [h.onTheWay_free hlag hone hpace hpaced hfree, h.written_of_inProgress rfl,
        seen_of_idle h.reg, onTheWay_of_idle h.reg]
  | free =>
      rw [seen_of_idle h.reg, onTheWay_of_idle h.reg, List.nil_append, List.nil_append]
      cases hwb : t.wb with
      | none =>
          have hfree : nextStage t .free = .free := by rw [nextStage, hwb]
          rw [h.onTheWay_free hlag hone hpace hpaced (.inl hfree), written, hwb]
      | some b =>
          cases hask : b.wbCyc && b.wbStb with
          | false =>
              have hfree : nextStage t .free = .free := by
                rw [nextStage, hwb]
                simp [DmaRegsStage.next, hask]
              rw [h.onTheWay_free hlag hone hpace hpaced (.inl hfree)]
              simp [written, hwb, h.accepts, hask]
          | true =>
              cases hreg : DmaReg.ofAddr b.wbAddr with
              | some r => exact h.onTheWay_accept hlag hone hpace hpaced hwb hask hreg
              | none =>
                  have hinvalid : nextStage t .free = .invalid := by
                    rw [nextStage, hwb]
                    simp [DmaRegsStage.next, hask, hreg]
                  rw [h.onTheWay_free hlag hone hpace hpaced (.inr hinvalid)]
                  simp [written, hwb, hreg]

/-! ### The load strobes -/

/-- The bus clock has no hand in the load strobe. -/
theorem regWb_load (s : DmaControllerWbSlave) (b : DmaRegsBus) (r : DmaReg) (f : AsyncReg) :
    (s.regWb b r f).loadO = f.loadO ∧ (s.regWb b r f).o = f.o := by
  unfold regWb
  split_ifs <;> exact ⟨rfl, rfl⟩

theorem load_step_clk (s : DmaControllerWbSlave) (t : DmaRegsTick) (r : DmaReg)
    (hclk : t.clk.isSome = true) :
    (s.step t).load r =
      if (s.reg r).chain.rise && (s.reg r).rwsel then some (s.reg r).intWrite else none := by
  obtain ⟨i, hi⟩ := Option.isSome_iff_exists.mp hclk
  have hload : ∀ f : AsyncReg, f = (s.reg r).clkTick (regIn t r) →
      (if f.loadO then some f.o else none) =
        if (s.reg r).chain.rise && (s.reg r).rwsel then some (s.reg r).intWrite else none := by
    rintro f rfl
    simp only [regIn, hi, Option.map_some, AsyncReg.clkTick, AsyncReg.clkEdge]
    split <;> rfl
  unfold load
  cases hwb : t.wb with
  | none =>
      rw [step_reg_clk s hwb]
      exact hload _ rfl
  | some b =>
      obtain ⟨hloadO, ho⟩ := s.regWb_load b r ((s.reg r).clkTick (regIn t r))
      rw [step_reg_wb s hwb, hloadO, ho]
      exact hload _ rfl

theorem load_step_wb (s : DmaControllerWbSlave) (t : DmaRegsTick) (r : DmaReg)
    (hclk : t.clk = none) : (s.step t).load r = s.load r := by
  have hsame : (s.reg r).clkTick (regIn t r) = s.reg r := by
    rw [regIn, hclk]
    rfl
  unfold load
  cases hwb : t.wb with
  | none => rw [step_reg_clk s hwb, hsame]
  | some b =>
      obtain ⟨hloadO, ho⟩ := s.regWb_load b r (s.reg r)
      rw [step_reg_wb s hwb, hsame, hloadO, ho]

/-- What `clk_i` sees is in the load strobes after the edge. -/
theorem loading_step_clk (s : DmaControllerWbSlave) (t : DmaRegsTick)
    (hclk : t.clk.isSome = true) : (s.step t).loading = s.seen t := by
  apply List.filterMap_congr
  intro r _
  rw [load_step_clk s t r hclk, hclk, Bool.true_and]
  split <;> rfl

theorem loading_step_wb (s : DmaControllerWbSlave) (t : DmaRegsTick) (hclk : t.clk = none) :
    (s.step t).loading = s.loading := by
  apply List.filterMap_congr
  intro r _
  rw [load_step_wb s t r hclk]

theorem seen_of_no_clk (s : DmaControllerWbSlave) (t : DmaRegsTick) (hclk : t.clk = none) :
    s.seen t = [] := by
  apply DmaReg.filterMap_none
  intro r
  rw [hclk]
  rfl

/-- No two writes are seen at one edge. -/
theorem At.length_seen (h : At pace lag stage s) : (s.seen t).length ≤ 1 := by
  cases stage with
  | busy r we j =>
      rw [h.seen_busy]
      split <;> simp
  | free => simp [seen_of_idle h.reg]
  | invalid => simp [seen_of_idle h.reg]

end DmaControllerWbSlave

/-! ## The slave and the controller -/

namespace DmaRegisters

variable {pace : ℕ} {s : DmaRegisters} {t : DmaRegistersTick} {ts : List DmaRegistersTick}

@[simp] theorem slaveTick_wb : (s.slaveTick t).wb = t.wb := rfl

@[simp] theorem slaveTick_clk_isSome : (s.slaveTick t).clk.isSome = t.clk.isSome :=
  Option.isSome_map

/-- A state that is reached at this pace: the slave is somewhere in an access or in none. -/
def Reached (pace : ℕ) (s : DmaRegisters) : Prop :=
  s.lag ≤ pace ∧ ∃ stage, DmaControllerWbSlave.At pace s.lag stage s.slave

theorem reset_reached : Reached pace reset := ⟨Nat.zero_le _, .free, .reset pace 0⟩

theorem Reached.step (h : Reached pace s) (hone : 1 ≤ pace) (hpace : pace ≤ 2)
    (hpaced : Paced pace s t) : Reached pace (s.step t) := by
  obtain ⟨hlag, stage, hat⟩ := h
  have hslave : LevelChain.Paced pace s.lag (s.slaveTick t).wb.isSome (s.slaveTick t).clk.isSome := by
    rwa [slaveTick_clk_isSome]
  have hnext := hat.step hlag hone hpace hslave
  rw [slaveTick_clk_isSome] at hnext
  exact ⟨LevelChain.nextLag_le hpaced hlag hone, _, hnext⟩

/-- The load strobes give to the controller what `clk_i` has seen. -/
theorem seen_conserves (s : DmaRegisters) (t : DmaRegistersTick) :
    Conserves (s.slave.seen (s.slaveTick t)) (s.taken t) s.slave.loading (s.step t).slave.loading := by
  unfold Conserves
  have hslave : (s.step t).slave = s.slave.step (s.slaveTick t) := rfl
  rw [hslave]
  cases hclk : t.clk with
  | none =>
      have hnone : (s.slaveTick t).clk = none := by rw [slaveTick, hclk]; rfl
      rw [s.slave.loading_step_wb _ hnone, s.slave.seen_of_no_clk _ hnone, taken, hclk]
      simp
  | some m =>
      have hsome : (s.slaveTick t).clk.isSome = true := by rw [slaveTick_clk_isSome, hclk]; rfl
      rw [s.slave.loading_step_clk _ hsome, taken, hclk]
      rfl

theorem written_conserves (h : Reached pace s) (hone : 1 ≤ pace) (hpace : pace ≤ 2)
    (hpaced : Paced pace s t) :
    Conserves (s.written t) (s.taken t) s.between (s.step t).between := by
  obtain ⟨hlag, stage, hat⟩ := h
  have hslave : LevelChain.Paced pace s.lag (s.slaveTick t).wb.isSome (s.slaveTick t).clk.isSome := by
    rwa [slaveTick_clk_isSome]
  exact (s.seen_conserves t).comp (hat.written_conserves hlag hone hpace hslave)

/-- The strobes hold one write at most. -/
def OneLoad (s : DmaRegisters) : Prop := s.slave.loading.length ≤ 1

theorem oneLoad_step (h : Reached pace s) (hone : s.OneLoad) : (s.step t).OneLoad := by
  obtain ⟨-, stage, hat⟩ := h
  have hslave : (s.step t).slave = s.slave.step (s.slaveTick t) := rfl
  unfold OneLoad
  rw [hslave]
  cases hclk : t.clk with
  | none =>
      rw [s.slave.loading_step_wb _ (by rw [slaveTick, hclk]; rfl)]
      exact hone
  | some m =>
      rw [s.slave.loading_step_clk _ (by rw [slaveTick_clk_isSome, hclk]; rfl)]
      exact hat.length_seen

/-- Where no access is in progress, all writes have got as far as the load strobes. -/
theorem onTheWay_of_free (h : Reached pace s) (hfree : s.slave.ackInProgress = false) :
    s.slave.onTheWay = [] := by
  obtain ⟨-, stage, hat⟩ := h
  have hstage := hat.ackInProgress
  cases stage with
  | free => exact DmaControllerWbSlave.onTheWay_of_idle hat.reg
  | busy r we j => exact absurd (hfree.symm.trans hstage) Bool.false_ne_true
  | invalid => exact absurd (hfree.symm.trans hstage) Bool.false_ne_true

/-- **Every host write reaches the controller once.**  In any run from reset in which `clk_i` has
an edge in every period of the bus clock, or in every two, whatever the bus and the DMA masters
do: the writes that the slave accepts are those that the controller takes, in this order and one
at an edge, and then those that are between the two.  Once the access is over, these are in the
load strobes, so that the next edge of `clk_i` takes them. -/
theorem writes_taken_once (pace : ℕ) (hone : 1 ≤ pace) (hpace : pace ≤ 2)
    (ts : List DmaRegistersTick) (legal : Always step (Paced pace) reset ts) :
    log step written reset ts = log step taken reset ts ++ (run step reset ts).between ∧
      (∀ t, ((run step reset ts).taken t).length ≤ 1) ∧
      ((run step reset ts).slave.ackInProgress = false →
        (run step reset ts).between = (run step reset ts).slave.loading) := by
  have hinv : Reached pace (run step reset ts) ∧ (run step reset ts).OneLoad := by
    refine invariant_run (fun s t (hs : Reached pace s ∧ s.OneLoad) hpaced => ?_) legal
      ⟨reset_reached, Nat.zero_le 1⟩
    exact ⟨hs.1.step hone hpace hpaced, oneLoad_step hs.1 hs.2⟩
  refine ⟨?_, fun t => ?_, fun hfree => ?_⟩
  · have hflow := flow_run (fun s t hs ht => Reached.step hs hone hpace ht)
      (fun s t hs ht => written_conserves hs hone hpace ht) legal
      (reset_reached : Reached pace reset)
    exact hflow.symm
  · unfold taken
    split
    · exact hinv.2
    · exact Nat.zero_le 1
  · rw [between, onTheWay_of_free hinv.1 hfree, List.append_nil]

/-- A write of the length and one of the control word behind it, while `clk_i` has an edge in
every other period of the bus clock. -/
def slowWrites : List DmaRegistersTick :=
  let clk : DmaReports := ⟨false, false, .reset, false⟩
  let period := [⟨none, some clk⟩, ⟨some ⟨0, 0, false, false, false⟩, none⟩,
    ⟨some ⟨0, 0, false, false, false⟩, none⟩]
  let access addr data := ⟨some ⟨addr, data, true, true, true⟩, some clk⟩ ::
    (List.replicate 4 period).flatten
  access 5#4 0x80 ++ access 0#4 1

theorem slowWrites_taken_once :
    log step written reset slowWrites =
        log step taken reset slowWrites ++ (run step reset slowWrites).between ∧
      (∀ t, ((run step reset slowWrites).taken t).length ≤ 1) ∧
      ((run step reset slowWrites).slave.ackInProgress = false →
        (run step reset slowWrites).between = (run step reset slowWrites).slave.loading) :=
  writes_taken_once 2 (by decide) (by decide) slowWrites (by decide)

example : log step taken reset slowWrites = [(.len, 0x80), (.ctrl, 1)] := by decide +kernel

end DmaRegisters

end Gn4124Core
