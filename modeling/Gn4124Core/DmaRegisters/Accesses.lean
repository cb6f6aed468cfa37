import Gn4124Core.Csr.Accesses
import Gn4124Core.Rtl.DmaControllerWbSlave

/-!
# The accesses of the DMA registers

An access of `dma_controller_wb_slave` takes six edges of the bus clock, one that hits no register
only one.  `DmaRegsStage` tells how far it has come, and `At` what this says about the registers
on both clocks: the level of the register is high for two edges, its rise crosses to `clk_i`
within the time that the pace of the two clocks leaves (`Clocked.LevelChain.Crossing`), and all
other registers are at rest.  As long as `clk_i` has an edge in every two periods of the bus
clock, an access is over for both clocks when the next one can begin.

For the bus, the slave is one of those that `CsrSlave` describes: it starts an access only if none
is in progress and acknowledges it a fixed number of cycles later (`csrSlave_step`).
-/

namespace Gn4124Core

open Clocked

/-- Where the slave is in an access: `j` edges after the one that has begun it. -/
inductive DmaRegsStage where
  | free
  | busy (r : DmaReg) (we : Bool) (j : ℕ)
  | invalid
deriving DecidableEq

namespace DmaRegsStage

def inProgress : DmaRegsStage → Bool
  | free => false
  | busy _ _ _ | invalid => true

def ackSreg : DmaRegsStage → BitVec 10
  | free => 0
  | busy _ _ j => BitVec.twoPow 10 (5 - j)
  | invalid => BitVec.twoPow 10 0

/-- The stage after an edge of the bus clock. -/
def next (b : DmaRegsBus) : DmaRegsStage → DmaRegsStage
  | free =>
      if b.wbCyc && b.wbStb then
        match DmaReg.ofAddr b.wbAddr with
        | some r => busy r b.wbWe 0
        | none => invalid
      else free
  | busy r we j => if j < 5 then busy r we (j + 1) else free
  | invalid => free

end DmaRegsStage

/-! ## The registers in an access -/

namespace AsyncReg

/-- A register to which no access is in progress. -/
structure Idle (f : AsyncReg) : Prop where
  rests : f.chain.Rests
  lwDelay : f.lwDelay = false
  lwReadInProgress : f.lwReadInProgress = false

/-- A register `j` edges after the one that has begun an access to it. -/
structure During (pace lag : ℕ) (we : Bool) (j : ℕ) (f : AsyncReg) : Prop where
  level : f.chain.level = decide (j < 2)
  lwDelay : f.lwDelay = decide (j < 1)
  lwReadInProgress : f.lwReadInProgress = (!we && decide (j < 5))
  rwsel : f.rwsel = we
  crosses : f.chain.underWay = false ∨ f.chain.Crossing pace j lag
  falls : f.chain.level = false → f.chain.s0 = true → j < 2 + lag

/-- The signals of one register after an edge of `clk_i` that there may be. -/
def clkTick (f : AsyncReg) (i : Option Word) : AsyncReg :=
  match i with
  | some d => f.clkEdge d
  | none => f

variable {pace lag j : ℕ} {we : Bool} {f : AsyncReg} {i : Option Word}

theorem clkTick_chain (f : AsyncReg) (i : Option Word) :
    (f.clkTick i).chain = f.chain.edge i.isSome f.chain.level := by
  cases i <;> rfl

@[simp] theorem clkTick_lwDelay : (f.clkTick i).lwDelay = f.lwDelay := by cases i <;> rfl

@[simp] theorem clkTick_lwReadInProgress :
    (f.clkTick i).lwReadInProgress = f.lwReadInProgress := by cases i <;> rfl

@[simp] theorem clkTick_rwsel : (f.clkTick i).rwsel = f.rwsel := by cases i <;> rfl

@[simp] theorem clkTick_intWrite : (f.clkTick i).intWrite = f.intWrite := by cases i <;> rfl

theorem advance_chain (f : AsyncReg) (i : Option Word) (ackSreg1 : Bool) :
    ((f.clkTick i).advance ackSreg1).chain = f.chain.edge i.isSome f.lwDelay := by
  cases i <;> rfl

theorem access_chain (f : AsyncReg) (i : Option Word) (we : Bool) (d : Word) :
    ((f.clkTick i).access we d).chain = f.chain.edge i.isSome true := by
  cases i <;> rfl

theorem Idle.clkTick (h : f.Idle) : (f.clkTick i).Idle := by
  refine ⟨?_, by rw [clkTick_lwDelay, h.lwDelay], by
    rw [clkTick_lwReadInProgress, h.lwReadInProgress]⟩
  rw [clkTick_chain, h.rests.low]
  exact h.rests.edge_low

theorem Idle.advance (h : f.Idle) (ackSreg1 : Bool) :
    ((f.clkTick i).advance ackSreg1).Idle := by
  refine ⟨?_, rfl, ?_⟩
  · rw [advance_chain, h.lwDelay]
    exact h.rests.edge_low
  · show ((f.clkTick i).lwReadInProgress && !ackSreg1) = false
    rw [clkTick_lwReadInProgress, h.lwReadInProgress]
    rfl

/-- An access begins. -/
theorem Idle.access (h : f.Idle) (we : Bool) (d : Word) :
    ((f.clkTick i).access we d).During pace (LevelChain.nextLag lag true i.isSome) we 0 := by
  have hcarries : LevelChain.Carries 0 (f.chain.edge i.isSome true) := h.rests.edge_high
  refine ⟨rfl, rfl, ?_, rfl, ?_, ?_⟩
  · show (!we) = (!we && decide (0 < 5))
    simp
  · rw [access_chain]
    exact .inr (LevelChain.crossing_of_carries hcarries rfl)
  · intro hlow
    rw [access_chain, LevelChain.edge_level] at hlow
    exact absurd hlow (by decide)

/-- What an edge does to the chain of a register in an access. -/
theorem During.chain_edge {level front : Bool} (h : f.During pace lag we j) (hlag : lag ≤ pace)
    (hpace : pace ≤ 2) (hpaced : LevelChain.Paced pace lag front i.isSome)
    (hlevel : level = decide (j + front.toNat < 2)) :
    ((f.chain.edge i.isSome level).underWay = false ∨
        (f.chain.edge i.isSome level).Crossing pace (j + front.toNat)
          (LevelChain.nextLag lag front i.isSome)) ∧
      (level = false → (f.chain.edge i.isSome level).s0 = true →
        j + front.toNat < 2 + LevelChain.nextLag lag front i.isSome) := by
  have hraise : level = true → f.chain.level = true := by
    rw [hlevel, h.level]
    simp only [decide_eq_true_eq]
    omega
  constructor
  · rcases h.crosses with hquiet | hcrossing
    · exact .inl (LevelChain.underWay_edge hquiet hraise)
    · have hlower : level = false → pace ≤ j + front.toNat := by
        rw [hlevel]
        simp only [decide_eq_false_iff_not]
        omega
      rcases hcrossing.edge hlag hpaced hraise hlower with ⟨-, hout⟩ | ⟨-, hin⟩
      · exact .inl hout
      · exact .inr hin
  · intro hlow hs0
    rw [hlow] at hlevel
    have hj : ¬ j + front.toNat < 2 := of_decide_eq_false hlevel.symm
    rw [LevelChain.edge_s0] at hs0
    unfold LevelChain.nextLag
    cases hback : i.isSome with
    | true =>
        -- the level was high until this very edge
        rw [hback, if_pos rfl, h.level] at hs0
        have hyoung : j < 2 := of_decide_eq_true hs0
        simp only [if_true]
        omega
    | false =>
        rw [hback, if_neg Bool.false_ne_true] at hs0
        simp only [Bool.false_eq_true, if_false]
        by_cases hlowBefore : f.chain.level = false
        · have hbefore := h.falls hlowBefore hs0
          omega
        · have hyoung : j < 2 := by
            rw [h.level] at hlowBefore
            simpa using hlowBefore
          omega

/-- A rise is on its way until `clk_i` sees it. -/
theorem During.underWay_edge {level front : Bool} (h : f.During pace lag we j) (hlag : lag ≤ pace)
    (hpace : pace ≤ 2) (hpaced : LevelChain.Paced pace lag front i.isSome)
    (hlevel : level = decide (j + front.toNat < 2)) :
    (f.chain.edge i.isSome level).underWay =
      (f.chain.underWay && !(i.isSome && f.chain.rise)) := by
  have hraise : level = true → f.chain.level = true := by
    rw [hlevel, h.level]
    simp only [decide_eq_true_eq]
    omega
  rcases h.crosses with hquiet | hcrossing
  · rw [LevelChain.underWay_edge hquiet hraise, hquiet]
    rfl
  · have hlower : level = false → pace ≤ j + front.toNat := by
      rw [hlevel]
      simp only [decide_eq_false_iff_not]
      omega
    have hbefore : f.chain.underWay = true := by
      obtain ⟨p, hcarries, -⟩ := hcrossing
      exact hcarries.underWay
    rcases hcrossing.edge hlag hpaced hraise hlower with
      ⟨hout, hafter⟩ | ⟨hin, p, hcarries, -⟩
    · rw [hafter, hbefore, hout]
      rfl
    · rw [hcarries.underWay, hbefore, hin]
      rfl

/-- An edge of `clk_i` alone. -/
theorem During.clkTick (h : f.During pace lag we j) (hlag : lag ≤ pace) (hpace : pace ≤ 2) :
    (f.clkTick i).During pace (LevelChain.nextLag lag false i.isSome) we j := by
  have hpaced : LevelChain.Paced pace lag false i.isSome := fun hfront => absurd hfront (by decide)
  have hedge := h.chain_edge hlag hpace hpaced h.level
  refine ⟨?_, ?_, ?_, ?_, ?_, ?_⟩
  · rw [clkTick_chain, LevelChain.edge_level, h.level]
  · rw [clkTick_lwDelay, h.lwDelay]
  · rw [clkTick_lwReadInProgress, h.lwReadInProgress]
  · rw [clkTick_rwsel, h.rwsel]
  · rw [clkTick_chain]
    exact hedge.1
  · rw [clkTick_chain]
    exact hedge.2

/-- An edge of the bus clock, or of both clocks, in an access. -/
theorem During.advance (h : f.During pace lag we j) (hlag : lag ≤ pace) (hpace : pace ≤ 2)
    (hpaced : LevelChain.Paced pace lag true i.isSome) (hj : j < 5) :
    ((f.clkTick i).advance (decide (j = 4))).During pace (LevelChain.nextLag lag true i.isSome) we
      (j + 1) := by
  have hdelay : f.lwDelay = decide (j + true.toNat < 2) := by
    rw [h.lwDelay]
    exact decide_eq_decide.mpr (by simp only [Bool.toNat_true]; omega)
  have hedge := h.chain_edge hlag hpace hpaced hdelay
  refine ⟨?_, ?_, ?_, ?_, ?_, ?_⟩
  · rw [advance_chain, LevelChain.edge_level, hdelay]
    rfl
  · exact (decide_eq_false (by omega)).symm
  · show ((f.clkTick i).lwReadInProgress && !decide (j = 4)) = _
    rw [clkTick_lwReadInProgress, h.lwReadInProgress]
    by_cases hlast : j = 4
    · simp [hlast]
    · have hmore : j + 1 < 5 := by omega
      simp [hlast, hj, hmore]
  · show (f.clkTick i).rwsel = we
    rw [clkTick_rwsel, h.rwsel]
  · rw [advance_chain]
    exact hedge.1
  · rw [advance_chain]
    exact hedge.2

/-- The edge that ends an access leaves the register at rest. -/
theorem During.finish (h : f.During pace lag we 5) (hlag : lag ≤ pace) (hone : 1 ≤ pace)
    (hpace : pace ≤ 2) (hpaced : LevelChain.Paced pace lag true i.isSome) : (f.clkTick i).Idle := by
  have hlevel : f.chain.level = decide (5 + true.toNat < 2) := by
    rw [h.level]
    rfl
  have hedge := h.chain_edge hlag hpace hpaced hlevel
  have hnext := LevelChain.nextLag_le hpaced hlag hone
  rw [← clkTick_chain] at hedge
  simp only [Bool.toNat_true, Nat.reduceAdd] at hedge
  obtain ⟨hcrosses, hfalls⟩ := hedge
  have hlow : (f.clkTick i).chain.level = false := by
    rw [clkTick_chain, LevelChain.edge_level, h.level]
    rfl
  refine ⟨⟨hlow, ?_, ?_⟩, by rw [clkTick_lwDelay, h.lwDelay]; rfl, by
    rw [clkTick_lwReadInProgress, h.lwReadInProgress]; simp⟩
  · by_contra hs0
    have hlate := hfalls (h.level.trans rfl) (by simpa using hs0)
    omega
  · rcases hcrosses with hquiet | hcrossing
    · exact hquiet
    · have hearly := hcrossing.lt hnext
      omega

end AsyncReg

/-! ## The slave -/

namespace DmaRegsStage

/-- A register in this stage of the slave. -/
def RegAt (pace lag : ℕ) (r : DmaReg) (f : AsyncReg) : DmaRegsStage → Prop
  | busy r' we j => if r = r' then f.During pace lag we j else f.Idle
  | free | invalid => f.Idle

/-- An access takes six edges. -/
def Bounded : DmaRegsStage → Prop
  | busy _ _ j => j ≤ 5
  | free | invalid => True

theorem regAt_self {pace lag j : ℕ} {r : DmaReg} {we : Bool} {f : AsyncReg} :
    (busy r we j).RegAt pace lag r f ↔ f.During pace lag we j := by
  rw [RegAt, if_pos rfl]

theorem regAt_other {pace lag j : ℕ} {r r' : DmaReg} {we : Bool} {f : AsyncReg} (hne : r ≠ r') :
    (busy r' we j).RegAt pace lag r f ↔ f.Idle := by
  rw [RegAt, if_neg hne]

/-- What is left of an access, as `CsrSlave` counts it. -/
def waits : DmaRegsStage → Option ℕ
  | free => none
  | busy _ _ j => some (5 - j)
  | invalid => some 0

end DmaRegsStage

namespace DmaControllerWbSlave

/-- What holds of the slave in each stage. -/
structure At (pace lag : ℕ) (stage : DmaRegsStage) (s : DmaControllerWbSlave) : Prop where
  ackInProgress : s.ackInProgress = stage.inProgress
  ackSreg : s.ackSreg = stage.ackSreg
  bounded : stage.Bounded
  reg : ∀ r, stage.RegAt pace lag r (s.reg r)

/-- The stage after an edge. -/
def nextStage (t : DmaRegsTick) (stage : DmaRegsStage) : DmaRegsStage :=
  match t.wb with
  | some b => stage.next b
  | none => stage

variable {pace lag j : ℕ} {stage : DmaRegsStage} {s : DmaControllerWbSlave} {t : DmaRegsTick}
  {b : DmaRegsBus} {r : DmaReg} {we : Bool}

theorem At.reset (pace lag : ℕ) : At pace lag .free reset :=
  ⟨rfl, rfl, trivial, fun _ => ⟨⟨rfl, rfl, rfl⟩, rfl, rfl⟩⟩

/-! ### The acknowledge -/

theorem getLsbD_ackSreg (hj : j ≤ 5) (k : ℕ) :
    (DmaRegsStage.busy r we j).ackSreg.getLsbD k = decide (5 - j = k) := by
  have hlt : 5 - j < 10 := by omega
  simp [DmaRegsStage.ackSreg, BitVec.getLsbD_twoPow, hlt]

theorem ackSreg_shift (hj : j < 5) :
    BitVec.twoPow 10 (5 - j) >>> 1 = BitVec.twoPow 10 (5 - (j + 1)) := by
  have hall : ∀ k : Fin 5, BitVec.twoPow 10 (5 - k.val) >>> 1 = BitVec.twoPow 10 (5 - (k.val + 1)) := by
    decide
  exact hall ⟨j, hj⟩

theorem At.accepts (h : At pace lag stage s) :
    s.accepts b = (!stage.inProgress && (b.wbCyc && b.wbStb)) := by
  rw [DmaControllerWbSlave.accepts, h.ackInProgress]

theorem At.ackStart (h : At pace lag stage s) (hbusy : stage.inProgress = true) :
    s.ackStart b = 0 := by
  rw [DmaControllerWbSlave.ackStart, h.accepts, hbusy]
  rfl

/-- The acknowledge goes with the stage. -/
theorem At.ackSreg_next (h : At pace lag stage s) :
    (s.ackSreg >>> 1) ||| s.ackStart b = (stage.next b).ackSreg := by
  rw [h.ackSreg]
  cases stage with
  | free =>
      rw [DmaControllerWbSlave.ackStart, h.accepts]
      cases hask : b.wbCyc && b.wbStb with
      | false => simp [DmaRegsStage.next, DmaRegsStage.ackSreg, hask]
      | true =>
          cases hreg : DmaReg.ofAddr b.wbAddr <;>
            simp [DmaRegsStage.next, DmaRegsStage.ackSreg, DmaRegsStage.inProgress, hask, hreg]
  | busy r we j =>
      rw [h.ackStart rfl]
      by_cases hj : j < 5
      · simp only [DmaRegsStage.next, DmaRegsStage.ackSreg, if_pos hj, ackSreg_shift hj]
        simp
      · obtain rfl : j = 5 := Nat.le_antisymm h.bounded (Nat.le_of_not_lt hj)
        simp only [DmaRegsStage.next, if_neg hj, DmaRegsStage.ackSreg]
        decide
  | invalid =>
      rw [h.ackStart rfl]
      rfl

theorem At.ackInProgress_next (h : At pace lag stage s) :
    (if s.ackInProgress then !s.ackSreg.getLsbD 0 else s.accepts b) =
      (stage.next b).inProgress := by
  rw [h.ackInProgress, h.ackSreg, h.accepts]
  cases stage with
  | free =>
      cases hask : b.wbCyc && b.wbStb with
      | false => simp [DmaRegsStage.next, DmaRegsStage.inProgress, hask]
      | true =>
          cases hreg : DmaReg.ofAddr b.wbAddr <;>
            simp [DmaRegsStage.next, DmaRegsStage.inProgress, hask, hreg]
  | busy r we j =>
      rw [getLsbD_ackSreg h.bounded]
      by_cases hj : j < 5
      · have hmore : ¬ 5 - j = 0 := by omega
        simp [DmaRegsStage.next, DmaRegsStage.inProgress, hj, hmore]
      · have hlast : 5 - j = 0 := by omega
        simp [DmaRegsStage.next, DmaRegsStage.inProgress, hj, hlast]
  | invalid => rfl

theorem bounded_next (h : stage.Bounded) : (stage.next b).Bounded := by
  cases stage with
  | free =>
      rw [DmaRegsStage.next]
      split
      · cases DmaReg.ofAddr b.wbAddr with
        | some r => exact Nat.zero_le 5
        | none => trivial
      · trivial
  | busy r we j =>
      rw [DmaRegsStage.next]
      split
      · next hj => exact hj
      · trivial
  | invalid => trivial

/-! ### One edge -/

/-- What a register reads at an edge of `clk_i` that there may be. -/
def regIn (t : DmaRegsTick) (r : DmaReg) : Option Word := t.clk.map fun i => i r

@[simp] theorem isSome_regIn (t : DmaRegsTick) (r : DmaReg) :
    (regIn t r).isSome = t.clk.isSome := Option.isSome_map

theorem step_reg_clk (s : DmaControllerWbSlave) (hwb : t.wb = none) (r : DmaReg) :
    (s.step t).reg r = (s.reg r).clkTick (regIn t r) := by
  cases hclk : t.clk <;> simp [step, AsyncReg.clkTick, regIn, hclk, hwb]

theorem step_reg_wb (s : DmaControllerWbSlave) (hwb : t.wb = some b) (r : DmaReg) :
    (s.step t).reg r = s.regWb b r ((s.reg r).clkTick (regIn t r)) := by
  cases hclk : t.clk <;> simp [step, AsyncReg.clkTick, regIn, hclk, hwb]

/-- What an edge of `clk_i` alone does to a register. -/
theorem regAt_clk {f : AsyncReg} (h : stage.RegAt pace lag r f) (hlag : lag ≤ pace)
    (hpace : pace ≤ 2) (i : Option Word) :
    stage.RegAt pace (LevelChain.nextLag lag false i.isSome) r (f.clkTick i) := by
  cases stage with
  | free => exact AsyncReg.Idle.clkTick h
  | invalid => exact AsyncReg.Idle.clkTick h
  | busy r' we j =>
      by_cases hr : r = r'
      · subst hr
        rw [DmaRegsStage.regAt_self] at h ⊢
        exact h.clkTick hlag hpace
      · rw [DmaRegsStage.regAt_other hr] at h ⊢
        exact h.clkTick

/-- What an edge of the bus clock, or of both clocks, does to a register. -/
theorem At.reg_wb (h : At pace lag stage s) (hlag : lag ≤ pace) (hone : 1 ≤ pace)
    (hpace : pace ≤ 2) (i : Option Word) (hpaced : LevelChain.Paced pace lag true i.isSome)
    (b : DmaRegsBus) (r : DmaReg) :
    (stage.next b).RegAt pace (LevelChain.nextLag lag true i.isSome) r
      (s.regWb b r ((s.reg r).clkTick i)) := by
  have hreg := h.reg r
  unfold DmaControllerWbSlave.regWb
  rw [h.accepts, h.ackInProgress, h.ackSreg]
  cases stage with
  | free =>
      have hidle : (s.reg r).Idle := hreg
      cases hask : b.wbCyc && b.wbStb with
      | false =>
          simpa [DmaRegsStage.next, DmaRegsStage.inProgress, DmaRegsStage.RegAt, hask]
            using hidle.clkTick
      | true =>
          cases haddr : DmaReg.ofAddr b.wbAddr with
          | none =>
              simpa [DmaRegsStage.next, DmaRegsStage.inProgress, DmaRegsStage.RegAt, hask, haddr]
                using hidle.clkTick
          | some r' =>
              by_cases hr : r = r'
              · subst hr
                simpa [DmaRegsStage.next, DmaRegsStage.inProgress, DmaRegsStage.RegAt, hask, haddr]
                  using hidle.access b.wbWe b.wbData
              · have hne : ¬ r' = r := fun heq => hr heq.symm
                simpa [DmaRegsStage.next, DmaRegsStage.inProgress, DmaRegsStage.RegAt, hask, haddr,
                  hr, hne] using hidle.clkTick
  | busy r' we j =>
      rw [getLsbD_ackSreg h.bounded, getLsbD_ackSreg h.bounded]
      have hbounded : j ≤ 5 := h.bounded
      by_cases hj : j < 5
      · have hmore : ¬ 5 - j = 0 := by omega
        have hcapture : (5 - j = 1) = (j = 4) := by
          apply propext
          omega
        simp only [DmaRegsStage.next, DmaRegsStage.inProgress, if_pos hj, if_true,
          decide_eq_true_eq, if_neg hmore, hcapture]
        by_cases hr : r = r'
        · subst hr
          rw [DmaRegsStage.regAt_self] at hreg ⊢
          exact hreg.advance hlag hpace hpaced hj
        · rw [DmaRegsStage.regAt_other hr] at hreg ⊢
          exact hreg.advance _
      · have hlast : j = 5 := by omega
        subst hlast
        have hfree : (DmaRegsStage.busy r' we 5).next b = .free := rfl
        rw [hfree]
        show AsyncReg.Idle _
        simp only [DmaRegsStage.inProgress, if_true, Nat.sub_self, decide_true]
        by_cases hr : r = r'
        · subst hr
          exact (DmaRegsStage.regAt_self.mp hreg).finish hlag hone hpace hpaced
        · exact ((DmaRegsStage.regAt_other hr).mp hreg).clkTick
  | invalid =>
      have hidle : (s.reg r).Idle := hreg
      exact hidle.clkTick

/-- **One edge of the slave.** -/
theorem At.step (h : At pace lag stage s) (hlag : lag ≤ pace) (hone : 1 ≤ pace) (hpace : pace ≤ 2)
    (hpaced : LevelChain.Paced pace lag t.wb.isSome t.clk.isSome) :
    At pace (LevelChain.nextLag lag t.wb.isSome t.clk.isSome) (nextStage t stage) (s.step t) := by
  cases hwb : t.wb with
  | none =>
      refine ⟨?_, ?_, ?_, fun r => ?_⟩
      · simpa [DmaControllerWbSlave.step, nextStage, hwb] using h.ackInProgress
      · simpa [DmaControllerWbSlave.step, nextStage, hwb] using h.ackSreg
      · simpa [nextStage, hwb] using h.bounded
      · have hclk := regAt_clk (h.reg r) hlag hpace (regIn t r)
        rw [isSome_regIn] at hclk
        rw [step_reg_clk s hwb]
        simpa [nextStage, hwb] using hclk
  | some b =>
      rw [hwb] at hpaced
      refine ⟨?_, ?_, ?_, fun r => ?_⟩
      · simpa [DmaControllerWbSlave.step, nextStage, hwb] using h.ackInProgress_next (b := b)
      · simpa [DmaControllerWbSlave.step, nextStage, hwb] using h.ackSreg_next (b := b)
      · simpa [nextStage, hwb] using bounded_next h.bounded
      · have hclk := h.reg_wb hlag hone hpace (regIn t r) (by rwa [isSome_regIn]) b r
        rw [isSome_regIn] at hclk
        rw [step_reg_wb s hwb]
        simpa [nextStage, hwb] using hclk

/-! ### The slave on the bus -/

theorem At.wbAckO (h : At pace lag stage s) : s.wbAckO = (CsrSlave.mk stage.waits).ack := by
  rw [DmaControllerWbSlave.wbAckO, h.ackSreg]
  cases stage with
  | free => rfl
  | busy r we j =>
      rw [getLsbD_ackSreg h.bounded, CsrSlave.ack, DmaRegsStage.waits]
      simp [beq_eq_decide]
  | invalid => rfl

/-- The cycles that an access waits. -/
def wait (b : DmaRegsBus) : ℕ := if (DmaReg.ofAddr b.wbAddr).isSome then 5 else 0

/-- The slave is one of those that the address decoder expects. -/
theorem csrSlave_step (stage : DmaRegsStage) (hbounded : stage.Bounded) (b : DmaRegsBus) :
    (CsrSlave.mk stage.waits).step ((CsrSlave.mk stage.waits).starts b.wbCyc b.wbStb) (wait b) =
      ⟨(stage.next b).waits⟩ := by
  cases stage with
  | free =>
      cases hask : b.wbCyc && b.wbStb with
      | false => simp [CsrSlave.step, CsrSlave.starts, DmaRegsStage.waits, DmaRegsStage.next, hask]
      | true =>
          cases hreg : DmaReg.ofAddr b.wbAddr <;>
            simp [CsrSlave.step, CsrSlave.starts, DmaRegsStage.waits, DmaRegsStage.next, wait, hask,
              hreg]
  | busy r we j =>
      have hle : j ≤ 5 := hbounded
      by_cases hj : j < 5
      · obtain ⟨k, hk⟩ : ∃ k, 5 - j = k + 1 := ⟨4 - j, by omega⟩
        have hrest : 5 - (j + 1) = k := by omega
        simp [CsrSlave.step, DmaRegsStage.waits, DmaRegsStage.next, hj, hk, hrest]
      · obtain rfl : j = 5 := by omega
        rfl
  | invalid => rfl

end DmaControllerWbSlave

end Gn4124Core
