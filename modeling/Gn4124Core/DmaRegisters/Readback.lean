import Gn4124Core.DmaRegisters.Loads
import Gn4124Core.RegisterBus.Sequential

/-!
# The host reads back what it has written

The acknowledge of the slave does not wait for the other clock, neither for a write to arrive nor
for a read to come back.  As long as `clk_i` has an edge in every period of the bus clock, the host
does not notice: the registers answer as a memory would (`registerFile`), but for the start bit,
which clears itself, and for the status.

What a register is worth for the host is what is on the way to it, or in its load strobe, or
else what the controller holds (`effective`).  A read sees what the controller holds.  By the time
its rise comes out, `clk_i` has had two edges since the access has begun: the first one empties
the load strobes, and the second one clears the start bit.
-/

namespace Gn4124Core

open Clocked RegisterBus

namespace DmaReg

/-- The bits of a register that stay as the host has written them. -/
def lasting (r : DmaReg) (w : Word) : Word :=
  if r = ctrl then w.extractLsb' 1 31 ++ 0#1 else w

end DmaReg

/-- An access to the registers, at an address that has one or not. -/
structure DmaRegOp where
  reg : Option DmaReg
  we : Bool
  data : Word
deriving DecidableEq

/-- The registers as a memory.  The status is not what the host has written. -/
def registerFile : Sequential (DmaReg → Word) DmaRegOp Word where
  next := fun m op =>
    match op.reg with
    | some r => if op.we then Function.update m r op.data else m
    | none => m
  answer := fun m op =>
    match op.reg with
    | some r => if op.we || decide (r = .stat) then none else some (r.lasting (m r))
    | none => none

/-! ## The controller -/

namespace DmaController

variable {s : DmaController} {i : DmaControllerIn} {r : DmaReg}

/-- What is loaded into a register. -/
def loadOf (l : DmaLoads) : DmaReg → Option Word
  | .ctrl => l.dmaCtrl
  | .stat => none
  | .cstart => l.dmaCstart
  | .hstartl => l.dmaHstartl
  | .hstarth => l.dmaHstarth
  | .len => l.dmaLen
  | .nextl => l.dmaNextl
  | .nexth => l.dmaNexth
  | .attrib => l.dmaAttrib

theorem lasting_append (w : Word) (b : BitVec 1) :
    DmaReg.ctrl.lasting (w.extractLsb' 1 31 ++ b) = DmaReg.ctrl.lasting w := by
  unfold DmaReg.lasting
  rw [if_pos rfl, if_pos rfl]
  congr 1
  ext k hk
  have happend := BitVec.getLsbD_append (x := w.extractLsb' 1 31) (y := b) (i := 1 + k)
  have hpos : ¬ 1 + k < 1 := by omega
  have hback : 1 + k - 1 = k := by omega
  rw [if_neg hpos, hback] at happend
  rw [BitVec.getElem_extractLsb']
  exact happend.trans (by simp [hk])

/-- A register holds what was loaded last. -/
theorem lasting_shown_step (hitem : i.nextItemValid = false) (hr : r ≠ .stat) :
    r.lasting ((s.step i).shown r) = r.lasting ((loadOf i.loads r).getD (s.shown r)) := by
  cases r with
  | ctrl => exact lasting_append _ _
  | stat => exact absurd rfl hr
  | cstart | hstartl | hstarth | len | nextl | nexth | attrib =>
      simp [step, pRegs, shown, loadOf, hitem]

/-- Without a load the start bit goes down. -/
theorem startBit_step_quiet (hitem : i.nextItemValid = false) (hload : i.loads.dmaCtrl = none) :
    startBit (s.step i).regs.dmaCtrlReg = false := by
  rw [startBit_step, nextStartBit, hitem, hload]
  cases hstart : startBit s.regs.dmaCtrlReg <;> simp [hstart]

/-- A control word whose start bit is clear has no other bits than lasting ones. -/
theorem lasting_of_startBit {w : Word} (h : startBit w = false) : DmaReg.ctrl.lasting w = w := by
  unfold DmaReg.lasting
  rw [if_pos rfl]
  ext k hk
  rw [BitVec.getElem_append]
  by_cases hzero : k = 0
  · subst hzero
    simpa [startBit] using h.symm
  · have hsum : 1 + (k - 1) = k := by omega
    simp [hzero, hsum, BitVec.getLsbD_eq_getElem hk]

end DmaController

/-! ## What the registers are worth -/

namespace DmaControllerWbSlave

variable {pace lag j : ℕ} {s : DmaControllerWbSlave} {t : DmaRegsTick} {r : DmaReg} {we : Bool}

/-- What is on the way to a register. -/
def writeUnderWay (s : DmaControllerWbSlave) (r : DmaReg) : Bool :=
  (s.reg r).chain.underWay && (s.reg r).rwsel

theorem loadOf_loads (s : DmaControllerWbSlave) (hr : r ≠ .stat) :
    DmaController.loadOf s.loads r = s.load r := by
  cases r with
  | stat => exact absurd rfl hr
  | ctrl | cstart | hstartl | hstarth | len | nextl | nexth | attrib => rfl

theorem load_of_loading (h : s.loading = []) (r : DmaReg) : s.load r = none := by
  have hnone := List.filterMap_eq_nil_iff.mp h r (DmaReg.mem_all r)
  simpa using hnone

theorem not_writeUnderWay_of_idle (h : (s.reg r).Idle) : s.writeUnderWay r = false := by
  rw [writeUnderWay, h.rests.quiet]
  rfl

theorem At.rwsel_step (h : At pace lag (.busy r we j) s) : ((s.step t).reg r).rwsel = we := by
  have hrwsel := h.during.rwsel
  cases hwb : t.wb with
  | none => rw [step_reg_clk s hwb, AsyncReg.clkTick_rwsel, hrwsel]
  | some b =>
      have hnot : s.accepts b = false := by
        rw [h.accepts]
        rfl
      rw [step_reg_wb s hwb, regWb, h.ackInProgress, hnot]
      simp only [DmaRegsStage.inProgress, if_true]
      split
      · rw [AsyncReg.clkTick_rwsel, hrwsel]
      · show ((s.reg r).clkTick (regIn t r)).rwsel = we
        rw [AsyncReg.clkTick_rwsel, hrwsel]

end DmaControllerWbSlave

namespace DmaRegisters

variable {pace : ℕ} {s : DmaRegisters} {t : DmaRegistersTick} {r : DmaReg}

/-- The value of a register, for the host. -/
def effective (s : DmaRegisters) (r : DmaReg) : Word :=
  if s.slave.writeUnderWay r then (s.slave.reg r).intWrite
  else (s.slave.load r).getD (s.controller.shown r)

/-- No item of a chain is loaded at this edge. -/
def NoItem (t : DmaRegistersTick) : Prop := ∀ m ∈ t.clk, m.nextItemValid = false

instance (t : DmaRegistersTick) : Decidable (NoItem t) := Option.decidableForallMem t.clk

/-- The load strobe and the controller together keep the value of a register, unless a write
comes in. -/
theorem effective_quiet (hitem : NoItem t) (hr : r ≠ .stat)
    (hbefore : s.slave.writeUnderWay r = false)
    (hafter : (s.step t).slave.writeUnderWay r = false) :
    r.lasting ((s.step t).effective r) = r.lasting (s.effective r) := by
  have hslave : (s.step t).slave = s.slave.step (s.slaveTick t) := rfl
  unfold effective
  rw [hbefore, hafter, if_neg Bool.false_ne_true, if_neg Bool.false_ne_true, hslave]
  cases hclk : t.clk with
  | none =>
      have hnone : (s.slaveTick t).clk = none := by rw [slaveTick, hclk]; rfl
      have hcontroller : (s.step t).controller = s.controller := by simp only [step, hclk]
      rw [s.slave.load_step_wb _ r hnone, hcontroller]
  | some m =>
      have hsome : (s.slaveTick t).clk.isSome = true := by rw [slaveTick_clk_isSome, hclk]; rfl
      have hcontroller : (s.step t).controller = s.controller.step (s.controllerIn m) := by
        simp only [step, hclk]
      have hunseen : ((s.slave.reg r).chain.rise && (s.slave.reg r).rwsel) = false := by
        by_contra hseen
        obtain ⟨hrise, hrwsel⟩ := Bool.and_eq_true_iff.mp (by simpa using hseen)
        rw [DmaControllerWbSlave.writeUnderWay, DmaControllerWbSlave.underWay_of_rise hrise,
          hrwsel] at hbefore
        exact absurd hbefore (by decide)
      have hload : DmaController.loadOf (s.controllerIn m).loads r = s.slave.load r :=
        s.slave.loadOf_loads hr
      rw [s.slave.load_step_clk _ r hsome, hunseen, hcontroller, if_neg Bool.false_ne_true,
        Option.getD_none, DmaController.lasting_shown_step (hitem m hclk) hr, hload]

/-- The write on its way, until `clk_i` sees it and after. -/
theorem effective_busy {j : ℕ} {we : Bool} (hlag : s.lag ≤ pace) (hpace : pace ≤ 2)
    (hpaced : Paced pace s t) (hitem : NoItem t) (hr : r ≠ .stat)
    (h : DmaControllerWbSlave.At pace s.lag (.busy r we j) s.slave) :
    r.lasting ((s.step t).effective r) = r.lasting (s.effective r) := by
  have hslave : (s.step t).slave = s.slave.step (s.slaveTick t) := rfl
  have hunderWay := h.underWay_step (t := s.slaveTick t) hlag hpace
    (by rwa [slaveTick_clk_isSome])
  have hrwsel := h.rwsel_step (t := s.slaveTick t)
  have hintWrite := h.intWrite_step (t := s.slaveTick t)
  cases hway : s.slave.writeUnderWay r with
  | false =>
      refine effective_quiet hitem hr hway ?_
      rw [hslave, DmaControllerWbSlave.writeUnderWay, hunderWay, hrwsel, ← h.during.rwsel]
      rw [DmaControllerWbSlave.writeUnderWay] at hway
      rw [Bool.and_right_comm, hway, Bool.false_and]
  | true =>
      obtain ⟨hbefore, hwrite⟩ := Bool.and_eq_true_iff.mp hway
      have hwe : we = true := h.during.rwsel.symm.trans hwrite
      have hold : s.effective r = (s.slave.reg r).intWrite := by rw [effective, if_pos hway]
      rw [hold]
      congr 1
      have hafter : (s.step t).slave.writeUnderWay r =
          !((s.slaveTick t).clk.isSome && (s.slave.reg r).chain.rise) := by
        rw [hslave, DmaControllerWbSlave.writeUnderWay, hunderWay, hrwsel, hbefore, hwe,
          Bool.true_and, Bool.and_true]
      cases hseen : (s.slaveTick t).clk.isSome && (s.slave.reg r).chain.rise with
      | false =>
          rw [effective, hafter, hseen, if_pos (by rfl), hslave, hintWrite]
      | true =>
          obtain ⟨hclk, hrise⟩ := Bool.and_eq_true_iff.mp hseen
          rw [effective, hafter, hseen, if_neg (by decide), hslave,
            s.slave.load_step_clk _ r hclk, hrise, hwrite]
          rfl

/-! ## Reads -/

end DmaRegisters

namespace DmaControllerWbSlave

variable {pace lag j : ℕ} {s : DmaControllerWbSlave} {t : DmaRegsTick} {r : DmaReg} {we : Bool}
  {stage : DmaRegsStage}

theorem At.idle (h : At pace lag stage s) (hne : ∀ we j, stage ≠ .busy r we j) :
    (s.reg r).Idle := by
  have hreg := h.reg r
  cases stage with
  | free => exact hreg
  | invalid => exact hreg
  | busy r' we j =>
      refine (DmaRegsStage.regAt_other ?_).mp hreg
      rintro rfl
      exact hne we j rfl

theorem regWb_intRead (s : DmaControllerWbSlave) (b : DmaRegsBus) (r : DmaReg) (f : AsyncReg) :
    (s.regWb b r f).intRead = f.intRead := by
  unfold regWb
  split_ifs <;> rfl

/-- What `clk_i` reads. -/
theorem intRead_step (s : DmaControllerWbSlave) (t : DmaRegsTick) (r : DmaReg) :
    ((s.step t).reg r).intRead = ((s.reg r).clkTick (regIn t r)).intRead := by
  cases hwb : t.wb with
  | none => rw [step_reg_clk s hwb]
  | some b => rw [step_reg_wb s hwb, regWb_intRead]

/-- In a read the data for the bus are what `clk_i` has read. -/
theorem At.nextRddata_read (h : At pace lag (.busy r false 4) s) :
    s.nextRddata = (s.reg r).intRead := by
  have hread : ∀ r', (s.reg r').lwReadInProgress = decide (r' = r) := by
    intro r'
    by_cases heq : r' = r
    · subst heq
      rw [h.during.lwReadInProgress]
      simp
    · rw [(h.idle_of_ne heq).lwReadInProgress, decide_eq_false heq]
  have hcapture : (s.ackInProgress && (!s.ackSreg.getLsbD 0 && s.ackSreg.getLsbD 1)) = true := by
    rw [h.ackInProgress, h.ackSreg, getLsbD_ackSreg h.bounded, getLsbD_ackSreg h.bounded]
    rfl
  rw [nextRddata, if_pos hcapture]
  cases r <;> simp [DmaReg.all, hread]

theorem rddata_step (s : DmaControllerWbSlave) (t : DmaRegsTick) :
    (s.step t).rddataReg = if t.wb.isSome then s.nextRddata else s.rddataReg := rfl

end DmaControllerWbSlave

namespace DmaRegisters

variable {pace j : ℕ} {s : DmaRegisters} {t : DmaRegistersTick} {r : DmaReg} {we : Bool}
  {m : DmaReg → Word}

/-- The registers are worth what the host has written. -/
def Mirrors (m : DmaReg → Word) (s : DmaRegisters) : Prop :=
  ∀ r : DmaReg, r ≠ .stat → r.lasting (s.effective r) = r.lasting (m r)

/-- A read on its way. -/
structure Fetches (m : DmaReg → Word) (r : DmaReg) (s : DmaRegisters) : Prop where
  loaded : ∀ p, LevelChain.Carries p (s.slave.reg r).chain → 1 ≤ p → s.slave.loading = []
  settled : ∀ p, LevelChain.Carries p (s.slave.reg r).chain → 2 ≤ p →
    startBit s.controller.regs.dmaCtrlReg = false
  fetched : (s.slave.reg r).chain.underWay = false → r ≠ .stat →
    (s.slave.reg r).intRead = r.lasting (m r)

/-- The place of a rise before an edge. -/
theorem carries_before {p : ℕ} (h : DmaControllerWbSlave.At pace s.lag (.busy r we j) s.slave)
    (hlag : s.lag ≤ pace) (hpace : pace ≤ 2) (hpaced : Paced pace s t)
    (hp : LevelChain.Carries p ((s.step t).slave.reg r).chain) :
    ∃ q, LevelChain.Carries q (s.slave.reg r).chain ∧ p = q + t.clk.isSome.toNat := by
  have hslave : (s.step t).slave = s.slave.step (s.slaveTick t) := rfl
  have hduring := h.during
  rw [hslave, h.chain_step, slaveTick_clk_isSome, slaveTick_wb] at hp
  have hraise : decide (j + t.wb.isSome.toNat < 2) = true → (s.slave.reg r).chain.level = true := by
    rw [hduring.level]
    simp only [decide_eq_true_eq]
    omega
  have hafter := hp.underWay
  rcases hduring.crosses with hquiet | ⟨q, hq, hj⟩
  · rw [LevelChain.underWay_edge hquiet hraise] at hafter
    exact absurd hafter Bool.false_ne_true
  · refine ⟨q, hq, ?_⟩
    cases hout : t.clk.isSome && (s.slave.reg r).chain.rise with
    | true =>
        obtain ⟨hclk, hrise⟩ := Bool.and_eq_true_iff.mp hout
        rw [hclk, hq.edge_out hraise hrise] at hafter
        exact absurd hafter Bool.false_ne_true
    | false =>
        refine hp.unique (hq.edge hraise ?_ hout)
        rintro hlow rfl
        by_contra hback
        have hfalse : t.clk.isSome = false := by simpa using hback
        have hlate : ¬ j + t.wb.isSome.toNat < 2 := of_decide_eq_false hlow
        cases hwb : t.wb.isSome with
        | false =>
            rw [hwb, Bool.toNat_false] at hlate
            omega
        | true =>
            have hlt := hpaced hwb hfalse
            rw [hwb, Bool.toNat_true] at hlate
            omega

/-- Nothing is loaded in a read. -/
theorem loading_step_read (h : DmaControllerWbSlave.At pace s.lag (.busy r false j) s.slave)
    (hclk : t.clk.isSome = true) : (s.step t).slave.loading = [] := by
  have hslave : (s.step t).slave = s.slave.step (s.slaveTick t) := rfl
  rw [hslave, s.slave.loading_step_clk _ (by rwa [slaveTick_clk_isSome]), h.seen_busy, Bool.and_false]
  rfl

theorem controller_step {c : DmaReports} (hclk : t.clk = some c) :
    (s.step t).controller = s.controller.step (s.controllerIn c) := by
  simp only [step, hclk]

theorem step_of_no_clk (hclk : t.clk = none) :
    (s.step t).controller = s.controller ∧ (s.step t).slave.loading = s.slave.loading := by
  have hslave : (s.step t).slave = s.slave.step (s.slaveTick t) := rfl
  refine ⟨by simp only [step, hclk], ?_⟩
  rw [hslave, s.slave.loading_step_wb _ (by rw [slaveTick, hclk]; rfl)]

/-- What `clk_i` reads when the rise of a read comes out. -/
theorem Fetches.shown (h : Fetches m r s) (hmirrors : s.Mirrors m) (hr : r ≠ .stat)
    (hread : (s.slave.reg r).rwsel = false)
    (hp : LevelChain.Carries 2 (s.slave.reg r).chain) :
    s.controller.shown r = r.lasting (m r) := by
  have hload := s.slave.load_of_loading (h.loaded 2 hp (by decide)) r
  have heffective : s.effective r = s.controller.shown r := by
    rw [effective, DmaControllerWbSlave.writeUnderWay, hread, Bool.and_false,
      if_neg Bool.false_ne_true, hload]
    rfl
  rw [← hmirrors r hr, heffective]
  cases r with
  | ctrl => exact (DmaController.lasting_of_startBit (h.settled 2 hp le_rfl)).symm
  | stat | cstart | hstartl | hstarth | len | nextl | nexth | attrib => rfl

/-- One edge of a read. -/
theorem Fetches.step (h : Fetches m r s)
    (hat : DmaControllerWbSlave.At pace s.lag (.busy r false j) s.slave) (hlag : s.lag ≤ pace)
    (hpace : pace ≤ 2) (hpaced : Paced pace s t) (hitem : NoItem t) (hmirrors : s.Mirrors m) :
    Fetches m r (s.step t) := by
  refine ⟨fun p hp hpos => ?_, fun p hp hpos => ?_, fun hquiet hr => ?_⟩
  · obtain ⟨q, hq, rfl⟩ := carries_before hat hlag hpace hpaced hp
    cases hclk : t.clk with
    | none =>
        rw [hclk] at hpos
        rw [(step_of_no_clk hclk).2]
        exact h.loaded q hq hpos
    | some c => exact loading_step_read hat (by rw [hclk]; rfl)
  · obtain ⟨q, hq, rfl⟩ := carries_before hat hlag hpace hpaced hp
    cases hclk : t.clk with
    | none =>
        rw [hclk] at hpos
        rw [(step_of_no_clk hclk).1]
        exact h.settled q hq hpos
    | some c =>
        rw [hclk] at hpos
        have hloading : s.slave.loading = [] := h.loaded q hq (Nat.le_of_succ_le_succ hpos)
        rw [controller_step hclk]
        exact DmaController.startBit_step_quiet (hitem c hclk)
          (s.slave.load_of_loading hloading .ctrl)
  · have hslave : (s.step t).slave = s.slave.step (s.slaveTick t) := rfl
    have hrwsel := hat.during.rwsel
    have hunderWay := hat.underWay_step (t := s.slaveTick t) hlag hpace
      (by rwa [slaveTick_clk_isSome])
    rw [hslave] at hquiet ⊢
    rw [s.slave.intRead_step]
    rw [hunderWay] at hquiet
    cases hclk : t.clk with
    | none =>
        have hnone : DmaControllerWbSlave.regIn (s.slaveTick t) r = none := by
          simp [DmaControllerWbSlave.regIn, slaveTick, hclk]
        have hbefore : (s.slave.reg r).chain.underWay = false := by
          simpa [slaveTick, hclk] using hquiet
        rw [hnone]
        exact h.fetched hbefore hr
    | some c =>
        have hsome : DmaControllerWbSlave.regIn (s.slaveTick t) r = some (s.controller.shown r) := by
          simp [DmaControllerWbSlave.regIn, slaveTick, hclk]
        rw [hsome]
        show (if (s.slave.reg r).chain.rise && !(s.slave.reg r).rwsel then s.controller.shown r
          else (s.slave.reg r).intRead) = r.lasting (m r)
        rw [hrwsel, Bool.not_false, Bool.and_true]
        cases hrise : (s.slave.reg r).chain.rise with
        | false =>
            have hbefore : (s.slave.reg r).chain.underWay = false := by
              simpa [slaveTick, hclk, hrise] using hquiet
            rw [if_neg Bool.false_ne_true]
            exact h.fetched hbefore hr
        | true =>
            rw [if_pos rfl]
            rcases hat.during.crosses with hbefore | ⟨p, hp, -⟩
            · rw [LevelChain.rise_of_not_underWay hbefore] at hrise
              exact absurd hrise Bool.false_ne_true
            · obtain rfl := hp.rise_iff.mp hrise
              exact h.shown hmirrors hr hrwsel hp

/-! ## The registers at one edge -/

variable {stage : DmaRegsStage} {b : DmaRegsBus}

/-- The slave after an edge. -/
theorem at_step (h : DmaControllerWbSlave.At pace s.lag stage s.slave) (hlag : s.lag ≤ pace)
    (hone : 1 ≤ pace) (hpace : pace ≤ 2) (hpaced : Paced pace s t) :
    DmaControllerWbSlave.At pace (s.step t).lag
      (DmaControllerWbSlave.nextStage (s.slaveTick t) stage) (s.step t).slave := by
  have hnext := h.step (t := s.slaveTick t) hlag hone hpace (by rwa [slaveTick_clk_isSome])
  rw [slaveTick_clk_isSome] at hnext
  exact hnext

/-- A register that no access reaches keeps its value. -/
theorem effective_idle (hitem : NoItem t) (hr : r ≠ .stat) (hbefore : (s.slave.reg r).Idle)
    (hafter : ((s.step t).slave.reg r).Idle) :
    r.lasting ((s.step t).effective r) = r.lasting (s.effective r) :=
  effective_quiet hitem hr (DmaControllerWbSlave.not_writeUnderWay_of_idle hbefore)
    (DmaControllerWbSlave.not_writeUnderWay_of_idle hafter)

/-- No access begins. -/
theorem Mirrors.step (h : s.Mirrors m) (hat : DmaControllerWbSlave.At pace s.lag stage s.slave)
    (hlag : s.lag ≤ pace) (hone : 1 ≤ pace) (hpace : pace ≤ 2) (hpaced : Paced pace s t)
    (hitem : NoItem t)
    (hnext : ∀ r we j, DmaControllerWbSlave.nextStage (s.slaveTick t) stage = .busy r we j →
      ∃ j', stage = .busy r we j') : (s.step t).Mirrors m := by
  intro r hr
  rw [← h r hr]
  have hat' := at_step hat hlag hone hpace hpaced
  by_cases hbusy : ∃ we j, stage = .busy r we j
  · obtain ⟨we, j, rfl⟩ := hbusy
    exact effective_busy hlag hpace hpaced hitem hr hat
  · refine effective_idle hitem hr (hat.idle fun we j heq => hbusy ⟨we, j, heq⟩)
      (hat'.idle fun we j heq => ?_)
    obtain ⟨j', heq'⟩ := hnext r we j heq
    exact hbusy ⟨we, j', heq'⟩

/-- An access begins. -/
theorem Mirrors.begins {r : DmaReg} (h : s.Mirrors m)
    (hat : DmaControllerWbSlave.At pace s.lag .free s.slave)
    (hlag : s.lag ≤ pace) (hone : 1 ≤ pace) (hpace : pace ≤ 2) (hpaced : Paced pace s t)
    (hitem : NoItem t) (hwb : t.wb = some b) (hask : (b.wbCyc && b.wbStb) = true)
    (hreg : DmaReg.ofAddr b.wbAddr = some r) :
    (s.step t).Mirrors (if b.wbWe then Function.update m r b.wbData else m) := by
  intro r' hr'
  have hat' := at_step hat hlag hone hpace hpaced
  have hbusy : DmaControllerWbSlave.nextStage (s.slaveTick t) .free = .busy r b.wbWe 0 := by
    rw [DmaControllerWbSlave.nextStage, slaveTick_wb, hwb]
    simp [DmaRegsStage.next, hask, hreg]
  rw [hbusy] at hat'
  have hbefore : ∀ r, (s.slave.reg r).Idle := hat.reg
  by_cases heq : r' = r
  · subst heq
    have haccept := hat.step_accept (t := s.slaveTick t) hwb hask hreg
    cases hwe : b.wbWe with
    | false =>
        rw [if_neg Bool.false_ne_true, ← h r' hr']
        refine effective_quiet hitem hr'
          (DmaControllerWbSlave.not_writeUnderWay_of_idle (hbefore r')) ?_
        rw [DmaControllerWbSlave.writeUnderWay, hat'.during.rwsel, hwe, Bool.and_false]
    | true =>
        rw [if_pos rfl, Function.update_self]
        have hslave : (s.step t).slave = s.slave.step (s.slaveTick t) := rfl
        have hchain : ((s.step t).slave.reg r').chain =
            (s.slave.reg r').chain.edge t.clk.isSome true := by
          rw [hslave, haccept, AsyncReg.access_chain, DmaControllerWbSlave.isSome_regIn,
            slaveTick_clk_isSome]
        have hway : (s.step t).slave.writeUnderWay r' = true := by
          rw [DmaControllerWbSlave.writeUnderWay, hchain, (hbefore r').rests.edge_high.underWay,
            hat'.during.rwsel, hwe]
          rfl
        rw [effective, if_pos hway, hslave, haccept, hwe]
        rfl
  · have hsame : (if b.wbWe then Function.update m r b.wbData else m) r' = m r' := by
      split
      · exact Function.update_of_ne heq _ _
      · rfl
    rw [hsame, ← h r' hr']
    exact effective_idle hitem hr' (hbefore r') (hat'.idle_of_ne heq)

/-- A read that begins has not got anywhere. -/
theorem Fetches.begins (hat : DmaControllerWbSlave.At pace s.lag .free s.slave) (hwb : t.wb = some b)
    (hask : (b.wbCyc && b.wbStb) = true) (hreg : DmaReg.ofAddr b.wbAddr = some r) :
    Fetches m r (s.step t) := by
  have hslave : (s.step t).slave = s.slave.step (s.slaveTick t) := rfl
  have hidle : (s.slave.reg r).Idle := hat.reg r
  have hcarries : LevelChain.Carries 0 ((s.step t).slave.reg r).chain := by
    rw [hslave, hat.step_accept (t := s.slaveTick t) hwb hask hreg, AsyncReg.access_chain]
    exact hidle.rests.edge_high
  refine ⟨fun p hp hpos => ?_, fun p hp hpos => ?_, fun hquiet _ => ?_⟩
  · rw [hp.unique hcarries] at hpos
    exact absurd hpos (by decide)
  · rw [hp.unique hcarries] at hpos
    exact absurd hpos (by decide)
  · rw [hcarries.underWay] at hquiet
    exact absurd hquiet.symm Bool.false_ne_true

/-! ## Runs -/

/-- The accesses that the slave begins. -/
def begun (s : DmaRegisters) (t : DmaRegistersTick) : List DmaRegOp :=
  match t.wb with
  | some b =>
      if s.slave.accepts b then [⟨DmaReg.ofAddr b.wbAddr, b.wbWe, b.wbData⟩] else []
  | none => []

/-- The data that the bus takes with an acknowledge. -/
def answered (s : DmaRegisters) (t : DmaRegistersTick) : List Word :=
  if t.wb.isSome && s.slave.wbAckO then [s.slave.rddataReg] else []

/-- The access in progress. -/
def Pending (m : DmaReg → Word) (s : DmaRegisters) : DmaRegsStage → List DmaRegOp → Prop
  | .free, ops => ops = []
  | .invalid, ops => ∃ op, ops = [op] ∧ op.reg = none
  | .busy r we j, ops => ∃ op, ops = [op] ∧ op.reg = some r ∧ op.we = we ∧
      (we = false → Fetches m r s ∧ (j = 5 → r ≠ .stat → s.slave.rddataReg = r.lasting (m r)))

/-- The registers in a run, with the accesses that have begun and the answers that were given. -/
def Serving (begun : List DmaRegOp) (given : List Word) (s : DmaRegisters) : Prop :=
  s.lag ≤ 1 ∧ ∃ stage pending, DmaControllerWbSlave.At 1 s.lag stage s.slave ∧
    registerFile.Serves (fun _ => 0) begun given pending ∧
    s.Mirrors (registerFile.after (fun _ => 0) begun) ∧
    Pending (registerFile.after (fun _ => 0) begun) s stage pending

theorem serving_reset : Serving [] [] reset := by
  refine ⟨Nat.zero_le 1, .free, [], .reset 1 0, registerFile.serves_nil _, ?_, rfl⟩
  intro r hr
  cases r <;> rfl

theorem begun_of_inProgress (hat : DmaControllerWbSlave.At pace s.lag stage s.slave)
    (hbusy : stage.inProgress = true) : s.begun t = [] := by
  unfold begun
  cases t.wb with
  | none => rfl
  | some b =>
      have hnot : s.slave.accepts b = false := by
        rw [hat.accepts, hbusy]
        rfl
      simp [hnot]

theorem answered_of_waits (hat : DmaControllerWbSlave.At pace s.lag stage s.slave)
    (hwaits : stage.waits ≠ some 0) : s.answered t = [] := by
  have hack : s.slave.wbAckO = false := by
    rw [hat.wbAckO, CsrSlave.ack]
    exact beq_eq_false_iff_ne.mpr hwaits
  rw [answered, hack, Bool.and_false]
  rfl

theorem answered_of_ack (hat : DmaControllerWbSlave.At pace s.lag stage s.slave)
    (hwb : t.wb = some b) (hwaits : stage.waits = some 0) :
    s.answered t = [s.slave.rddataReg] := by
  have hack : s.slave.wbAckO = true := by
    rw [hat.wbAckO, CsrSlave.ack]
    exact beq_iff_eq.mpr hwaits
  rw [answered, hack, hwb]
  rfl

variable {ops : List DmaRegOp} {given : List Word} {pending : List DmaRegOp}

/-- What is answered to the access in progress. -/
theorem allows_of_pending {op : DmaRegOp} {v : Word}
    (hinvalid : op.reg = none ∨ ∃ r, op.reg = some r ∧ (op.we = false → r ≠ .stat →
      v = r.lasting (registerFile.after (fun _ => 0) ops r))) :
    ∀ before, ops = before ++ [op] →
      Sequential.Allows (registerFile.answer (registerFile.after (fun _ => 0) before) op) v := by
  rintro before rfl w hw
  rcases hinvalid with hnone | ⟨r, hsome, hv⟩
  · simp [registerFile, hnone] at hw
  · simp only [registerFile, hsome] at hw
    split at hw
    · exact absurd hw (by simp)
    · next hread =>
        obtain ⟨hwe, hr⟩ : op.we = false ∧ r ≠ .stat := by simpa using hread
        rw [Sequential.after_concat] at hv
        have hsame : registerFile.next (registerFile.after (fun _ => 0) before) op =
            registerFile.after (fun _ => 0) before := by
          simp [registerFile, hsome, hwe]
        rw [hsame] at hv
        rw [hv hwe hr]
        simpa [registerFile] using hw

/-- An edge of `clk_i` alone. -/
theorem Serving.step_clk (h : Serving ops given s) (hpaced : Paced 1 s t) (hitem : NoItem t)
    (hwb : t.wb = none) : Serving ops given (s.step t) := by
  obtain ⟨hlag, stage, pending, hat, hserves, hmirrors, hpending⟩ := h
  have hlag' : (s.step t).lag ≤ 1 := LevelChain.nextLag_le hpaced hlag le_rfl
  have hsame : DmaControllerWbSlave.nextStage (s.slaveTick t) stage = stage := by
    rw [DmaControllerWbSlave.nextStage, slaveTick_wb, hwb]
  have hat' := at_step hat hlag le_rfl (by decide) hpaced
  rw [hsame] at hat'
  refine ⟨hlag', stage, pending, hat', hserves,
    hmirrors.step hat hlag le_rfl (by decide) hpaced hitem fun r we j heq =>
      ⟨j, hsame.symm.trans heq⟩, ?_⟩
  cases stage with
  | free => exact hpending
  | invalid => exact hpending
  | busy r we j =>
      obtain ⟨op, hop, hreg, hwe, hread⟩ := hpending
      refine ⟨op, hop, hreg, hwe, ?_⟩
      rintro rfl
      obtain ⟨hfetches, hready⟩ := hread rfl
      refine ⟨hfetches.step hat hlag (by decide) hpaced hitem hmirrors, fun hj hr => ?_⟩
      have hrddata : (s.step t).slave.rddataReg = s.slave.rddataReg := by
        have hslave : (s.step t).slave = s.slave.step (s.slaveTick t) := rfl
        rw [hslave, s.slave.rddata_step, slaveTick_wb, hwb]
        rfl
      rw [hrddata]
      exact hready hj hr

/-- An edge of the bus clock while no access is in progress. -/
theorem Serving.step_free (hlag : s.lag ≤ 1) (hat : DmaControllerWbSlave.At 1 s.lag .free s.slave)
    (hserves : registerFile.Serves (fun _ => 0) ops given [])
    (hmirrors : s.Mirrors (registerFile.after (fun _ => 0) ops)) (hpaced : Paced 1 s t)
    (hitem : NoItem t) (hwb : t.wb = some b) :
    Serving (ops ++ s.begun t) (given ++ s.answered t) (s.step t) := by
  have hlag' : (s.step t).lag ≤ 1 := LevelChain.nextLag_le hpaced hlag le_rfl
  have hat' := at_step hat hlag le_rfl (by decide) hpaced
  have hanswered : s.answered t = [] := answered_of_waits hat (by decide)
  rw [hanswered, List.append_nil]
  have hnext : DmaControllerWbSlave.nextStage (s.slaveTick t) .free = DmaRegsStage.free.next b := by
    rw [DmaControllerWbSlave.nextStage, slaveTick_wb, hwb]
  cases hask : b.wbCyc && b.wbStb with
  | false =>
      have hfree : DmaRegsStage.free.next b = .free := by simp [DmaRegsStage.next, hask]
      have hbegun : s.begun t = [] := by simp [begun, hwb, hat.accepts, hask]
      rw [hfree] at hnext
      rw [hnext] at hat'
      rw [hbegun, List.append_nil]
      refine ⟨hlag', .free, [], hat', hserves,
        hmirrors.step hat hlag le_rfl (by decide) hpaced hitem fun r we j heq => ?_, rfl⟩
      exact absurd (hnext.symm.trans heq) (by simp)
  | true =>
      have hbegun : s.begun t = [⟨DmaReg.ofAddr b.wbAddr, b.wbWe, b.wbData⟩] := by
        have haccepts : s.slave.accepts b = true := by
          rw [hat.accepts, hask]
          rfl
        simp [begun, hwb, haccepts]
      rw [hbegun]
      cases hreg : DmaReg.ofAddr b.wbAddr with
      | none =>
          have hinvalid : DmaRegsStage.free.next b = .invalid := by
            simp [DmaRegsStage.next, hask, hreg]
          rw [hinvalid] at hnext
          rw [hnext] at hat'
          refine ⟨hlag', .invalid, [⟨none, b.wbWe, b.wbData⟩], hat', hserves.begins _, ?_,
            ⟨_, rfl, rfl⟩⟩
          rw [Sequential.after_concat]
          refine hmirrors.step hat hlag le_rfl (by decide) hpaced hitem fun r we j heq => ?_
          exact absurd (hnext.symm.trans heq) (by simp)
      | some r =>
          have hbusy : DmaRegsStage.free.next b = .busy r b.wbWe 0 := by
            simp [DmaRegsStage.next, hask, hreg]
          rw [hbusy] at hnext
          rw [hnext] at hat'
          refine ⟨hlag', .busy r b.wbWe 0, [⟨some r, b.wbWe, b.wbData⟩], hat', hserves.begins _,
            ?_, ⟨_, rfl, rfl, rfl, fun _ => ⟨Fetches.begins hat hwb hask hreg, fun hzero =>
              absurd hzero (by decide)⟩⟩⟩
          rw [Sequential.after_concat]
          exact hmirrors.begins hat hlag le_rfl (by decide) hpaced hitem hwb hask hreg

/-- An edge of the bus clock in an access to a register. -/
theorem Serving.step_busy (hlag : s.lag ≤ 1)
    (hat : DmaControllerWbSlave.At 1 s.lag (.busy r we j) s.slave)
    (hserves : registerFile.Serves (fun _ => 0) ops given pending)
    (hmirrors : s.Mirrors (registerFile.after (fun _ => 0) ops))
    (hpending : Pending (registerFile.after (fun _ => 0) ops) s (.busy r we j) pending)
    (hpaced : Paced 1 s t) (hitem : NoItem t) (hwb : t.wb = some b) :
    Serving (ops ++ s.begun t) (given ++ s.answered t) (s.step t) := by
  have hlag' : (s.step t).lag ≤ 1 := LevelChain.nextLag_le hpaced hlag le_rfl
  have hat' := at_step hat hlag le_rfl (by decide) hpaced
  have hnext : DmaControllerWbSlave.nextStage (s.slaveTick t) (.busy r we j) =
      (DmaRegsStage.busy r we j).next b := by
    rw [DmaControllerWbSlave.nextStage, slaveTick_wb, hwb]
  obtain ⟨op, rfl, hreg, hwe, hread⟩ := hpending
  rw [begun_of_inProgress hat rfl, List.append_nil]
  have hbounded : j ≤ 5 := hat.bounded
  by_cases hj : j < 5
  · have hmore : (DmaRegsStage.busy r we j).next b = .busy r we (j + 1) := if_pos hj
    rw [hmore] at hnext
    rw [hnext] at hat'
    have hwaits : (DmaRegsStage.busy r we j).waits ≠ some 0 := by
      simp only [DmaRegsStage.waits, ne_eq, Option.some.injEq]
      omega
    rw [answered_of_waits hat hwaits, List.append_nil]
    refine ⟨hlag', _, _, hat', hserves,
      hmirrors.step hat hlag le_rfl (by decide) hpaced hitem fun r' we' j' heq => ?_,
      op, rfl, hreg, hwe, ?_⟩
    · obtain ⟨rfl, rfl, rfl⟩ : r = r' ∧ we = we' ∧ j + 1 = j' := by
        simpa using hnext.symm.trans heq
      exact ⟨j, rfl⟩
    · rintro rfl
      obtain ⟨hfetches, -⟩ := hread rfl
      refine ⟨hfetches.step hat hlag (by decide) hpaced hitem hmirrors, fun hlast hr => ?_⟩
      obtain rfl : j = 4 := Nat.succ.inj hlast
      -- four edges of the bus clock are enough for the value to come back
      have hquiet : (s.slave.reg r).chain.underWay = false := by
        rcases hat.during.crosses with hquiet | hcrossing
        · exact hquiet
        · exact absurd (hcrossing.lt hlag) (by decide)
      have hslave : (s.step t).slave = s.slave.step (s.slaveTick t) := rfl
      rw [hslave, s.slave.rddata_step, slaveTick_wb, hwb, Option.isSome_some, if_pos rfl,
        hat.nextRddata_read]
      exact hfetches.fetched hquiet hr
  · obtain rfl : j = 5 := Nat.le_antisymm hbounded (Nat.le_of_not_lt hj)
    have hfree : (DmaRegsStage.busy r we 5).next b = .free := rfl
    rw [hfree] at hnext
    rw [hnext] at hat'
    rw [answered_of_ack hat hwb rfl]
    refine ⟨hlag', .free, [], hat', hserves.ends (allows_of_pending (.inr ⟨r, hreg, ?_⟩)),
      hmirrors.step hat hlag le_rfl (by decide) hpaced hitem fun r' we' j' heq => ?_, rfl⟩
    · intro hop hr
      exact (hread (hwe.symm.trans hop)).2 rfl hr
    · exact absurd (hnext.symm.trans heq) (by simp)

theorem Serving.step (h : Serving ops given s) (hpaced : Paced 1 s t) (hitem : NoItem t) :
    Serving (ops ++ s.begun t) (given ++ s.answered t) (s.step t) := by
  cases hwb : t.wb with
  | none =>
      have hbegun : s.begun t = [] := by rw [begun, hwb]
      have hanswered : s.answered t = [] := by
        rw [answered, hwb]
        rfl
      rw [hbegun, hanswered, List.append_nil, List.append_nil]
      exact h.step_clk hpaced hitem hwb
  | some b =>
      obtain ⟨hlag, stage, pending, hat, hserves, hmirrors, hpending⟩ := h
      cases stage with
      | free =>
          obtain rfl : pending = [] := hpending
          exact step_free hlag hat hserves hmirrors hpaced hitem hwb
      | busy r we j => exact step_busy hlag hat hserves hmirrors hpending hpaced hitem hwb
      | invalid =>
          obtain ⟨op, rfl, hnone⟩ := hpending
          have hlag' : (s.step t).lag ≤ 1 := LevelChain.nextLag_le hpaced hlag le_rfl
          have hat' := at_step hat hlag le_rfl (by decide) hpaced
          have hnext : DmaControllerWbSlave.nextStage (s.slaveTick t) .invalid = .free := by
            rw [DmaControllerWbSlave.nextStage, slaveTick_wb, hwb]
            rfl
          rw [hnext] at hat'
          rw [begun_of_inProgress hat rfl, List.append_nil, answered_of_ack hat hwb rfl]
          refine ⟨hlag', .free, [], hat', hserves.ends (allows_of_pending (.inl hnone)),
            hmirrors.step hat hlag le_rfl (by decide) hpaced hitem fun r we j heq => ?_, rfl⟩
          exact absurd (hnext.symm.trans heq) (by simp)

theorem Pending.length_le (h : Pending m s stage pending) : pending.length ≤ 1 := by
  cases stage with
  | free => simp [show pending = [] from h]
  | invalid =>
      obtain ⟨op, rfl, -⟩ := h
      exact le_rfl
  | busy r we j =>
      obtain ⟨op, rfl, -⟩ := h
      exact le_rfl

/-- **The registers are a memory for the host.**  In any run from reset in which `clk_i` has an
edge in every period of the bus clock and no chain is fetched: all accesses that the slave has
begun, but for the one in progress, were answered in their order, and each read of a register other
than the status with the word last written to it, the start bit cleared. -/
theorem reads_return_written (ts : List DmaRegistersTick)
    (legal : Always step (fun s t => Paced 1 s t ∧ NoItem t) reset ts) :
    ∃ pending, registerFile.Serves (fun _ => 0) (log step begun reset ts)
        (log step answered reset ts) pending ∧ pending.length ≤ 1 ∧
      ((run step reset ts).slave.ackInProgress = false → pending = []) := by
  have hserving : Serving (log step begun reset ts) (log step answered reset ts)
      (run step reset ts) := by
    refine run_induction (motive := fun ts => Serving (log step begun reset ts)
      (log step answered reset ts) (run step reset ts)) legal serving_reset ?_
    intro ts t _ ht hts
    rw [log_concat, log_concat, run_concat]
    exact hts.step ht.1 ht.2
  obtain ⟨-, stage, pending, hat, hserves, -, hpending⟩ := hserving
  refine ⟨pending, hserves, hpending.length_le, fun hfree => ?_⟩
  have hstage := hfree.symm.trans hat.ackInProgress
  cases stage with
  | free => exact hpending
  | busy r we j => exact absurd hstage Bool.false_ne_true
  | invalid => exact absurd hstage Bool.false_ne_true

/-- The control word and the length are written, and read one right behind the other. -/
def writesAndReads : List DmaRegistersTick :=
  let clk : DmaReports := ⟨false, false, .reset, false⟩
  let idle : DmaRegistersTick := ⟨some ⟨0, 0, false, false, false⟩, some clk⟩
  let access addr data we := ⟨some ⟨addr, data, true, true, we⟩, some clk⟩ :: List.replicate 6 idle
  access 0#4 0xD true ++ access 5#4 0x80 true ++ access 0#4 0 false ++ access 5#4 0 false

theorem writesAndReads_return_written :
    ∃ pending, registerFile.Serves (fun _ => 0) (log step begun reset writesAndReads)
        (log step answered reset writesAndReads) pending ∧ pending.length ≤ 1 ∧
      ((run step reset writesAndReads).slave.ackInProgress = false → pending = []) :=
  reads_return_written writesAndReads (by decide +kernel)

example : (log step answered reset writesAndReads).drop 2 = [0xC, 0x80] := by decide +kernel

end DmaRegisters

end Gn4124Core
