import Gn4124Core.Rtl.DmaController

/-!
# Every start has one outcome

The DMA controller under any inputs at all: register loads, done, error and next items in any
order.  A start takes the FSM out of a state in which it rests; the done interrupt, the error
interrupt and the entry into `DMA_ABORT` are the outcomes.  `Moves` says once what an edge can
do.  One edge keeps the balance of the starts and the outcomes (`balance_step`), whatever it
does, so a run keeps it too.

The pulses of the FSM are registers, and what they do at the next edge depends on the state:
`PulsesInState` ties each of them to the one state that has it.  Under this invariant
`PulsesInState.moves` goes through the branches of the FSM, and all that follows is about the
constructors of `Moves`: the balance, that a start line is high for one cycle
(`PulsesInState.one_cycle`), and that no two of them are high together
(`PulsesInState.exclusive`).
-/

namespace Gn4124Core

open Clocked

namespace DmaController

variable (c : DmaController) (i : DmaControllerIn)

/-- The FSM waits for the start bit. -/
def Waits : Prop :=
  c.fsm.dmaCtrlCurrentState = .idle ∨ c.fsm.dmaCtrlCurrentState = .error ∨
    c.fsm.dmaCtrlCurrentState = .abort

/-- A transfer, or the fetch of an item, is under way. -/
def Busy : Prop :=
  c.fsm.dmaCtrlCurrentState = .startTransfer ∨ c.fsm.dmaCtrlCurrentState = .transfer ∨
    c.fsm.dmaCtrlCurrentState = .startChain ∨ c.fsm.dmaCtrlCurrentState = .chain

instance : Decidable c.Waits := inferInstanceAs (Decidable (_ ∨ _))

instance : Decidable c.Busy := inferInstanceAs (Decidable (_ ∨ _))

/-- Entries into `DMA_START_TRANSFER` from a state that waits. -/
def starts : List Unit :=
  if c.Waits ∧ (c.step i).fsm.dmaCtrlCurrentState = .startTransfer then [()] else []

/-- Entries into `DMA_ABORT`. -/
def aborts : List Unit :=
  if c.fsm.dmaCtrlCurrentState ≠ .abort ∧ (c.step i).fsm.dmaCtrlCurrentState = .abort then [()] else []

/-- Cycles with the done interrupt. -/
def doneIrqs (c : DmaController) : List Unit := if c.fsm.dmaDoneIrq then [()] else []

/-- Cycles with the error interrupt. -/
def errorIrqs (c : DmaController) : List Unit := if c.fsm.dmaErrorIrq then [()] else []

/-- Every pulse belongs to one state of the FSM. -/
structure PulsesInState (c : DmaController) : Prop where
  startL2p : c.fsm.dmaCtrlStartL2p = true → c.fsm.dmaCtrlCurrentState = .transfer
  startP2l : c.fsm.dmaCtrlStartP2l = true → c.fsm.dmaCtrlCurrentState = .transfer
  oneDirection : ¬ (c.fsm.dmaCtrlStartL2p = true ∧ c.fsm.dmaCtrlStartP2l = true)
  startNext : c.fsm.dmaCtrlStartNext = true → c.fsm.dmaCtrlCurrentState = .chain
  doneIrq : c.fsm.dmaDoneIrq = true → c.fsm.dmaCtrlCurrentState = .idle
  errorIrq : c.fsm.dmaErrorIrq = true → c.fsm.dmaCtrlCurrentState = .error

variable {c i}

theorem reset_pulsesInState : PulsesInState reset := by
  constructor <;> decide

/-- No pulse and no interrupt. -/
structure Silent (f : DmaFsm) : Prop where
  startL2p : f.dmaCtrlStartL2p = false
  startP2l : f.dmaCtrlStartP2l = false
  startNext : f.dmaCtrlStartNext = false
  doneIrq : f.dmaDoneIrq = false
  errorIrq : f.dmaErrorIrq = false

/-- What one edge can do to a controller: the state it leaves, the state it enters, and the one
pulse or interrupt that goes with it. -/
inductive Moves (c : DmaController) (f : DmaFsm) : Prop
  | rests (hwaits : c.Waits) (hstate : f.dmaCtrlCurrentState = c.fsm.dmaCtrlCurrentState)
      (hsilent : Silent f)
  | starts (hwaits : c.Waits) (hstate : f.dmaCtrlCurrentState = .startTransfer) (hsilent : Silent f)
  | orders (hbefore : c.fsm.dmaCtrlCurrentState = .startTransfer)
      (hstate : f.dmaCtrlCurrentState = .transfer)
      (hone : f.dmaCtrlStartL2p = !f.dmaCtrlStartP2l)
      (hsilent : Silent { f with dmaCtrlStartL2p := false, dmaCtrlStartP2l := false })
  | goesOn (hbusy : c.Busy) (hstate : f.dmaCtrlCurrentState = c.fsm.dmaCtrlCurrentState)
      (hsilent : Silent f)
  | chains (hbefore : c.fsm.dmaCtrlCurrentState = .transfer)
      (hstate : f.dmaCtrlCurrentState = .startChain) (hsilent : Silent f)
  | fetches (hbefore : c.fsm.dmaCtrlCurrentState = .startChain)
      (hstate : f.dmaCtrlCurrentState = .chain) (hpulse : f.dmaCtrlStartNext = true)
      (hsilent : Silent { f with dmaCtrlStartNext := false })
  | continues (hbefore : c.fsm.dmaCtrlCurrentState = .chain)
      (hstate : f.dmaCtrlCurrentState = .startTransfer) (hsilent : Silent f)
  | ends (hbefore : c.fsm.dmaCtrlCurrentState = .transfer) (hstate : f.dmaCtrlCurrentState = .idle)
      (hirq : f.dmaDoneIrq = true) (hsilent : Silent { f with dmaDoneIrq := false })
  | fails (hbusy : c.Busy) (hstate : f.dmaCtrlCurrentState = .error) (hirq : f.dmaErrorIrq = true)
      (hsilent : Silent { f with dmaErrorIrq := false })
  | aborts (hbusy : c.Busy) (hstate : f.dmaCtrlCurrentState = .abort) (hsilent : Silent f)

/-- The pulses and interrupts that a state cannot have. -/
theorem PulsesInState.none_of_state (h : c.PulsesInState) :
    (c.fsm.dmaCtrlCurrentState ≠ .transfer →
      c.fsm.dmaCtrlStartL2p = false ∧ c.fsm.dmaCtrlStartP2l = false) ∧
    (c.fsm.dmaCtrlCurrentState ≠ .chain → c.fsm.dmaCtrlStartNext = false) ∧
    (c.fsm.dmaCtrlCurrentState ≠ .idle → c.fsm.dmaDoneIrq = false) ∧
    (c.fsm.dmaCtrlCurrentState ≠ .error → c.fsm.dmaErrorIrq = false) := by
  refine ⟨fun hne => ⟨?_, ?_⟩, fun hne => ?_, fun hne => ?_, fun hne => ?_⟩
  · exact Bool.eq_false_iff.mpr fun hpulse => hne (h.startL2p hpulse)
  · exact Bool.eq_false_iff.mpr fun hpulse => hne (h.startP2l hpulse)
  · exact Bool.eq_false_iff.mpr fun hpulse => hne (h.startNext hpulse)
  · exact Bool.eq_false_iff.mpr fun hirq => hne (h.doneIrq hirq)
  · exact Bool.eq_false_iff.mpr fun hirq => hne (h.errorIrq hirq)

theorem PulsesInState.moves (h : c.PulsesInState) : Moves c (c.step i).fsm := by
  obtain ⟨hstarts, hnext, hdone, herror⟩ := h.none_of_state
  have hfsm : (c.step i).fsm = c.pFsm i := rfl
  rw [hfsm]
  cases hstate : c.fsm.dmaCtrlCurrentState with
  | idle =>
      obtain ⟨hl2p, hp2l⟩ := hstarts (by simp [hstate])
      have hwaits : c.Waits := .inl hstate
      have hsilent : Silent (c.pFsm i) := by
        simp only [pFsm, hstate]
        exact ⟨hl2p, hp2l, hnext (by simp [hstate]), rfl, herror (by simp [hstate])⟩
      cases hstart : startBit c.regs.dmaCtrlReg with
      | true => exact .starts hwaits (by simp [pFsm, hstate, hstart]) hsilent
      | false => exact .rests hwaits (by simp [pFsm, hstate, hstart]) hsilent
  | error =>
      obtain ⟨hl2p, hp2l⟩ := hstarts (by simp [hstate])
      have hwaits : c.Waits := .inr (.inl hstate)
      have hsilent : Silent (c.pFsm i) := by
        simp only [pFsm, hstate]
        exact ⟨hl2p, hp2l, hnext (by simp [hstate]), hdone (by simp [hstate]), rfl⟩
      cases hstart : startBit c.regs.dmaCtrlReg with
      | true => exact .starts hwaits (by simp [pFsm, hstate, hstart]) hsilent
      | false => exact .rests hwaits (by simp [pFsm, hstate, hstart]) hsilent
  | abort =>
      obtain ⟨hl2p, hp2l⟩ := hstarts (by simp [hstate])
      have hwaits : c.Waits := .inr (.inr hstate)
      have hsilent : Silent (c.pFsm i) := by
        simp only [pFsm, hstate]
        exact ⟨hl2p, hp2l, hnext (by simp [hstate]), hdone (by simp [hstate]), herror (by simp [hstate])⟩
      cases hstart : startBit c.regs.dmaCtrlReg with
      | true => exact .starts hwaits (by simp [pFsm, hstate, hstart]) hsilent
      | false => exact .rests hwaits (by simp [pFsm, hstate, hstart]) hsilent
  | startTransfer =>
      obtain ⟨hl2p, hp2l⟩ := hstarts (by simp [hstate])
      have hnext' := hnext (by simp [hstate])
      have hdone' := hdone (by simp [hstate])
      simp only [pFsm, hstate]
      split_ifs with hwords hdir
      · -- a DMA of 0 words ends at once
        exact .fails (.inl hstate) rfl rfl ⟨hl2p, hp2l, hnext', hdone', rfl⟩
      · exact .orders hstate rfl (by simp [hl2p]) ⟨rfl, rfl, hnext', hdone', herror (by simp [hstate])⟩
      · exact .orders hstate rfl (by simp [hp2l]) ⟨rfl, rfl, hnext', hdone', herror (by simp [hstate])⟩
  | transfer =>
      have hbusy : c.Busy := .inr (.inl hstate)
      have hnext' := hnext (by simp [hstate])
      have hdone' := hdone (by simp [hstate])
      have herror' := herror (by simp [hstate])
      simp only [pFsm, hstate]
      split_ifs with habort hfails hends hmore
      · exact .aborts hbusy rfl ⟨rfl, rfl, hnext', hdone', herror'⟩
      · exact .fails hbusy rfl rfl ⟨rfl, rfl, hnext', hdone', rfl⟩
      · exact .chains hstate rfl ⟨rfl, rfl, hnext', hdone', herror'⟩
      · exact .ends hstate rfl rfl ⟨rfl, rfl, hnext', rfl, herror'⟩
      · exact .goesOn hbusy hstate.symm ⟨rfl, rfl, hnext', hdone', herror'⟩
  | startChain =>
      obtain ⟨hl2p, hp2l⟩ := hstarts (by simp [hstate])
      simp only [pFsm, hstate]
      exact .fetches hstate rfl rfl ⟨hl2p, hp2l, rfl, hdone (by simp [hstate]), herror (by simp [hstate])⟩
  | chain =>
      have hbusy : c.Busy := .inr (.inr (.inr hstate))
      obtain ⟨hl2p, hp2l⟩ := hstarts (by simp [hstate])
      have hdone' := hdone (by simp [hstate])
      have herror' := herror (by simp [hstate])
      simp only [pFsm, hstate]
      split_ifs with habort hfails hitem
      · exact .aborts hbusy rfl ⟨hl2p, hp2l, rfl, hdone', herror'⟩
      · exact .fails hbusy rfl rfl ⟨hl2p, hp2l, rfl, hdone', rfl⟩
      · exact .continues hstate rfl ⟨hl2p, hp2l, rfl, hdone', herror'⟩
      · exact .goesOn hbusy hstate.symm ⟨hl2p, hp2l, rfl, hdone', herror'⟩

theorem Silent.pulsesInState (h : Silent c.fsm) : c.PulsesInState := by
  obtain ⟨hl2p, hp2l, hnext, hdone, herror⟩ := h
  constructor <;> simp [hl2p, hp2l, hnext, hdone, herror]

/-- What an edge does to a controller none of whose pulses is in the wrong state. -/
theorem PulsesInState.step (h : c.PulsesInState) : (c.step i).PulsesInState := by
  cases h.moves (i := i) with
  | rests _ _ hsilent | starts _ _ hsilent | goesOn _ _ hsilent | chains _ _ hsilent
  | continues _ _ hsilent | aborts _ _ hsilent => exact hsilent.pulsesInState
  | orders _ hstate hone hsilent =>
      obtain ⟨-, -, hnext, hdone, herror⟩ := hsilent
      refine ⟨fun _ => hstate, fun _ => hstate, ?_, ?_, ?_, ?_⟩
      · rintro ⟨hl2p, hp2l⟩
        rw [hl2p, hp2l] at hone
        exact absurd hone (by decide)
      · exact fun hpulse => absurd (hnext.symm.trans hpulse) (by decide)
      · exact fun hirq => absurd (hdone.symm.trans hirq) (by decide)
      · exact fun hirq => absurd (herror.symm.trans hirq) (by decide)
  | fetches _ hstate _ hsilent =>
      obtain ⟨hl2p, hp2l, -, hdone, herror⟩ := hsilent
      constructor <;> simp_all
  | ends _ hstate _ hsilent =>
      obtain ⟨hl2p, hp2l, hnext, -, herror⟩ := hsilent
      constructor <;> simp_all
  | fails _ hstate _ hsilent =>
      obtain ⟨hl2p, hp2l, hnext, hdone, -⟩ := hsilent
      constructor <;> simp_all

/-! ## The balance -/

/-- One edge of a controller keeps the balance: an outcome ends what a start has begun. -/
def Balanced (c c' : DmaController) (starts aborts : ℕ) : Prop :=
  starts + (if c.Busy then 1 else 0) =
    (doneIrqs c').length + (errorIrqs c').length + aborts + if c'.Busy then 1 else 0

/-- Whatever one edge does, it keeps the balance. -/
theorem balance_step (h : c.PulsesInState) :
    Balanced c (c.step i) (c.starts i).length (c.aborts i).length := by
  unfold Balanced starts aborts doneIrqs errorIrqs
  cases h.moves (i := i) with
  | rests hwaits hstate hsilent =>
      rcases hwaits with hbefore | hbefore | hbefore <;> rw [hbefore] at hstate <;>
        simp [Busy, hbefore, hstate, hsilent.doneIrq, hsilent.errorIrq]
  | starts hwaits hstate hsilent =>
      have hidle : ¬ c.Busy := by
        rcases hwaits with hbefore | hbefore | hbefore <;> simp [Busy, hbefore]
      have hbusy : (c.step i).Busy := .inl hstate
      simp [hwaits, hidle, hbusy, hstate, hsilent.doneIrq, hsilent.errorIrq]
  | orders hbefore hstate _ hsilent =>
      have hdone : (c.step i).fsm.dmaDoneIrq = false := hsilent.doneIrq
      have herror : (c.step i).fsm.dmaErrorIrq = false := hsilent.errorIrq
      simp [Busy, hbefore, hstate, hdone, herror]
  | goesOn hbusy hstate hsilent =>
      rcases hbusy with hbefore | hbefore | hbefore | hbefore <;> rw [hbefore] at hstate <;>
        simp [Waits, Busy, hbefore, hstate, hsilent.doneIrq, hsilent.errorIrq]
  | chains hbefore hstate hsilent | continues hbefore hstate hsilent =>
      simp [Waits, Busy, hbefore, hstate, hsilent.doneIrq, hsilent.errorIrq]
  | fetches hbefore hstate _ hsilent =>
      have hdone : (c.step i).fsm.dmaDoneIrq = false := hsilent.doneIrq
      have herror : (c.step i).fsm.dmaErrorIrq = false := hsilent.errorIrq
      simp [Busy, hbefore, hstate, hdone, herror]
  | ends hbefore hstate hirq hsilent =>
      have herror : (c.step i).fsm.dmaErrorIrq = false := hsilent.errorIrq
      simp [Busy, hbefore, hstate, hirq, herror]
  | fails hbusy hstate hirq hsilent =>
      have hdone : (c.step i).fsm.dmaDoneIrq = false := hsilent.doneIrq
      have hidle : ¬ (c.step i).Busy := by simp [Busy, hstate]
      simp [hbusy, hidle, hstate, hirq, hdone]
  | aborts hbusy hstate hsilent =>
      have hbefore : c.fsm.dmaCtrlCurrentState ≠ .abort := by
        rcases hbusy with hbefore | hbefore | hbefore | hbefore <;> simp [hbefore]
      have hidle : ¬ (c.step i).Busy := by simp [Busy, hstate]
      simp [hbusy, hidle, hbefore, hstate, hsilent.doneIrq, hsilent.errorIrq]

/-- A start line that is high is low after the next edge. -/
theorem PulsesInState.one_cycle (h : c.PulsesInState) :
    (c.fsm.dmaCtrlStartL2p = true → (c.step i).fsm.dmaCtrlStartL2p = false) ∧
      (c.fsm.dmaCtrlStartP2l = true → (c.step i).fsm.dmaCtrlStartP2l = false) ∧
      (c.fsm.dmaCtrlStartNext = true → (c.step i).fsm.dmaCtrlStartNext = false) := by
  have hfsm : (c.step i).fsm = c.pFsm i := rfl
  rw [hfsm]
  refine ⟨fun hl2p => ?_, fun hp2l => ?_, fun hnext => ?_⟩
  · simp only [pFsm, h.startL2p hl2p]
    split_ifs <;> rfl
  · simp only [pFsm, h.startP2l hp2l]
    split_ifs <;> rfl
  · simp only [pFsm, h.startNext hnext]
    split_ifs <;> rfl

/-- Two start lines are never high together, and neither are the two interrupts. -/
theorem PulsesInState.exclusive (h : c.PulsesInState) :
    ¬ (c.fsm.dmaDoneIrq = true ∧ c.fsm.dmaErrorIrq = true) ∧
      ¬ (c.fsm.dmaCtrlStartL2p = true ∧ c.fsm.dmaCtrlStartP2l = true) ∧
      ¬ (c.fsm.dmaCtrlStartL2p = true ∧ c.fsm.dmaCtrlStartNext = true) ∧
      ¬ (c.fsm.dmaCtrlStartP2l = true ∧ c.fsm.dmaCtrlStartNext = true) := by
  refine ⟨fun ⟨hdone, herror⟩ => ?_, h.oneDirection, fun ⟨hl2p, hnext⟩ => ?_,
    fun ⟨hp2l, hnext⟩ => ?_⟩
  · exact absurd ((h.doneIrq hdone).symm.trans (h.errorIrq herror)) (by decide)
  · exact absurd ((h.startL2p hl2p).symm.trans (h.startNext hnext)) (by decide)
  · exact absurd ((h.startP2l hp2l).symm.trans (h.startNext hnext)) (by decide)

/-! ## Runs -/

/-- The balance of a run. -/
theorem balance_run (is : List DmaControllerIn) :
    PulsesInState (run step reset is) ∧
      (log step starts reset is).length =
        (log step (after step doneIrqs) reset is).length +
          (log step (after step errorIrqs) reset is).length + (log step aborts reset is).length +
          if (run step reset is).Busy then 1 else 0 := by
  induction is using List.reverseRecOn with
  | nil => exact ⟨reset_pulsesInState, by decide⟩
  | append_singleton is i ih =>
      obtain ⟨hpulses, hbalance⟩ := ih
      refine ⟨by simpa only [run_concat] using hpulses.step, ?_⟩
      have hstep := balance_step hpulses (i := i)
      unfold Balanced at hstep
      simp only [log_concat, run_concat, List.length_append, after]
      omega

/-- **Outcomes.**  In every state that the controller reaches from reset, the starts are the
done interrupts, the error interrupts and the aborts, and one more while the FSM is busy.  The
two interrupts are never set together.  No two of the three start lines are ever high together,
and none is high for two cycles. -/
theorem one_outcome (is : List DmaControllerIn) :
    let c := run step reset is
    ((log step starts reset is).length =
      (log step (after step doneIrqs) reset is).length +
        (log step (after step errorIrqs) reset is).length + (log step aborts reset is).length +
        if c.Busy then 1 else 0) ∧
    ¬ (c.fsm.dmaDoneIrq = true ∧ c.fsm.dmaErrorIrq = true) ∧
    (¬ (c.fsm.dmaCtrlStartL2p = true ∧ c.fsm.dmaCtrlStartP2l = true) ∧
      ¬ (c.fsm.dmaCtrlStartL2p = true ∧ c.fsm.dmaCtrlStartNext = true) ∧
      ¬ (c.fsm.dmaCtrlStartP2l = true ∧ c.fsm.dmaCtrlStartNext = true)) ∧
    ∀ i, (c.fsm.dmaCtrlStartL2p = true → (c.step i).fsm.dmaCtrlStartL2p = false) ∧
      (c.fsm.dmaCtrlStartP2l = true → (c.step i).fsm.dmaCtrlStartP2l = false) ∧
      (c.fsm.dmaCtrlStartNext = true → (c.step i).fsm.dmaCtrlStartNext = false) := by
  intro c
  obtain ⟨hpulses, hbalance⟩ := balance_run is
  obtain ⟨hirqs, hlines⟩ := hpulses.exclusive
  exact ⟨hbalance, hirqs, hlines, fun i => hpulses.one_cycle⟩

end DmaController

end Gn4124Core
