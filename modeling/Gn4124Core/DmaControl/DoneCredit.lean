import Gn4124Core.DmaControl.Errors
import Gn4124Core.DmaControl.LateWords
import Gn4124Core.DmaControl.Outcomes

/-!
# Whose done it is

The two DMA masters share one done line.  Here the start pulses are numbered, each master
remembers the pulse whose transfer it has accepted, and each done register the transfer that
raised it.  A done is credited to the transfer that raised it if this is the transfer of the
most recent pulse.

An abort is looked at in a few states of the masters only, and withdrawn with the next start.
So an aborted transfer can be under way behind the next pulse, or its done can be on the way.
`Apart` excludes both, where the addressed master accepts the start; it also keeps the L2P DMA
master from waking up for words of an aborted transfer while a P2L transfer is under way.
-/

namespace Gn4124Core

open Clocked

/-- A start pulse, and the master it addresses. -/
structure StartPulse where
  number : ℕ
  toP2l : Bool
deriving DecidableEq

/-- The controller and the masters with the start pulses numbered. -/
structure CreditedCore where
  core : DmaCore
  started : ℕ
  previous : Option StartPulse
  l2pOwner : Option StartPulse
  p2lOwner : Option StartPulse
  l2pDoneOwner : Option StartPulse
  p2lDoneTOwner : Option StartPulse
  p2lDoneOwner : Option StartPulse
  aborted : List StartPulse
deriving DecidableEq

namespace DmaCore

variable (s : DmaCore)

def startsL2p : Bool := s.controller.fsm.dmaCtrlStartL2p

def startsP2l : Bool := s.controller.fsm.dmaCtrlStartP2l

/-- The controller takes the done branch of `DMA_TRANSFER`. -/
def TakesDone : Prop :=
  s.InTransfer ∧ abortBit s.controller.regs.dmaCtrlReg = false ∧ s.dmaCtrlError = false ∧
    (s.l2p.fsm.dmaCtrlDone = true ∨ s.p2l.ctrlPipe.dmaCtrlDone = true)

instance : Decidable s.TakesDone := inferInstanceAs (Decidable (_ ∧ _ ∧ _ ∧ _))

/-- The P2L DMA master is not at work on a transfer, and none of its dones is on the way. -/
structure P2lQuiet (s : DmaCore) : Prop where
  fetches : s.p2l.fsm.p2lDmaCurrentState = .idle ∨ s.p2l.readReq.isNextItem = true
  doneT : s.p2l.fsm.dmaCtrlDoneT = false
  done : s.p2l.ctrlPipe.dmaCtrlDone = false

/-- The L2P DMA master is not at work, and does not report anything. -/
structure L2pQuiet (s : DmaCore) : Prop where
  idle : s.l2p.fsm.l2pDmaCurrentState = .idle
  done : s.l2p.fsm.dmaCtrlDone = false

end DmaCore

namespace CreditedCore

variable (gByteSwap : Bool) (s : CreditedCore) (i : DmaCoreIn)

/-- The most recent start pulse. -/
def latest : Option StartPulse :=
  if s.core.startsL2p then some ⟨s.started + 1, false⟩
  else if s.core.startsP2l then some ⟨s.started + 1, true⟩
  else s.previous

/-- The host aborts the transfer that is under way. -/
def AbortsTransfer : Prop :=
  s.core.InTransfer ∧ abortBit s.core.controller.regs.dmaCtrlReg = true

instance : Decidable s.AbortsTransfer := inferInstanceAs (Decidable (_ ∧ _))

/-- One edge of `clk_i`. -/
def step : CreditedCore where
  core := s.core.step gByteSwap i
  started := if s.core.startsL2p || s.core.startsP2l then s.started + 1 else s.started
  previous := s.latest
  l2pOwner :=
    if s.core.startsL2p ∧ s.core.l2p.fsm.l2pDmaCurrentState = .idle then s.latest else s.l2pOwner
  p2lOwner :=
    if s.core.startsP2l ∧ s.core.p2l.fsm.p2lDmaCurrentState = .idle then s.latest else s.p2lOwner
  l2pDoneOwner := if (s.core.step gByteSwap i).l2p.fsm.dmaCtrlDone then s.l2pOwner else none
  p2lDoneTOwner := if (s.core.step gByteSwap i).p2l.fsm.dmaCtrlDoneT then s.p2lOwner else none
  p2lDoneOwner := s.p2lDoneTOwner
  aborted := if s.AbortsTransfer then s.latest.toList ++ s.aborted else s.aborted

def reset (addrFifoDin : Word) (dataFifoValid : Bool) : CreditedCore :=
  ⟨.reset addrFifoDin dataFifoValid, 0, none, none, none, none, none, none, []⟩

/-- Every done line that is high was raised by the master that the most recent start pulse
addresses, for the transfer of this pulse, which has not been aborted. -/
structure Credited (s : CreditedCore) : Prop where
  l2p : s.core.l2p.fsm.dmaCtrlDone = true →
    ∃ n, s.latest = some ⟨n, false⟩ ∧ s.l2pDoneOwner = some ⟨n, false⟩
  p2l : s.core.p2l.ctrlPipe.dmaCtrlDone = true →
    ∃ n, s.latest = some ⟨n, true⟩ ∧ s.p2lDoneOwner = some ⟨n, true⟩
  notAborted : ∀ p ∈ s.latest, p ∉ s.aborted

/-- No done line is high in the cycle of a start pulse.  When a master accepts a start, the other
one is not at work on a transfer, and no done is on the way.  While a P2L transfer is under way,
an idle L2P DMA master finds no word in its data FIFO. -/
structure Apart (s : CreditedCore) (i : DmaCoreIn) : Prop where
  lines : s.core.startsL2p = true ∨ s.core.startsP2l = true →
    s.core.l2p.fsm.dmaCtrlDone = false ∧ s.core.p2l.ctrlPipe.dmaCtrlDone = false
  toL2p : s.core.startsL2p = true → s.core.l2p.fsm.l2pDmaCurrentState = .idle →
    (s.core.p2l.fsm.p2lDmaCurrentState = .idle ∨ s.core.p2l.readReq.isNextItem = true) ∧
      s.core.p2l.fsm.dmaCtrlDoneT = false
  toP2l : s.core.startsP2l = true → s.core.p2l.fsm.p2lDmaCurrentState = .idle →
    s.core.l2p.fsm.l2pDmaCurrentState = .idle ∧ s.core.p2l.fsm.dmaCtrlDoneT = false
  asleep : s.core.InTransfer → s.latest.any StartPulse.toP2l = true →
    s.core.l2p.fsm.l2pDmaCurrentState = .idle → i.dataFifoEmpty = true

instance : Decidable (Apart s i) :=
  decidable_of_iff
    ((s.core.startsL2p = true ∨ s.core.startsP2l = true →
        s.core.l2p.fsm.dmaCtrlDone = false ∧ s.core.p2l.ctrlPipe.dmaCtrlDone = false) ∧
      (s.core.startsL2p = true → s.core.l2p.fsm.l2pDmaCurrentState = .idle →
        (s.core.p2l.fsm.p2lDmaCurrentState = .idle ∨ s.core.p2l.readReq.isNextItem = true) ∧
          s.core.p2l.fsm.dmaCtrlDoneT = false) ∧
      (s.core.startsP2l = true → s.core.p2l.fsm.p2lDmaCurrentState = .idle →
        s.core.l2p.fsm.l2pDmaCurrentState = .idle ∧ s.core.p2l.fsm.dmaCtrlDoneT = false) ∧
      (s.core.InTransfer → s.latest.any StartPulse.toP2l = true →
        s.core.l2p.fsm.l2pDmaCurrentState = .idle → i.dataFifoEmpty = true))
    ⟨fun h => ⟨h.1, h.2.1, h.2.2.1, h.2.2.2⟩, fun h => ⟨h.lines, h.toL2p, h.toP2l, h.asleep⟩⟩

end CreditedCore

namespace DmaCore

variable {gByteSwap : Bool} {s : DmaCore} {i : DmaCoreIn}

/-! ## What the masters do at one edge -/

theorem P2lQuiet.step (h : s.P2lQuiet) (hp2l : s.startsP2l = false)
    (hnext : s.controller.fsm.dmaCtrlStartNext = false) : (step gByteSwap s i).P2lQuiet := by
  obtain ⟨hfetches, hdoneT, -⟩ := h
  have hmaster : (DmaCore.step gByteSwap s i).p2l =
      s.p2l.step gByteSwap (s.engine.masterIn (s.engineIn i)) := rfl
  have hlines : (s.engine.masterIn (s.engineIn i)).ctrl.startP2l = false ∧
      (s.engine.masterIn (s.engineIn i)).ctrl.startNext = false := ⟨hp2l, hnext⟩
  by_cases hidle : s.p2l.fsm.p2lDmaCurrentState = .idle
  · refine ⟨.inl ?_, ?_, hdoneT⟩
    · rw [hmaster]
      exact P2lDmaMaster.idle_step hidle (by simp [P2lDmaMaster.accepts, hlines])
    · rw [hmaster]
      exact (P2lDmaMaster.reports_of_idle gByteSwap hidle).1
  · have hitem : s.p2l.readReq.isNextItem = true := hfetches.resolve_left hidle
    refine ⟨.inr ?_, ?_, hdoneT⟩
    · rw [hmaster, P2lDmaMaster.isNextItem_step gByteSwap (.inl hidle)]
      exact hitem
    · show (s.p2l.pReadReqFsm (s.engine.masterIn (s.engineIn i))).dmaCtrlDoneT = false
      cases hstate : s.p2l.fsm.p2lDmaCurrentState with
      | idle => exact absurd hstate hidle
      | header =>
          simp only [P2lDmaMaster.pReadReqFsm, hstate]
          split_ifs <;> exact hdoneT
      | addrH | addrL => simpa only [P2lDmaMaster.pReadReqFsm, hstate] using hdoneT
      | waitReadCompletion =>
          -- a fetch ends with an item, not with a done
          simp only [P2lDmaMaster.pReadReqFsm, hstate, hitem, if_true]
          split_ifs <;> exact hdoneT

theorem L2pQuiet.step (h : s.L2pQuiet) (hempty : i.dataFifoEmpty = true) :
    (step gByteSwap s i).L2pQuiet := by
  have hempty' : (s.l2pIn i).dataFifoEmpty = true := hempty
  have hfsm : (DmaCore.step gByteSwap s i).l2p.fsm = s.l2p.pPktFsm gByteSwap (s.l2pIn i) := rfl
  constructor <;> simp [hfsm, L2pDmaMaster.pPktFsm, h.idle, hempty']

/-- An idle L2P DMA master reports nothing behind the edge. -/
theorem l2pDone_of_idle (h : s.l2p.fsm.l2pDmaCurrentState = .idle) :
    (step gByteSwap s i).l2p.fsm.dmaCtrlDone = false := by
  show (s.l2p.pPktFsm gByteSwap (s.l2pIn i)).dmaCtrlDone = false
  simp [L2pDmaMaster.pPktFsm, h]

/-- A busy master answers a start with an error. -/
theorem error_of_l2p_refused (hl2p : s.startsL2p = true)
    (hbusy : s.l2p.fsm.l2pDmaCurrentState ≠ .idle) : (step gByteSwap s i).dmaCtrlError = true := by
  have hline : (s.l2pIn i).ctrl.startL2p = true := hl2p
  have herror : (step gByteSwap s i).l2p.targetCnt.dmaCtrlError = true := by
    show (s.l2p.pTargetCnt (s.l2pIn i)).dmaCtrlError = true
    simp [L2pDmaMaster.pTargetCnt, hline, hbusy]
  rw [dmaCtrlError, herror, Bool.true_or]

theorem error_of_p2l_refused (hp2l : s.startsP2l = true)
    (hbusy : s.p2l.fsm.p2lDmaCurrentState ≠ .idle) : (step gByteSwap s i).dmaCtrlError = true := by
  have hline : (s.engine.masterIn (s.engineIn i)).ctrl.startP2l = true := hp2l
  have herror : (step gByteSwap s i).p2l.addrCnt.dmaBusyError = true := by
    show (s.p2l.pAddrCnt gByteSwap (s.engine.masterIn (s.engineIn i))).dmaBusyError = true
    simp [P2lDmaMaster.pAddrCnt, hline, hbusy]
  rw [dmaCtrlError, P2lDmaMaster.dmaCtrlError, herror, Bool.true_or, Bool.or_true]

/-- The controller is in `DMA_TRANSFER` behind a start, or stays there without an abort and
without an error. -/
theorem inTransfer_cases (h : (step gByteSwap s i).InTransfer)
    (hl2p : (step gByteSwap s i).startsL2p = false) (hp2l : (step gByteSwap s i).startsP2l = false) :
    s.InTransfer ∧ abortBit s.controller.regs.dmaCtrlReg = false ∧ s.dmaCtrlError = false := by
  have hfsm : (step gByteSwap s i).controller.fsm =
      s.controller.pFsm (s.engine.controllerIn (s.engineIn i)) := rfl
  have hline : (s.engine.controllerIn (s.engineIn i)).dmaCtrlError = s.dmaCtrlError := rfl
  simp only [InTransfer, startsL2p, startsP2l, hfsm] at h hl2p hp2l
  cases hstate : s.controller.fsm.dmaCtrlCurrentState with
  | startTransfer =>
      simp only [DmaController.pFsm, hstate] at h hl2p hp2l
      split_ifs at h hl2p hp2l
  | transfer =>
      -- every branch of the state but the last one leaves it
      refine ⟨hstate, ?_⟩
      simp only [DmaController.pFsm, hstate, hline] at h
      split_ifs at h with habort herror hdone hmore
      exact ⟨by simpa using habort, by simpa using herror⟩
  | startChain => simp [DmaController.pFsm, hstate] at h
  | idle | chain | error | abort =>
      simp only [DmaController.pFsm, hstate] at h
      split_ifs at h

end DmaCore

namespace CreditedCore

variable {gByteSwap : Bool} {s : CreditedCore} {i : DmaCoreIn} {p : StartPulse}

/-! ## The transfer under way -/

/-- The transfer of the pulse `p` is under way, in the L2P DMA master. -/
structure L2pUnderWay (p : StartPulse) (s : CreditedCore) : Prop where
  toL2p : p.toP2l = false
  latest : s.latest = some p
  owner : s.l2pOwner = some p
  done : s.core.l2p.fsm.dmaCtrlDone = true → s.l2pDoneOwner = some p
  other : s.core.P2lQuiet

/-- The transfer of the pulse `p` is under way, in the P2L DMA master. -/
structure P2lUnderWay (p : StartPulse) (s : CreditedCore) : Prop where
  toP2l : p.toP2l = true
  latest : s.latest = some p
  owner : s.p2lOwner = some p
  doneT : s.core.p2l.fsm.dmaCtrlDoneT = true → s.p2lDoneTOwner = some p
  done : s.core.p2l.ctrlPipe.dmaCtrlDone = true → s.p2lDoneOwner = some p
  other : s.core.L2pQuiet

/-- Behind the start pulse the start was refused, which is an error, or the transfer of the pulse
is the only one. -/
def OneUnderWay (s : CreditedCore) : Prop :=
  s.core.InTransfer → s.core.startsL2p = false → s.core.startsP2l = false →
    s.core.dmaCtrlError = true ∨ ∃ p, L2pUnderWay p s ∨ P2lUnderWay p s

/-- Pulses are numbered upwards, and the transfer under way is not among the aborted ones. -/
structure Numbered (s : CreditedCore) : Prop where
  previous : ∀ p ∈ s.previous, p.number ≤ s.started
  aborted : ∀ p ∈ s.aborted, p.number ≤ s.started
  underWay : s.core.InTransfer → ∀ p ∈ s.latest, ∀ q ∈ s.aborted, q.number < p.number

/-- What holds in every run whose transfers are kept apart. -/
structure Accountable (s : CreditedCore) : Prop where
  pulses : s.core.controller.PulsesInState
  numbered : s.Numbered
  one : s.OneUnderWay

/-- Without a pulse the most recent one stays. -/
theorem latest_of_none (hl2p : s.core.startsL2p = false) (hp2l : s.core.startsP2l = false) :
    s.latest = s.previous := by
  simp [latest, hl2p, hp2l]

theorem latest_step (hl2p : (step gByteSwap s i).core.startsL2p = false)
    (hp2l : (step gByteSwap s i).core.startsP2l = false) : (step gByteSwap s i).latest = s.latest :=
  latest_of_none hl2p hp2l

/-! ## One edge -/

theorem Numbered.latest (h : s.Numbered) :
    ∀ p ∈ s.latest, p.number ≤ (step gByteSwap s i).started := by
  intro p hp
  simp only [CreditedCore.latest, CreditedCore.step] at hp ⊢
  cases hl2p : s.core.startsL2p with
  | true =>
      simp only [hl2p, if_true, Option.mem_some_iff] at hp
      simp [← hp]
  | false =>
      cases hp2l : s.core.startsP2l with
      | true =>
          simp only [hl2p, hp2l, Bool.false_eq_true, if_false, if_true, Option.mem_some_iff] at hp
          simp [← hp]
      | false =>
          simp only [hl2p, hp2l, Bool.false_eq_true, if_false] at hp
          simpa using h.previous p hp

theorem Numbered.step (h : s.Numbered) : (step gByteSwap s i).Numbered := by
  have hstarted : s.started ≤ (CreditedCore.step gByteSwap s i).started := by
    simp only [CreditedCore.step]
    split_ifs <;> omega
  have haborted : ∀ p ∈ (CreditedCore.step gByteSwap s i).aborted,
      p.number ≤ (CreditedCore.step gByteSwap s i).started := by
    intro p hp
    have hcases : p ∈ s.latest ∨ p ∈ s.aborted := by
      simp only [CreditedCore.step] at hp
      split_ifs at hp
      · simpa using hp
      · exact .inr hp
    rcases hcases with hp | hp
    · exact h.latest p hp
    · exact (h.aborted p hp).trans hstarted
  refine ⟨fun p hp => h.latest p hp, haborted, fun htransfer p hp q hq => ?_⟩
  cases hl2p : (CreditedCore.step gByteSwap s i).core.startsL2p with
  | true =>
      simp only [CreditedCore.latest, hl2p, if_true, Option.mem_some_iff] at hp
      rw [← hp]
      exact Nat.lt_succ_of_le (haborted q hq)
  | false =>
      cases hp2l : (CreditedCore.step gByteSwap s i).core.startsP2l with
      | true =>
          simp only [CreditedCore.latest, hl2p, hp2l, Bool.false_eq_true, if_false, if_true,
            Option.mem_some_iff] at hp
          rw [← hp]
          exact Nat.lt_succ_of_le (haborted q hq)
      | false =>
          -- a controller that stays in the transfer has not aborted it
          obtain ⟨hbefore, habort, -⟩ := DmaCore.inTransfer_cases htransfer hl2p hp2l
          rw [latest_step hl2p hp2l] at hp
          refine h.underWay hbefore p hp q ?_
          simpa [CreditedCore.step, AbortsTransfer, habort] using hq

/-- A start of the L2P DMA master is refused, or its transfer is the only one. -/
theorem OneUnderWay.of_startsL2p (hapart : Apart s i) (hpulses : s.core.controller.PulsesInState)
    (hpulse : s.core.startsL2p = true) : OneUnderWay (step gByteSwap s i) := by
  intro _ hl2p hp2l
  by_cases hidle : s.core.l2p.fsm.l2pDmaCurrentState = .idle
  · right
    obtain ⟨hfetches, hdoneT⟩ := hapart.toL2p hpulse hidle
    have hnotP2l : s.core.startsP2l = false :=
      Bool.eq_false_iff.mpr fun hboth => hpulses.oneDirection ⟨hpulse, hboth⟩
    have hnotNext : s.core.controller.fsm.dmaCtrlStartNext = false :=
      Bool.eq_false_iff.mpr fun hboth =>
        absurd ((hpulses.startL2p hpulse).symm.trans (hpulses.startNext hboth)) (by decide)
    -- an idle master is not at the end of a transfer, so its done line is low behind the edge
    have hdone : (step gByteSwap s i).core.l2p.fsm.dmaCtrlDone = false :=
      DmaCore.l2pDone_of_idle hidle
    have hlatest : s.latest = some ⟨s.started + 1, false⟩ := by simp [latest, hpulse]
    have hquiet : s.core.P2lQuiet := ⟨hfetches, hdoneT, (hapart.lines (.inl hpulse)).2⟩
    refine ⟨⟨s.started + 1, false⟩, .inl ⟨rfl, ?_, ?_, ?_, hquiet.step hnotP2l hnotNext⟩⟩
    · rw [latest_step hl2p hp2l, hlatest]
    · simp [step, hpulse, hidle, hlatest]
    · simp [hdone]
  · exact .inl (DmaCore.error_of_l2p_refused hpulse hidle)

/-- A start of the P2L DMA master is refused, or its transfer is the only one. -/
theorem OneUnderWay.of_startsP2l (hapart : Apart s i) (hpulses : s.core.controller.PulsesInState)
    (hpulse : s.core.startsP2l = true) : OneUnderWay (step gByteSwap s i) := by
  intro _ hl2p hp2l
  by_cases hidle : s.core.p2l.fsm.p2lDmaCurrentState = .idle
  · right
    obtain ⟨hl2pIdle, hdoneT⟩ := hapart.toP2l hpulse hidle
    have hnotL2p : s.core.startsL2p = false :=
      Bool.eq_false_iff.mpr fun hboth => hpulses.oneDirection ⟨hboth, hpulse⟩
    have hlatest : s.latest = some ⟨s.started + 1, true⟩ := by simp [latest, hpulse, hnotL2p]
    have hempty : i.dataFifoEmpty = true :=
      hapart.asleep (hpulses.startP2l hpulse) (by rw [hlatest]; rfl) hl2pIdle
    have hquiet : s.core.L2pQuiet := ⟨hl2pIdle, (hapart.lines (.inr hpulse)).1⟩
    have hdoneT' : (step gByteSwap s i).core.p2l.fsm.dmaCtrlDoneT = false :=
      (P2lDmaMaster.reports_of_idle gByteSwap hidle).1
    have hdone' : (step gByteSwap s i).core.p2l.ctrlPipe.dmaCtrlDone = false := hdoneT
    refine ⟨⟨s.started + 1, true⟩, .inr ⟨rfl, ?_, ?_, ?_, ?_, hquiet.step hempty⟩⟩
    · rw [latest_step hl2p hp2l, hlatest]
    · simp [step, hpulse, hidle, hlatest]
    · simp [hdoneT']
    · simp [hdone']
  · exact .inl (DmaCore.error_of_p2l_refused hpulse hidle)

theorem L2pUnderWay.step (h : L2pUnderWay p s) (hnext : s.core.controller.fsm.dmaCtrlStartNext = false)
    (hl2p : s.core.startsL2p = false) (hp2l : s.core.startsP2l = false)
    (hlatest : (step gByteSwap s i).latest = s.latest) : L2pUnderWay p (step gByteSwap s i) where
  toL2p := h.toL2p
  latest := hlatest.trans h.latest
  owner := by simp [CreditedCore.step, hl2p, h.owner]
  done hdone := by
    have hraised : (s.core.step gByteSwap i).l2p.fsm.dmaCtrlDone = true := hdone
    simp [CreditedCore.step, hraised, h.owner]
  other := h.other.step hp2l hnext

theorem P2lUnderWay.step (h : P2lUnderWay p s) (hempty : i.dataFifoEmpty = true)
    (hp2l : s.core.startsP2l = false)
    (hlatest : (step gByteSwap s i).latest = s.latest) : P2lUnderWay p (step gByteSwap s i) where
  toP2l := h.toP2l
  latest := hlatest.trans h.latest
  owner := by simp [CreditedCore.step, hp2l, h.owner]
  doneT hdoneT := by
    have hraised : (s.core.step gByteSwap i).p2l.fsm.dmaCtrlDoneT = true := hdoneT
    simp [CreditedCore.step, hraised, h.owner]
  done hdone := h.doneT hdone
  other := h.other.step hempty

theorem Accountable.step (h : s.Accountable) (hapart : Apart s i) :
    (step gByteSwap s i).Accountable := by
  obtain ⟨hpulses, hnumbered, hone⟩ := h
  refine ⟨hpulses.step, hnumbered.step, ?_⟩
  -- a pulse begins a transfer, and between pulses the one under way goes on
  cases hl2p : s.core.startsL2p with
  | true => exact .of_startsL2p hapart hpulses hl2p
  | false =>
      cases hp2l : s.core.startsP2l with
      | true => exact .of_startsP2l hapart hpulses hp2l
      | false =>
          intro htransfer hl2p' hp2l'
          obtain ⟨hbefore, -, hnoError⟩ := DmaCore.inTransfer_cases htransfer hl2p' hp2l'
          have hlatest := latest_step hl2p' hp2l'
          have hnext : s.core.controller.fsm.dmaCtrlStartNext = false :=
            Bool.eq_false_iff.mpr fun hpulse =>
              absurd ((hpulses.startNext hpulse).symm.trans hbefore) (by decide)
          rcases hone hbefore hl2p hp2l with herror | ⟨p, hway | hway⟩
          · rw [hnoError] at herror
            exact absurd herror (by decide)
          · exact .inr ⟨p, .inl (hway.step hnext hl2p hp2l hlatest)⟩
          · have htoP2l : s.latest.any StartPulse.toP2l = true := by
              rw [hway.latest]
              exact hway.toP2l
            have hempty := hapart.asleep hbefore htoP2l hway.other.idle
            exact .inr ⟨p, .inr (hway.step hempty hp2l hlatest)⟩

/-! ## Runs -/

theorem reset_accountable (addrFifoDin : Word) (dataFifoValid : Bool) :
    Accountable (reset addrFifoDin dataFifoValid) where
  pulses := DmaController.reset_pulsesInState
  numbered := ⟨by simp [reset], by simp [reset], by simp [reset]⟩
  one := fun h => absurd h (by simp [reset, DmaCore.InTransfer, DmaCore.reset, DmaCore.controller,
    DmaEngine.reset, DmaController.reset])

/-- A done that is taken is credited to the transfer that raised it. -/
theorem Accountable.credited (h : s.Accountable) (hapart : Apart s i) (htakes : s.core.TakesDone) :
    s.Credited := by
  obtain ⟨htransfer, -, hnoError, hdone⟩ := htakes
  -- a done line is high, so there is no pulse in this cycle
  have hnone : s.core.startsL2p = false ∧ s.core.startsP2l = false := by
    by_contra hpulse
    have hlines := hapart.lines (by
      rw [not_and_or, Bool.not_eq_false, Bool.not_eq_false] at hpulse
      exact hpulse)
    simp [hlines] at hdone
  have hnotAborted : ∀ p ∈ s.latest, p ∉ s.aborted := fun p hp hmem =>
    Nat.lt_irrefl _ (h.numbered.underWay htransfer p hp p hmem)
  rcases h.one htransfer hnone.1 hnone.2 with herror | ⟨⟨n, toP2l⟩, hway | hway⟩
  · rw [hnoError] at herror
    exact absurd herror (by decide)
  · obtain ⟨rfl, hlatest, -, hl2p, hquiet⟩ := hway
    refine ⟨fun hraised => ⟨n, hlatest, hl2p hraised⟩, fun hraised => ?_, hnotAborted⟩
    rw [hquiet.done] at hraised
    exact absurd hraised (by decide)
  · obtain ⟨rfl, hlatest, -, -, hp2l, hquiet⟩ := hway
    refine ⟨fun hraised => ?_, fun hraised => ⟨n, hlatest, hp2l hraised⟩, hnotAborted⟩
    rw [hquiet.done] at hraised
    exact absurd hraised (by decide)

/-- The numbers only watch: the controller and the masters run as they do without them. -/
theorem core_run (s : CreditedCore) (is : List DmaCoreIn) :
    (run (step gByteSwap) s is).core = run (DmaCore.step gByteSwap) s.core is := by
  have hstep : ∀ (s : CreditedCore) (i : DmaCoreIn),
      (step gByteSwap s i).core = s.core.step gByteSwap (id i) := fun _ _ => rfl
  have hrun := run_component (f := CreditedCore.core) hstep s is
  rwa [List.map_id] at hrun

/-- **Done credits.**  In every run from reset in which the transfers are kept apart, whenever the
controller takes the done branch of `DMA_TRANSFER`, the done was raised by the master that the
most recent start pulse addresses, for the transfer of this pulse, and not for one that was
aborted. -/
theorem done_credited (gByteSwap : Bool) (addrFifoDin : Word) (dataFifoValid : Bool)
    (is : List DmaCoreIn) (hapart : Always (step gByteSwap) Apart (reset addrFifoDin dataFifoValid) is) :
    Always (step gByteSwap) (fun s _ => s.core.TakesDone → s.Credited)
      (reset addrFifoDin dataFifoValid) is :=
  (hapart.of_invariant (fun _ _ h hi => Accountable.step h hi)
    (reset_accountable addrFifoDin dataFifoValid)).mono
    fun _ _ h htakes => h.1.credited h.2 htakes

/-- The one word of an L2P transfer is read, and the L2P DMA master has the bus. -/
def oneWordRead : List DmaCoreIn :=
  let quiet := DmaCore.quietEdge
  let ready := { quiet with dataFifoEmpty := false }
  let granted := { ready with arbLdmGnt := true }
  [DmaCore.loadItem 0, quiet, quiet, quiet, ready, ready, granted]

/-- The GN4124 holds back the word, the host aborts the transfer and starts one in the other
direction.  Then the word is sent. -/
def abortedInLastData : List DmaCoreIn :=
  let granted := { DmaCore.quietEdge with arbLdmGnt := true }
  let stalled := { granted with l2pRdy := false }
  oneWordRead ++
    [{ granted with dataFifoEmpty := false, loads := (DmaCore.loadCtrl 2).loads }, stalled,
      { stalled with loads := (DmaCore.loadItem 2).loads }, stalled, stalled, stalled, granted]

/-- The done of the aborted L2P transfer ends the P2L transfer, before a word of it has come. -/
theorem aborted_done_credited :
    let s := run (step false) (reset 0 false) abortedInLastData
    s.core.TakesDone ∧ s.latest = some ⟨2, true⟩ ∧ s.l2pDoneOwner = some ⟨1, false⟩ ∧
      ⟨1, false⟩ ∈ s.aborted ∧
      (step false s DmaCore.quietEdge).core.controller.fsm.dmaDoneIrq = true ∧ ¬ s.Credited := by
  refine ⟨by decide +kernel, by decide +kernel, by decide +kernel, by decide +kernel,
    by decide +kernel, fun h => ?_⟩
  obtain ⟨n, hlatest, -⟩ := h.l2p (by decide +kernel)
  have hother : (run (step false) (reset 0 false) abortedInLastData).latest = some ⟨2, true⟩ := by
    decide +kernel
  rw [hother] at hlatest
  simp at hlatest

/-- An L2P transfer of one word, with a stall before the word is sent. -/
theorem done_credited_one_word :
    let granted := { DmaCore.quietEdge with arbLdmGnt := true }
    let is := oneWordRead ++ [{ granted with dataFifoEmpty := false },
      { granted with l2pRdy := false }, granted]
    let s := run (step false) (reset 0 false) is
    s.core.TakesDone ∧ s.Credited := by
  intro granted is s
  have htakes : s.core.TakesDone := by decide +kernel
  have hall := done_credited false 0 false (is ++ [DmaCore.quietEdge]) (by decide +kernel)
  exact ⟨htakes, ((always_concat _ _ _ _).mp hall).2 htakes⟩

end CreditedCore

end Gn4124Core
