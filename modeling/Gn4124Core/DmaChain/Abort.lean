import Gn4124Core.Rtl.DmaController
import Gn4124Core.Rtl.P2lDmaMaster

/-!
# Aborts of the DMA controller

The DMA controller with the P2L DMA master, which fetches the items of a chain for it.  A
host abort takes the controller's FSM to `DMA_ABORT`, where it waits for the start bit.  The
start bit is set by the host, but also by the arrival of a next item, whatever the FSM state.

The P2L DMA master sees `dma_ctrl_abort_o` two edges after the edge of the abort.  An item
that is complete before that still arrives and restarts the FSM.  So an abort is final if and
only if no item arrives at its edge and no item is complete at this edge or at the next one
(`abort_final_iff`).
-/

namespace Gn4124Core

open Clocked

structure DmaEngine where
  controller : DmaController
  master : P2lDmaMaster
deriving DecidableEq

/-- The host's writes, the lines of the L2P DMA master, the decoder's lines and the grant. -/
structure DmaEngineIn where
  loads : DmaLoads
  l2pDone : Bool
  l2pError : Bool
  pd : PdPdm
  arbPdmGnt : Bool
deriving DecidableEq

namespace DmaEngine

variable (gByteSwap : Bool) (s : DmaEngine) (i : DmaEngineIn)

/-- What the controller reads in one clock cycle. -/
def controllerIn : DmaControllerIn where
  loads := i.loads
  dmaCtrlDone := i.l2pDone || s.master.ctrlPipe.dmaCtrlDone
  dmaCtrlError := i.l2pError || s.master.dmaCtrlError
  nextItem := s.master.nextItem
  nextItemValid := s.master.fsm.nextItemValid

/-- What the P2L DMA master reads in one clock cycle. -/
def masterIn : P2lDmaIn := ⟨s.controller.lines, i.pd, i.arbPdmGnt⟩

/-- One edge of `clk_i`. -/
def step : DmaEngine := ⟨s.controller.step (s.controllerIn i), s.master.step gByteSwap (s.masterIn i)⟩

def reset : DmaEngine := ⟨.reset, .reset⟩

/-- The abort bit takes the FSM to `DMA_ABORT` at the next edge. -/
def Aborts : Prop :=
  (s.controller.fsm.dmaCtrlCurrentState = .transfer ∨ s.controller.fsm.dmaCtrlCurrentState = .chain) ∧
    abortBit s.controller.regs.dmaCtrlReg = true

/-- The FSM is in `DMA_ABORT`, and no transfer is started. -/
def Final : Prop :=
  s.controller.fsm.dmaCtrlCurrentState = .abort ∧ s.controller.fsm.dmaCtrlStartL2p = false ∧
    s.controller.fsm.dmaCtrlStartP2l = false ∧ s.controller.fsm.dmaCtrlStartNext = false

/-- The last word of a next item is received. -/
def itemComplete : Bool :=
  decide (s.master.fsm.p2lDmaCurrentState = .waitReadCompletion) && !s.controller.fsm.dmaCtrlAbort &&
    s.master.lastWordReceived (s.masterIn i) && s.master.readReq.l2pLastPacket &&
    s.master.readReq.isNextItem

/-- No write of the host sets the start bit. -/
def NoStart (i : DmaEngineIn) : Prop := ∀ w ∈ i.loads.dmaCtrl, startBit w = false

/-- No item arrives before the abort has reached the P2L DMA master: none is there at the edge
`i` of the abort, unless the start bit is just being cleared, and none is complete at this edge
or at the next one. -/
def NoItem (is : List DmaEngineIn) : Prop :=
  (s.master.fsm.nextItemValid = true → startBit s.controller.regs.dmaCtrlReg = true) ∧
    s.itemComplete i = false ∧ ∀ j ∈ is.head?, (step gByteSwap s i).itemComplete j = false

instance : Decidable s.Aborts := inferInstanceAs (Decidable (_ ∧ _))

instance : Decidable s.Final := inferInstanceAs (Decidable (_ ∧ _))

instance (i : DmaEngineIn) : Decidable (NoStart i) :=
  Option.decidableForallMem i.loads.dmaCtrl

variable {gByteSwap s i} {j : DmaEngineIn} {is : List DmaEngineIn}

/-! ## One edge -/

theorem nextItemValid_step : (step gByteSwap s i).master.fsm.nextItemValid =
    (s.itemComplete i || s.master.fsm.nextItemValid &&
      !decide (s.master.fsm.p2lDmaCurrentState = .idle)) := by
  show (s.master.pReadReqFsm (s.masterIn i)).nextItemValid = _
  cases hstate : s.master.fsm.p2lDmaCurrentState with
  | idle => simp [P2lDmaMaster.pReadReqFsm, itemComplete, hstate]
  | header =>
      simp only [P2lDmaMaster.pReadReqFsm, itemComplete, hstate]
      split_ifs <;> simp
  | addrH => simp [P2lDmaMaster.pReadReqFsm, itemComplete, hstate]
  | addrL => simp [P2lDmaMaster.pReadReqFsm, itemComplete, hstate]
  | waitReadCompletion =>
      have habort : (s.masterIn i).ctrl.abort = s.controller.fsm.dmaCtrlAbort := rfl
      simp only [P2lDmaMaster.pReadReqFsm, itemComplete, hstate, habort]
      split_ifs <;> simp_all

theorem startBit_step (h : NoStart i) : startBit (step gByteSwap s i).controller.regs.dmaCtrlReg =
    (!startBit s.controller.regs.dmaCtrlReg && s.master.fsm.nextItemValid) := by
  have hload : DmaController.NoStart (s.controllerIn i) := h
  exact DmaController.startBit_step.trans (DmaController.nextStartBit_of_noStart hload)

/-- What holds in every run. -/
structure Reachable (s : DmaEngine) : Prop where
  startTransfer : s.controller.fsm.dmaCtrlStartL2p = true ∨ s.controller.fsm.dmaCtrlStartP2l = true →
    s.controller.fsm.dmaCtrlCurrentState = .transfer
  startNext : s.controller.fsm.dmaCtrlStartNext = true →
    s.controller.fsm.dmaCtrlCurrentState = .chain
  item : s.master.fsm.nextItemValid = true → s.master.fsm.p2lDmaCurrentState = .idle

theorem reset_reachable : Reachable reset :=
  ⟨fun h => absurd h (by decide), fun h => absurd h (by decide), fun h => absurd h (by decide)⟩

theorem itemComplete_idle (h : s.itemComplete i = true) :
    (step gByteSwap s i).master.fsm.p2lDmaCurrentState = .idle := by
  show (s.master.pReadReqFsm (s.masterIn i)).p2lDmaCurrentState = .idle
  simp only [itemComplete, Bool.and_eq_true, decide_eq_true_eq, Bool.not_eq_true'] at h
  obtain ⟨⟨⟨⟨hwait, habort⟩, hlast⟩, hpacket⟩, hitem⟩ := h
  have habort' : (s.masterIn i).ctrl.abort = false := habort
  simp [P2lDmaMaster.pReadReqFsm, hwait, habort', hlast, hpacket, hitem]

theorem Reachable.step (h : s.Reachable) : (step gByteSwap s i).Reachable := by
  obtain ⟨htransfer, hnext, hitem⟩ := h
  have hfsm : (DmaEngine.step gByteSwap s i).controller.fsm =
      s.controller.pFsm (s.controllerIn i) := rfl
  refine ⟨?_, ?_, fun hvalid => ?_⟩
  · rw [hfsm]
    cases hstate : s.controller.fsm.dmaCtrlCurrentState with
    | startTransfer =>
        simp only [DmaController.pFsm, hstate]
        split_ifs <;> simp_all
    | transfer =>
        simp only [DmaController.pFsm, hstate]
        split_ifs <;> simp
    | chain =>
        simp only [DmaController.pFsm, hstate]
        split_ifs <;> simp_all
    | idle => simp_all [DmaController.pFsm]
    | startChain => simp_all [DmaController.pFsm]
    | error => simp_all [DmaController.pFsm]
    | abort => simp_all [DmaController.pFsm]
  · rw [hfsm]
    cases hstate : s.controller.fsm.dmaCtrlCurrentState with
    | startTransfer =>
        simp only [DmaController.pFsm, hstate]
        split_ifs <;> simp_all
    | transfer =>
        simp only [DmaController.pFsm, hstate]
        split_ifs <;> simp_all
    | chain =>
        simp only [DmaController.pFsm, hstate]
        split_ifs <;> simp
    | idle => simp_all [DmaController.pFsm]
    | startChain => simp_all [DmaController.pFsm]
    | error => simp_all [DmaController.pFsm]
    | abort => simp_all [DmaController.pFsm]
  · rw [nextItemValid_step] at hvalid
    cases hcomplete : s.itemComplete i with
    | true => exact itemComplete_idle hcomplete
    | false =>
        rw [hcomplete, Bool.false_or, Bool.and_eq_true] at hvalid
        have hidle := hitem hvalid.1
        simp [hidle] at hvalid

/-- The edge of the abort. -/
theorem Aborts.step (h : s.Aborts) (hreach : s.Reachable) : (step gByteSwap s i).Final := by
  obtain ⟨hstate, habort⟩ := h
  obtain ⟨htransfer, hnext, -⟩ := hreach
  show _ ∧ _
  have hfsm : (DmaEngine.step gByteSwap s i).controller.fsm =
      s.controller.pFsm (s.controllerIn i) := rfl
  rw [hfsm]
  rcases hstate with hstate | hstate
  · simp_all [DmaController.pFsm]
  · simp_all [DmaController.pFsm]

/-- The start bit alone decides whether the FSM leaves `DMA_ABORT`. -/
theorem Final.step (h : s.Final) : (step gByteSwap s i).Final ↔
    startBit s.controller.regs.dmaCtrlReg = false := by
  obtain ⟨hstate, hl2p, hp2l, hnext⟩ := h
  have hfsm : (DmaEngine.step gByteSwap s i).controller.fsm =
      s.controller.pFsm (s.controllerIn i) := rfl
  unfold Final
  rw [hfsm]
  cases hstart : startBit s.controller.regs.dmaCtrlReg <;>
    simp [DmaController.pFsm, hstate, hl2p, hp2l, hnext, hstart]

theorem Final.abort_step (h : s.Final) :
    (DmaEngine.step gByteSwap s i).controller.fsm.dmaCtrlAbort = true := by
  have hfsm : (DmaEngine.step gByteSwap s i).controller.fsm =
      s.controller.pFsm (s.controllerIn i) := rfl
  rw [hfsm]
  simp [DmaController.pFsm, h.1]

/-- In `DMA_ABORT`, with nothing on its way that would restart the FSM. -/
structure Settled (s : DmaEngine) : Prop where
  final : s.Final
  noStart : startBit s.controller.regs.dmaCtrlReg = false
  noItem : s.master.fsm.nextItemValid = false

theorem Settled.step (h : s.Settled) (hload : NoStart i) (hitem : s.itemComplete i = false) :
    (step gByteSwap s i).Settled := by
  obtain ⟨hfinal, hstart, hvalid⟩ := h
  refine ⟨hfinal.step.mpr hstart, ?_, ?_⟩
  · rw [startBit_step hload, hvalid, Bool.and_false]
  · rw [nextItemValid_step, hitem, hvalid]
    rfl

theorem itemComplete_of_abort (h : s.controller.fsm.dmaCtrlAbort = true) :
    s.itemComplete i = false := by
  simp [itemComplete, h]

/-! ## Runs -/

/-- Once the P2L DMA master sees the abort, nothing restarts the FSM. -/
theorem Settled.run (h : s.Settled) (habort : s.controller.fsm.dmaCtrlAbort = true)
    (hloads : ∀ j ∈ is, NoStart j) : (Clocked.run (DmaEngine.step gByteSwap) s is).Settled := by
  induction is generalizing s with
  | nil => exact h
  | cons i is ih =>
      have hload : NoStart i := hloads i List.mem_cons_self
      rw [run_cons]
      apply ih
      · exact h.step hload (itemComplete_of_abort habort)
      · exact h.final.abort_step
      · intro j hj
        exact hloads j (List.mem_cons_of_mem i hj)

/-- With no item on its way the abort is final. -/
theorem final_of_noItem (hreach : s.Reachable) (haborts : s.Aborts) (hload : NoStart i)
    (hloads : ∀ j ∈ is, NoStart j) (hitem : NoItem gByteSwap s i is) :
    (run (step gByteSwap) (step gByteSwap s i) is).Final := by
  obtain ⟨hhere, hnow, hnext⟩ := hitem
  have hsettled : (step gByteSwap s i).Settled := by
    refine ⟨haborts.step hreach, ?_, ?_⟩
    · rw [startBit_step hload]
      cases hvalid : s.master.fsm.nextItemValid with
      | false => rw [Bool.and_false]
      | true => rw [hhere hvalid, Bool.not_true, Bool.false_and]
    · rw [nextItemValid_step, hnow, Bool.false_or]
      cases hvalid : s.master.fsm.nextItemValid with
      | false => rfl
      | true => simp [hreach.item hvalid]
  cases is with
  | nil => exact hsettled.final
  | cons j is =>
      rw [run_cons]
      refine (Settled.run (hsettled.step ?_ ?_) hsettled.final.abort_step ?_).final
      · exact hloads j List.mem_cons_self
      · exact hnext j rfl
      · intro k hk
        exact hloads k (List.mem_cons_of_mem j hk)

/-- An item that arrives in `DMA_ABORT` restarts the FSM two edges later. -/
theorem not_final_of_item (hvalid : s.master.fsm.nextItemValid = true)
    (hstart : startBit s.controller.regs.dmaCtrlReg = false) (hload : NoStart i) {j : DmaEngineIn}
    (hfinal : (step gByteSwap s i).Final) : ¬ (step gByteSwap (step gByteSwap s i) j).Final := by
  rw [hfinal.step, startBit_step hload, hvalid, hstart]
  decide

/-- **Aborts.**  Take any run from reset up to the edge `i` of a host abort, and go on with
any inputs `is` in which no host write sets the start bit.  The FSM stays in `DMA_ABORT` and
starts no transfer, provided that no item arrives at the edge of the abort and none is complete
at this edge or at the next one.  Conversely, over three more edges or more it does so only
then. -/
theorem abort_final_iff (gByteSwap : Bool) (hs : List DmaEngineIn) (i : DmaEngineIn)
    (is : List DmaEngineIn) :
    let s := run (step gByteSwap) reset hs
    s.Aborts → NoStart i → (∀ j ∈ is, NoStart j) →
    (NoItem gByteSwap s i is →
      ∀ js, js <+: is → (run (step gByteSwap) (step gByteSwap s i) js).Final) ∧
    (3 ≤ is.length →
      (∀ js, js <+: is → (run (step gByteSwap) (step gByteSwap s i) js).Final) →
      NoItem gByteSwap s i is) := by
  intro s haborts hload hloads
  have hreach : s.Reachable := stable_run (fun _ _ h => h.step) reset_reachable hs
  constructor
  · intro hitem js hjs
    refine final_of_noItem hreach haborts hload (fun j hj => hloads j (hjs.subset hj)) ?_
    obtain ⟨hhere, hnow, hnext⟩ := hitem
    refine ⟨hhere, hnow, fun j hj => hnext j ?_⟩
    cases js with
    | nil => simp at hj
    | cons k js =>
        obtain ⟨rest, rfl⟩ := hjs
        exact hj
  · intro hlen hfinal
    match is, hlen with
    | j₀ :: j₁ :: j₂ :: is, _ =>
        have hload₀ : NoStart j₀ := hloads j₀ (by simp)
        have hload₁ : NoStart j₁ := hloads j₁ (by simp)
        have hfinal₀ := hfinal [] List.nil_prefix
        have hfinal₁ := hfinal [j₀] ⟨_, rfl⟩
        have hfinal₂ := hfinal [j₀, j₁] ⟨_, rfl⟩
        have hfinal₃ := hfinal [j₀, j₁, j₂] ⟨_, rfl⟩
        simp only [run_cons, run_nil] at hfinal₀ hfinal₁ hfinal₂ hfinal₃
        -- the start bit is clear as long as the FSM stays
        have hstart₁ := hfinal₀.step.mp hfinal₁
        have hstart₂ := hfinal₁.step.mp hfinal₂
        refine ⟨fun hvalid => ?_, ?_, ?_⟩
        · rw [startBit_step hload, hvalid, Bool.and_true] at hstart₁
          simpa using hstart₁
        · by_contra hcomplete
          have hvalid : (step gByteSwap s i).master.fsm.nextItemValid = true := by
            rw [nextItemValid_step, Bool.not_eq_false _ |>.mp hcomplete]
            rfl
          exact not_final_of_item hvalid hstart₁ hload₀ hfinal₁ hfinal₂
        · intro j hj
          obtain rfl : j₀ = j := by simpa using hj
          by_contra hcomplete
          have hvalid : (step gByteSwap (step gByteSwap s i) j₀).master.fsm.nextItemValid = true := by
            rw [nextItemValid_step, Bool.not_eq_false _ |>.mp hcomplete]
            rfl
          exact not_final_of_item hvalid hstart₂ hload₁ hfinal₂ hfinal₃

/-! ### Aborts of a fetch -/

/-- A cycle in which nothing happens. -/
def quietEdge : DmaEngineIn := ⟨.none, false, false, .quiet, false⟩

/-- A cycle in which the decoder hands over a word of a completion. -/
def completionEdge (last : Bool) (w : Word) : DmaEngineIn :=
  { quietEdge with pd := ⟨true, false, true, last, w⟩ }

/-- The same, with a write of the host to the control register. -/
def loadCtrl (ctrl : Word) (i : DmaEngineIn) : DmaEngineIn :=
  { i with loads := { DmaLoads.none with dmaCtrl := some ctrl } }

/-- An L2P transfer of one word, and `words` words of the next item of its chain. -/
def chainEdges (words : List Word) : List DmaEngineIn :=
  [{ quietEdge with
      loads := { DmaLoads.none with dmaCtrl := some 1, dmaLen := some 4, dmaAttrib := some 1 } },
    quietEdge, quietEdge, { quietEdge with l2pDone := true }, quietEdge, quietEdge, quietEdge,
    { quietEdge with arbPdmGnt := true }, quietEdge] ++ words.map (completionEdge false)

/-- The last word of the next item comes one cycle after the edge of the abort.  Three edges
later the item restarts the FSM, and its transfer is started. -/
theorem item_restarts :
    let s := run (step false) reset (chainEdges [0, 0, 0, 4] ++ [loadCtrl 2 (completionEdge false 0)])
    let i := completionEdge false 0
    let is := completionEdge true 0 :: List.replicate 3 quietEdge
    (s.Aborts ∧ NoStart i ∧ ∀ j ∈ is, NoStart j) ∧
      (run (step false) (step false s i) is).controller.fsm.dmaCtrlStartL2p = true ∧
      ¬ (run (step false) (step false s i) is).Final := by
  decide +kernel

/-- One cycle later the word is not received any more. -/
theorem abort_stops_fetch :
    let s := run (step false) reset (chainEdges [0, 0, 0] ++ [loadCtrl 2 (completionEdge false 4)])
    let is := [completionEdge false 0, completionEdge true 0] ++ List.replicate 5 quietEdge
    (run (step false) (step false s (completionEdge false 0)) is).Final := by
  intro s is
  have hitem : NoItem false s (completionEdge false 0) is :=
    ⟨by decide +kernel, by decide +kernel, by decide +kernel⟩
  have hfinal := (abort_final_iff false
    (chainEdges [0, 0, 0] ++ [loadCtrl 2 (completionEdge false 4)]) (completionEdge false 0) is
    (by decide +kernel) (by decide) (by decide)).1 hitem
  exact hfinal is List.prefix_rfl

end DmaEngine

end Gn4124Core
