import Gn4124Core.Clocked.Flow
import Gn4124Core.DmaChain.Host

/-!
# The DMA engine executes a chain

`Doing` follows the engine through the items of a chain: each of its constructors is one
situation of the controller and the P2L DMA master, with what is still to be shown of the chain
and the steps that are left for it.  Every edge keeps the engine in one of these situations
(`Doing.step`): it shows the first of what is left or nothing, and takes a step, unless the
engine waits for the arbiter, for the host or for the L2P DMA master.

The transitions of the controller come first, each for any inputs that lead to it
(`Rests.start_step` to `Shows.fetch_step`).  Then there is a lemma for each situation, in the
order in which an item goes through them:

* `starting_step`, `ordering_step`, `ordered_step`: the item is ordered from one of the two
  masters;
* `l2p_step`, or `p2l_step` and `received_step`: its transfer, which for the P2L DMA master is
  the invariant `Reading` of `DmaChain/Host`;
* `done_step`: the end of the transfer, behind which the chain is over or goes on;
* `chaining_step`, `asking_step`, `fetching_step`, `fetched_step`: the next item is fetched, and
  takes the place of the one before in the registers;
* `over_step`: the engine waits for the host.

`Doing.run` is the run, by induction on its edges.  The interrupt is not shown before the last
item is done, and the measure of the steps left takes the engine there under service.
-/

namespace Gn4124Core

open Clocked

/-- The steps left for the transfer of an item that is ordered. -/
def DmaItem.transferWork (item : DmaItem) : ℕ := if item.isP2l then 5 * item.words.toNat + 6 else 1

/-- The steps left for a chain of which the first item is about to be ordered. -/
def chainWork : List DmaItem → ℕ
  | [] => 0
  | item :: rest =>
      if item.words = 0 then 1
      else 2 + item.transferWork + if item.more then 42 + chainWork rest else 0

/-- What is left of a chain behind an item that is ordered, and the steps for it. -/
def eventsBehind (item : DmaItem) (rest : List DmaItem) : List DmaEvent :=
  if item.more then chainEvents rest else [.doneIrq]

def workBehind (item : DmaItem) (rest : List DmaItem) : ℕ :=
  if item.more then 42 + chainWork rest else 0

theorem chainEvents_cons {item : DmaItem} (rest : List DmaItem) (hwords : item.words ≠ 0) :
    chainEvents (item :: rest) = item.start :: eventsBehind item rest := by
  rw [chainEvents, if_neg hwords, eventsBehind]

theorem chainWork_cons {item : DmaItem} (rest : List DmaItem) (hwords : item.words ≠ 0) :
    chainWork (item :: rest) = 2 + item.transferWork + workBehind item rest := by
  rw [chainWork, if_neg hwords, workBehind]

/-! ## The controller -/

namespace DmaController

/-- The registers of the controller hold `item`, and it is not aborted. -/
structure HoldsItem (item : DmaItem) (start : Bool) (c : DmaController) : Prop where
  item : c.regs.item = item
  start : startBit c.regs.dmaCtrlReg = start
  noAbort : abortBit c.regs.dmaCtrlReg = false

/-- What the FSM shows: its state, and the three start pulses.  No interrupt. -/
structure Shows (state : DmaCtrlState) (l2p p2l next : Bool) (c : DmaController) : Prop where
  state : c.fsm.dmaCtrlCurrentState = state
  l2p : c.fsm.dmaCtrlStartL2p = l2p
  p2l : c.fsm.dmaCtrlStartP2l = p2l
  next : c.fsm.dmaCtrlStartNext = next
  noDoneIrq : c.fsm.dmaDoneIrq = false
  noErrorIrq : c.fsm.dmaErrorIrq = false

/-- No transfer is under way.  An interrupt pulse may be at its end. -/
structure Rests (c : DmaController) : Prop where
  noL2p : c.fsm.dmaCtrlStartL2p = false
  noP2l : c.fsm.dmaCtrlStartP2l = false
  noNext : c.fsm.dmaCtrlStartNext = false
  doneIrq : c.fsm.dmaDoneIrq = true → c.fsm.dmaCtrlCurrentState = .idle
  errorIrq : c.fsm.dmaErrorIrq = true → c.fsm.dmaCtrlCurrentState = .error

/-- The transfer of `item` is on the lines to the DMA masters. -/
structure Orders (item : DmaItem) (c : DmaController) : Prop where
  carrierAddr : c.fsm.dmaCtrlCarrierAddr = item.carrierAddr
  hostAddrH : c.fsm.dmaCtrlHostAddrH = item.hostAddrH
  hostAddrL : c.fsm.dmaCtrlHostAddrL = item.hostAddrL
  len : c.fsm.dmaCtrlLen = item.len

/-- The events of one cycle. -/
def events (c : DmaController) : List DmaEvent :=
  (if c.fsm.dmaCtrlStartL2p then
    [.start false c.fsm.dmaCtrlCarrierAddr (c.fsm.dmaCtrlHostAddrH ++ c.fsm.dmaCtrlHostAddrL)
      c.fsm.dmaCtrlLen] else []) ++
  (if c.fsm.dmaCtrlStartP2l then
    [.start true c.fsm.dmaCtrlCarrierAddr (c.fsm.dmaCtrlHostAddrH ++ c.fsm.dmaCtrlHostAddrL)
      c.fsm.dmaCtrlLen] else []) ++
  (if c.fsm.dmaDoneIrq then [.doneIrq] else []) ++ (if c.fsm.dmaErrorIrq then [.errorIrq] else [])

variable {c : DmaController} {i : DmaControllerIn} {item : DmaItem} {start : Bool}

theorem HoldsItem.step (h : HoldsItem item start c) (hload : i.loads = .none) :
    HoldsItem (if i.nextItemValid then i.nextItem else item) (!start && i.nextItemValid)
      (c.step i) := by
  obtain ⟨hitem, hstart, habort⟩ := h
  refine ⟨?_, ?_, ?_⟩
  · show (c.pRegs i).item = _
    simp [pRegs, hload, DmaLoads.none, hitem]
  · have hnone : NoStart i := by simp [NoStart, hload, DmaLoads.none]
    rw [startBit_step, nextStartBit_of_noStart hnone, hstart]
  · rw [abortBit_step, hload]
    exact habort

theorem events_of_no_pulse (hl2p : c.fsm.dmaCtrlStartL2p = false)
    (hp2l : c.fsm.dmaCtrlStartP2l = false) (hdone : c.fsm.dmaDoneIrq = false)
    (herror : c.fsm.dmaErrorIrq = false) : c.events = [] := by
  simp [events, hl2p, hp2l, hdone, herror]

theorem Shows.events {state : DmaCtrlState} {next : Bool} (h : Shows state false false next c) :
    c.events = [] :=
  events_of_no_pulse h.l2p h.p2l h.noDoneIrq h.noErrorIrq

/-- The pulse that orders an item. -/
theorem Orders.events {state : DmaCtrlState} {next : Bool} (h : Orders item c)
    (hshows : Shows state (!item.isP2l) item.isP2l next c) : c.events = [item.start] := by
  obtain ⟨hcarrier, hhigh, hlow, hlen⟩ := h
  cases hp2l : item.isP2l <;>
    simp [DmaController.events, DmaItem.start, hshows.l2p, hshows.p2l, hshows.noDoneIrq,
      hshows.noErrorIrq, hp2l, hcarrier, hhigh, hlow, hlen]

/-! ### The transitions of the FSM -/

/-- The start bit takes the FSM out of the states in which it rests. -/
theorem Rests.start_step (h : Rests c) (hstart : startBit c.regs.dmaCtrlReg = true)
    (hstate : c.fsm.dmaCtrlCurrentState = .idle ∨ c.fsm.dmaCtrlCurrentState = .error ∨
      c.fsm.dmaCtrlCurrentState = .abort) : Shows .startTransfer false false false (c.step i) := by
  obtain ⟨hl2p, hp2l, hnext, hdone, herror⟩ := h
  have hfsm : (c.step i).fsm = c.pFsm i := rfl
  obtain hstate | hstate | hstate := hstate
  all_goals
    rw [hstate] at hdone herror
    refine ⟨?_, ?_, ?_, ?_, ?_, ?_⟩ <;> simp_all [pFsm]

/-- Without the start bit it stays. -/
theorem Rests.stay_step (h : Rests c) (hstart : startBit c.regs.dmaCtrlReg = false)
    (hstate : c.fsm.dmaCtrlCurrentState = .idle ∨ c.fsm.dmaCtrlCurrentState = .error) :
    Shows c.fsm.dmaCtrlCurrentState false false false (c.step i) := by
  obtain ⟨hl2p, hp2l, hnext, hdone, herror⟩ := h
  have hfsm : (c.step i).fsm = c.pFsm i := rfl
  obtain hstate | hstate := hstate
  all_goals
    rw [hstate] at hdone herror
    refine ⟨?_, ?_, ?_, ?_, ?_, ?_⟩ <;> simp_all [pFsm]

/-- An item that is too short is an error. -/
theorem Shows.error_step (h : Shows .startTransfer false false false c) (hitem : HoldsItem item start c)
    (hwords : item.words = 0) :
    Rests (c.step i) ∧ (c.step i).fsm.dmaCtrlCurrentState = .error ∧
      (c.step i).events = [.errorIrq] := by
  obtain ⟨hstate, hl2p, hp2l, hnext, hdone, herror⟩ := h
  have hfsm : (c.step i).fsm =
      { c.fsm with
        dmaCtrlAbort := false
        dmaErrorIrq := true
        dmaCtrlCurrentState := .error } := by
    show c.pFsm i = _
    simp only [pFsm, hstate, hitem.item, hwords, if_true]
  refine ⟨⟨?_, ?_, ?_, ?_, ?_⟩, ?_, ?_⟩ <;> simp [DmaController.events, hfsm, hl2p, hp2l, hnext, hdone]

/-- The transfer of any other item is ordered. -/
theorem Shows.order_step (h : Shows .startTransfer false false false c) (hitem : HoldsItem item start c)
    (hwords : item.words ≠ 0) :
    Shows .transfer (!item.isP2l) item.isP2l false (c.step i) ∧ Orders item (c.step i) ∧
      (c.step i).fsm.dmaCtrlAbort = false := by
  obtain ⟨hstate, hl2p, hp2l, hnext, hdone, herror⟩ := h
  have hfsm : (c.step i).fsm =
      { c.fsm with
        dmaCtrlAbort := false
        dmaCtrlStartL2p := !item.isP2l
        dmaCtrlStartP2l := item.isP2l
        dmaCtrlCurrentState := .transfer
        dmaCtrlCarrierAddr := item.carrierAddr
        dmaCtrlHostAddrH := item.hostAddrH
        dmaCtrlHostAddrL := item.hostAddrL
        dmaCtrlLen := item.len
        dmaStatus := cBusy } := by
    show c.pFsm i = _
    simp only [pFsm, hstate, hitem.item, hwords, if_false]
    cases hdir : item.isP2l <;> simp [hl2p, hp2l]
  refine ⟨⟨?_, ?_, ?_, ?_, ?_, ?_⟩, ⟨?_, ?_, ?_, ?_⟩, ?_⟩ <;> simp [hfsm, hnext, hdone, herror]

/-- The start pulses last one cycle. -/
theorem Shows.transfer_step {l2p p2l : Bool} (h : Shows .transfer l2p p2l false c)
    (hitem : HoldsItem item start c) (hdone : i.dmaCtrlDone = false) (herror : i.dmaCtrlError = false) :
    Shows .transfer false false false (c.step i) ∧
      (c.step i).fsm.dmaCtrlAbort = c.fsm.dmaCtrlAbort := by
  obtain ⟨hstate, hl2p, hp2l, hnext, hdoneIrq, herrorIrq⟩ := h
  have hfsm : (c.step i).fsm =
      { c.fsm with
        dmaCtrlStartL2p := false
        dmaCtrlStartP2l := false } := by
    show c.pFsm i = _
    simp [pFsm, hstate, hitem.noAbort, hdone, herror]
  refine ⟨⟨?_, ?_, ?_, ?_, ?_, ?_⟩, ?_⟩ <;> simp [hfsm, hstate, hnext, hdoneIrq, herrorIrq]

/-- The transfer of an item with another one behind it is done. -/
theorem Shows.chain_step {l2p p2l : Bool} (h : Shows .transfer l2p p2l false c)
    (hitem : HoldsItem item start c) (hdone : i.dmaCtrlDone = true) (herror : i.dmaCtrlError = false)
    (hmore : item.more = true) : Shows .startChain false false false (c.step i) ∧
      (c.step i).fsm.dmaCtrlAbort = c.fsm.dmaCtrlAbort := by
  obtain ⟨hstate, hl2p, hp2l, hnext, hdoneIrq, herrorIrq⟩ := h
  have hfsm : (c.step i).fsm =
      { c.fsm with
        dmaCtrlStartL2p := false
        dmaCtrlStartP2l := false
        dmaCtrlCurrentState := .startChain } := by
    show c.pFsm i = _
    simp [pFsm, hstate, hitem.noAbort, hdone, herror, hitem.item, hmore]
  refine ⟨⟨?_, ?_, ?_, ?_, ?_, ?_⟩, ?_⟩ <;> simp [hfsm, hnext, hdoneIrq, herrorIrq]

/-- The transfer of the last item is done. -/
theorem Shows.done_step {l2p p2l : Bool} (h : Shows .transfer l2p p2l false c)
    (hitem : HoldsItem item start c) (hdone : i.dmaCtrlDone = true) (herror : i.dmaCtrlError = false)
    (hmore : item.more = false) :
    Rests (c.step i) ∧ (c.step i).fsm.dmaCtrlCurrentState = .idle ∧
      (c.step i).events = [.doneIrq] := by
  obtain ⟨hstate, hl2p, hp2l, hnext, hdoneIrq, herrorIrq⟩ := h
  have hfsm : (c.step i).fsm =
      { c.fsm with
        dmaCtrlStartL2p := false
        dmaCtrlStartP2l := false
        dmaStatus := cDone
        dmaDoneIrq := true
        dmaCtrlCurrentState := .idle } := by
    show c.pFsm i = _
    simp [pFsm, hstate, hitem.noAbort, hdone, herror, hitem.item, hmore]
  refine ⟨⟨?_, ?_, ?_, ?_, ?_⟩, ?_, ?_⟩ <;> simp [DmaController.events, hfsm, hnext, herrorIrq]

/-- The fetch of the next item is ordered: seven words from where the item says. -/
theorem Shows.startChain_step (h : Shows .startChain false false false c)
    (hitem : HoldsItem item start c) :
    Shows .chain false false true (c.step i) ∧
      (c.step i).lines.transfer = ⟨item.nextH, item.nextL, 7⟩ ∧
      (c.step i).fsm.dmaCtrlAbort = c.fsm.dmaCtrlAbort := by
  obtain ⟨hstate, hl2p, hp2l, hnext, hdoneIrq, herrorIrq⟩ := h
  have hfsm : (c.step i).fsm =
      { c.fsm with
        dmaCtrlCurrentState := .chain
        dmaCtrlHostAddrH := item.nextH
        dmaCtrlHostAddrL := item.nextL
        dmaCtrlLen := 0x1C#32
        dmaCtrlStartNext := true } := by
    show c.pFsm i = _
    simp [pFsm, hstate, hitem.item]
  refine ⟨⟨?_, ?_, ?_, ?_, ?_, ?_⟩, ?_, ?_⟩
  all_goals simp [hfsm, hl2p, hp2l, hdoneIrq, herrorIrq, lines, DmaCtrl.transfer]

/-- The FSM waits for the item. -/
theorem Shows.fetch_step {next : Bool} (h : Shows .chain false false next c)
    (hitem : HoldsItem item start c) (herror : i.dmaCtrlError = false) :
    Shows (if i.nextItemValid then .startTransfer else .chain) false false false (c.step i) ∧
      (c.step i).fsm.dmaCtrlAbort = c.fsm.dmaCtrlAbort := by
  obtain ⟨hstate, hl2p, hp2l, hnext, hdoneIrq, herrorIrq⟩ := h
  have hfsm : (c.step i).fsm =
      { c.fsm with
        dmaCtrlStartNext := false
        dmaCtrlCurrentState := if i.nextItemValid then .startTransfer else .chain } := by
    show c.pFsm i = _
    cases hvalid : i.nextItemValid <;> simp [pFsm, hstate, hitem.noAbort, herror, hvalid]
  refine ⟨⟨?_, ?_, ?_, ?_, ?_, ?_⟩, ?_⟩ <;> simp [hfsm, hl2p, hp2l, hdoneIrq, herrorIrq]

end DmaController

namespace ServedEngine

/-- The events of one cycle. -/
def events (s : ServedEngine) : List DmaEvent := s.controller.events

/-- Neither the P2L nor the L2P DMA master has a transfer. -/
structure Unused (s : ServedEngine) : Prop where
  atRest : s.AtRest
  pulses : Pulses s.master false false false
  noL2p : s.l2pBusy = false

/-- The chain is over, or not started: the FSM waits for the start bit. -/
def Over (s : ServedEngine) : Prop :=
  (s.controller.fsm.dmaCtrlCurrentState = .idle ∨ s.controller.fsm.dmaCtrlCurrentState = .error) ∧
    startBit s.controller.regs.dmaCtrlReg = false

/-- The registers hold the first item of the chain, and the start bit is set. -/
structure Started (item : DmaItem) (s : ServedEngine) : Prop where
  state : s.controller.fsm.dmaCtrlCurrentState = .idle ∨
    s.controller.fsm.dmaCtrlCurrentState = .error ∨ s.controller.fsm.dmaCtrlCurrentState = .abort
  rests : s.controller.Rests
  holds : s.controller.HoldsItem item true
  unused : s.Unused

/-- The transfer of `item` is under way, with `rest` behind it. -/
structure Transferring (mem : HostMemory) (item : DmaItem) (rest : List DmaItem) (s : ServedEngine) :
    Prop where
  shows : s.controller.Shows .transfer false false false
  noAbort : s.controller.fsm.dmaCtrlAbort = false
  holds : s.controller.HoldsItem item false
  words : item.words ≠ 0
  linked : Linked mem (item :: rest)
  ends : Ends (item :: rest)

/-- The transfer of `item` is done, and `next` is to be fetched, with `rest` behind it. -/
structure Chaining (mem : HostMemory) (item next : DmaItem) (rest : List DmaItem) (s : ServedEngine) :
    Prop where
  noAbort : s.controller.fsm.dmaCtrlAbort = false
  holds : s.controller.HoldsItem item false
  there : Holds mem item.next next
  linked : Linked mem (next :: rest)
  ends : Ends (next :: rest)

/-- What is still to be shown of a chain, and the steps left for it. -/
inductive Doing (mem : HostMemory) (s : ServedEngine) : List DmaEvent → ℕ → Prop
  | starting {item : DmaItem} {rest : List DmaItem} (started : Started item s)
      (linked : Linked mem (item :: rest)) (ends : Ends (item :: rest)) :
      Doing mem s (chainEvents (item :: rest)) (chainWork (item :: rest) + 1)
  | ordering {item : DmaItem} {rest : List DmaItem} {start : Bool}
      (shows : s.controller.Shows .startTransfer false false false)
      (holds : s.controller.HoldsItem item start) (unused : s.Unused)
      (linked : Linked mem (item :: rest)) (ends : Ends (item :: rest)) :
      Doing mem s (chainEvents (item :: rest)) (chainWork (item :: rest))
  | ordered {item : DmaItem} {rest : List DmaItem}
      (shows : s.controller.Shows .transfer (!item.isP2l) item.isP2l false)
      (orders : s.controller.Orders item) (noAbort : s.controller.fsm.dmaCtrlAbort = false)
      (holds : s.controller.HoldsItem item false) (unused : s.Unused) (words : item.words ≠ 0)
      (linked : Linked mem (item :: rest)) (ends : Ends (item :: rest)) :
      Doing mem s (eventsBehind item rest) (1 + item.transferWork + workBehind item rest)
  | l2p {item : DmaItem} {rest : List DmaItem} (transferring : Transferring mem item rest s)
      (atRest : s.AtRest) (pulses : Pulses s.master false false false) (busy : s.l2pBusy = true) :
      Doing mem s (eventsBehind item rest) (1 + workBehind item rest)
  | p2l {item : DmaItem} {rest : List DmaItem} {t : ReadTransfer} {k : ℕ}
      (transferring : Transferring mem item rest s) (reading : Reading t k s)
      (pulses : Pulses s.master false false false) (isNext : s.master.readReq.isNextItem = false)
      (noL2p : s.l2pBusy = false) :
      Doing mem s (eventsBehind item rest) (readWork t k s + 2 + workBehind item rest)
  | received {item : DmaItem} {rest : List DmaItem} (transferring : Transferring mem item rest s)
      (atRest : s.AtRest) (pulses : Pulses s.master true false false) (noL2p : s.l2pBusy = false) :
      Doing mem s (eventsBehind item rest) (2 + workBehind item rest)
  | done {item : DmaItem} {rest : List DmaItem} (transferring : Transferring mem item rest s)
      (atRest : s.AtRest) (pulses : Pulses s.master false true false) (noL2p : s.l2pBusy = false) :
      Doing mem s (eventsBehind item rest) (1 + workBehind item rest)
  | chaining {item next : DmaItem} {rest : List DmaItem}
      (shows : s.controller.Shows .startChain false false false)
      (chaining : Chaining mem item next rest s) (unused : s.Unused) :
      Doing mem s (chainEvents (next :: rest)) (42 + chainWork (next :: rest))
  | asking {item next : DmaItem} {rest : List DmaItem}
      (shows : s.controller.Shows .chain false false true)
      (transfer : s.controller.lines.transfer = ⟨item.nextH, item.nextL, 7⟩)
      (chaining : Chaining mem item next rest s) (unused : s.Unused) :
      Doing mem s (chainEvents (next :: rest)) (41 + chainWork (next :: rest))
  | fetching {item next : DmaItem} {rest : List DmaItem} {k : ℕ}
      (shows : s.controller.Shows .chain false false false)
      (chaining : Chaining mem item next rest s) (reading : Reading ⟨item.nextH, item.nextL, 7⟩ k s)
      (pulses : Pulses s.master false false false) (isNext : s.master.readReq.isNextItem = true)
      (stores : Stores next s) (noL2p : s.l2pBusy = false) :
      Doing mem s (chainEvents (next :: rest))
        (readWork ⟨item.nextH, item.nextL, 7⟩ k s + 1 + chainWork (next :: rest))
  | fetched {item next : DmaItem} {rest : List DmaItem}
      (shows : s.controller.Shows .chain false false false) (chaining : Chaining mem item next rest s)
      (atRest : s.AtRest) (pulses : Pulses s.master false false true)
      (nextItem : s.master.nextItem = next) (noL2p : s.l2pBusy = false) :
      Doing mem s (chainEvents (next :: rest)) (1 + chainWork (next :: rest))
  | finished {item : DmaItem} (isOver : s.Over) (rests : s.controller.Rests)
      (holds : s.controller.HoldsItem item false) (unused : s.Unused) : Doing mem s [] 0

/-- The ways in which the engine is served. -/
inductive Service where
  | clk
  | grant
  | completion
  | l2pDone

/-- The arbiter, the host and the L2P DMA master serve the engine when it waits for them. -/
def Serves : Service → ServedEngine → DmaEngineIn → Prop
  | .clk, _, _ => True
  | .grant, s, i => s.master.fsm.p2lDmaCurrentState = .header → i.arbPdmGnt = true
  | .completion, s, i =>
      s.master.fsm.p2lDmaCurrentState = .waitReadCompletion → i.pd.completionWord = true
  | .l2pDone, s, i => s.l2pBusy = true → i.l2pDone = true

/-- What would take the engine further. -/
def Needs : Service → ServedEngine → Prop
  | .clk, s => ¬ s.Over ∧ s.master.fsm.p2lDmaCurrentState ≠ .header ∧
      s.master.fsm.p2lDmaCurrentState ≠ .waitReadCompletion ∧ s.l2pBusy = false
  | .grant, s => s.master.fsm.p2lDmaCurrentState = .header
  | .completion, s => s.master.fsm.p2lDmaCurrentState = .waitReadCompletion
  | .l2pDone, s => s.l2pBusy = true

/-- An edge shows the first of what is left to be shown, or nothing, and takes the engine one
step further, unless it does not get what it needs. -/
def Advances (gByteSwap : Bool) (mem : HostMemory) (s : ServedEngine) (i : DmaEngineIn)
    (es : List DmaEvent) (n : ℕ) : Prop :=
  ∃ es' n', Doing mem (step gByteSwap s i) es' n' ∧ es = (step gByteSwap s i).events ++ es' ∧
    (n' < n ∨ n' = n ∧ ∀ k, Needs k s → ¬ Serves k s i ∧ Needs k (step gByteSwap s i))

variable {gByteSwap : Bool} {mem : HostMemory} {s : ServedEngine} {i : DmaEngineIn}
  {item : DmaItem} {rest : List DmaItem} {doneT done valid : Bool}

/-! ## One edge in each situation -/

/-- What the controller reads while there are no errors and no loads. -/
def cleanIn (s : ServedEngine) (i : DmaEngineIn) (done valid : Bool) : DmaControllerIn :=
  ⟨.none, i.l2pDone || done, false, s.master.nextItem, valid⟩

theorem controllerIn_eq (hlegal : s.Legal mem i) (hpulses : Pulses s.master doneT done valid) :
    s.engine.controllerIn i = s.cleanIn i done valid := by
  obtain ⟨-, hdone, hvalid, hcompletion, hbusy⟩ := hpulses
  have herror : s.engine.master.dmaCtrlError = false := by
    rw [P2lDmaMaster.dmaCtrlError, show s.engine.master.addrCnt.dmaBusyError = false from hbusy,
      show s.engine.master.fsm.completionError = false from hcompletion]
    rfl
  rw [DmaEngine.controllerIn, hlegal.noLoad, hlegal.noError, herror]
  rw [show s.engine.master.ctrlPipe.dmaCtrlDone = done from hdone,
    show s.engine.master.fsm.nextItemValid = valid from hvalid]
  rfl

variable (gByteSwap) in
/-- An edge of the whole, as an edge of the controller. -/
theorem controller_step (hlegal : s.Legal mem i) (hpulses : Pulses s.master doneT done valid) :
    (step gByteSwap s i).controller =
      s.controller.step (s.cleanIn i done valid) := by
  rw [← controllerIn_eq hlegal hpulses]
  rfl

theorem noL2pDone (hlegal : s.Legal mem i) (hbusy : s.l2pBusy = false) : i.l2pDone = false := by
  by_contra hdone
  have := hlegal.l2pDone (by simpa using hdone)
  simp [hbusy] at this

variable (gByteSwap) in
theorem l2pBusy_step (hl2p : s.controller.fsm.dmaCtrlStartL2p = false) (hbusy : s.l2pBusy = false) :
    (step gByteSwap s i).l2pBusy = false := by
  show (s.controller.fsm.dmaCtrlStartL2p || s.l2pBusy && !i.l2pDone) = false
  rw [hl2p, hbusy]
  rfl

variable (gByteSwap) in
/-- Nothing begins without a start pulse. -/
theorem Unused.step (h : s.Unused) (hl2p : s.controller.fsm.dmaCtrlStartL2p = false)
    (hp2l : s.controller.fsm.dmaCtrlStartP2l = false)
    (hnext : s.controller.fsm.dmaCtrlStartNext = false) : (step gByteSwap s i).Unused :=
  ⟨h.atRest.step _ hp2l hnext, h.pulses.idle_step _ h.atRest.ready.idle, l2pBusy_step _ hl2p h.noL2p⟩

/-- An edge that shows nothing. -/
theorem Advances.quiet {es : List DmaEvent} {n n' : ℕ} (hdoing : Doing mem (step gByteSwap s i) es n')
    (hevents : (step gByteSwap s i).events = []) (hless : n' < n) :
    Advances gByteSwap mem s i es n :=
  ⟨es, n', hdoing, by rw [hevents, List.nil_append], .inl hless⟩

variable (gByteSwap) in
/-- An edge without anything to store keeps the item. -/
theorem holds_step {start : Bool} (hlegal : s.Legal mem i) (hpulses : Pulses s.master doneT done false)
    (hholds : s.controller.HoldsItem item start) :
    (step gByteSwap s i).controller.HoldsItem item false := by
  rw [controller_step _ hlegal hpulses]
  simpa [cleanIn] using hholds.step (i := s.cleanIn i done false) rfl

theorem starting_step (hstarted : Started item s) (hlinked : Linked mem (item :: rest))
    (hends : Ends (item :: rest)) (hlegal : s.Legal mem i) :
    Advances gByteSwap mem s i (chainEvents (item :: rest)) (chainWork (item :: rest) + 1) := by
  obtain ⟨hstate, hrests, hholds, hunused⟩ := hstarted
  have hcontroller := controller_step gByteSwap hlegal hunused.pulses
  have hshows : (ServedEngine.step gByteSwap s i).controller.Shows .startTransfer false false false := by
    rw [hcontroller]
    exact hrests.start_step hholds.start hstate
  have hholds' := holds_step gByteSwap hlegal hunused.pulses hholds
  have hunused' := hunused.step gByteSwap (i := i) hrests.noL2p hrests.noP2l hrests.noNext
  exact .quiet (.ordering hshows hholds' hunused' hlinked hends) hshows.events (by omega)

theorem ordering_step {start : Bool} (hshows : s.controller.Shows .startTransfer false false false)
    (hholds : s.controller.HoldsItem item start) (hunused : s.Unused)
    (hlinked : Linked mem (item :: rest)) (hends : Ends (item :: rest)) (hlegal : s.Legal mem i) :
    Advances gByteSwap mem s i (chainEvents (item :: rest)) (chainWork (item :: rest)) := by
  have hcontroller := controller_step gByteSwap hlegal hunused.pulses
  have hholds' := holds_step gByteSwap hlegal hunused.pulses hholds
  have hunused' := hunused.step gByteSwap (i := i) hshows.l2p hshows.p2l hshows.next
  by_cases hwords : item.words = 0
  · obtain ⟨hrests, herror, hevents⟩ := hshows.error_step (i := s.cleanIn i false false) hholds hwords
    rw [← hcontroller] at hrests herror hevents
    refine ⟨[], 0, .finished ⟨.inr herror, hholds'.start⟩ hrests hholds' hunused', ?_, .inl ?_⟩
    · rw [chainEvents, if_pos hwords, events, hevents, List.append_nil]
    · rw [chainWork, if_pos hwords]
      omega
  · obtain ⟨hshows', horders, hnoAbort⟩ := hshows.order_step (i := s.cleanIn i false false) hholds hwords
    rw [← hcontroller] at hshows' horders hnoAbort
    refine ⟨_, _, .ordered hshows' horders hnoAbort hholds' hunused' hwords hlinked hends, ?_, .inl ?_⟩
    · rw [chainEvents_cons rest hwords, events, horders.events hshows', List.singleton_append]
    · rw [chainWork_cons rest hwords]
      omega

/-- The transfer of an item is done: the next item is fetched, or the chain is over. -/
theorem Transferring.done_step (h : Transferring mem item rest s)
    (hpulses : Pulses s.master false done false) (hlegal : s.Legal mem i)
    (hdone : (i.l2pDone || done) = true) (hunused : (ServedEngine.step gByteSwap s i).Unused) :
    Advances gByteSwap mem s i (eventsBehind item rest) (1 + workBehind item rest) := by
  obtain ⟨hshows, hnoAbort, hholds, hwords, hlinked, hends⟩ := h
  have hcontroller := controller_step gByteSwap hlegal hpulses
  have hholds' := holds_step gByteSwap hlegal hpulses hholds
  -- the attribute of the item in the registers decides
  cases hmore : item.more with
  | true =>
      obtain ⟨next, rest, rfl, hthere, hlinked', hends'⟩ := hends.next hlinked hwords hmore
      obtain ⟨hshows', habort⟩ := hshows.chain_step (i := s.cleanIn i done false) hholds hdone rfl hmore
      rw [← hcontroller] at hshows' habort
      rw [eventsBehind, workBehind, hmore, if_pos rfl, if_pos rfl]
      exact .quiet (.chaining hshows' ⟨habort.trans hnoAbort, hholds', hthere, hlinked', hends'⟩ hunused)
        hshows'.events (by omega)
  | false =>
      obtain ⟨hrests, hidle, hevents⟩ := hshows.done_step (i := s.cleanIn i done false) hholds hdone rfl hmore
      rw [← hcontroller] at hrests hidle hevents
      rw [eventsBehind, workBehind, hmore, if_neg (by simp), if_neg (by simp)]
      exact ⟨[], 0, .finished ⟨.inl hidle, hholds'.start⟩ hrests hholds' hunused,
        by rw [events, hevents, List.append_nil], .inl (by omega)⟩

variable (gByteSwap) in
/-- While the transfer is not done the controller stays as it is. -/
theorem Transferring.stay_step (h : Transferring mem item rest s)
    (hpulses : Pulses s.master doneT done false) (hlegal : s.Legal mem i)
    (hdone : (i.l2pDone || done) = false) :
    Transferring mem item rest (ServedEngine.step gByteSwap s i) ∧
      (ServedEngine.step gByteSwap s i).events = [] := by
  obtain ⟨hshows, hnoAbort, hholds, hwords, hlinked, hends⟩ := h
  have hcontroller := controller_step gByteSwap hlegal hpulses
  have hholds' := holds_step gByteSwap hlegal hpulses hholds
  obtain ⟨hshows', habort⟩ := hshows.transfer_step (i := s.cleanIn i done false) hholds hdone rfl
  rw [← hcontroller] at hshows' habort
  exact ⟨⟨hshows', habort.trans hnoAbort, hholds', hwords, hlinked, hends⟩, hshows'.events⟩

/-- The order reaches one of the two DMA masters. -/
theorem ordered_step (hshows : s.controller.Shows .transfer (!item.isP2l) item.isP2l false)
    (horders : s.controller.Orders item) (hnoAbort : s.controller.fsm.dmaCtrlAbort = false)
    (hholds : s.controller.HoldsItem item false) (hunused : s.Unused) (hwords : item.words ≠ 0)
    (hlinked : Linked mem (item :: rest)) (hends : Ends (item :: rest)) (hlegal : s.Legal mem i) :
    Advances gByteSwap mem s i (eventsBehind item rest)
      (1 + item.transferWork + workBehind item rest) := by
  obtain ⟨hatRest, hpulses, hbusy⟩ := hunused
  have hcontroller := controller_step gByteSwap hlegal hpulses
  have hholds' := holds_step gByteSwap hlegal hpulses hholds
  have hdone : (i.l2pDone || false) = false := by rw [noL2pDone hlegal hbusy]; rfl
  obtain ⟨hshows', habort⟩ := hshows.transfer_step (i := s.cleanIn i false false) hholds hdone rfl
  rw [← hcontroller] at hshows' habort
  have htransferring : Transferring mem item rest (ServedEngine.step gByteSwap s i) :=
    ⟨hshows', habort.trans hnoAbort, hholds', hwords, hlinked, hends⟩
  have hpulses' := hpulses.idle_step gByteSwap (i := i) hatRest.ready.idle
  cases hdir : item.isP2l with
  | false =>
      rw [hdir, Bool.not_false] at hshows
      have hatRest' := hatRest.step gByteSwap (i := i) hshows.p2l hshows.next
      have hbusy' : (ServedEngine.step gByteSwap s i).l2pBusy = true := by
        show (s.controller.fsm.dmaCtrlStartL2p || s.l2pBusy && !i.l2pDone) = true
        rw [hshows.l2p, Bool.true_or]
      refine .quiet (.l2p htransferring hatRest' hpulses' hbusy') hshows'.events ?_
      rw [DmaItem.transferWork, hdir, if_neg (by simp)]
      omega
  | true =>
      rw [hdir, Bool.not_true] at hshows
      have htransfer : s.controller.lines.transfer = ⟨item.hostAddrH, item.hostAddrL, item.words.toNat⟩ := by
        show (⟨s.controller.fsm.dmaCtrlHostAddrH, s.controller.fsm.dmaCtrlHostAddrL,
          (s.controller.fsm.dmaCtrlLen.extractLsb' 2 30).toNat⟩ : ReadTransfer) = _
        rw [horders.hostAddrH, horders.hostAddrL, horders.len]
        rfl
      have hpos : 1 ≤ item.words.toNat := by
        have hne : item.words.toNat ≠ 0 := fun h => hwords (BitVec.eq_of_toNat_eq h)
        omega
      have hstart : (s.controller.lines.startP2l || s.controller.lines.startNext) = true := by
        rw [show s.controller.lines.startP2l = true from hshows.p2l, Bool.true_or]
      obtain ⟨hreading, hheader, hisNext⟩ := hatRest.start gByteSwap (i := i) hstart
        (by rw [htransfer]; exact hpos)
      rw [htransfer] at hreading
      refine .quiet (.p2l htransferring hreading hpulses' (hisNext.trans hshows.next)
        (l2pBusy_step _ hshows.l2p hbusy)) hshows'.events ?_
      rw [DmaItem.transferWork, hdir, if_pos rfl, readWork, hheader]
      simp only
      omega

theorem l2p_step (htransferring : Transferring mem item rest s) (hatRest : s.AtRest)
    (hpulses : Pulses s.master false false false) (hbusy : s.l2pBusy = true)
    (hlegal : s.Legal mem i) :
    Advances gByteSwap mem s i (eventsBehind item rest) (1 + workBehind item rest) := by
  have hshows := htransferring.shows
  have hatRest' := hatRest.step gByteSwap (i := i) hshows.p2l hshows.next
  have hpulses' := hpulses.idle_step gByteSwap (i := i) hatRest.ready.idle
  have hbusy' : (ServedEngine.step gByteSwap s i).l2pBusy = !i.l2pDone := by
    show (s.controller.fsm.dmaCtrlStartL2p || s.l2pBusy && !i.l2pDone) = _
    rw [hshows.l2p, hbusy, Bool.false_or, Bool.true_and]
  cases hdone : i.l2pDone with
  | true =>
      rw [hdone] at hbusy'
      exact htransferring.done_step hpulses hlegal (by rw [hdone]; rfl) ⟨hatRest', hpulses', hbusy'⟩
  | false =>
      -- the engine waits for the L2P DMA master and for nothing else
      rw [hdone] at hbusy'
      obtain ⟨hstay, hevents⟩ := htransferring.stay_step gByteSwap hpulses hlegal
        (by rw [hdone]; rfl)
      refine ⟨_, _, .l2p hstay hatRest' hpulses' hbusy', by rw [hevents]; rfl, .inr ⟨rfl, ?_⟩⟩
      intro k hk
      cases k with
      | clk => simp [Needs, hbusy] at hk
      | grant => simp [Needs, hatRest.ready.idle] at hk
      | completion => simp [Needs, hatRest.ready.idle] at hk
      | l2pDone => exact ⟨fun h => by simp [h hbusy] at hdone, hbusy'⟩

/-- What a stalled master needs it does not get, and still needs after the edge. -/
theorem needs_of_stalls (hstalls : Stalls s i) (hbusy : s.l2pBusy = false)
    (hsame : (step gByteSwap s i).master.fsm.p2lDmaCurrentState = s.master.fsm.p2lDmaCurrentState)
    (k : Service) (hk : Needs k s) : ¬ Serves k s i ∧ Needs k (step gByteSwap s i) := by
  cases k with
  | clk =>
      rcases hstalls with ⟨hheader, -⟩ | ⟨hwait, -⟩
      · exact absurd hheader hk.2.1
      · exact absurd hwait hk.2.2.1
  | grant =>
      refine ⟨fun hserves => ?_, hsame.trans hk⟩
      rcases hstalls with ⟨-, hgnt⟩ | ⟨hwait, -⟩
      · simp [hserves hk] at hgnt
      · simp [Needs, hwait] at hk
  | completion =>
      refine ⟨fun hserves => ?_, hsame.trans hk⟩
      rcases hstalls with ⟨hheader, -⟩ | ⟨-, hword⟩
      · simp [Needs, hheader] at hk
      · simp [hserves hk] at hword
  | l2pDone => simp [Needs, hbusy] at hk

theorem p2l_step {t : ReadTransfer} {k : ℕ} (htransferring : Transferring mem item rest s)
    (hreading : Reading t k s) (hpulses : Pulses s.master false false false)
    (hisNext : s.master.readReq.isNextItem = false) (hbusy : s.l2pBusy = false)
    (hlegal : s.Legal mem i) :
    Advances gByteSwap mem s i (eventsBehind item rest)
      (readWork t k s + 2 + workBehind item rest) := by
  have hshows := htransferring.shows
  have horder : NoOrder s.controller := ⟨hshows.p2l, hshows.next, htransferring.noAbort⟩
  have hbusy' := l2pBusy_step gByteSwap (i := i) hshows.l2p hbusy
  obtain ⟨hstay, hevents⟩ := htransferring.stay_step gByteSwap hpulses hlegal
    (by rw [noL2pDone hlegal hbusy]; rfl)
  rcases hreading.step gByteSwap hpulses horder hlegal with hgoes | ⟨hfinishes, -⟩
  · obtain ⟨k', hreading', hpulses', hwork⟩ := hgoes
    have hisNext' :=
      (P2lDmaMaster.isNextItem_step gByteSwap (i := s.engine.masterIn i) (.inl hreading.busy)).trans hisNext
    refine ⟨_, _, .p2l hstay hreading' hpulses' hisNext' hbusy', by rw [hevents]; rfl, ?_⟩
    rcases hwork with hless | ⟨hsame, hstalls, hstate⟩
    · exact .inl (by omega)
    · exact .inr ⟨by omega, needs_of_stalls hstalls hbusy hstate⟩
  · -- the last word is received, and `dma_ctrl_done_t` rises
    obtain ⟨hatRest', hpulses'⟩ := hfinishes
    rw [hisNext] at hpulses'
    refine .quiet (.received hstay hatRest' hpulses' hbusy') hevents ?_
    have hpos : 1 ≤ readWork t k s := by
      unfold readWork
      have hne := hreading.busy
      cases hstate : s.master.fsm.p2lDmaCurrentState with
      | idle => exact absurd hstate hne
      | header => simp only; omega
      | addrH => simp only; omega
      | addrL => simp only; omega
      | waitReadCompletion => simp only; omega
    omega

/-- `dma_ctrl_done_t` goes through `p_ctrl_pipe`. -/
theorem received_step (htransferring : Transferring mem item rest s) (hatRest : s.AtRest)
    (hpulses : Pulses s.master true false false) (hbusy : s.l2pBusy = false)
    (hlegal : s.Legal mem i) :
    Advances gByteSwap mem s i (eventsBehind item rest) (2 + workBehind item rest) := by
  have hshows := htransferring.shows
  obtain ⟨hstay, hevents⟩ := htransferring.stay_step gByteSwap hpulses hlegal
    (by rw [noL2pDone hlegal hbusy]; rfl)
  exact .quiet (.done hstay (hatRest.step _ hshows.p2l hshows.next)
    (hpulses.idle_step _ hatRest.ready.idle) (l2pBusy_step _ hshows.l2p hbusy)) hevents (by omega)

theorem done_step (htransferring : Transferring mem item rest s) (hatRest : s.AtRest)
    (hpulses : Pulses s.master false true false) (hbusy : s.l2pBusy = false)
    (hlegal : s.Legal mem i) :
    Advances gByteSwap mem s i (eventsBehind item rest) (1 + workBehind item rest) := by
  have hshows := htransferring.shows
  refine htransferring.done_step hpulses hlegal (by rw [Bool.or_true]) ⟨?_, ?_, ?_⟩
  · exact hatRest.step _ hshows.p2l hshows.next
  · exact hpulses.idle_step _ hatRest.ready.idle
  · exact l2pBusy_step _ hshows.l2p hbusy

variable {next : DmaItem}

theorem chaining_step (hshows : s.controller.Shows .startChain false false false)
    (hchaining : Chaining mem item next rest s) (hunused : s.Unused) (hlegal : s.Legal mem i) :
    Advances gByteSwap mem s i (chainEvents (next :: rest)) (42 + chainWork (next :: rest)) := by
  obtain ⟨hnoAbort, hholds, hthere, hlinked, hends⟩ := hchaining
  have hcontroller := controller_step gByteSwap hlegal hunused.pulses
  have hholds' := holds_step gByteSwap hlegal hunused.pulses hholds
  have hunused' := hunused.step gByteSwap (i := i) hshows.l2p hshows.p2l hshows.next
  obtain ⟨hshows', htransfer, habort⟩ := hshows.startChain_step (i := s.cleanIn i false false) hholds
  rw [← hcontroller] at hshows' htransfer habort
  have hchaining' : Chaining mem item next rest (ServedEngine.step gByteSwap s i) :=
    ⟨habort.trans hnoAbort, hholds', hthere, hlinked, hends⟩
  exact .quiet (.asking hshows' htransfer hchaining' hunused') hshows'.events (by omega)

/-- The order of the fetch reaches the P2L DMA master. -/
theorem asking_step (hshows : s.controller.Shows .chain false false true)
    (htransfer : s.controller.lines.transfer = ⟨item.nextH, item.nextL, 7⟩)
    (hchaining : Chaining mem item next rest s) (hunused : s.Unused) (hlegal : s.Legal mem i) :
    Advances gByteSwap mem s i (chainEvents (next :: rest)) (41 + chainWork (next :: rest)) := by
  obtain ⟨hnoAbort, hholds, hthere, hlinked, hends⟩ := hchaining
  obtain ⟨hatRest, hpulses, hbusy⟩ := hunused
  have hcontroller := controller_step gByteSwap hlegal hpulses
  have hholds' := holds_step gByteSwap hlegal hpulses hholds
  obtain ⟨hshows', habort⟩ := hshows.fetch_step (i := s.cleanIn i false false) hholds rfl
  rw [← hcontroller] at hshows' habort
  have hstart : (s.controller.lines.startP2l || s.controller.lines.startNext) = true := by
    rw [show s.controller.lines.startNext = true from hshows.next, Bool.or_true]
  have hlen : 1 ≤ s.controller.lines.transfer.len := by
    rw [htransfer]
    exact Nat.succ_le_succ (Nat.zero_le 6)
  obtain ⟨hreading, hheader, hisNext⟩ := hatRest.start gByteSwap (i := i) hstart hlen
  rw [htransfer] at hreading
  have hstores : Stores next (ServedEngine.step gByteSwap s i) := fun h => by simp [hheader] at h
  refine .quiet (.fetching hshows' ⟨habort.trans hnoAbort, hholds', hthere, hlinked, hends⟩ hreading
    (hpulses.idle_step _ hatRest.ready.idle) (hisNext.trans hshows.next) hstores
    (l2pBusy_step _ hshows.l2p hbusy)) hshows'.events ?_
  rw [readWork, hheader]
  simp only
  omega

theorem fetching_step {k : ℕ} (hshows : s.controller.Shows .chain false false false)
    (hchaining : Chaining mem item next rest s) (hreading : Reading ⟨item.nextH, item.nextL, 7⟩ k s)
    (hpulses : Pulses s.master false false false) (hisNext : s.master.readReq.isNextItem = true)
    (hstores : Stores next s) (hbusy : s.l2pBusy = false) (hlegal : s.Legal mem i) :
    Advances gByteSwap mem s i (chainEvents (next :: rest))
      (readWork ⟨item.nextH, item.nextL, 7⟩ k s + 1 + chainWork (next :: rest)) := by
  obtain ⟨hnoAbort, hholds, hthere, hlinked, hends⟩ := hchaining
  have hcontroller := controller_step gByteSwap hlegal hpulses
  have hholds' := holds_step gByteSwap hlegal hpulses hholds
  have horder : NoOrder s.controller := ⟨hshows.p2l, hshows.next, hnoAbort⟩
  have hbusy' := l2pBusy_step gByteSwap (i := i) hshows.l2p hbusy
  obtain ⟨hshows', habort⟩ := hshows.fetch_step (i := s.cleanIn i false false) hholds rfl
  rw [← hcontroller] at hshows' habort
  have hchaining' : Chaining mem item next rest (ServedEngine.step gByteSwap s i) :=
    ⟨habort.trans hnoAbort, hholds', hthere, hlinked, hends⟩
  obtain ⟨hstores', hstored⟩ := hstores.step gByteSwap hreading rfl hthere horder hlegal
    hisNext
  rcases hreading.step gByteSwap hpulses horder hlegal with
    hgoes | ⟨hfinishes, hwait, hone, hword⟩
  · obtain ⟨k', hreading', hpulses', hwork⟩ := hgoes
    have hisNext' :=
      (P2lDmaMaster.isNextItem_step gByteSwap (i := s.engine.masterIn i) (.inl hreading.busy)).trans hisNext
    refine ⟨_, _, .fetching hshows' hchaining' hreading' hpulses' hisNext' hstores' hbusy',
      by rw [show (ServedEngine.step gByteSwap s i).events = [] from hshows'.events]; rfl, ?_⟩
    rcases hwork with hless | ⟨hsame, hstalls, hstate⟩
    · exact .inl (by omega)
    · exact .inr ⟨by omega, needs_of_stalls hstalls hbusy hstate⟩
  · obtain ⟨hatRest', hpulses'⟩ := hfinishes
    rw [hisNext] at hpulses'
    refine .quiet (.fetched hshows' hchaining' hatRest' hpulses' (hstored hwait hone hword) hbusy')
      hshows'.events ?_
    simp only [readWork, hwait]
    omega

/-- The item arrives, and takes the place of the one before. -/
theorem fetched_step (hshows : s.controller.Shows .chain false false false)
    (hchaining : Chaining mem item next rest s) (hatRest : s.AtRest)
    (hpulses : Pulses s.master false false true) (hnext : s.master.nextItem = next)
    (hbusy : s.l2pBusy = false) (hlegal : s.Legal mem i) :
    Advances gByteSwap mem s i (chainEvents (next :: rest)) (1 + chainWork (next :: rest)) := by
  obtain ⟨-, hholds, -, hlinked, hends⟩ := hchaining
  have hcontroller := controller_step gByteSwap hlegal hpulses
  obtain ⟨hshows', -⟩ := hshows.fetch_step (i := s.cleanIn i false true) hholds rfl
  have hholds' := hholds.step (i := s.cleanIn i false true) rfl
  rw [← hcontroller] at hshows' hholds'
  -- `p_regs` loads the item and sets the start bit, and the FSM goes to `DMA_START_TRANSFER`
  have hitem : (s.cleanIn i false true).nextItem = next := hnext
  rw [hitem] at hholds'
  have hunused' : (ServedEngine.step gByteSwap s i).Unused :=
    ⟨hatRest.step _ hshows.p2l hshows.next, hpulses.idle_step _ hatRest.ready.idle,
      l2pBusy_step _ hshows.l2p hbusy⟩
  exact .quiet (.ordering hshows' hholds' hunused' hlinked hends) hshows'.events (by omega)

theorem over_step (hover : s.Over) (hrests : s.controller.Rests)
    (hholds : s.controller.HoldsItem item false) (hunused : s.Unused) (hlegal : s.Legal mem i) :
    Advances gByteSwap mem s i [] 0 := by
  have hcontroller := controller_step gByteSwap hlegal hunused.pulses
  have hholds' := holds_step gByteSwap hlegal hunused.pulses hholds
  have hunused' := hunused.step gByteSwap (i := i) hrests.noL2p hrests.noP2l hrests.noNext
  have hshows' := hrests.stay_step (i := s.cleanIn i false false) hover.2 hover.1
  rw [← hcontroller] at hshows'
  have hrests' : (ServedEngine.step gByteSwap s i).controller.Rests :=
    ⟨hshows'.l2p, hshows'.p2l, hshows'.next, fun h => by simp [hshows'.noDoneIrq] at h,
      fun h => by simp [hshows'.noErrorIrq] at h⟩
  have hover' : (ServedEngine.step gByteSwap s i).Over := by
    refine ⟨?_, hholds'.start⟩
    rw [hshows'.state]
    exact hover.1
  refine ⟨[], 0, .finished hover' hrests' hholds' hunused', ?_, .inr ⟨rfl, fun k hk => ?_⟩⟩
  · rw [events, hshows'.events, List.append_nil]
  · have hidle := hunused.atRest.ready.idle
    cases k with
    | clk => exact absurd hover hk.1
    | grant => simp [Needs, hidle] at hk
    | completion => simp [Needs, hidle] at hk
    | l2pDone => simp [Needs, hunused.noL2p] at hk

variable (gByteSwap) in
/-- Every edge. -/
theorem Doing.step {es : List DmaEvent} {n : ℕ} (h : Doing mem s es n) (hlegal : s.Legal mem i) :
    Advances gByteSwap mem s i es n := by
  cases h with
  | starting started linked ends => exact starting_step started linked ends hlegal
  | ordering shows holds unused linked ends =>
      exact ordering_step shows holds unused linked ends hlegal
  | ordered shows orders noAbort holds unused words linked ends =>
      exact ordered_step shows orders noAbort holds unused words linked ends hlegal
  | l2p transferring atRest pulses busy => exact l2p_step transferring atRest pulses busy hlegal
  | p2l transferring reading pulses isNext noL2p =>
      exact p2l_step transferring reading pulses isNext noL2p hlegal
  | received transferring atRest pulses noL2p =>
      exact received_step transferring atRest pulses noL2p hlegal
  | done transferring atRest pulses noL2p =>
      exact done_step transferring atRest pulses noL2p hlegal
  | chaining shows chaining unused => exact chaining_step shows chaining unused hlegal
  | asking shows transfer chaining unused =>
      exact asking_step shows transfer chaining unused hlegal
  | fetching shows chaining reading pulses isNext stores noL2p =>
      exact fetching_step shows chaining reading pulses isNext stores noL2p hlegal
  | fetched shows chaining atRest pulses nextItem noL2p =>
      exact fetched_step shows chaining atRest pulses nextItem noL2p hlegal
  | finished isOver rests holds unused => exact over_step isOver rests holds unused hlegal

/-! ## A whole chain -/

theorem chainWork_ne_zero (item : DmaItem) (rest : List DmaItem) : chainWork (item :: rest) ≠ 0 := by
  unfold chainWork
  split_ifs <;> omega

/-- The FSM waits for the start bit exactly when nothing of the chain is left. -/
theorem Doing.over_iff {es : List DmaEvent} {n : ℕ} (h : Doing mem s es n) : s.Over ↔ n = 0 := by
  -- the FSM is idle or in error in the first and in the last situation only
  have hbusy : ∀ {state : DmaCtrlState} {l2p p2l next : Bool},
      s.controller.Shows state l2p p2l next → state ≠ .idle ∧ state ≠ .error → ¬ s.Over := by
    intro state l2p p2l next hshows hstate hover
    rcases hover.1 with hidle | herror
    · exact hstate.1 (hshows.state.symm.trans hidle)
    · exact hstate.2 (hshows.state.symm.trans herror)
  cases h with
  | starting started linked ends =>
      refine iff_of_false (fun hover => ?_) (by omega)
      have hstart := hover.2
      simp [started.holds.start] at hstart
  | ordering shows holds unused linked ends =>
      exact iff_of_false (hbusy shows (by simp)) (chainWork_ne_zero _ _)
  | ordered shows orders noAbort holds unused words linked ends =>
      exact iff_of_false (hbusy shows (by simp)) (by omega)
  | l2p transferring atRest pulses busy =>
      exact iff_of_false (hbusy transferring.shows (by simp)) (by omega)
  | p2l transferring reading pulses isNext noL2p =>
      exact iff_of_false (hbusy transferring.shows (by simp)) (by omega)
  | received transferring atRest pulses noL2p =>
      exact iff_of_false (hbusy transferring.shows (by simp)) (by omega)
  | done transferring atRest pulses noL2p =>
      exact iff_of_false (hbusy transferring.shows (by simp)) (by omega)
  | chaining shows chaining unused => exact iff_of_false (hbusy shows (by simp)) (by omega)
  | asking shows transfer chaining unused => exact iff_of_false (hbusy shows (by simp)) (by omega)
  | fetching shows chaining reading pulses isNext stores noL2p =>
      exact iff_of_false (hbusy shows (by simp)) (by omega)
  | fetched shows chaining atRest pulses nextItem noL2p =>
      exact iff_of_false (hbusy shows (by simp)) (by omega)
  | finished isOver rests holds unused => exact iff_of_true isOver rfl

theorem Doing.eq_nil {es : List DmaEvent} {n : ℕ} (h : Doing mem s es n) (hn : n = 0) : es = [] := by
  have hover := h.over_iff.mpr hn
  cases h with
  | finished => rfl
  | ordering => exact absurd hn (chainWork_ne_zero _ _)
  | _ => omega

theorem Doing.needed {es : List DmaEvent} {n : ℕ} (h : Doing mem s es n) (hn : n ≠ 0) :
    ∃ k, Needs k s := by
  by_cases hheader : s.master.fsm.p2lDmaCurrentState = .header
  · exact ⟨.grant, hheader⟩
  by_cases hwait : s.master.fsm.p2lDmaCurrentState = .waitReadCompletion
  · exact ⟨.completion, hwait⟩
  cases hbusy : s.l2pBusy with
  | true => exact ⟨.l2pDone, hbusy⟩
  | false => exact ⟨.clk, fun hover => hn (h.over_iff.mp hover), hheader, hwait, hbusy⟩

/-- The events shown so far, and those still to be shown. -/
theorem Doing.run {es : List DmaEvent} {n : ℕ} {is : List DmaEngineIn} (h : Doing mem s es n)
    (legal : Always (ServedEngine.step gByteSwap) (Legal mem) s is) :
    ∃ es' n', Doing mem (Clocked.run (ServedEngine.step gByteSwap) s is) es' n' ∧
      es = log (ServedEngine.step gByteSwap) (after (ServedEngine.step gByteSwap) events) s is ++ es' := by
  refine invariant_log (motive := fun s shown => ∃ es' n', Doing mem s es' n' ∧ es = shown ++ es')
    ?_ legal ⟨es, n, h, rfl⟩
  intro s i shown hs hi
  obtain ⟨es', n', hdoing, hes⟩ := hs
  obtain ⟨es'', n'', hdoing', hes', -⟩ := hdoing.step gByteSwap hi
  refine ⟨es'', n'', hdoing', ?_⟩
  rw [hes, hes', List.append_assoc]
  rfl

/-- **Chains.**  Take any item in the registers of the DMA controller, with the start bit set
and no transfer under way, and any list of items in host memory linked to it.  In every run
that meets `Legal`, what the engine shows is a part of `chainEvents`: the starts of the items
in order, each once, up to the first that has no other behind it, and then one interrupt, for
done or for an item that is too short.  When the FSM waits for the start bit again all of it is
shown, and this is so after as many rounds of service as the chain has steps. -/
theorem chain_executed (gByteSwap : Bool) (mem : HostMemory) {s : ServedEngine} {item : DmaItem}
    {rest : List DmaItem} (hstarted : Started item s) (hlinked : Linked mem (item :: rest))
    (hends : Ends (item :: rest)) :
    (∀ is, Always (step gByteSwap) (Legal mem) s is →
      let shown := log (step gByteSwap) (after (step gByteSwap) events) s is
      shown <+: chainEvents (item :: rest) ∧
        ((run (step gByteSwap) s is).Over → shown = chainEvents (item :: rest))) ∧
    (∀ rounds, Always (step gByteSwap) (Legal mem) s rounds.flatten →
      Rounds (step gByteSwap) Serves s rounds → chainWork (item :: rest) + 1 ≤ rounds.length →
        (run (step gByteSwap) s rounds.flatten).Over) := by
  have hdoing : Doing mem s (chainEvents (item :: rest)) (chainWork (item :: rest) + 1) :=
    .starting hstarted hlinked hends
  refine ⟨fun is legal => ?_, fun rounds legal hrounds henough => ?_⟩
  · obtain ⟨es, n, hrun, hes⟩ := hdoing.run legal
    refine ⟨⟨es, hes.symm⟩, fun hover => ?_⟩
    rw [hes, hrun.eq_nil (hrun.over_iff.mp hover), List.append_nil]
  · -- every edge does a part of the work, or leaves what is needed as it is
    have hless : ∀ n s i, (∃ es, Doing mem s es n) → s.Legal mem i →
        (∃ m < n, ∃ es, Doing mem (step gByteSwap s i) es m) ∨
          (∃ es, Doing mem (step gByteSwap s i) es n) ∧
            ∀ k, Needs k s → ¬ Serves k s i ∧ Needs k (step gByteSwap s i) := by
      rintro n s i ⟨es, h⟩ hlegal
      obtain ⟨es', n', hdoing', -, hless | ⟨rfl, hneeds⟩⟩ := h.step gByteSwap hlegal
      · exact .inl ⟨n', hless, es', hdoing'⟩
      · exact .inr ⟨⟨es', hdoing'⟩, hneeds⟩
    have hneeded : ∀ n s, (∃ es, Doing mem s es n) → n ≠ 0 → ∃ k, Needs k s := by
      rintro n s ⟨es, h⟩ hn
      exact h.needed hn
    obtain ⟨es, hrun⟩ := finish_run hless hneeded legal ⟨_, hdoing⟩ hrounds henough
    exact hrun.over_iff.mpr rfl

/-! ### A chain of two items -/

/-- The first item of the chain reads a word from the host, and the second writes it back. -/
def firstItem : DmaItem := ⟨0x0, 0x0, 0x2000, 4, 0x1000, 0x0, 3⟩

def secondItem : DmaItem := ⟨0x0, 0x1, 0x3000, 4, 0x0, 0x0, 0⟩

/-- The second item lies at the host address `0x1000`. -/
def itemMemory : HostMemory := fun a => secondItem.hostWords[(a - 0x1000#64).toNat / 4]?

/-- The registers hold the first item, and the host has just set the start bit. -/
def loaded : ServedEngine where
  engine := DmaEngine.reset.step false
    { DmaEngine.quietEdge with
      loads := ⟨some 1, none, some 0x2000, none, some 4, some 0x1000, none, some 3⟩ }
  asked := false
  l2pBusy := false
  openRequest := []
  owed := []

/-- The item comes in two packets, with a wait state between its words. -/
def twoItemEdges : List DmaEngineIn :=
  let quiet := DmaEngine.quietEdge
  let grant := { quiet with arbPdmGnt := true }
  [quiet, quiet, quiet, quiet, grant, quiet, DmaEngine.completionEdge true 0xcafe, quiet, quiet, quiet,
    quiet, quiet, grant, quiet, DmaEngine.completionEdge false 0x0, DmaEngine.completionEdge true 0x3000,
    quiet, DmaEngine.completionEdge false 0x1, DmaEngine.completionEdge false 0x4, quiet,
    DmaEngine.completionEdge false 0x0, DmaEngine.completionEdge false 0x0,
    DmaEngine.completionEdge true 0x0, quiet, quiet, quiet, { quiet with l2pDone := true }, quiet]

theorem two_items_executed :
    log (step false) (after (step false) events) loaded twoItemEdges =
      [.start true 0x0 0x2000 4, .start false 0x0 0x100003000 4, .doneIrq] := by
  have hstarted : Started firstItem loaded :=
    ⟨by decide, ⟨by decide, by decide, by decide, by decide, by decide⟩,
      ⟨by decide, by decide, by decide⟩, ⟨⟨⟨by decide, by decide, by decide⟩, rfl, rfl⟩,
        ⟨by decide, by decide, by decide, by decide, by decide⟩, rfl⟩⟩
  have hlinked : Linked itemMemory [firstItem, secondItem] := by decide +kernel
  have hchain := chain_executed false itemMemory hstarted hlinked (by decide)
  have hover : (run (step false) loaded twoItemEdges).Over := ⟨by decide +kernel, by decide +kernel⟩
  rw [(hchain.1 twoItemEdges (by decide +kernel)).2 hover]
  decide +kernel

end ServedEngine

end Gn4124Core
