import Gn4124Core.DmaChain.Abort
import Gn4124Core.DmaChain.Items

/-!
# The DMA engine and the host

The DMA engine with what its surroundings remember of it: the arbiter the request of the previous
cycle, the L2P DMA master whether a transfer is under way, and the host the read request that is
being sent and the words it owes for the requests before.  The host may take any time for a word,
and may end a packet with any word.

`Reading` is the invariant of a transfer that reads from the host, a P2L transfer or the fetch of
an item: the words owed are the words that the P2L DMA master still counts.  Its proof follows
the states of the master.  `AtRest.start` begins a transfer; `Reading.header_step`,
`Reading.addrH_step` and `Reading.addrL_step` send a request, and with its last word the host
owes what it asks for; and while the master waits, `Reading.wait_cases` tells the three things
that can happen: no word, a word that is not the last of the request, and the last one
(`Reading.last_word`), behind which the next request follows or the transfer is over.

For the fetch of an item `Stores.step` says besides which fields of the item are loaded, so that
at the end the registers hold the item that lies in the memory of the host.
-/

namespace Gn4124Core

open Clocked

/-- The addresses of the words that a read request packet asks for. -/
def requestedAddresses (packet : List Word) : List (BitVec 64) :=
  match HostRead.parse packet with
  | some r => r.addresses
  | none => []

/-- The addresses of the words that the `k`-th request of a transfer asks for. -/
def ReadTransfer.addresses (t : ReadTransfer) (k : ℕ) : List (BitVec 64) :=
  HostRead.addresses ⟨t.address, t.chunk k⟩

@[simp] theorem ReadTransfer.length_addresses (t : ReadTransfer) (k : ℕ) :
    (t.addresses k).length = t.chunk k :=
  HostRead.length_addresses _

theorem ReadTransfer.requestedAddresses_packet {t : ReadTransfer} {k : ℕ} (hk : 1024 * k < t.len) :
    requestedAddresses (t.packet k) = t.addresses k := by
  rw [requestedAddresses, t.parse_packet hk]
  rfl

/-- The DMA engine, and what its surroundings remember of it. -/
structure ServedEngine where
  engine : DmaEngine
  asked : Bool
  l2pBusy : Bool
  openRequest : List Word
  owed : List (BitVec 64)
deriving DecidableEq

namespace ServedEngine

variable (gByteSwap : Bool) (mem : HostMemory) (s : ServedEngine) (i : DmaEngineIn)

def master : P2lDmaMaster := s.engine.master

def controller : DmaController := s.engine.controller

/-- The P2L DMA master with its request of the previous cycle. -/
def asking : Asking P2lDmaMaster := ⟨s.master, s.asked⟩

/-- The read requests complete after an edge, and the words of the one under way. -/
def requests : List (List Word) × List Word :=
  (s.engine.step gByteSwap i).master.presented.foldl frameStep ([], s.openRequest)

/-- One edge of `clk_i`. -/
def step : ServedEngine where
  engine := s.engine.step gByteSwap i
  asked := s.master.fsm.pdmArbReq
  l2pBusy := s.controller.fsm.dmaCtrlStartL2p || s.l2pBusy && !i.l2pDone
  openRequest := (s.requests gByteSwap i).2
  owed := (if i.pd.completionWord then s.owed.tail else s.owed) ++
    (s.requests gByteSwap i).1.flatMap requestedAddresses

/-- Every word of a completion is the next word that the host owes, and the last word owed
ends a packet. -/
def Answers : Prop := i.pd.completionWord = true → ∃ a ∈ s.owed.head?,
  (∀ w ∈ mem a, i.pd.data = w) ∧ (s.owed.length = 1 → i.pd.dataLast = true)

/-- What is assumed of the inputs in one cycle. -/
structure Legal : Prop where
  noLoad : i.loads = .none
  noError : i.l2pError = false
  l2pDone : i.l2pDone = true → s.l2pBusy = true
  noCpln : i.pd.masterCpln = false
  lastValid : i.pd.dataLast = true → i.pd.dataValid = true
  granted : i.arbPdmGnt = true → s.master.fsm.pdmArbReq = true → s.asked = true
  answers : s.Answers mem i
  noForeign : s.master.fsm.p2lDmaCurrentState = .waitReadCompletion →
    s.master.readReq.isNextItem = true → i.pd.dataValid = true → i.pd.masterCpld = true

instance : Decidable (s.Answers mem i) :=
  have (a : BitVec 64) : Decidable (∀ w ∈ mem a, i.pd.data = w) := Option.decidableForallMem _
  have : Decidable (∃ a ∈ s.owed.head?, (∀ w ∈ mem a, i.pd.data = w) ∧
      (s.owed.length = 1 → i.pd.dataLast = true)) := Option.decidableExistsMem _
  inferInstanceAs (Decidable (_ → _))

instance : Decidable (s.Legal mem i) :=
  decidable_of_iff (i.loads = .none ∧ i.l2pError = false ∧ (i.l2pDone = true → s.l2pBusy = true) ∧
      i.pd.masterCpln = false ∧ (i.pd.dataLast = true → i.pd.dataValid = true) ∧
      (i.arbPdmGnt = true → s.master.fsm.pdmArbReq = true → s.asked = true) ∧ s.Answers mem i ∧
      (s.master.fsm.p2lDmaCurrentState = .waitReadCompletion →
        s.master.readReq.isNextItem = true → i.pd.dataValid = true → i.pd.masterCpld = true))
    ⟨fun ⟨h₁, h₂, h₃, h₄, h₅, h₆, h₇, h₈⟩ => ⟨h₁, h₂, h₃, h₄, h₅, h₆, h₇, h₈⟩,
      fun ⟨h₁, h₂, h₃, h₄, h₅, h₆, h₇, h₈⟩ => ⟨h₁, h₂, h₃, h₄, h₅, h₆, h₇, h₈⟩⟩

/-- The pulses of the P2L DMA master: `dma_ctrl_done_t`, `dma_ctrl_done_o` and
`next_item_valid_o`.  It reports no error. -/
structure Pulses (m : P2lDmaMaster) (doneT done item : Bool) : Prop where
  doneT : m.fsm.dmaCtrlDoneT = doneT
  done : m.ctrlPipe.dmaCtrlDone = done
  item : m.fsm.nextItemValid = item
  noCompletionError : m.fsm.completionError = false
  noBusyError : m.addrCnt.dmaBusyError = false

/-- No read from the host is under way. -/
structure AtRest : Prop where
  ready : s.master.Ready
  noRequest : s.openRequest = []
  noneOwed : s.owed = []

/-- A transfer that reads from the host, with `k` requests sent. -/
structure Reading (t : ReadTransfer) (k : ℕ) (s : ServedEngine) : Prop where
  stage : ∃ words, t.Stage k s.asking words ∧ s.openRequest = openPacket words
  busy : s.master.fsm.p2lDmaCurrentState ≠ .idle
  owed : if s.master.fsm.p2lDmaCurrentState = .waitReadCompletion then
      1 ≤ k ∧ 1 ≤ s.master.p2lDataCnt.toNat ∧ s.master.p2lDataCnt.toNat ≤ t.chunk (k - 1) ∧
        s.owed = (t.addresses (k - 1)).drop (t.chunk (k - 1) - s.master.p2lDataCnt.toNat)
    else s.owed = []

/-- The steps left for a transfer. -/
def readWork (t : ReadTransfer) (k : ℕ) (s : ServedEngine) : ℕ :=
  5 * (t.len - 1024 * k) +
    match s.master.fsm.p2lDmaCurrentState with
    | .idle => 0
    | .header => 4
    | .addrH => 3
    | .addrL => 2
    | .waitReadCompletion => 5 * s.master.p2lDataCnt.toNat + 1

/-- The P2L DMA master waits for a grant or for a completion, and does not get it. -/
def Stalls (s : ServedEngine) (i : DmaEngineIn) : Prop :=
  (s.master.fsm.p2lDmaCurrentState = .header ∧ i.arbPdmGnt = false) ∨
    (s.master.fsm.p2lDmaCurrentState = .waitReadCompletion ∧ i.pd.completionWord = false)

variable {gByteSwap mem s i} {t : ReadTransfer} {k : ℕ}

/-! ## The lines of the controller -/

/-- Neither a start order nor an abort for the P2L DMA master. -/
structure NoOrder (c : DmaController) : Prop where
  noP2l : c.fsm.dmaCtrlStartP2l = false
  noNext : c.fsm.dmaCtrlStartNext = false
  noAbort : c.fsm.dmaCtrlAbort = false

theorem calm_of_legal (horder : NoOrder s.controller) (hlegal : s.Legal mem i) :
    P2lDmaMaster.Calm s.asking (s.engine.masterIn i) :=
  ⟨hlegal.granted, horder.noAbort, hlegal.noCpln, fun _ => ⟨horder.noP2l, horder.noNext⟩⟩

/-! ## At rest -/

variable (gByteSwap) in
theorem AtRest.step (h : s.AtRest) (hp2l : s.controller.fsm.dmaCtrlStartP2l = false)
    (hnext : s.controller.fsm.dmaCtrlStartNext = false) : (step gByteSwap s i).AtRest := by
  obtain ⟨⟨hidle, hvalid, hreq⟩, hopen, howed⟩ := h
  have hp2l' : (s.engine.masterIn i).ctrl.startP2l = false := hp2l
  have hnext' : (s.engine.masterIn i).ctrl.startNext = false := hnext
  have hfsm : (ServedEngine.step gByteSwap s i).master.fsm =
      s.master.pReadReqFsm (s.engine.masterIn i) := rfl
  have hvalid' : (ServedEngine.step gByteSwap s i).master.fsm.pdmArbValid = false := by
    simpa [hfsm, P2lDmaMaster.pReadReqFsm, hidle] using hvalid
  have hnone : s.requests gByteSwap i = ([], []) := by
    have hpresented : (s.engine.step gByteSwap i).master.presented = [] := by
      rw [P2lDmaMaster.presented, if_neg]
      exact ne_true_of_eq_false hvalid'
    rw [requests, hpresented, hopen]
    rfl
  refine ⟨⟨?_, hvalid', ?_⟩, ?_, ?_⟩
  · simp [hfsm, P2lDmaMaster.pReadReqFsm, hidle, hp2l', hnext']
  · simpa [hfsm, P2lDmaMaster.pReadReqFsm, hidle, hp2l', hnext'] using hreq
  · rw [ServedEngine.step, hnone]
  · simp [ServedEngine.step, hnone, howed]

variable (gByteSwap) in
/-- The pulses of a master that is idle. -/
theorem Pulses.idle_step {doneT done item : Bool} (h : Pulses s.master doneT done item)
    (hidle : s.master.fsm.p2lDmaCurrentState = .idle) :
    Pulses (step gByteSwap s i).master false doneT false := by
  have haddr : (ServedEngine.step gByteSwap s i).master.addrCnt =
      s.master.pAddrCnt gByteSwap (s.engine.masterIn i) := rfl
  obtain ⟨hdoneT, hitem, hnoError⟩ :=
    P2lDmaMaster.reports_of_idle gByteSwap (i := s.engine.masterIn i) hidle
  refine ⟨hdoneT, h.doneT, hitem, hnoError, ?_⟩
  · rw [haddr]
    simp only [P2lDmaMaster.pAddrCnt, P2lDmaMaster.storesWord, hidle, if_true]
    split_ifs <;> simp_all [h.noBusyError]

variable (gByteSwap) in
/-- The pulses of a master that is not. -/
theorem Pulses.busy_step (h : Pulses s.master false false false) (horder : NoOrder s.controller) :
    (step gByteSwap s i).master.ctrlPipe.dmaCtrlDone = false ∧
      (step gByteSwap s i).master.addrCnt.dmaBusyError = false := by
  refine ⟨h.doneT, ?_⟩
  show (s.master.pAddrCnt gByteSwap (s.engine.masterIn i)).dmaBusyError = false
  have hp2l : (s.engine.masterIn i).ctrl.startP2l = false := horder.noP2l
  simp only [P2lDmaMaster.pAddrCnt, hp2l, Bool.false_eq_true, if_false]
  split_ifs
  · exact h.noBusyError
  · rfl

/-! ## A transfer that reads from the host -/

/-- After an edge that completes no request, the host owes no addresses but those it owed before. -/
theorem Reading.stage_same {words : List (Bool × Word)} (hstage : t.Stage k s.asking words)
    (hopen : s.openRequest = openPacket words)
    (hstage' : t.Stage k (step gByteSwap s i).asking
      (words ++ (step gByteSwap s i).master.presented)) :
    (∃ words, t.Stage k (step gByteSwap s i).asking words ∧
      (step gByteSwap s i).openRequest = openPacket words) ∧
      (step gByteSwap s i).owed = if i.pd.completionWord then s.owed.tail else s.owed := by
  obtain ⟨hsent, hwords⟩ := hstage.framed_same hopen hstage'
  have hnone : (s.requests gByteSwap i).1 = [] := hsent
  refine ⟨hwords, ?_⟩
  rw [ServedEngine.step, hnone]
  simp

variable (gByteSwap) in
/-- A start order begins a transfer. -/
theorem AtRest.start (h : s.AtRest)
    (hstart : s.controller.lines.startP2l || s.controller.lines.startNext)
    (hlen : 1 ≤ s.controller.lines.transfer.len) :
    Reading s.controller.lines.transfer 0 (ServedEngine.step gByteSwap s i) ∧
      (ServedEngine.step gByteSwap s i).master.fsm.p2lDmaCurrentState = .header ∧
      (ServedEngine.step gByteSwap s i).master.readReq.isNextItem =
        s.controller.lines.startNext := by
  obtain ⟨hready, hopen, howed⟩ := h
  have hidle := hready.idle
  have hstart' : ((s.engine.masterIn i).ctrl.startP2l || (s.engine.masterIn i).ctrl.startNext) =
      true := hstart
  have hstage : s.controller.lines.transfer.Stage 0 (ServedEngine.step gByteSwap s i).asking [] :=
    P2lDmaMaster.Ready.stage (s := s.asking) (i := s.engine.masterIn i) hready hstart hlen
  have hheader : (ServedEngine.step gByteSwap s i).master.fsm.p2lDmaCurrentState = .header := by
    show (s.master.pReadReqFsm (s.engine.masterIn i)).p2lDmaCurrentState = .header
    simp [P2lDmaMaster.pReadReqFsm, hidle, hstart']
  have hnone : s.requests gByteSwap i = ([], []) := by
    have hvalid : (s.engine.step gByteSwap i).master.fsm.pdmArbValid = false := by
      show (s.master.pReadReqFsm (s.engine.masterIn i)).pdmArbValid = false
      simpa [P2lDmaMaster.pReadReqFsm, hidle] using hready.noWord
    have hpresented : (s.engine.step gByteSwap i).master.presented = [] := by
      rw [P2lDmaMaster.presented, if_neg]
      exact ne_true_of_eq_false hvalid
    rw [requests, hpresented, hopen]
    rfl
  refine ⟨⟨⟨[], hstage, ?_⟩, ?_, ?_⟩, hheader, ?_⟩
  · rw [ServedEngine.step, hnone]
    rfl
  · rw [hheader]
    simp
  · rw [hheader, if_neg (by simp), ServedEngine.step, hnone]
    simp [howed]
  · show (s.master.pReadReq (s.engine.masterIn i)).isNextItem = _
    simp only [P2lDmaMaster.pReadReq, hidle, hstart', if_true]
    rfl

/-- A transfer goes on: it is one step further, or waits for the arbiter or for the host. -/
def GoesOn (gByteSwap : Bool) (t : ReadTransfer) (k : ℕ) (s : ServedEngine) (i : DmaEngineIn) : Prop :=
  ∃ k', Reading t k' (step gByteSwap s i) ∧ Pulses (step gByteSwap s i).master false false false ∧
    (readWork t k' (step gByteSwap s i) < readWork t k s ∨
      readWork t k' (step gByteSwap s i) = readWork t k s ∧ Stalls s i ∧
        (step gByteSwap s i).master.fsm.p2lDmaCurrentState = s.master.fsm.p2lDmaCurrentState)

theorem Reading.header_step (h : Reading t k s) (hpulses : Pulses s.master false false false)
    (horder : NoOrder s.controller) (hlegal : s.Legal mem i)
    (hstate : s.master.fsm.p2lDmaCurrentState = .header) : GoesOn gByteSwap t k s i := by
  obtain ⟨⟨words, hstage, hopen⟩, -, howed⟩ := h
  rw [hstate, if_neg (by simp)] at howed
  have hcalm := calm_of_legal horder hlegal
  have hstage' := hstage.header_step gByteSwap hcalm hstate
  obtain ⟨hwords, howed'⟩ := stage_same hstage hopen hstage'
  rw [howed, List.tail_nil, ite_self] at howed'
  obtain ⟨hdone, hbusy⟩ := hpulses.busy_step gByteSwap (i := i) horder
  have hfsm : (ServedEngine.step gByteSwap s i).master.fsm =
      s.master.pReadReqFsm (s.engine.masterIn i) := rfl
  have hgnt' : (s.engine.masterIn i).arbPdmGnt = i.arbPdmGnt := rfl
  have hkeeps : Pulses (ServedEngine.step gByteSwap s i).master false false false := by
    refine ⟨?_, hdone, ?_, ?_, hbusy⟩ <;> rw [hfsm] <;> simp only [P2lDmaMaster.pReadReqFsm, hstate] <;>
      split_ifs
    all_goals first
      | exact hpulses.doneT
      | exact hpulses.item
      | exact hpulses.noCompletionError
  cases hgnt : i.arbPdmGnt with
  | false =>
      have hsame : (s.master.pReadReqFsm (s.engine.masterIn i)).p2lDmaCurrentState = .header := by
        simp [P2lDmaMaster.pReadReqFsm, hstate, hgnt', hgnt]
      refine ⟨k, ⟨hwords, ?_, ?_⟩, hkeeps, .inr ⟨?_, .inl ⟨hstate, hgnt⟩, ?_⟩⟩
      · simp [hfsm, hsame]
      · rwa [hfsm, hsame, if_neg (by simp)]
      · simp only [readWork, hfsm, hsame, hstate]
      · rw [hfsm, hsame, hstate]
  | true =>
      have hnext : (s.master.pReadReqFsm (s.engine.masterIn i)).p2lDmaCurrentState = .addrH ∨
          (s.master.pReadReqFsm (s.engine.masterIn i)).p2lDmaCurrentState = .addrL := by
        simp only [P2lDmaMaster.pReadReqFsm, hstate, hgnt', hgnt, if_true]
        split_ifs
        · exact .inl rfl
        · exact .inr rfl
      refine ⟨k, ⟨hwords, ?_, ?_⟩, hkeeps, .inl ?_⟩
      · rcases hnext with hnext | hnext <;> simp [hfsm, hnext]
      · rcases hnext with hnext | hnext <;> simpa [hfsm, hnext] using howed'
      · rcases hnext with hnext | hnext <;> simp [readWork, hfsm, hnext, hstate]

theorem Reading.addrH_step (h : Reading t k s) (hpulses : Pulses s.master false false false)
    (horder : NoOrder s.controller) (hstate : s.master.fsm.p2lDmaCurrentState = .addrH) :
    GoesOn gByteSwap t k s i := by
  obtain ⟨⟨words, hstage, hopen⟩, -, howed⟩ := h
  rw [hstate, if_neg (by simp)] at howed
  have hstage' := hstage.addrH_step gByteSwap (i := s.engine.masterIn i) hstate
  obtain ⟨hwords, howed'⟩ := stage_same hstage hopen hstage'
  rw [howed, List.tail_nil, ite_self] at howed'
  obtain ⟨hdone, hbusy⟩ := hpulses.busy_step gByteSwap (i := i) horder
  have hfsm : (ServedEngine.step gByteSwap s i).master.fsm =
      s.master.pReadReqFsm (s.engine.masterIn i) := rfl
  have hnext : s.master.pReadReqFsm (s.engine.masterIn i) =
      { s.master.fsm with
        pdmArbData := s.master.readReq.l2pAddressH
        p2lDmaCurrentState := .addrL } := by
    simp only [P2lDmaMaster.pReadReqFsm, hstate]
  refine ⟨k, ⟨hwords, ?_, ?_⟩, ⟨?_, hdone, ?_, ?_, hbusy⟩, .inl ?_⟩
  · simp [hfsm, hnext]
  · simpa [hfsm, hnext] using howed'
  · rw [hfsm, hnext]
    exact hpulses.doneT
  · rw [hfsm, hnext]
    exact hpulses.item
  · rw [hfsm, hnext]
    exact hpulses.noCompletionError
  · simp [readWork, hfsm, hnext, hstate]

/-- The last word of a request is sent, and the host owes its words. -/
theorem Reading.addrL_step (h : Reading t k s) (hpulses : Pulses s.master false false false)
    (horder : NoOrder s.controller) (hstate : s.master.fsm.p2lDmaCurrentState = .addrL) :
    GoesOn gByteSwap t k s i := by
  obtain ⟨⟨words, hstage, hopen⟩, -, howed⟩ := h
  rw [hstate, if_neg (by simp)] at howed
  have hat := hstage.atState
  simp only [ReadTransfer.AtState] at hat
  rw [show s.asking.client.fsm.p2lDmaCurrentState = .addrL from hstate] at hat
  obtain ⟨hlt, -, -, -, -, hannounced⟩ := hat
  have hstage' := hstage.addrL_step gByteSwap (i := s.engine.masterIn i) hstate
  obtain ⟨hsent, hopen'⟩ := hstage.framed hopen hstage'
  rw [List.range_succ, List.map_append, List.map_singleton, List.append_cancel_left_eq] at hsent
  have howed' : (ServedEngine.step gByteSwap s i).owed = t.addresses k := by
    have hasked : (s.requests gByteSwap i).1 = [t.packet k] := hsent.symm
    rw [ServedEngine.step, hasked, howed]
    simp [ReadTransfer.requestedAddresses_packet hlt]
  obtain ⟨hdone, hbusy⟩ := hpulses.busy_step gByteSwap (i := i) horder
  have hfsm : (ServedEngine.step gByteSwap s i).master.fsm =
      s.master.pReadReqFsm (s.engine.masterIn i) := rfl
  have hnext : s.master.pReadReqFsm (s.engine.masterIn i) =
      { s.master.fsm with
        pdmArbData := s.master.readReq.l2pAddressL
        pdmArbDframe := false
        p2lDmaCurrentState := .waitReadCompletion } := by
    simp only [P2lDmaMaster.pReadReqFsm, hstate]
  have hcnt : (ServedEngine.step gByteSwap s i).master.p2lDataCnt.toNat = t.chunk k :=
    P2lDmaMaster.pRecvDataCnt_addrL (s.engine.masterIn i) hlt hannounced hstate
  have hchunk : 1 ≤ t.chunk k ∧ t.chunk k = min 1024 (t.len - 1024 * k) := by
    unfold ReadTransfer.chunk
    omega
  refine ⟨k + 1, ⟨⟨_, hstage', hopen'⟩, ?_, ?_⟩, ⟨?_, hdone, ?_, ?_, hbusy⟩, .inl ?_⟩
  · simp [hfsm, hnext]
  · rw [hfsm, hnext, if_pos rfl, hcnt, howed', Nat.add_sub_cancel]
    exact ⟨by omega, hchunk.1, le_rfl, by simp⟩
  · rw [hfsm, hnext]
    exact hpulses.doneT
  · rw [hfsm, hnext]
    exact hpulses.item
  · rw [hfsm, hnext]
    exact hpulses.noCompletionError
  · simp only [readWork, hfsm, hnext, hstate, hcnt]
    omega

/-- The end of a transfer: the master is at rest, and pulses. -/
def Finishes (gByteSwap : Bool) (s : ServedEngine) (i : DmaEngineIn) : Prop :=
  (step gByteSwap s i).AtRest ∧
    Pulses (step gByteSwap s i).master (!s.master.readReq.isNextItem) false s.master.readReq.isNextItem

variable (gByteSwap) in
/-- What can happen while the master waits for completions. -/
theorem Reading.wait_cases (h : Reading t k s) (horder : NoOrder s.controller)
    (hlegal : s.Legal mem i) (hstate : s.master.fsm.p2lDmaCurrentState = .waitReadCompletion) :
    (i.pd.completionWord = false ∧
      (step gByteSwap s i).master.fsm.p2lDmaCurrentState = .waitReadCompletion ∧
      (step gByteSwap s i).master.p2lDataCnt = s.master.p2lDataCnt) ∨
    (i.pd.completionWord = true ∧ 1 < s.master.p2lDataCnt.toNat ∧
      (step gByteSwap s i).master.fsm.p2lDmaCurrentState = .waitReadCompletion ∧
      (step gByteSwap s i).master.p2lDataCnt = s.master.p2lDataCnt - 1) ∨
    (i.pd.completionWord = true ∧ s.master.p2lDataCnt = 1 ∧
      s.master.lastWordReceived (s.engine.masterIn i) = true) := by
  have howed := h.owed
  rw [if_pos hstate] at howed
  obtain ⟨-, hpos, hle, howed⟩ := howed
  refine P2lDmaMaster.wait_cases (i := s.engine.masterIn i) hstate horder.noAbort hlegal.noCpln hpos
    hlegal.lastValid fun hword hone => ?_
  obtain ⟨a, -, -, hlast⟩ := hlegal.answers hword
  apply hlast
  have hcnt : s.master.p2lDataCnt.toNat = 1 := congrArg BitVec.toNat hone
  rw [howed, List.length_drop, t.length_addresses]
  omega

/-- Without a completion without data there is no error. -/
theorem noCompletionError_of_wait (hpulses : Pulses s.master false false false)
    (horder : NoOrder s.controller) (hlegal : s.Legal mem i)
    (hstate : s.master.fsm.p2lDmaCurrentState = .waitReadCompletion) :
    (s.master.pReadReqFsm (s.engine.masterIn i)).completionError = false := by
  have habort : (s.engine.masterIn i).ctrl.abort = false := horder.noAbort
  have hcpln : (s.engine.masterIn i).pd.masterCpln = false := hlegal.noCpln
  simp only [P2lDmaMaster.pReadReqFsm, hstate, habort, hcpln, Bool.false_eq_true, if_false]
  split_ifs <;> exact hpulses.noCompletionError

variable (gByteSwap) in
/-- The master does not pulse as long as it waits. -/
theorem Pulses.of_wait (hpulses : Pulses s.master false false false)
    (horder : NoOrder s.controller) (hlegal : s.Legal mem i)
    (hstate : s.master.fsm.p2lDmaCurrentState = .waitReadCompletion)
    (hstay : (step gByteSwap s i).master.fsm.p2lDmaCurrentState = .waitReadCompletion) :
    Pulses (step gByteSwap s i).master false false false := by
  obtain ⟨hdone, hbusy⟩ := hpulses.busy_step gByteSwap (i := i) horder
  have hfsm : (step gByteSwap s i).master.fsm = s.master.pReadReqFsm (s.engine.masterIn i) := rfl
  have habort : (s.engine.masterIn i).ctrl.abort = false := horder.noAbort
  have hcpln : (s.engine.masterIn i).pd.masterCpln = false := hlegal.noCpln
  have hdoneT := hpulses.doneT
  have hitem := hpulses.item
  refine ⟨?_, hdone, ?_, noCompletionError_of_wait hpulses horder hlegal hstate, hbusy⟩ <;>
  · rw [hfsm] at hstay ⊢
    revert hstay
    simp only [P2lDmaMaster.pReadReqFsm, hstate, habort, hcpln, Bool.false_eq_true, if_false]
    split_ifs <;> simp [hdoneT, hitem]

/-- The last word of a request is received: the next one follows, or the transfer is over. -/
theorem Reading.last_word (h : Reading t k s) (hpulses : Pulses s.master false false false)
    (horder : NoOrder s.controller) (hlegal : s.Legal mem i)
    (hstate : s.master.fsm.p2lDmaCurrentState = .waitReadCompletion)
    (hword : i.pd.completionWord = true) (hone : s.master.p2lDataCnt = 1)
    (hlast : s.master.lastWordReceived (s.engine.masterIn i) = true) :
    GoesOn gByteSwap t k s i ∨ Finishes gByteSwap s i := by
  obtain ⟨⟨words, hstage, hopen⟩, -, howed⟩ := h
  rw [if_pos hstate] at howed
  obtain ⟨hk, hpos, hle, howed⟩ := howed
  have hat := hstage.atState
  simp only [ReadTransfer.AtState] at hat
  rw [show s.asking.client.fsm.p2lDmaCurrentState = .waitReadCompletion from hstate] at hat
  obtain ⟨-, hreq, hlastPacket, -⟩ := hat
  have hcalm := calm_of_legal horder hlegal
  have hstage' := hstage.wait_step gByteSwap hcalm hstate
  obtain ⟨hwords, howed'⟩ := stage_same hstage hopen hstage'
  obtain ⟨hdone, hbusy⟩ := hpulses.busy_step gByteSwap (i := i) horder
  have hfsm : (ServedEngine.step gByteSwap s i).master.fsm =
      s.master.pReadReqFsm (s.engine.masterIn i) := rfl
  have habort : (s.engine.masterIn i).ctrl.abort = false := horder.noAbort
  have hnoError := noCompletionError_of_wait hpulses horder hlegal hstate
  have hcnt : s.master.p2lDataCnt.toNat = 1 := congrArg BitVec.toNat hone
  obtain ⟨hnext, hitem⟩ := P2lDmaMaster.pReadReqFsm_of_last (i := s.engine.masterIn i) hstate habort
    hlast
  have hnone : (ServedEngine.step gByteSwap s i).owed = [] := by
    rw [howed', hword, if_pos rfl, howed, List.tail_drop, List.drop_eq_nil_iff, t.length_addresses]
    omega
  rw [hpulses.item, Bool.false_or] at hitem
  cases hpacket : s.master.readReq.l2pLastPacket with
  | false =>
      rw [hpacket, if_neg (by simp)] at hnext
      rw [hpacket, Bool.false_and] at hitem
      have hmoreWords : 1024 * k < t.len := by
        have hnot : s.asking.client.readReq.l2pLastPacket = false := hpacket
        rw [hnot] at hlastPacket
        simpa using hlastPacket.symm
      left
      refine ⟨k, ⟨hwords, ?_, ?_⟩, ⟨?_, hdone, ?_, hnoError, hbusy⟩, .inl ?_⟩
      · simp [hfsm, hnext]
      · rwa [hfsm, hnext, if_neg (by simp)]
      · rw [hfsm]
        simpa [P2lDmaMaster.pReadReqFsm, hstate, habort, hlast, hpacket] using hpulses.doneT
      · rw [hfsm, hitem]
      · simp only [readWork, hfsm, hnext, hstate, hcnt]
        omega
  | true =>
      rw [hpacket, if_pos rfl] at hnext
      rw [hpacket, Bool.true_and] at hitem
      obtain ⟨words', hstage'', hopen'⟩ := hwords
      have hat' := hstage''.atState
      simp only [ReadTransfer.AtState] at hat'
      rw [show (ServedEngine.step gByteSwap s i).asking.client.fsm.p2lDmaCurrentState = .idle
        from hnext] at hat'
      right
      refine ⟨⟨⟨hnext, hat'.2.2, ?_⟩, ?_, hnone⟩, ⟨?_, hdone, ?_, hnoError, hbusy⟩⟩
      · rw [hfsm]
        have hreq' : s.master.fsm.pdmArbReq = false := hreq
        cases hisNext : s.master.readReq.isNextItem <;>
          simp [P2lDmaMaster.pReadReqFsm, hstate, habort, hlast, hpacket, hisNext, hreq']
      · rw [hopen', hat'.2.1]
      · rw [hfsm]
        have hdoneT := hpulses.doneT
        cases hisNext : s.master.readReq.isNextItem <;>
          simp [P2lDmaMaster.pReadReqFsm, hstate, habort, hlast, hpacket, hisNext, hdoneT]
      · rw [hfsm, hitem]

theorem Reading.wait_step (h : Reading t k s) (hpulses : Pulses s.master false false false)
    (horder : NoOrder s.controller) (hlegal : s.Legal mem i)
    (hstate : s.master.fsm.p2lDmaCurrentState = .waitReadCompletion) :
    GoesOn gByteSwap t k s i ∨
      Finishes gByteSwap s i ∧ s.master.p2lDataCnt = 1 ∧ i.pd.completionWord = true := by
  have hcases := h.wait_cases gByteSwap horder hlegal hstate
  have hreading := h
  obtain ⟨⟨words, hstage, hopen⟩, -, howed⟩ := h
  rw [if_pos hstate] at howed
  obtain ⟨hk, hpos, hle, howed⟩ := howed
  have hstage' := hstage.wait_step gByteSwap (calm_of_legal horder hlegal) hstate
  obtain ⟨hwords, howed'⟩ := stage_same hstage hopen hstage'
  obtain ⟨hword, hstay, hsame⟩ | ⟨hword, hmore, hstay, hdown⟩ | ⟨hword, hone, hlast⟩ := hcases
  · -- the host lets the master wait
    rw [hword, if_neg (by simp)] at howed'
    refine .inl ⟨k, ⟨hwords, by simp [hstay], ?_⟩, hpulses.of_wait gByteSwap horder hlegal hstate hstay,
      .inr ⟨?_, .inr ⟨hstate, hword⟩, by rw [hstay, hstate]⟩⟩
    · rw [if_pos hstay, hsame, howed']
      exact ⟨hk, hpos, hle, howed⟩
    · simp only [readWork, hstay, hstate, hsame]
  · -- a word with others of the same request behind it
    have hunit : (1 : BitVec 11).toNat = 1 := rfl
    have hcnt : (ServedEngine.step gByteSwap s i).master.p2lDataCnt.toNat =
        s.master.p2lDataCnt.toNat - 1 := by
      rw [hdown, BitVec.toNat_sub_of_le (by rw [BitVec.le_def]; exact hmore.le), hunit]
    rw [hword, if_pos rfl, howed, List.tail_drop] at howed'
    refine .inl ⟨k, ⟨hwords, by simp [hstay], ?_⟩,
      hpulses.of_wait gByteSwap horder hlegal hstate hstay, .inl ?_⟩
    · rw [if_pos hstay, hcnt, howed']
      refine ⟨hk, by omega, by omega, ?_⟩
      congr 1
      omega
    · simp only [readWork, hstay, hstate, hcnt]
      omega
  · exact (hreading.last_word hpulses horder hlegal hstate hword hone hlast).imp_right
      fun hfinishes => ⟨hfinishes, hone, hword⟩

variable (gByteSwap) in
/-- Every edge of a transfer. -/
theorem Reading.step (h : Reading t k s) (hpulses : Pulses s.master false false false)
    (horder : NoOrder s.controller) (hlegal : s.Legal mem i) :
    GoesOn gByteSwap t k s i ∨ Finishes gByteSwap s i ∧
      s.master.fsm.p2lDmaCurrentState = .waitReadCompletion ∧ s.master.p2lDataCnt = 1 ∧
      i.pd.completionWord = true := by
  cases hstate : s.master.fsm.p2lDmaCurrentState with
  | idle => exact absurd hstate h.busy
  | header => exact .inl (h.header_step hpulses horder hlegal hstate)
  | addrH => exact .inl (h.addrH_step hpulses horder hstate)
  | addrL => exact .inl (h.addrL_step hpulses horder hstate)
  | waitReadCompletion =>
      exact (h.wait_step hpulses horder hlegal hstate).imp_right fun h => ⟨h.1, rfl, h.2⟩

/-! ## The fetch of an item -/

/-- The words of the item that are received are in their fields. -/
def Stores (item : DmaItem) (s : ServedEngine) : Prop :=
  s.master.fsm.p2lDmaCurrentState = .waitReadCompletion →
    s.master.nextItem.hostWords.take (7 - s.master.p2lDataCnt.toNat) =
      item.hostWords.take (7 - s.master.p2lDataCnt.toNat)

/-- The next word of a fetch is the next word of the item. -/
theorem Reading.fetched_word {item : DmaItem} (h : Reading t k s) (hlen : t.len = 7)
    (hholds : Holds mem t.address item) (hlegal : s.Legal mem i)
    (hstate : s.master.fsm.p2lDmaCurrentState = .waitReadCompletion)
    (hword : i.pd.completionWord = true) :
    1 ≤ s.master.p2lDataCnt.toNat ∧ s.master.p2lDataCnt.toNat ≤ 7 ∧
      item.hostWords[7 - s.master.p2lDataCnt.toNat]? = some i.pd.data := by
  obtain ⟨⟨words, hstage, -⟩, -, howed⟩ := h
  rw [if_pos hstate] at howed
  obtain ⟨hk, hpos, hle, howed⟩ := howed
  have hneeded := hstage.needed
  obtain rfl : k = 1 := by omega
  have hchunk : t.chunk 0 = 7 := by
    unfold ReadTransfer.chunk
    omega
  rw [Nat.sub_self, hchunk] at hle howed
  refine ⟨hpos, hle, ?_⟩
  obtain ⟨a, ha, hdata, -⟩ := hlegal.answers hword
  have haddress : a = t.address + BitVec.ofNat 64 (4 * (7 - s.master.p2lDataCnt.toNat)) := by
    have hlt : 7 - s.master.p2lDataCnt.toNat < t.chunk 0 := by omega
    rw [howed, Option.mem_def, List.head?_drop, ReadTransfer.addresses, HostRead.addresses,
      List.getElem?_map, List.getElem?_range hlt] at ha
    simpa using ha.symm
  have hthere := hholds (7 - s.master.p2lDataCnt.toNat) (by omega)
  rw [← haddress] at hthere
  rw [← hthere]
  have hlt : 7 - s.master.p2lDataCnt.toNat < item.hostWords.length := by
    rw [DmaItem.length_hostWords]
    omega
  rw [List.getElem?_eq_getElem hlt] at hthere
  rw [hthere, hdata _ hthere]

theorem take_succ_set {α : Type*} {l l' : List α} {m : ℕ} {w : α} (hm : m < l.length)
    (h : l.take m = l'.take m) (hw : l'[m]? = some w) :
    (l.set m w).take (m + 1) = l'.take (m + 1) := by
  rw [List.take_add_one, List.take_add_one, hw, List.take_set_of_le le_rfl, h,
    List.getElem?_set_self hm]

variable (gByteSwap) in
/-- A word of the completion goes into its field. -/
theorem Stores.word_step {item : DmaItem} (h : Stores item s) (hr : Reading t k s)
    (hlen : t.len = 7) (hholds : Holds mem t.address item) (hlegal : s.Legal mem i)
    (hnext : s.master.readReq.isNextItem = true)
    (hstate : s.master.fsm.p2lDmaCurrentState = .waitReadCompletion)
    (hword : i.pd.completionWord = true) :
    (step gByteSwap s i).master.nextItem.hostWords.take (7 - s.master.p2lDataCnt.toNat + 1) =
      item.hostWords.take (7 - s.master.p2lDataCnt.toNat + 1) := by
  obtain ⟨hpos, hle, hfield⟩ := hr.fetched_word hlen hholds hlegal hstate hword
  have hvalid : i.pd.dataValid = true := (Bool.and_eq_true_iff.mp hword).1
  have hstored : (step gByteSwap s i).master.nextItem =
      s.master.nextItem.store (s.master.p2lDataCnt.setWidth 3) i.pd.data := by
    show s.master.pNextItem (s.engine.masterIn i) = _
    have hpd : (s.engine.masterIn i).pd = i.pd := rfl
    simp [P2lDmaMaster.pNextItem, P2lDmaMaster.storesItem, hstate, hnext, hpd, hvalid]
  have hcnt : s.master.p2lDataCnt.setWidth 3 =
      BitVec.ofNat 3 (7 - (7 - s.master.p2lDataCnt.toNat)) := by
    apply BitVec.eq_of_toNat_eq
    rw [BitVec.toNat_setWidth, BitVec.toNat_ofNat]
    congr 1
    omega
  rw [hstored, hcnt, DmaItem.hostWords_store (by omega)]
  exact take_succ_set (by rw [DmaItem.length_hostWords]; omega) (h hstate) hfield

variable (gByteSwap) in
/-- Every edge of a fetch, and what it leaves in the fields at its end. -/
theorem Stores.step {item : DmaItem} (h : Stores item s) (hr : Reading t k s)
    (hlen : t.len = 7) (hholds : Holds mem t.address item) (horder : NoOrder s.controller)
    (hlegal : s.Legal mem i) (hnext : s.master.readReq.isNextItem = true) :
    Stores item (step gByteSwap s i) ∧
      (s.master.fsm.p2lDmaCurrentState = .waitReadCompletion → s.master.p2lDataCnt = 1 →
        i.pd.completionWord = true → (step gByteSwap s i).master.nextItem = item) := by
  have hfsm : (ServedEngine.step gByteSwap s i).master.fsm =
      s.master.pReadReqFsm (s.engine.masterIn i) := rfl
  refine ⟨fun hstay => ?_, fun hstate hone hword => ?_⟩
  · cases hstate : s.master.fsm.p2lDmaCurrentState with
    | idle => exact absurd hstate hr.busy
    | header =>
        rw [hfsm] at hstay
        simp only [P2lDmaMaster.pReadReqFsm, hstate] at hstay
        split_ifs at hstay
        simp [hstate] at hstay
    | addrH =>
        rw [hfsm] at hstay
        simp [P2lDmaMaster.pReadReqFsm, hstate] at hstay
    | addrL =>
        -- no word is received yet
        obtain ⟨⟨words, hstage, -⟩, -, -⟩ := hr
        have hat := hstage.atState
        simp only [ReadTransfer.AtState] at hat
        rw [show s.asking.client.fsm.p2lDmaCurrentState = .addrL from hstate] at hat
        obtain ⟨hlt, -, -, -, -, hannounced⟩ := hat
        obtain rfl : k = 0 := by omega
        have hcnt : (ServedEngine.step gByteSwap s i).master.p2lDataCnt.toNat = t.chunk 0 :=
          P2lDmaMaster.pRecvDataCnt_addrL (s.engine.masterIn i) hlt hannounced hstate
        have hchunk : t.chunk 0 = 7 := by
          unfold ReadTransfer.chunk
          omega
        rw [hcnt, hchunk]
        rfl
    | waitReadCompletion =>
        obtain ⟨hword, -, hsame⟩ | ⟨hword, hmore, -, hdown⟩ | ⟨hword, hone, hlast⟩ :=
          hr.wait_cases gByteSwap horder hlegal hstate
        · have hkept : (ServedEngine.step gByteSwap s i).master.nextItem = s.master.nextItem := by
            show s.master.pNextItem (s.engine.masterIn i) = _
            have hvalid : i.pd.dataValid = false := by
              by_contra hvalid
              rw [Bool.not_eq_false] at hvalid
              simp [PdPdm.completionWord, hvalid, hlegal.noForeign hstate hnext hvalid] at hword
            have hpd : (s.engine.masterIn i).pd = i.pd := rfl
            simp [P2lDmaMaster.pNextItem, P2lDmaMaster.storesItem, hpd, hvalid]
          rw [hkept, hsame]
          exact h hstate
        · have hfields := h.word_step gByteSwap hr hlen hholds hlegal hnext hstate hword
          have hcnt : 7 - (ServedEngine.step gByteSwap s i).master.p2lDataCnt.toNat =
              7 - s.master.p2lDataCnt.toNat + 1 := by
            have hunit : (1 : BitVec 11).toNat = 1 := rfl
            have hle := (hr.fetched_word hlen hholds hlegal hstate hword).2.1
            rw [hdown, BitVec.toNat_sub_of_le (by rw [BitVec.le_def]; exact hmore.le), hunit]
            omega
          rw [hcnt]
          exact hfields
        · rw [hfsm, (P2lDmaMaster.pReadReqFsm_of_last (i := s.engine.masterIn i) hstate
            horder.noAbort hlast).1] at hstay
          split at hstay <;> simp at hstay
  · have hfields := h.word_step gByteSwap hr hlen hholds hlegal hnext hstate hword
    have hcnt : s.master.p2lDataCnt.toNat = 1 := congrArg BitVec.toNat hone
    rw [hcnt] at hfields
    exact DmaItem.hostWords_inj hfields

end ServedEngine

end Gn4124Core
