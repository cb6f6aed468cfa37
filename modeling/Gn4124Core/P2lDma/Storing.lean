import Gn4124Core.P2lDma.Reception

/-!
# A P2L transfer stores every word once

The P2L DMA master with a host that remembers the read request that is being sent and how many
words it owes for the requests before.  It answers each request with exactly its number of words,
in packets that end with any of them, and the last one ends a packet.

`Storing` follows a transfer through the FSM: while the master waits, the words owed are those
that it still counts, and outside of this state all the words requested are stored.  So each word
received is pushed at its own address, the done pulse comes behind the last one, and nothing is
requested while a word is owed.

That holds for a transfer that starts with the write strobe of the FIFO and the done flag low
(`stores_once_iff`).  A start that is accepted in the cycle behind a stored word leaves
`to_wb_fifo_wr` high for another cycle, and the old word is written again.
-/

namespace Gn4124Core

open Clocked

/-- The words that a read request packet asks for. -/
def requestedWords (packet : List Word) : ℕ :=
  match HostRead.parse packet with
  | some r => r.words
  | none => 0

theorem ReadTransfer.requestedWords_packet {t : ReadTransfer} {k : ℕ} (hk : 1024 * k < t.len) :
    requestedWords (t.packet k) = t.chunk k := by
  rw [requestedWords, t.parse_packet hk]

/-- The master with its request of the previous cycle, and what the host knows of it. -/
structure AnsweredMaster where
  asking : Asking P2lDmaMaster
  openRequest : List Word
  owed : ℕ
deriving DecidableEq

namespace AnsweredMaster

variable (gByteSwap : Bool) (s : AnsweredMaster) (i : P2lDmaIn)

def master : P2lDmaMaster := s.asking.client

/-- The read requests complete after an edge, and the words of the one under way. -/
def requests : List (List Word) × List Word :=
  (P2lDmaMaster.askingStep gByteSwap s.asking i).client.presented.foldl frameStep ([], s.openRequest)

/-- One edge of `clk_i`. -/
def step : AnsweredMaster where
  asking := P2lDmaMaster.askingStep gByteSwap s.asking i
  openRequest := (s.requests gByteSwap i).2
  owed := s.owed - i.pd.completionWord.toNat + ((s.requests gByteSwap i).1.map requestedWords).sum

/-- What is assumed of an edge: a grant answers a request of the cycle before, there is no abort, no
error and no further start, and while the master waits every data word is one that the host owes,
and the last word owed ends a packet. -/
structure Legal : Prop where
  granted : i.arbPdmGnt = true → s.master.fsm.pdmArbReq = true → s.asking.asked = true
  noAbort : i.ctrl.abort = false
  noCpln : i.pd.masterCpln = false
  noP2l : i.ctrl.startP2l = false
  noNext : i.ctrl.startNext = false
  answers : s.master.fsm.p2lDmaCurrentState = .waitReadCompletion →
    (i.pd.dataLast = true → i.pd.dataValid = true) ∧
      (i.pd.dataValid = true → i.pd.masterCpld = true ∧ 1 ≤ s.owed ∧
        (s.owed = 1 → i.pd.dataLast = true))

instance : Decidable (s.Legal i) :=
  decidable_of_iff ((i.arbPdmGnt = true → s.master.fsm.pdmArbReq = true → s.asking.asked = true) ∧
      i.ctrl.abort = false ∧ i.pd.masterCpln = false ∧ i.ctrl.startP2l = false ∧
      i.ctrl.startNext = false ∧ (s.master.fsm.p2lDmaCurrentState = .waitReadCompletion →
        (i.pd.dataLast = true → i.pd.dataValid = true) ∧
          (i.pd.dataValid = true → i.pd.masterCpld = true ∧ 1 ≤ s.owed ∧
            (s.owed = 1 → i.pd.dataLast = true))))
    ⟨fun ⟨h₁, h₂, h₃, h₄, h₅, h₆⟩ => ⟨h₁, h₂, h₃, h₄, h₅, h₆⟩,
      fun ⟨h₁, h₂, h₃, h₄, h₅, h₆⟩ => ⟨h₁, h₂, h₃, h₄, h₅, h₆⟩⟩

/-! ## What an observer sees -/

/-- The words of the completions of this transfer. -/
def received : List Word :=
  if s.master.fsm.p2lDmaCurrentState = .waitReadCompletion ∧ i.pd.completionWord = true then
    [i.pd.data]
  else []

/-- The word that is written into `to_wb_fifo`. -/
def pushes : List ToWbWord :=
  if s.master.addrCnt.toWbFifoWr then [s.master.addrCnt.toWbFifoDin] else []

/-- The pulses of `dma_ctrl_done_o`. -/
def dones : List Unit := if s.master.ctrlPipe.dmaCtrlDone then [()] else []

variable {gByteSwap s i} {t : ReadTransfer} {c : BitVec 30} {m : BitVec 2} {k : ℕ} {ws : List Word}

/-- A transfer `t` to the word address `c` in the byte-swap mode `m`, with `k` requests sent and
the words `ws` received. -/
structure Storing (t : ReadTransfer) (c : BitVec 30) (m : BitVec 2) (k : ℕ) (ws : List Word)
    (s : AnsweredMaster) : Prop where
  stage : ∃ words, t.Stage k s.asking words ∧ s.openRequest = openPacket words
  owed : if s.master.fsm.p2lDmaCurrentState = .waitReadCompletion then
      1 ≤ s.owed ∧ s.owed = s.master.p2lDataCnt.toNat ∧ ws.length + s.owed = min (1024 * k) t.len
    else s.owed = 0 ∧ ws.length = min (1024 * k) t.len
  transfer : s.master.readReq.isNextItem = false
  target : s.master.addrCnt.targetAddrCnt = c + BitVec.ofNat 30 ws.length
  byteSwap : s.master.addrCnt.toWbFifoByteSwap = m
  notDone : s.master.fsm.p2lDmaCurrentState ≠ .idle → s.master.fsm.dmaCtrlDoneT = false

/-! ## One edge -/

theorem Legal.calm (h : s.Legal i) : P2lDmaMaster.Calm s.asking i :=
  ⟨h.granted, h.noAbort, h.noCpln, fun _ => ⟨h.noP2l, h.noNext⟩⟩

/-- After an edge that completes no request, no words are owed but those that were owed before. -/
theorem stage_same {words : List (Bool × Word)} (hstage : t.Stage k s.asking words)
    (hopen : s.openRequest = openPacket words)
    (hstage' : t.Stage k (step gByteSwap s i).asking
      (ReadTransfer.wordsAfter gByteSwap s.asking i words)) :
    (∃ words, t.Stage k (step gByteSwap s i).asking words ∧
      (step gByteSwap s i).openRequest = openPacket words) ∧
      (step gByteSwap s i).owed = s.owed - i.pd.completionWord.toNat := by
  obtain ⟨hsent, hwords⟩ := hstage.framed_same hopen hstage'
  have hnone : (s.requests gByteSwap i).1 = [] := hsent
  refine ⟨hwords, ?_⟩
  rw [step, hnone]
  rfl

theorem fsm_step : (step gByteSwap s i).master.fsm = s.master.pReadReqFsm i := rfl

theorem addrCnt_step : (step gByteSwap s i).master.addrCnt = s.master.pAddrCnt gByteSwap i := rfl

/-- The words received are stored, and no others. -/
theorem storesWord_eq (hitem : s.master.readReq.isNextItem = false) (hlegal : s.Legal i) :
    s.master.storesWord i = decide (s.received i ≠ []) := by
  unfold P2lDmaMaster.storesWord received PdPdm.completionWord
  rw [hlegal.noP2l, hitem]
  by_cases hwait : s.master.fsm.p2lDmaCurrentState = .waitReadCompletion
  · cases hvalid : i.pd.dataValid with
    | false => simp
    | true =>
        have hcpld := ((hlegal.answers hwait).2 hvalid).1
        simp [hwait, hcpld]
  · simp [hwait]

variable (gByteSwap) in
/-- The address counter and the FIFO follow the words received. -/
theorem addrCnt_of_received (htarget : s.master.addrCnt.targetAddrCnt = c + BitVec.ofNat 30 ws.length)
    (hswap : s.master.addrCnt.toWbFifoByteSwap = m) (hitem : s.master.readReq.isNextItem = false)
    (hlegal : s.Legal i) :
    (step gByteSwap s i).master.addrCnt.targetAddrCnt =
        c + BitVec.ofNat 30 (ws ++ s.received i).length ∧
      (step gByteSwap s i).master.addrCnt.toWbFifoByteSwap = m ∧
      P2lPath.fifoWords gByteSwap c m ws ++ (step gByteSwap s i).pushes =
        P2lPath.fifoWords gByteSwap c m (ws ++ s.received i) := by
  have hstores := storesWord_eq hitem hlegal
  have hp2l := hlegal.noP2l
  unfold pushes
  simp only [addrCnt_step, P2lDmaMaster.pAddrCnt, hp2l, hstores, Bool.false_eq_true, if_false]
  by_cases hword : s.received i = []
  · simp [hword, htarget, hswap]
  · have hdata : s.received i = [i.pd.data] := by
      unfold received at hword ⊢
      split_ifs at hword ⊢
      · rfl
      · exact absurd rfl hword
    simp only [hdata, ne_eq, List.cons_ne_self, not_false_eq_true, decide_true, if_true]
    refine ⟨?_, hswap, ?_⟩
    · rw [List.length_append, BitVec.ofNat_add, htarget, BitVec.add_assoc]
      rfl
    · simp [P2lPath.fifoWords, htarget, hswap]

/-- Outside the waiting state nothing is received. -/
theorem received_of_busy (hwait : s.master.fsm.p2lDmaCurrentState ≠ .waitReadCompletion) :
    s.received i = [] := by
  simp [received, hwait]

/-- What each state of the FSM has to show of an edge: where it leads, and how many words are owed
and received then. -/
structure Counted (gByteSwap : Bool) (t : ReadTransfer) (k : ℕ) (ws : List Word) (s : AnsweredMaster)
    (i : P2lDmaIn) : Prop where
  stage : ∃ words, t.Stage k (step gByteSwap s i).asking words ∧
    (step gByteSwap s i).openRequest = openPacket words
  owed : if (step gByteSwap s i).master.fsm.p2lDmaCurrentState = .waitReadCompletion then
      1 ≤ (step gByteSwap s i).owed ∧
        (step gByteSwap s i).owed = (step gByteSwap s i).master.p2lDataCnt.toNat ∧
        (ws ++ s.received i).length + (step gByteSwap s i).owed = min (1024 * k) t.len
    else (step gByteSwap s i).owed = 0 ∧ (ws ++ s.received i).length = min (1024 * k) t.len
  done : (step gByteSwap s i).master.fsm.dmaCtrlDoneT =
    (decide (s.master.fsm.p2lDmaCurrentState ≠ .idle) &&
      decide ((step gByteSwap s i).master.fsm.p2lDmaCurrentState = .idle))
  requests : (step gByteSwap s i).master.presented ≠ [] → s.owed = 0

theorem Storing.idle_step (h : Storing t c m k ws s) (hlegal : s.Legal i)
    (hstate : s.master.fsm.p2lDmaCurrentState = .idle) : Counted gByteSwap t k ws s i := by
  obtain ⟨⟨words, hstage, hopen⟩, howed, -, -, -, -⟩ := h
  rw [hstate, if_neg (by simp)] at howed
  have hidle : s.master.pReadReqFsm i = { s.master.fsm with
      dmaCtrlDoneT := false, nextItemValid := false, completionError := false, rxErrorT := false } := by
    simp [P2lDmaMaster.pReadReqFsm, hstate, hlegal.noP2l, hlegal.noNext]
  obtain ⟨hwords, howed'⟩ := stage_same hstage hopen (hstage.idle_step hlegal.calm hstate)
  rw [howed.1, Nat.zero_sub] at howed'
  refine ⟨hwords, ?_, ?_, fun _ => howed.1⟩
  · rw [fsm_step, hidle, received_of_busy (by simp [hstate]), List.append_nil]
    simp only [hstate, reduceCtorEq, if_false]
    exact ⟨howed', howed.2⟩
  · rw [fsm_step, hidle]
    simp [hstate]

theorem Storing.header_step (h : Storing t c m k ws s) (hlegal : s.Legal i)
    (hstate : s.master.fsm.p2lDmaCurrentState = .header) : Counted gByteSwap t k ws s i := by
  obtain ⟨⟨words, hstage, hopen⟩, howed, -, -, -, hnotDone⟩ := h
  rw [hstate, if_neg (by simp)] at howed
  obtain ⟨hwords, howed'⟩ := stage_same hstage hopen (hstage.header_step gByteSwap hlegal.calm hstate)
  rw [howed.1, Nat.zero_sub] at howed'
  have hdone : s.master.fsm.dmaCtrlDoneT = false := hnotDone (by simp [hstate])
  refine ⟨hwords, ?_, ?_, fun _ => howed.1⟩
  · have hnext : (s.master.pReadReqFsm i).p2lDmaCurrentState ≠ .waitReadCompletion := by
      simp only [P2lDmaMaster.pReadReqFsm, hstate]
      split_ifs <;> simp [hstate]
    rw [fsm_step, if_neg hnext, received_of_busy (by simp [hstate]), List.append_nil]
    exact ⟨howed', howed.2⟩
  · rw [fsm_step]
    simp only [P2lDmaMaster.pReadReqFsm, hstate]
    split_ifs <;> simp [hstate, hdone]

theorem Storing.addrH_step (h : Storing t c m k ws s)
    (hstate : s.master.fsm.p2lDmaCurrentState = .addrH) : Counted gByteSwap t k ws s i := by
  obtain ⟨⟨words, hstage, hopen⟩, howed, -, -, -, hnotDone⟩ := h
  rw [hstate, if_neg (by simp)] at howed
  obtain ⟨hwords, howed'⟩ := stage_same (i := i) hstage hopen (hstage.addrH_step gByteSwap hstate)
  rw [howed.1, Nat.zero_sub] at howed'
  have hdone : s.master.fsm.dmaCtrlDoneT = false := hnotDone (by simp [hstate])
  refine ⟨hwords, ?_, ?_, fun _ => howed.1⟩
  · rw [fsm_step, received_of_busy (by simp [hstate]), List.append_nil]
    simpa [P2lDmaMaster.pReadReqFsm, hstate] using ⟨howed', howed.2⟩
  · rw [fsm_step]
    simp [P2lDmaMaster.pReadReqFsm, hstate, hdone]

/-- The last word of a request is sent, and the host owes its words. -/
theorem Storing.addrL_step (h : Storing t c m k ws s)
    (hstate : s.master.fsm.p2lDmaCurrentState = .addrL) : Counted gByteSwap t (k + 1) ws s i := by
  obtain ⟨⟨words, hstage, hopen⟩, howed, -, -, -, hnotDone⟩ := h
  rw [hstate, if_neg (by simp)] at howed
  have hat := hstage.atState
  simp only [ReadTransfer.AtState] at hat
  rw [show s.asking.client.fsm.p2lDmaCurrentState = .addrL from hstate] at hat
  obtain ⟨hlt, -, -, -, -, hannounced⟩ := hat
  have hstage' := hstage.addrL_step gByteSwap (i := i) hstate
  obtain ⟨hsent, hopen'⟩ := hstage.framed hopen hstage'
  rw [List.range_succ, List.map_append, List.map_singleton, List.append_cancel_left_eq] at hsent
  have howed' : (step gByteSwap s i).owed = t.chunk k := by
    have hasked : (s.requests gByteSwap i).1 = [t.packet k] := hsent.symm
    rw [step, hasked, howed.1]
    simp [ReadTransfer.requestedWords_packet hlt]
  have hcnt : (step gByteSwap s i).master.p2lDataCnt.toNat = t.chunk k :=
    P2lDmaMaster.pRecvDataCnt_addrL i hlt hannounced hstate
  have hchunk : t.chunk k = min 1024 (t.len - 1024 * k) := rfl
  have hdone : s.master.fsm.dmaCtrlDoneT = false := hnotDone (by simp [hstate])
  have hnext : (s.master.pReadReqFsm i).p2lDmaCurrentState = .waitReadCompletion := by
    simp [P2lDmaMaster.pReadReqFsm, hstate]
  refine ⟨⟨_, hstage', hopen'⟩, ?_, ?_, fun _ => howed.1⟩
  · rw [fsm_step, hnext, if_pos rfl, howed', hcnt, received_of_busy (by simp [hstate]),
      List.append_nil]
    omega
  · rw [fsm_step]
    simp [P2lDmaMaster.pReadReqFsm, hstate, hdone]

theorem received_word (hwait : s.master.fsm.p2lDmaCurrentState = .waitReadCompletion)
    (hword : i.pd.completionWord = true) : s.received i = [i.pd.data] := by
  simp [received, hwait, hword]

/-- A master that goes on waiting has not received the last word. -/
theorem notLast_of_stays (hwait : s.master.fsm.p2lDmaCurrentState = .waitReadCompletion)
    (habort : i.ctrl.abort = false)
    (hstay : (s.master.pReadReqFsm i).p2lDmaCurrentState = .waitReadCompletion) :
    s.master.lastWordReceived i = false := by
  by_contra hlast
  rw [Bool.not_eq_false] at hlast
  rw [(P2lDmaMaster.pReadReqFsm_of_last (m := s.master) hwait habort hlast).1] at hstay
  split at hstay <;> simp at hstay

/-- While the master waits it counts the words that the host owes. -/
theorem Storing.wait_step (h : Storing t c m k ws s) (hlegal : s.Legal i)
    (hstate : s.master.fsm.p2lDmaCurrentState = .waitReadCompletion) :
    Counted gByteSwap t k ws s i := by
  obtain ⟨⟨words, hstage, hopen⟩, howed, hitem, -, -, hnotDone⟩ := h
  rw [if_pos hstate] at howed
  obtain ⟨hpos, hcount, hlen⟩ := howed
  obtain ⟨hwords, howed'⟩ := stage_same hstage hopen (hstage.wait_step gByteSwap hlegal.calm hstate)
  have hdone : s.master.fsm.dmaCtrlDoneT = false := hnotDone (by simp [hstate])
  have habort := hlegal.noAbort
  have hcpln := hlegal.noCpln
  have hquiet : (step gByteSwap s i).master.presented = [] := by
    have hvalid : (s.master.pReadReqFsm i).pdmArbValid = false := by
      simp only [P2lDmaMaster.pReadReqFsm, hstate]
      split_ifs <;> rfl
    rw [P2lDmaMaster.presented, fsm_step, hvalid]
    rfl
  have hdoneT : (step gByteSwap s i).master.fsm.dmaCtrlDoneT =
      (s.master.lastWordReceived i && s.master.readReq.l2pLastPacket) := by
    rw [fsm_step]
    simp only [P2lDmaMaster.pReadReqFsm, hstate, habort, hitem, hcpln]
    cases s.master.lastWordReceived i <;> cases s.master.readReq.l2pLastPacket <;> simp [hdone]
  have hcases := P2lDmaMaster.wait_cases (m := s.master) hstate habort hcpln (by omega)
    (hlegal.answers hstate).1 fun hword hone => by
      have hvalid : i.pd.dataValid = true := (Bool.and_eq_true_iff.mp hword).1
      refine ((hlegal.answers hstate).2 hvalid).2.2 ?_
      rw [hcount, hone]
      rfl
  have hcnt : (step gByteSwap s i).master.p2lDataCnt = s.master.pRecvDataCnt i := rfl
  -- no word, a word that is not the last of its request, or the last one
  obtain ⟨hword, hstay, hsame⟩ | ⟨hword, hmore, hstay, hdown⟩ | ⟨hword, hone, hlast⟩ := hcases
  · have hnot : s.master.lastWordReceived i = false := notLast_of_stays hstate habort hstay
    refine ⟨hwords, ?_, ?_, fun h => absurd hquiet h⟩
    · rw [fsm_step, hstay, if_pos rfl, howed', hcnt, hsame, received, hword]
      simpa using ⟨hpos, hcount, hlen⟩
    · rw [hdoneT, hnot, fsm_step, hstay]
      simp
  · have hnot : s.master.lastWordReceived i = false := notLast_of_stays hstate habort hstay
    have hunit : (1 : BitVec 11).toNat = 1 := rfl
    refine ⟨hwords, ?_, ?_, fun h => absurd hquiet h⟩
    · rw [fsm_step, hstay, if_pos rfl, howed', hcnt, hdown, received_word hstate hword, hword,
        BitVec.toNat_sub_of_le (by rw [BitVec.le_def]; exact hmore.le), hunit, List.length_append,
        List.length_singleton, Bool.toNat_true]
      omega
    · rw [hdoneT, hnot, fsm_step, hstay]
      simp
  · have hone' : s.master.p2lDataCnt.toNat = 1 := congrArg BitVec.toNat hone
    obtain ⟨hnext, -⟩ := P2lDmaMaster.pReadReqFsm_of_last (m := s.master) hstate habort hlast
    refine ⟨hwords, ?_, ?_, fun h => absurd hquiet h⟩
    · have hleave : (s.master.pReadReqFsm i).p2lDmaCurrentState ≠ .waitReadCompletion := by
        rw [hnext]
        split <;> simp
      rw [fsm_step, if_neg hleave, howed', received_word hstate hword, hword, List.length_append,
        List.length_singleton, Bool.toNat_true]
      omega
    · rw [hdoneT, hlast, fsm_step, hnext]
      cases s.master.readReq.l2pLastPacket <;> simp [hstate]

variable (gByteSwap) in
/-- Every edge of a transfer. -/
theorem Storing.counted (h : Storing t c m k ws s) (hlegal : s.Legal i) :
    ∃ k', Counted gByteSwap t k' ws s i := by
  cases hstate : s.master.fsm.p2lDmaCurrentState with
  | idle => exact ⟨k, h.idle_step hlegal hstate⟩
  | header => exact ⟨k, h.header_step hlegal hstate⟩
  | addrH => exact ⟨k, h.addrH_step hstate⟩
  | addrL => exact ⟨k + 1, h.addrL_step hstate⟩
  | waitReadCompletion => exact ⟨k, h.wait_step hlegal hstate⟩

theorem Storing.step {k' : ℕ} (h : Storing t c m k ws s) (hlegal : s.Legal i)
    (hcounted : Counted gByteSwap t k' ws s i) :
    Storing t c m k' (ws ++ s.received i) (step gByteSwap s i) := by
  obtain ⟨htarget, hswap, -⟩ :=
    addrCnt_of_received gByteSwap h.target h.byteSwap h.transfer hlegal
  have hitem : (AnsweredMaster.step gByteSwap s i).master.readReq.isNextItem =
      s.master.readReq.isNextItem :=
    P2lDmaMaster.isNextItem_step gByteSwap (.inr ⟨hlegal.noP2l, hlegal.noNext⟩)
  refine ⟨hcounted.stage, hcounted.owed, hitem.trans h.transfer, htarget, hswap, fun hbusy => ?_⟩
  rw [hcounted.done, Bool.and_eq_false_iff]
  exact .inr (decide_eq_false hbusy)

/-- The transfer is over exactly when all its words are received. -/
theorem Storing.idle_iff (h : Storing t c m k ws s) :
    ws.length ≤ t.len ∧ (s.master.fsm.p2lDmaCurrentState = .idle ↔ ws.length = t.len) := by
  obtain ⟨⟨words, hstage, -⟩, howed, -⟩ := h
  have hat := hstage.atState
  simp only [ReadTransfer.AtState] at hat
  have hasking : s.asking.client.fsm.p2lDmaCurrentState = s.master.fsm.p2lDmaCurrentState := rfl
  cases hstate : s.master.fsm.p2lDmaCurrentState <;> rw [hasking, hstate] at hat <;>
    simp only [hstate, reduceCtorEq, if_true, if_false, true_iff, false_iff] at hat howed ⊢ <;> omega

/-! ## Runs -/

/-- No read request is presented while a word is owed. -/
def AsksLater (gByteSwap : Bool) (s : AnsweredMaster) (i : P2lDmaIn) : Prop :=
  (step gByteSwap s i).master.presented ≠ [] → s.owed = 0

/-- A transfer along a run: what is received is pushed, and there is one done pulse, which is on its
way or was given when the master is idle again. -/
structure Followed (gByteSwap : Bool) (t : ReadTransfer) (c : BitVec 30) (m : BitVec 2)
    (s : AnsweredMaster) (is : List P2lDmaIn) : Prop where
  storing : ∃ k, Storing t c m k (log (step gByteSwap) received s is) (run (step gByteSwap) s is)
  pushes : log (step gByteSwap) (after (step gByteSwap) pushes) s is =
    P2lPath.fifoWords gByteSwap c m (log (step gByteSwap) received s is)
  done : (log (step gByteSwap) (after (step gByteSwap) dones) s is).length +
      (run (step gByteSwap) s is).master.fsm.dmaCtrlDoneT.toNat =
    (decide ((run (step gByteSwap) s is).master.fsm.p2lDmaCurrentState = .idle)).toNat
  requests : Always (step gByteSwap) (AsksLater gByteSwap) s is

theorem Followed.concat {is : List P2lDmaIn} (h : Followed gByteSwap t c m s is)
    (hlegal : (run (step gByteSwap) s is).Legal i) : Followed gByteSwap t c m s (is ++ [i]) := by
  obtain ⟨⟨k, hstoring⟩, hpushes, hdone, hrequests⟩ := h
  obtain ⟨k', hcounted⟩ := hstoring.counted gByteSwap hlegal
  obtain ⟨-, -, hpush⟩ := addrCnt_of_received gByteSwap hstoring.target
    hstoring.byteSwap hstoring.transfer hlegal
  have hnext := hstoring.step hlegal hcounted
  refine ⟨⟨k', ?_⟩, ?_, ?_, ?_⟩
  · rw [log_concat, run_concat]
    exact hnext
  · rw [log_concat, log_concat, hpushes]
    exact hpush
  · obtain ⟨-, hidle⟩ := hstoring.idle_iff
    obtain ⟨hle, hidle'⟩ := hnext.idle_iff
    rw [List.length_append] at hle hidle'
    have hpulse : (after (step gByteSwap) dones (run (step gByteSwap) s is) i).length =
        (run (step gByteSwap) s is).master.fsm.dmaCtrlDoneT.toNat := by
      have hpipe : (step gByteSwap (run (step gByteSwap) s is) i).master.ctrlPipe.dmaCtrlDone =
          (run (step gByteSwap) s is).master.fsm.dmaCtrlDoneT := rfl
      rw [after, dones, hpipe]
      cases (run (step gByteSwap) s is).master.fsm.dmaCtrlDoneT <;> rfl
    rw [log_concat, run_concat, List.length_append, hcounted.done, hpulse, hdone]
    -- an idle master has received all the words, and stays idle
    by_cases hnow : (run (step gByteSwap) s is).master.fsm.p2lDmaCurrentState = .idle
    · have hlen := hidle.mp hnow
      have hstays := hidle'.mpr (by omega)
      simp [hnow, hstays]
    · simp [hnow]
  · rw [always_concat]
    exact ⟨hrequests, hcounted.requests⟩

theorem storing_run {is : List P2lDmaIn} (h : Storing t c m 0 [] s)
    (hbusy : s.master.fsm.p2lDmaCurrentState ≠ .idle) (legal : Always (step gByteSwap) Legal s is) :
    Followed gByteSwap t c m s is := by
  refine run_induction (motive := Followed gByteSwap t c m s) legal ?_ ?_
  · exact ⟨⟨0, h⟩, rfl, by simp [h.notDone hbusy, hbusy], trivial⟩
  · intro js i _ hlegal hjs
    exact hjs.concat hlegal

/-- The words of a transfer of the order `c`: each is pushed once and at its own address, there is
one pulse of `dma_ctrl_done_o`, which comes when all of them are received, and no read request is
presented while a word of the one before is owed. -/
structure StoresOnce (gByteSwap : Bool) (order : DmaCtrl) (s : AnsweredMaster) (is : List P2lDmaIn) :
    Prop where
  received : (log (step gByteSwap) received s is).length ≤ order.transfer.len
  pushes : log (step gByteSwap) (after (step gByteSwap) pushes) s is =
    P2lPath.fifoWords gByteSwap (order.carrierAddr.extractLsb' 2 30) order.byteSwap
      (log (step gByteSwap) AnsweredMaster.received s is)
  done : (log (step gByteSwap) (after (step gByteSwap) dones) s is).length +
      (run (step gByteSwap) s is).master.fsm.dmaCtrlDoneT.toNat =
    if (log (step gByteSwap) AnsweredMaster.received s is).length = order.transfer.len then 1 else 0
  requests : Always (step gByteSwap) (AsksLater gByteSwap) s is

/-- The master when it is given an order: the host owes nothing. -/
def resting (asking : Asking P2lDmaMaster) : AnsweredMaster := ⟨asking, [], 0⟩

variable (gByteSwap) in
theorem start_storing {asking : Asking P2lDmaMaster} (hready : asking.client.Ready)
    (hp2l : i.ctrl.startP2l = true) (hnext : i.ctrl.startNext = false)
    (hlen : 1 ≤ i.ctrl.transfer.len) :
    Storing i.ctrl.transfer (i.ctrl.carrierAddr.extractLsb' 2 30) i.ctrl.byteSwap 0 []
        (step gByteSwap (resting asking) i) ∧
      (step gByteSwap (resting asking) i).master.fsm.p2lDmaCurrentState ≠ .idle := by
  have hstart : (i.ctrl.startP2l || i.ctrl.startNext) = true := by simp [hp2l]
  have hidle : (resting asking).master.fsm.p2lDmaCurrentState = .idle := hready.idle
  have hstage : i.ctrl.transfer.Stage 0 (P2lDmaMaster.askingStep gByteSwap asking i) [] :=
    hready.stage hstart hlen
  have hheader : (step gByteSwap (resting asking) i).master.fsm.p2lDmaCurrentState = .header ∧
      (step gByteSwap (resting asking) i).master.fsm.dmaCtrlDoneT = false ∧
      (step gByteSwap (resting asking) i).master.fsm.pdmArbValid = false := by
    have hvalid : (resting asking).master.fsm.pdmArbValid = false := hready.noWord
    rw [fsm_step]
    simp [P2lDmaMaster.pReadReqFsm, hidle, hstart, hvalid]
  obtain ⟨hstate, hdone, hvalid⟩ := hheader
  have hnone : (resting asking).requests gByteSwap i = ([], []) := by
    have hpresented : (P2lDmaMaster.askingStep gByteSwap asking i).client.presented = [] := by
      rw [P2lDmaMaster.presented, if_neg]
      exact ne_true_of_eq_false hvalid
    rw [requests, resting, hpresented]
    rfl
  refine ⟨⟨⟨[], hstage, ?_⟩, ?_, ?_, ?_, ?_, fun _ => hdone⟩, by simp [hstate]⟩
  · rw [step, hnone]
    rfl
  · rw [hstate, if_neg (by simp), step, hnone]
    simp [resting]
  · show (asking.client.pReadReq i).isNextItem = false
    simp [P2lDmaMaster.pReadReq, hready.idle, hp2l, hnext]
  · rw [addrCnt_step]
    simp [P2lDmaMaster.pAddrCnt, hp2l, hidle]
  · rw [addrCnt_step]
    simp [P2lDmaMaster.pAddrCnt, hp2l, hidle]

/-- **Reception.**  Take a P2L transfer that the master accepts in any state it can reach from
reset, and any run of it in which the host answers each request with exactly its number of words.
The words are stored once, each at its own address, with one done pulse behind the last of them, if
and only if neither the write strobe of the FIFO nor the done flag of an earlier transfer is still
high when the order is accepted. -/
theorem stores_once_iff (gByteSwap : Bool) (hs : List P2lDmaIn) (i : P2lDmaIn) (is : List P2lDmaIn) :
    let asking := run (P2lDmaMaster.askingStep gByteSwap) ⟨.reset, false⟩ hs
    asking.client.fsm.p2lDmaCurrentState = .idle →
    i.ctrl.startP2l = true → i.ctrl.startNext = false → 1 ≤ i.ctrl.transfer.len →
    Always (step gByteSwap) Legal (step gByteSwap (resting asking) i) is →
    (StoresOnce gByteSwap i.ctrl (resting asking) (i :: is) ↔
      asking.client.addrCnt.toWbFifoWr = false ∧ asking.client.fsm.dmaCtrlDoneT = false) := by
  intro asking hidle hp2l hnext hlen legal
  have hready : asking.client.Ready := by
    have hclient : asking.client = run (P2lDmaMaster.step gByteSwap) .reset hs :=
      Asking.run_client ⟨P2lDmaMaster.reset, false⟩ hs
    rw [hclient] at hidle ⊢
    exact P2lDmaMaster.ready_of_reachable hs hidle
  obtain ⟨hstoring, hbusy⟩ := start_storing gByteSwap hready hp2l hnext hlen
  have hfollowed := storing_run hstoring hbusy legal
  obtain ⟨⟨k, hend⟩, hpushes, hdone, hrequests⟩ := hfollowed
  obtain ⟨hle, hfinished⟩ := hend.idle_iff
  have hreceived : (resting asking).received i = [] :=
    received_of_busy (by rw [show (resting asking).master.fsm.p2lDmaCurrentState = .idle from hidle]; simp)
  -- what the accepting edge leaves behind
  have hold : (step gByteSwap (resting asking) i).pushes = [] ↔
      asking.client.addrCnt.toWbFifoWr = false := by
    have hwr : (step gByteSwap (resting asking) i).master.addrCnt.toWbFifoWr =
        asking.client.addrCnt.toWbFifoWr := P2lDmaMaster.toWbFifoWr_start gByteSwap hp2l
    rw [pushes, hwr]
    cases asking.client.addrCnt.toWbFifoWr <;> simp
  have holdDone : (step gByteSwap (resting asking) i).dones.length =
      asking.client.fsm.dmaCtrlDoneT.toNat := by
    have hpipe : (step gByteSwap (resting asking) i).master.ctrlPipe.dmaCtrlDone =
        asking.client.fsm.dmaCtrlDoneT := rfl
    rw [dones, hpipe]
    cases asking.client.fsm.dmaCtrlDoneT <;> rfl
  have hpulses : (decide ((run (step gByteSwap) (step gByteSwap (resting asking) i)
      is).master.fsm.p2lDmaCurrentState = .idle)).toNat =
      if (log (step gByteSwap) received (step gByteSwap (resting asking) i) is).length =
        i.ctrl.transfer.len then 1 else 0 := by
    simp only [hfinished]
    split_ifs with h <;> simp [h]
  constructor
  · rintro ⟨-, hpush, hone, -⟩
    rw [log_cons, log_cons, hreceived, List.nil_append, after, hpushes] at hpush
    rw [log_cons, log_cons, hreceived, List.nil_append, after, List.length_append, run_cons,
      holdDone, ← hpulses, ← hdone] at hone
    refine ⟨hold.mp (List.append_left_eq_self.mp hpush), ?_⟩
    -- the run has one pulse for the transfer itself, so there is no room for another
    have hzero : asking.client.fsm.dmaCtrlDoneT.toNat = 0 := by omega
    simpa using hzero
  · rintro ⟨hwr, hdoneT⟩
    refine ⟨?_, ?_, ?_, ?_, hrequests⟩
    · rw [log_cons, hreceived, List.nil_append]
      exact hle
    · rw [log_cons, log_cons, hreceived, List.nil_append, after, hold.mpr hwr, List.nil_append, hpushes]
    · rw [log_cons, log_cons, hreceived, List.nil_append, after, List.length_append, run_cons,
        holdDone, ← hpulses, ← hdone, hdoneT]
      simp
    · exact fun _ => rfl

/-! ### An order behind a stored word -/

/-- The order of a P2L transfer of one word to the carrier address `carrierAddr`. -/
def oneWord (carrierAddr : Word) : P2lDmaIn where
  ctrl := { DmaCtrl.quiet with carrierAddr := carrierAddr, hostAddrL := 0x1000, len := 4, startP2l := true }
  pd := .quiet
  arbPdmGnt := false

/-- The request of the transfer, its answer, and one cycle more. -/
def oneWordAnswered : List P2lDmaIn :=
  [P2lDmaMaster.requestEdge false, P2lDmaMaster.requestEdge true, P2lDmaMaster.requestEdge false,
    P2lDmaMaster.completionEdge true 0xb, P2lDmaMaster.requestEdge false,
    P2lDmaMaster.requestEdge false]

/-- A transfer that is aborted in the cycle in which its first word is received. -/
def abortedTransfer : List P2lDmaIn :=
  [P2lDmaMaster.orderEdge 0x1000 8, P2lDmaMaster.requestEdge false, P2lDmaMaster.requestEdge true,
    P2lDmaMaster.requestEdge false,
    { P2lDmaMaster.completionEdge false 0xa with ctrl := { DmaCtrl.quiet with abort := true } }]

/-- After a reset the word is stored once. -/
theorem stores_once_after_reset :
    StoresOnce false (oneWord 0x40).ctrl (resting ⟨.reset, false⟩) (oneWord 0x40 :: oneWordAnswered) :=
  (stores_once_iff false [] (oneWord 0x40) oneWordAnswered rfl rfl rfl (by decide)
    (by decide +kernel)).mpr ⟨rfl, rfl⟩

/-- In the cycle behind the aborted transfer, the word of the old transfer is written once more. -/
theorem old_word_written_again :
    let asking := run (P2lDmaMaster.askingStep false) ⟨.reset, false⟩ abortedTransfer
    asking.client.fsm.p2lDmaCurrentState = .idle ∧
      Always (step false) Legal (step false (resting asking) (oneWord 0x40)) oneWordAnswered ∧
      log (step false) (after (step false) pushes) (resting asking) (oneWord 0x40 :: oneWordAnswered) =
        [⟨0, 0xa⟩, ⟨0x10, 0xb⟩] ∧
      ¬ StoresOnce false (oneWord 0x40).ctrl (resting asking) (oneWord 0x40 :: oneWordAnswered) := by
  have hpushes : log (step false) (after (step false) pushes)
      (resting (run (P2lDmaMaster.askingStep false) ⟨.reset, false⟩ abortedTransfer))
        (oneWord 0x40 :: oneWordAnswered) = [⟨0, 0xa⟩, ⟨0x10, 0xb⟩] := by decide +kernel
  refine ⟨by decide +kernel, by decide +kernel, hpushes, fun h => ?_⟩
  have heq := h.pushes
  rw [hpushes] at heq
  exact absurd heq (by decide +kernel)

end AnsweredMaster

end Gn4124Core
