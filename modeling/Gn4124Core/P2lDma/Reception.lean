import Gn4124Core.P2lDma.Path

/-!
# What the P2L DMA master stores

Two runs answer the same transfer with the same completions; in one of them the host also
writes to target registers.  Both runs are brought into a normal form over the words they
received, and the normal forms are compared.

* The words pushed into `to_wb_fifo` are the stored words, under consecutive addresses
  (`pushes_eq`).  The master stores every word that is strobed while it waits for a
  transfer, so the stored words are those of the completions if and only if no other
  packet's word is strobed then (`stored_length_iff`).
* A next item is stored field by field, and the counter that selects the field moves with
  completions only.  A word of another packet spoils the field that the next word of the
  completion overwrites (`Fetching`), so a fetch is never disturbed.
-/

namespace Gn4124Core

open Clocked

namespace P2lPath

variable {gByteSwap : Bool} {s : P2lPath} {i : P2lPathIn} {is : List P2lPathIn}

/-! ## Words strobed and words stored -/

/-- The words of master completions that the decoder strobes. -/
def receivedWords (s : P2lPath) : List Word := if s.completionWord then [s.decoder.data.p2lD] else []

theorem receivedWords_of_not (hword : s.completionWord = false) : s.receivedWords = [] := by
  simp [receivedWords, hword]

theorem receivedWords_of_word (hword : s.completionWord = true) :
    s.decoder.data.p2lDValid = true ∧ s.receivedWords = [s.decoder.data.p2lD] := by
  have hvalid := hword
  simp only [completionWord, Bool.and_eq_true] at hvalid
  exact ⟨hvalid.1, by simp [receivedWords, hword]⟩

/-- The words stored for the Wishbone side. -/
def storedWords (s : P2lPath) (i : P2lPathIn) : List Word :=
  if s.master.storesWord (s.masterIn i) then [s.decoder.data.p2lD] else []

abbrev received (gByteSwap : Bool) (s : P2lPath) (is : List P2lPathIn) : List Word :=
  log (step gByteSwap) (fun s _ => s.receivedWords) s is

abbrev stored (gByteSwap : Bool) (s : P2lPath) (is : List P2lPathIn) : List Word :=
  log (step gByteSwap) storedWords s is

/-- The FIFO words for data words stored from the word address `base` on. -/
def fifoWords (gByteSwap : Bool) (base : BitVec 30) (byteSwap : BitVec 2) (ws : List Word) :
    List ToWbWord :=
  ws.mapIdx fun k w => ⟨base + BitVec.ofNat 30 k, fByteSwap gByteSwap w byteSwap⟩

/-- Without a start order the master writes the stored words under consecutive addresses. -/
theorem pushes_eq (legal : Always (step gByteSwap) Undisturbed s is) :
    log (step gByteSwap) (after (step gByteSwap) pushes) s is =
        fifoWords gByteSwap s.master.addrCnt.targetAddrCnt s.master.addrCnt.toWbFifoByteSwap
          (stored gByteSwap s is) ∧
      (run (step gByteSwap) s is).master.addrCnt.targetAddrCnt =
        s.master.addrCnt.targetAddrCnt + BitVec.ofNat 30 (stored gByteSwap s is).length ∧
      (run (step gByteSwap) s is).master.addrCnt.toWbFifoByteSwap =
        s.master.addrCnt.toWbFifoByteSwap := by
  refine run_induction (motive := fun js =>
    log (step gByteSwap) (after (step gByteSwap) pushes) s js =
        fifoWords gByteSwap s.master.addrCnt.targetAddrCnt s.master.addrCnt.toWbFifoByteSwap
          (stored gByteSwap s js) ∧
      (run (step gByteSwap) s js).master.addrCnt.targetAddrCnt =
        s.master.addrCnt.targetAddrCnt + BitVec.ofNat 30 (stored gByteSwap s js).length ∧
      (run (step gByteSwap) s js).master.addrCnt.toWbFifoByteSwap =
        s.master.addrCnt.toWbFifoByteSwap) legal ⟨rfl, by simp, rfl⟩ ?_
  intro js i _ hi hjs
  obtain ⟨hlog, hbase, hswap⟩ := hjs
  obtain ⟨-, -, hp2l, -⟩ := hi
  -- the word stored at an edge is behind the write strobe after it
  rw [log_concat, stored, log_concat, run_concat, hlog]
  generalize run (step gByteSwap) s js = s' at *
  have haddr : (step gByteSwap s' i).master.addrCnt = s'.master.pAddrCnt gByteSwap (s'.masterIn i) :=
    rfl
  have hstart : (s'.masterIn i).ctrl.startP2l = false := hp2l
  cases hstores : s'.master.storesWord (s'.masterIn i) with
  | false =>
      simp only [after, pushes, storedWords, haddr, P2lDmaMaster.pAddrCnt, hstart, hstores,
        Bool.false_eq_true, if_false, List.append_nil]
      exact ⟨trivial, hbase, hswap⟩
  | true =>
      simp only [after, pushes, storedWords, haddr, P2lDmaMaster.pAddrCnt, hstart, hstores,
        Bool.false_eq_true, if_false, if_true, hbase, hswap]
      refine ⟨?_, ?_, trivial⟩
      · simp [fifoWords, masterIn, P2lDecode32.pdPdm]
      · rw [List.length_append, BitVec.ofNat_add, BitVec.add_assoc]
        rfl

/-- The data words strobed over a stream of packets. -/
theorem strobes_eq {ps : List Packet} (hstream : Stream ps (is.map P2lPathIn.des))
    (hquiet : s.Quiet) (hlast : (run (step gByteSwap) s is).decoder.data.p2lDValid = false) :
    log (step gByteSwap) (fun s _ => s.decoder.dataStrobe) s is = ps.flatMap Packet.words := by
  have hdecoder : ∀ (s : P2lPath) (i : P2lPathIn),
      (step gByteSwap s i).decoder = s.decoder.step i.des := fun _ _ => rfl
  let strobes : P2lDecode32 → DesP2l → List (TypeDecode × Word) := fun s _ => s.dataStrobe
  have hlog := log_component hdecoder (fun s i => (rfl : _ = strobes s.decoder i.des)) s is
  rw [run_component hdecoder] at hlast
  rw [hlog, hquiet.between.dataStrobes hstream hquiet.noData hlast]

/-- The words of completions received over a stream of packets. -/
theorem received_eq {ps : List Packet} (hstream : Stream ps (is.map P2lPathIn.des))
    (hquiet : s.Quiet) (hlast : (run (step gByteSwap) s is).decoder.data.p2lDValid = false) :
    received gByteSwap s is = (ps.filter fun p => p.type.masterCpld).flatMap Packet.data := by
  have hobs : (fun (s : P2lPath) (_ : P2lPathIn) => s.receivedWords) =
      fun s _ => s.decoder.dataStrobe.filterMap fun tw => if tw.1.masterCpld then some tw.2 else none := by
    funext s i
    cases hvalid : s.decoder.data.p2lDValid <;> cases hcpld : s.decoder.type.masterCpld <;>
      simp [receivedWords, completionWord, P2lDecode32.dataStrobe, hvalid, hcpld]
  rw [received, hobs, log_filterMap, strobes_eq hstream hquiet hlast]
  clear hstream hlast
  induction ps with
  | nil => rfl
  | cons p ps ih =>
      rw [List.flatMap_cons, List.filterMap_append, ih]
      cases hcpld : p.type.masterCpld <;>
        simp [Packet.words, List.filterMap_map, hcpld]

/-! ## A P2L transfer -/

/-- What is assumed of every edge after the order. -/
def Answered (s : P2lPath) (i : P2lPathIn) : Prop := Undisturbed s i ∧ Answers s

theorem receivedWords_of_not_waiting (hanswers : Answers s)
    (hne : s.master.fsm.p2lDmaCurrentState ≠ .waitReadCompletion) : s.receivedWords = [] := by
  apply receivedWords_of_not
  by_contra hword
  exact hne (hanswers (by simpa using hword)).1

theorem isNextItem_step (hcalm : Undisturbed s i) :
    (step gByteSwap s i).master.readReq.isNextItem = s.master.readReq.isNextItem := by
  obtain ⟨-, -, hp2l, hnext⟩ := hcalm
  exact P2lDmaMaster.isNextItem_step gByteSwap (.inr ⟨hp2l, hnext⟩)

theorem storesWord_iff (hcalm : Undisturbed s i) (hitem : s.master.readReq.isNextItem = false) :
    s.master.storesWord (s.masterIn i) =
      (decide (s.master.fsm.p2lDmaCurrentState = .waitReadCompletion) &&
        s.decoder.data.p2lDValid) := by
  obtain ⟨-, -, hp2l, -⟩ := hcalm
  simp [P2lDmaMaster.storesWord, masterIn, P2lDecode32.pdPdm, hp2l, hitem]

theorem storedWords_eq (hanswered : Answered s i) (hitem : s.master.readReq.isNextItem = false)
    (hforeign : ¬ s.ForeignWord) : s.storedWords i = s.receivedWords := by
  have hcpld := hanswered.2
  unfold Answers completionWord at hcpld
  unfold ForeignWord at hforeign
  rw [storedWords, storesWord_iff hanswered.1 hitem, receivedWords, completionWord]
  by_cases hwait : s.master.fsm.p2lDmaCurrentState = .waitReadCompletion <;>
    cases hvalid : s.decoder.data.p2lDValid <;> cases htype : s.decoder.type.masterCpld <;>
    simp_all

/-- An edge stores the completion word that is strobed, and also a foreign word. -/
theorem storedWords_length (hanswered : Answered s i)
    (hitem : s.master.readReq.isNextItem = false) :
    s.receivedWords.length ≤ (s.storedWords i).length ∧
      (s.receivedWords.length = (s.storedWords i).length ↔ ¬ s.ForeignWord) := by
  by_cases hforeign : s.ForeignWord
  · obtain ⟨hvalid, htype, hwait, -⟩ := hforeign
    have hstored : s.storedWords i = [s.decoder.data.p2lD] := by
      simp [storedWords, storesWord_iff hanswered.1 hitem, hvalid, hwait]
    have hreceived : s.receivedWords = [] := by simp [receivedWords, completionWord, htype]
    rw [hstored, hreceived]
    simp [ForeignWord, hvalid, htype, hwait, hitem]
  · rw [storedWords_eq hanswered hitem hforeign]
    simp [hforeign]

theorem transfer_always (hanswered : Always (step gByteSwap) Answered s is)
    (hitem : s.master.readReq.isNextItem = false) :
    Always (step gByteSwap) (fun s i => s.master.readReq.isNextItem = false ∧ Answered s i) s is := by
  have hkeeps : ∀ s i, s.master.readReq.isNextItem = false → Answered s i →
      (step gByteSwap s i).master.readReq.isNextItem = false :=
    fun _ _ h hi => (isNextItem_step hi.1).trans h
  exact Always.of_invariant hkeeps hanswered hitem

theorem stored_eq (hanswered : Always (step gByteSwap) Answered s is)
    (hitem : s.master.readReq.isNextItem = false)
    (hforeign : Always (step gByteSwap) (fun s _ => ¬ s.ForeignWord) s is) :
    stored gByteSwap s is = received gByteSwap s is :=
  log_congr (fun _ _ h => storedWords_eq h.1.2 h.1.1 h.2)
    ((transfer_always hanswered hitem).and hforeign)

theorem stored_length_iff (hanswered : Always (step gByteSwap) Answered s is)
    (hitem : s.master.readReq.isNextItem = false) :
    (received gByteSwap s is).length = (stored gByteSwap s is).length ↔
      Always (step gByteSwap) (fun s _ => ¬ s.ForeignWord) s is :=
  length_log_eq_iff (fun _ _ h => (storedWords_length h.2 h.1).1)
    (fun _ _ h => (storedWords_length h.2 h.1).2) (transfer_always hanswered hitem)

/-- A fetch writes nothing into the FIFO. -/
theorem stored_of_fetch (hcalm : Always (step gByteSwap) Undisturbed s is)
    (hitem : s.master.readReq.isNextItem = true) :
    stored gByteSwap s is = [] ∧ Always (step gByteSwap) (fun s _ => ¬ s.ForeignWord) s is := by
  have hkeeps : ∀ s i, s.master.readReq.isNextItem = true → Undisturbed s i →
      (step gByteSwap s i).master.readReq.isNextItem = true :=
    fun _ _ h hi => (isNextItem_step hi).trans h
  have hfetch := Always.of_invariant hkeeps hcalm hitem
  refine ⟨log_eq_nil (fun s i h => ?_) hfetch, hfetch.mono fun s i h hforeign => ?_⟩
  · simp [storedWords, P2lDmaMaster.storesWord, h.1]
  · simp [ForeignWord, h.1] at hforeign

/-! ## The words received for a transfer -/

/-- A transfer of which `k` requests are sent and `m` words received: outside the waiting
state all the words requested are here, and in it the counter has the number missing. -/
structure Receiving (t : ReadTransfer) (k m : ℕ) (s : P2lPath) : Prop where
  stage : ∃ words, t.Stage k s.asking words
  count : if s.master.fsm.p2lDmaCurrentState = .waitReadCompletion then
      s.master.p2lDataCnt.toNat + m = min (1024 * k) t.len ∧ 1 ≤ s.master.p2lDataCnt.toNat ∧
        1024 * k ≤ m + 1024
    else m = min (1024 * k) t.len

/-- What the decoder guarantees while the bus carries completions and target writes. -/
structure CleanStrobes (s : P2lPath) : Prop where
  noCpln : s.decoder.type.masterCpln = false
  lastValid : s.decoder.LastValid

/-- The three things that can happen in the waiting state. -/
theorem wait_cases {t : ReadTransfer} {k m : ℕ} (h : Receiving t k m s)
    (hanswered : Answered s i) (hclean : CleanStrobes s)
    (hwait : s.master.fsm.p2lDmaCurrentState = .waitReadCompletion) :
    (s.completionWord = false ∧
      (s.master.pReadReqFsm (s.masterIn i)).p2lDmaCurrentState = .waitReadCompletion ∧
      s.master.pRecvDataCnt (s.masterIn i) = s.master.p2lDataCnt) ∨
    (s.completionWord = true ∧ 1 < s.master.p2lDataCnt.toNat ∧
      (s.master.pReadReqFsm (s.masterIn i)).p2lDmaCurrentState = .waitReadCompletion ∧
      s.master.pRecvDataCnt (s.masterIn i) = s.master.p2lDataCnt - 1) ∨
    (s.completionWord = true ∧ s.master.p2lDataCnt = 1 ∧
      s.master.lastWordReceived (s.masterIn i) = true) := by
  have hcount := h.count
  rw [if_pos hwait] at hcount
  exact P2lDmaMaster.wait_cases (i := s.masterIn i) hwait hanswered.1.2.1 hclean.noCpln hcount.2.1
    hclean.lastValid fun hword => (hanswered.2 hword).2

theorem calm_of_answered (hanswered : Answered s i) (hclean : CleanStrobes s) :
    P2lDmaMaster.Calm s.asking (s.masterIn i) :=
  have ⟨⟨hgrant, habort, hp2l, hnext⟩, _⟩ := hanswered
  ⟨hgrant, habort, hclean.noCpln, fun _ => ⟨hp2l, hnext⟩⟩

theorem Receiving.step {t : ReadTransfer} {k m : ℕ} (h : Receiving t k m s)
    (hanswered : Answered s i) (hclean : CleanStrobes s) :
    ∃ k', Receiving t k' (m + s.receivedWords.length) (step gByteSwap s i) := by
  have hcalm := calm_of_answered hanswered hclean
  have hfsm : (P2lPath.step gByteSwap s i).master.fsm = s.master.pReadReqFsm (s.masterIn i) := rfl
  have hcnt : (P2lPath.step gByteSwap s i).master.p2lDataCnt =
      s.master.pRecvDataCnt (s.masterIn i) := rfl
  obtain ⟨⟨words, hstage⟩, hcount⟩ := h
  have hnone : s.master.fsm.p2lDmaCurrentState ≠ .waitReadCompletion → s.receivedWords.length = 0 := by
    intro hne
    rw [receivedWords_of_not_waiting hanswered.2 hne, List.length_nil]
  cases hstate : s.master.fsm.p2lDmaCurrentState with
  | idle =>
      have hnext : (s.master.pReadReqFsm (s.masterIn i)).p2lDmaCurrentState = .idle := by
        obtain ⟨hp2l, hstart⟩ := hcalm.2.2.2 hstate
        simp [P2lDmaMaster.pReadReqFsm, hstate, hp2l, hstart]
      refine ⟨k, ⟨_, hstage.idle_step hcalm hstate⟩, ?_⟩
      rw [hnone (by simp [hstate]), hfsm, hnext]
      simpa [hstate] using hcount
  | header =>
      have hnext : (s.master.pReadReqFsm (s.masterIn i)).p2lDmaCurrentState ≠
          .waitReadCompletion := by
        simp only [P2lDmaMaster.pReadReqFsm, hstate]
        split_ifs <;> simp [hstate]
      refine ⟨k, ⟨_, hstage.header_step _ hcalm hstate⟩, ?_⟩
      rw [hnone (by simp [hstate]), hfsm, if_neg hnext]
      simpa [hstate] using hcount
  | addrH =>
      refine ⟨k, ⟨_, hstage.addrH_step _ hstate⟩, ?_⟩
      rw [hnone (by simp [hstate]), hfsm]
      simpa [P2lDmaMaster.pReadReqFsm, hstate] using hcount
  | addrL =>
      have hat := hstage.atState
      simp only [ReadTransfer.AtState] at hat
      rw [show s.asking.client.fsm.p2lDmaCurrentState = .addrL from hstate] at hat
      obtain ⟨hlt, -, -, -, -, hannounced⟩ := hat
      have hload : (s.master.pRecvDataCnt (s.masterIn i)).toNat = t.chunk k :=
        P2lDmaMaster.pRecvDataCnt_addrL (s.masterIn i) hlt hannounced hstate
      have hnext : (s.master.pReadReqFsm (s.masterIn i)).p2lDmaCurrentState =
          .waitReadCompletion := by
        simp [P2lDmaMaster.pReadReqFsm, hstate]
      refine ⟨k + 1, ⟨_, hstage.addrL_step _ hstate⟩, ?_⟩
      rw [hnone (by simp [hstate]), hfsm, if_pos hnext, hcnt, hload]
      simp only [hstate, reduceCtorEq, if_false] at hcount
      unfold ReadTransfer.chunk
      omega
  | waitReadCompletion =>
      have hcases := wait_cases ⟨⟨words, hstage⟩, hcount⟩ hanswered hclean hstate
      rw [if_pos hstate] at hcount
      refine ⟨k, ⟨_, hstage.wait_step _ hcalm hstate⟩, ?_⟩
      rw [hfsm, hcnt]
      -- no word, one with others of its request behind it, or the last one
      obtain ⟨hword, hnext, hsame⟩ | ⟨hword, hmore, hnext, hdown⟩ | ⟨hword, hone, hlast⟩ := hcases
      · rw [if_pos hnext, hsame]
        simpa [receivedWords_of_not hword] using hcount
      · have hunit : (1 : BitVec 11).toNat = 1 := rfl
        rw [if_pos hnext, hdown, BitVec.toNat_sub_of_le (by rw [BitVec.le_def]; exact hmore.le), hunit]
        rw [(receivedWords_of_word hword).2, List.length_singleton]
        omega
      · have hnext : (s.master.pReadReqFsm (s.masterIn i)).p2lDmaCurrentState ≠
            .waitReadCompletion := by
          rw [(P2lDmaMaster.pReadReqFsm_of_last hstate hcalm.2.1 hlast).1]
          split <;> simp
        rw [if_neg hnext]
        rw [hone] at hcount
        rw [(receivedWords_of_word hword).2, List.length_singleton]
        have hcount' : 1 + m = min (1024 * k) t.len := hcount.1
        omega

/-! ## A next item -/

/-- The words a request still has to receive before word `j` of a transfer of `n` words. -/
def missing (n j : ℕ) : ℕ := min (1024 * (j / 1024 + 1)) n - j

/-- The next item after the words `ws` of a fetch of `n` words, of which `j` were received
before. -/
def fillItem (n : ℕ) : ℕ → DmaItem → List Word → DmaItem
  | _, item, [] => item
  | j, item, w :: ws => fillItem n (j + 1) (item.store (BitVec.ofNat 3 (missing n j)) w) ws

theorem fillItem_concat (n j : ℕ) (item : DmaItem) (ws : List Word) (w : Word) :
    fillItem n j item (ws ++ [w]) =
      (fillItem n j item ws).store (BitVec.ofNat 3 (missing n (j + ws.length))) w := by
  induction ws generalizing j item with
  | nil => rfl
  | cons v ws ih =>
      rw [List.cons_append, fillItem, ih, fillItem, List.length_cons, Nat.add_assoc, Nat.add_comm 1]

/-- The counter selects the field for the next word of the completion. -/
theorem field_eq {t : ReadTransfer} {k m : ℕ} (h : Receiving t k m s)
    (hwait : s.master.fsm.p2lDmaCurrentState = .waitReadCompletion) :
    s.master.p2lDataCnt.setWidth 3 = BitVec.ofNat 3 (missing t.len m) := by
  have hcount := h.count
  rw [if_pos hwait] at hcount
  -- `1024 * (k - 1) ≤ m < 1024 * k`: the request under way is number `m / 1024`
  have hmissing : s.master.p2lDataCnt.toNat = missing t.len m := by
    unfold missing
    omega
  apply BitVec.eq_of_toNat_eq
  rw [BitVec.toNat_setWidth, BitVec.toNat_ofNat, hmissing]

/-- A fetch that has received `ws` and pulsed `next_item_valid_o` with `pulses`.  While it
waits, the field that the next word overwrites may hold a word of another packet. -/
structure Fetching (t : ReadTransfer) (item : DmaItem) (s : P2lPath) (ws : List Word)
    (pulses : List DmaItem) : Prop where
  noPulse : s.master.fsm.p2lDmaCurrentState ≠ .idle → s.master.fsm.nextItemValid = false
  stored : s.master.readReq.isNextItem = true →
    if s.master.fsm.p2lDmaCurrentState = .waitReadCompletion then
      ∀ w, s.master.nextItem.store (s.master.p2lDataCnt.setWidth 3) w =
        (fillItem t.len 0 item ws).store (s.master.p2lDataCnt.setWidth 3) w
    else s.master.nextItem = fillItem t.len 0 item ws
  pulses : pulses =
    if s.master.readReq.isNextItem ∧ ws.length = t.len then [fillItem t.len 0 item ws] else []

/-- An edge outside the waiting state stores nothing and pulses nothing. -/
theorem Fetching.step_of_not_wait {t : ReadTransfer} {item : DmaItem} {ws : List Word}
    {pulses : List DmaItem} (h : Fetching t item s ws pulses) (hanswered : Answered s i)
    (hwait : s.master.fsm.p2lDmaCurrentState ≠ .waitReadCompletion) :
    Fetching t item (step gByteSwap s i) (ws ++ s.receivedWords)
      (pulses ++ (step gByteSwap s i).items) := by
  obtain ⟨hnoPulse, hstored, hpulses⟩ := h
  have hreceived := receivedWords_of_not_waiting hanswered.2 hwait
  have hvalid : (step gByteSwap s i).master.fsm.nextItemValid = false := by
    show (s.master.pReadReqFsm (s.masterIn i)).nextItemValid = false
    cases hstate : s.master.fsm.p2lDmaCurrentState with
    | idle => simp [P2lDmaMaster.pReadReqFsm, hstate]
    | header =>
        simp only [P2lDmaMaster.pReadReqFsm, hstate]
        split <;> exact hnoPulse (by simp [hstate])
    | addrH => simpa [P2lDmaMaster.pReadReqFsm, hstate] using hnoPulse (by simp [hstate])
    | addrL => simpa [P2lDmaMaster.pReadReqFsm, hstate] using hnoPulse (by simp [hstate])
    | waitReadCompletion => exact absurd hstate hwait
  have hitem : (step gByteSwap s i).master.nextItem = s.master.nextItem := by
    show s.master.pNextItem (s.masterIn i) = _
    simp [P2lDmaMaster.pNextItem, P2lDmaMaster.storesItem, hwait]
  have hitems : (step gByteSwap s i).items = [] := by simp [items, hvalid]
  rw [hreceived, hitems, List.append_nil, List.append_nil]
  refine ⟨fun _ => hvalid, fun hnext => ?_, ?_⟩
  · rw [isNextItem_step hanswered.1] at hnext
    have heq := hstored hnext
    rw [if_neg hwait] at heq
    rw [hitem, heq]
    simp
  · rwa [isNextItem_step hanswered.1]

/-- The waiting master stores every word that the decoder shows. -/
theorem nextItem_step_of_wait (hwait : s.master.fsm.p2lDmaCurrentState = .waitReadCompletion)
    (hnext : s.master.readReq.isNextItem = true) :
    (step gByteSwap s i).master.nextItem =
      if s.decoder.data.p2lDValid then
        s.master.nextItem.store (s.master.p2lDataCnt.setWidth 3) s.decoder.data.p2lD
      else s.master.nextItem := by
  show s.master.pNextItem (s.masterIn i) = _
  simp [P2lDmaMaster.pNextItem, P2lDmaMaster.storesItem, hwait, hnext, masterIn, P2lDecode32.pdPdm]

variable (gByteSwap) in
/-- It does not pulse as long as it waits. -/
theorem no_item_of_wait (hwait : s.master.fsm.p2lDmaCurrentState = .waitReadCompletion)
    (hvalid : s.master.fsm.nextItemValid = false)
    (hstay : (s.master.pReadReqFsm (s.masterIn i)).p2lDmaCurrentState = .waitReadCompletion) :
    (step gByteSwap s i).items = [] ∧ (step gByteSwap s i).master.fsm.nextItemValid = false := by
  have hno : (step gByteSwap s i).master.fsm.nextItemValid = false := by
    show (s.master.pReadReqFsm (s.masterIn i)).nextItemValid = false
    revert hstay
    simp only [P2lDmaMaster.pReadReqFsm, hwait]
    split_ifs <;> simp [hvalid]
  exact ⟨by simp [items, hno], hno⟩

/-- The last word of a request that is received is the last one of the transfer if the packet is
the last one. -/
theorem Receiving.lastPacket_eq {t : ReadTransfer} {k m : ℕ} (h : Receiving t k m s)
    (hwait : s.master.fsm.p2lDmaCurrentState = .waitReadCompletion)
    (hone : s.master.p2lDataCnt = 1) :
    s.master.readReq.l2pLastPacket = decide (m + 1 = t.len) := by
  obtain ⟨⟨words, hstage⟩, hcount⟩ := h
  have hat := hstage.atState
  simp only [ReadTransfer.AtState] at hat
  rw [show s.asking.client.fsm.p2lDmaCurrentState = .waitReadCompletion from hwait] at hat
  obtain ⟨-, -, hlastPacket, -⟩ := hat
  rw [if_pos hwait, hone] at hcount
  have hlen : 1 + m = min (1024 * k) t.len := hcount.1
  rw [show s.master.readReq.l2pLastPacket = decide (t.len ≤ 1024 * k) from hlastPacket,
    decide_eq_decide]
  omega

theorem Fetching.step_of_wait {t : ReadTransfer} {item : DmaItem} {k : ℕ} {ws : List Word}
    {pulses : List DmaItem} (h : Fetching t item s ws pulses) (hrecv : Receiving t k ws.length s)
    (hanswered : Answered s i) (hclean : CleanStrobes s)
    (hwait : s.master.fsm.p2lDmaCurrentState = .waitReadCompletion) :
    Fetching t item (step gByteSwap s i) (ws ++ s.receivedWords)
      (pulses ++ (step gByteSwap s i).items) := by
  have hcases := wait_cases hrecv hanswered hclean hwait
  have hfield := field_eq hrecv hwait
  have hcount := hrecv.count
  obtain ⟨hnoPulse, hstored, hpulses⟩ := h
  rw [if_pos hwait] at hcount
  have hshort : ws.length ≠ t.len := by omega
  rw [if_neg (fun h => hshort h.2)] at hpulses
  rw [if_pos hwait] at hstored
  have hvalid := hnoPulse (by simp [hwait])
  have hfsm : (step gByteSwap s i).master.fsm = s.master.pReadReqFsm (s.masterIn i) := rfl
  have hcnt : (step gByteSwap s i).master.p2lDataCnt = s.master.pRecvDataCnt (s.masterIn i) := rfl
  have habort : (s.masterIn i).ctrl.abort = false := hanswered.1.2.1
  obtain ⟨hword, hstay, hsame⟩ | ⟨hword, hmore, hstay, -⟩ | ⟨hword, hone, hlast⟩ := hcases
  · -- no completion word: the same field is still to come
    obtain ⟨hitems, hno⟩ := no_item_of_wait gByteSwap hwait hvalid hstay
    rw [receivedWords_of_not hword, hitems, hpulses, List.append_nil, List.append_nil]
    refine ⟨fun _ => hno, fun hitem => ?_, by rw [if_neg fun h => hshort h.2]⟩
    rw [isNextItem_step hanswered.1] at hitem
    rw [hfsm, if_pos hstay, hcnt, hsame, nextItem_step_of_wait hwait hitem]
    intro w
    rw [← hstored hitem w]
    split
    · rw [DmaItem.store_store]
    · rfl
  · -- the word of the completion replaces whatever the field holds
    obtain ⟨hitems, hno⟩ := no_item_of_wait gByteSwap hwait hvalid hstay
    obtain ⟨hshown, hreceived⟩ := receivedWords_of_word hword
    have hstill : (ws ++ [s.decoder.data.p2lD]).length ≠ t.len := by
      rw [List.length_append, List.length_singleton]
      omega
    rw [hreceived, hitems, hpulses]
    refine ⟨fun _ => hno, fun hitem => ?_, by rw [if_neg fun h => hstill h.2]; rfl⟩
    rw [isNextItem_step hanswered.1] at hitem
    rw [hfsm, if_pos hstay, nextItem_step_of_wait hwait hitem, if_pos hshown,
      hstored hitem, fillItem_concat, hfield, Nat.zero_add]
    exact fun w => rfl
  · -- the last word of a request
    obtain ⟨hshown, hreceived⟩ := receivedWords_of_word hword
    obtain ⟨hstate, hpulse⟩ := P2lDmaMaster.pReadReqFsm_of_last hwait habort hlast
    have hleave : (s.master.pReadReqFsm (s.masterIn i)).p2lDmaCurrentState ≠
        .waitReadCompletion := by
      rw [hstate]
      split <;> simp
    have hfill : s.master.readReq.isNextItem = true → (step gByteSwap s i).master.nextItem =
        fillItem t.len 0 item (ws ++ [s.decoder.data.p2lD]) := by
      intro hitem
      rw [nextItem_step_of_wait hwait hitem, if_pos hshown, hstored hitem,
        fillItem_concat, hfield, Nat.zero_add]
    have hfull : s.master.readReq.l2pLastPacket =
        decide ((ws ++ [s.decoder.data.p2lD]).length = t.len) := by
      rw [List.length_append, List.length_singleton]
      exact hrecv.lastPacket_eq hwait hone
    rw [hvalid, Bool.false_or] at hpulse
    rw [hreceived, hpulses, List.nil_append]
    refine ⟨fun hidle => ?_, fun hitem => ?_, ?_⟩
    · rw [hfsm, hstate] at hidle
      rw [hfsm, hpulse]
      cases hlastPacket : s.master.readReq.l2pLastPacket with
      | false => rfl
      | true => simp [hlastPacket] at hidle
    · rw [isNextItem_step hanswered.1] at hitem
      rw [hfsm, if_neg hleave]
      exact hfill hitem
    · rw [isNextItem_step hanswered.1, items, hfsm, hpulse, hfull]
      by_cases hitem : s.master.readReq.isNextItem = true
      · rw [hfill hitem, hitem]
        simp
      · simp [hitem]

/-- Every edge after the order, with `ws` received before it. -/
theorem fetching_step {t : ReadTransfer} {item : DmaItem} {k : ℕ} {ws : List Word}
    {pulses : List DmaItem} (h : Fetching t item s ws pulses) (hrecv : Receiving t k ws.length s)
    (hanswered : Answered s i) (hclean : CleanStrobes s) :
    Fetching t item (P2lPath.step gByteSwap s i) (ws ++ s.receivedWords)
      (pulses ++ (P2lPath.step gByteSwap s i).items) := by
  by_cases hwait : s.master.fsm.p2lDmaCurrentState = .waitReadCompletion
  · exact h.step_of_wait hrecv hanswered hclean hwait
  · exact h.step_of_not_wait hanswered hwait

theorem fetching_run {t : ReadTransfer} {item : DmaItem} (h : Fetching t item s [] [])
    (hrecv : Receiving t 0 0 s)
    (legal : Always (step gByteSwap) (fun s i => Answered s i ∧ CleanStrobes s) s is) :
    ∃ k, Receiving t k (received gByteSwap s is).length (run (step gByteSwap) s is) ∧
      Fetching t item (run (step gByteSwap) s is) (received gByteSwap s is)
        (log (step gByteSwap) (after (step gByteSwap) items) s is) := by
  refine run_induction (motive := fun js =>
    ∃ k, Receiving t k (received gByteSwap s js).length (Clocked.run (step gByteSwap) s js) ∧
      Fetching t item (Clocked.run (step gByteSwap) s js) (received gByteSwap s js)
        (log (step gByteSwap) (after (step gByteSwap) items) s js)) legal ⟨0, hrecv, h⟩ ?_
  intro js i _ hi hjs
  obtain ⟨k, hk, hfetch⟩ := hjs
  obtain ⟨k', hk'⟩ := hk.step hi.1 hi.2
  rw [received, log_concat, log_concat, run_concat, List.length_append]
  exact ⟨k', hk', fetching_step hfetch hk hi.1 hi.2⟩

/-! ## Two runs of one transfer -/

/-- A run that answers an order given in the state `s`, while the bus carries the packets
`ps`.  Nothing else disturbs the master, and the last data word has reached it. -/
structure Session (gByteSwap : Bool) (s : P2lPath) (order : DmaCtrl) (ps : List Packet) where
  before : List P2lPathIn
  start : P2lPathIn
  rest : List P2lPathIn
  stream : Stream ps ((before ++ start :: rest).map P2lPathIn.des)
  ordered : start.ctrl = order
  calmBefore : Always (step gByteSwap) Undisturbed s before
  calm : Always (step gByteSwap) Undisturbed (step gByteSwap (run (step gByteSwap) s before) start) rest
  answers : Always (step gByteSwap) (fun s _ => Answers s) s (before ++ start :: rest)
  drained : (run (step gByteSwap) s (before ++ start :: rest)).decoder.data.p2lDValid = false

/-- The master before the order: what a transfer starts from is as in the state `s₀`. -/
structure Resting (s₀ s : P2lPath) : Prop where
  ready : s.master.Ready
  noPush : s.master.addrCnt.toWbFifoWr = false
  target : s.master.addrCnt.targetAddrCnt = s₀.master.addrCnt.targetAddrCnt
  byteSwap : s.master.addrCnt.toWbFifoByteSwap = s₀.master.addrCnt.toWbFifoByteSwap
  item : s.master.nextItem = s₀.master.nextItem

theorem Resting.step {s₀ : P2lPath} (h : Resting s₀ s) (hcalm : Undisturbed s i) :
    Resting s₀ (step gByteSwap s i) ∧ (step gByteSwap s i).pushes = [] ∧
      (step gByteSwap s i).items = [] := by
  obtain ⟨⟨hidle, hvalid, hreq⟩, hpush, htarget, hswap, hitem⟩ := h
  obtain ⟨-, -, hp2l, hnext⟩ := hcalm
  have hp2l' : (s.masterIn i).ctrl.startP2l = false := hp2l
  have hnext' : (s.masterIn i).ctrl.startNext = false := hnext
  have hfsm : (P2lPath.step gByteSwap s i).master.fsm = s.master.pReadReqFsm (s.masterIn i) := rfl
  have haddr : (P2lPath.step gByteSwap s i).master.addrCnt =
      s.master.pAddrCnt gByteSwap (s.masterIn i) := rfl
  have hitem' : (P2lPath.step gByteSwap s i).master.nextItem = s.master.pNextItem (s.masterIn i) := rfl
  have haddrCnt : s.master.pAddrCnt gByteSwap (s.masterIn i) =
      { s.master.addrCnt with dmaBusyError := false, toWbFifoWr := false } := by
    simp [P2lDmaMaster.pAddrCnt, P2lDmaMaster.storesWord, hidle, hp2l']
  refine ⟨⟨⟨?_, ?_, ?_⟩, ?_, ?_, ?_, ?_⟩, ?_, ?_⟩
  · simp [hfsm, P2lDmaMaster.pReadReqFsm, hidle, hp2l', hnext']
  · simpa [hfsm, P2lDmaMaster.pReadReqFsm, hidle] using hvalid
  · simpa [hfsm, P2lDmaMaster.pReadReqFsm, hidle, hp2l', hnext'] using hreq
  · rw [haddr, haddrCnt]
  · rw [haddr, haddrCnt, ← htarget]
  · rw [haddr, haddrCnt, ← hswap]
  · rw [hitem', ← hitem]
    simp [P2lDmaMaster.pNextItem, P2lDmaMaster.storesItem, hidle]
  · simp [pushes, haddr, haddrCnt]
  · simp [items, hfsm, P2lDmaMaster.pReadReqFsm, hidle]

theorem resting_run {s₀ : P2lPath} (h : Resting s₀ s)
    (legal : Always (step gByteSwap) Undisturbed s is) :
    Resting s₀ (run (step gByteSwap) s is) ∧
      log (step gByteSwap) (after (step gByteSwap) pushes) s is = [] ∧
      log (step gByteSwap) (after (step gByteSwap) items) s is = [] := by
  refine run_induction (motive := fun js =>
    Resting s₀ (run (step gByteSwap) s js) ∧
      log (step gByteSwap) (after (step gByteSwap) pushes) s js = [] ∧
      log (step gByteSwap) (after (step gByteSwap) items) s js = []) legal ⟨h, rfl, rfl⟩ ?_
  intro js i _ hi hjs
  obtain ⟨hrest, hpushes, hitems⟩ := hjs
  rw [run_concat, log_concat, log_concat, hpushes, hitems]
  exact hrest.step hi

/-- The state after an order. -/
structure Ordered (s₀ : P2lPath) (order : DmaCtrl) (s : P2lPath) : Prop where
  receiving : Receiving order.transfer 0 0 s
  fetching : Fetching order.transfer s₀.master.nextItem s [] []
  isNextItem : s.master.readReq.isNextItem = order.startNext
  target : s.master.addrCnt.targetAddrCnt =
    if order.startP2l then order.carrierAddr.extractLsb' 2 30 else s₀.master.addrCnt.targetAddrCnt
  byteSwap : s.master.addrCnt.toWbFifoByteSwap =
    if order.startP2l then order.byteSwap else s₀.master.addrCnt.toWbFifoByteSwap

variable (gByteSwap) in
theorem Resting.ordered {s₀ : P2lPath} {order : DmaCtrl} (h : Resting s₀ s)
    (horder : i.ctrl = order) (hstart : order.startP2l || order.startNext)
    (hlen : 1 ≤ order.transfer.len) :
    Ordered s₀ order (P2lPath.step gByteSwap s i) ∧ (P2lPath.step gByteSwap s i).pushes = [] ∧
      (P2lPath.step gByteSwap s i).items = [] := by
  subst horder
  obtain ⟨hready, hpush, htarget, hswap, hitem⟩ := h
  have hidle := hready.idle
  have hfsm : (P2lPath.step gByteSwap s i).master.fsm = s.master.pReadReqFsm (s.masterIn i) := rfl
  have haddr : (P2lPath.step gByteSwap s i).master.addrCnt =
      s.master.pAddrCnt gByteSwap (s.masterIn i) := rfl
  have hread : (P2lPath.step gByteSwap s i).master.readReq = s.master.pReadReq (s.masterIn i) := rfl
  have hitem' : (P2lPath.step gByteSwap s i).master.nextItem = s₀.master.nextItem := by
    show s.master.pNextItem (s.masterIn i) = _
    rw [← hitem]
    simp [P2lDmaMaster.pNextItem, P2lDmaMaster.storesItem, hidle]
  have hheader : (s.master.pReadReqFsm (s.masterIn i)).p2lDmaCurrentState = .header ∧
      (s.master.pReadReqFsm (s.masterIn i)).nextItemValid = false := by
    simp [P2lDmaMaster.pReadReqFsm, hidle, masterIn, hstart]
  have hnotWait : (P2lPath.step gByteSwap s i).master.fsm.p2lDmaCurrentState ≠ .waitReadCompletion := by
    rw [hfsm, hheader.1]
    simp
  have hnoPush : (P2lPath.step gByteSwap s i).master.addrCnt.toWbFifoWr = false := by
    rw [haddr]
    cases hp2l : i.ctrl.startP2l <;>
      simp [P2lDmaMaster.pAddrCnt, P2lDmaMaster.storesWord, masterIn, hp2l, hidle, hpush]
  have hstage : i.ctrl.transfer.Stage 0 (P2lPath.step gByteSwap s i).asking [] :=
    P2lDmaMaster.Ready.stage (i := s.masterIn i) hready hstart hlen
  refine ⟨⟨⟨⟨[], hstage⟩, ?_⟩, ⟨fun _ => ?_, fun _ => ?_, ?_⟩, ?_, ?_, ?_⟩, ?_, ?_⟩
  · rw [if_neg hnotWait]
    simp
  · rw [hfsm, hheader.2]
  · rw [if_neg hnotWait, hitem']
    rfl
  · have hpos : ([] : List Word).length ≠ i.ctrl.transfer.len := by
      rw [List.length_nil]
      omega
    rw [if_neg fun h => hpos h.2]
  · rw [hread]
    simp only [P2lDmaMaster.pReadReq, hidle, masterIn, hstart, if_true]
  · rw [haddr, ← htarget]
    cases hp2l : i.ctrl.startP2l <;>
      simp [P2lDmaMaster.pAddrCnt, P2lDmaMaster.storesWord, masterIn, hp2l, hidle]
  · rw [haddr, ← hswap]
    cases hp2l : i.ctrl.startP2l <;>
      simp [P2lDmaMaster.pAddrCnt, P2lDmaMaster.storesWord, masterIn, hp2l, hidle]
  · simp [pushes, hnoPush]
  · simp [items, hfsm, hheader.2]

variable (gByteSwap) in
/-- Only completions and target writes are on the bus, so the strobes are clean. -/
theorem clean_always {ps : List Packet} (hstream : Stream ps (is.map P2lPathIn.des))
    (hquiet : s.Quiet) (htypes : ∀ p ∈ ps, p.type.masterCpld = true ∨ p.type.targetMwr = true) :
    Always (step gByteSwap) (fun s _ => CleanStrobes s) s is := by
  have hdecoder : ∀ (s : P2lPath) (i : P2lPathIn),
      (step gByteSwap s i).decoder = s.decoder.step i.des := fun _ _ => rfl
  have hcpln := hquiet.between.types (P := fun type => type.masterCpln = false) hstream rfl
    (fun p hp => Packet.masterCpln_eq_false (htypes p hp)) (by rw [hquiet.noType]; rfl)
  have hboth := hcpln.and (hquiet.between.delivers hstream).last
  rw [← always_component hdecoder] at hboth
  refine Always.of_after ⟨by rw [hquiet.noType]; rfl, fun h => by simp [hquiet.noLast] at h⟩ ?_
  exact hboth.mono fun _ _ h => ⟨h.1, h.2⟩

namespace Session

variable {order : DmaCtrl} {ps : List Packet} (a : Session gByteSwap s order ps)

/-- The inputs of the run. -/
def inputs : List P2lPathIn := a.before ++ a.start :: a.rest

/-- The state after the order. -/
def started : P2lPath := step gByteSwap (run (step gByteSwap) s a.before) a.start

/-- The words written into `to_wb_fifo` along the run. -/
def pushes : List ToWbWord := log (step gByteSwap) (after (step gByteSwap) P2lPath.pushes) s a.inputs

/-- The values presented with the pulses of `next_item_valid_o`. -/
def items : List DmaItem := log (step gByteSwap) (after (step gByteSwap) P2lPath.items) s a.inputs

/-- No word of another packet is strobed while the master waits for a P2L transfer. -/
def NoForeignWord : Prop := Always (step gByteSwap) (fun s _ => ¬ s.ForeignWord) s a.inputs

/-- While the bus carries completions only, no word is foreign. -/
theorem noForeignWord (hquiet : s.Quiet) (htypes : ∀ p ∈ ps, p.type.masterCpld = true) :
    a.NoForeignWord := by
  have hcpld : Always (step gByteSwap)
      (fun s _ => ∀ tw ∈ s.decoder.dataStrobe, tw.1.masterCpld = true) s a.inputs := by
    rw [← forall_mem_log, inputs, strobes_eq a.stream hquiet a.drained]
    intro tw hmem
    obtain ⟨p, hp, hw⟩ := List.mem_flatMap.mp hmem
    obtain ⟨w, -, rfl⟩ := List.mem_map.mp hw
    exact htypes p hp
  refine hcpld.mono fun s _ h hforeign => ?_
  obtain ⟨hvalid, htype, -, -⟩ := hforeign
  have hthis := h (s.decoder.type, s.decoder.data.p2lD) (by simp [P2lDecode32.dataStrobe, hvalid])
  simp [htype] at hthis

/-- A run is determined by the completion words and by the words stored. -/
structure Normal (a : Session gByteSwap s order ps) : Prop where
  received : received gByteSwap a.started a.rest =
    (ps.filter fun p => p.type.masterCpld).flatMap Packet.data
  pushes : a.pushes =
    fifoWords gByteSwap a.started.master.addrCnt.targetAddrCnt
      a.started.master.addrCnt.toWbFifoByteSwap (stored gByteSwap a.started a.rest)
  items : a.items =
    if a.started.master.readReq.isNextItem ∧
      (P2lPath.received gByteSwap a.started a.rest).length = order.transfer.len
    then [fillItem order.transfer.len 0 s.master.nextItem (P2lPath.received gByteSwap a.started a.rest)]
    else []
  foreign : a.NoForeignWord ↔
    Always (step gByteSwap) (fun s _ => ¬ s.ForeignWord) a.started a.rest
  answered : Always (step gByteSwap) Answered a.started a.rest
  ordered : Ordered s order a.started

theorem normal (hquiet : s.Quiet) (hstart : order.startP2l || order.startNext)
    (hlen : 1 ≤ order.transfer.len)
    (htypes : ∀ p ∈ ps, p.type.masterCpld = true ∨ p.type.targetMwr = true) : a.Normal := by
  have hrest : Resting s s := ⟨hquiet.ready, hquiet.noPush, rfl, rfl, rfl⟩
  obtain ⟨hresting, hnoPush, hnoItem⟩ := resting_run hrest a.calmBefore
  obtain ⟨hord, hpush, hitem⟩ := hresting.ordered gByteSwap a.ordered hstart hlen
  have hanswers := a.answers
  rw [always_append, always_cons] at hanswers
  obtain ⟨hanswersBefore, hanswersStart, hanswersRest⟩ := hanswers
  have hanswered : Always (step gByteSwap) Answered a.started a.rest := a.calm.and hanswersRest
  have hclean := clean_always gByteSwap a.stream hquiet htypes
  rw [always_append, always_cons] at hclean
  obtain ⟨k, -, hfetch⟩ := fetching_run hord.fetching hord.receiving (hanswered.and hclean.2.2)
  -- nothing is received or stored before the order
  have hidle : ∀ s' : P2lPath, s'.master.fsm.p2lDmaCurrentState = .idle → Answers s' →
      s'.receivedWords = [] ∧ ¬ s'.ForeignWord := by
    intro s' hstate hans
    have hne : s'.master.fsm.p2lDmaCurrentState ≠ .waitReadCompletion := by
      rw [hstate]
      decide
    exact ⟨receivedWords_of_not_waiting hans hne, fun h => by simp [ForeignWord, hstate] at h⟩
  have hbefore : Always (step gByteSwap) (fun s' _ => Resting s s' ∧ Answers s') s a.before := by
    have hkeeps : ∀ s' i, Resting s s' → Undisturbed s' i → Resting s (step gByteSwap s' i) :=
      fun _ _ h hi => (h.step hi).1
    exact ((Always.of_invariant hkeeps a.calmBefore hrest).and hanswersBefore).mono
      fun _ _ h => ⟨h.1.1, h.2⟩
  have hnone : log (step gByteSwap) (fun s _ => s.receivedWords) s a.before = [] :=
    log_eq_nil (fun s' _ h => (hidle s' h.1.ready.idle h.2).1) hbefore
  have hstartNone := hidle _ hresting.ready.idle hanswersStart
  have hreceived := received_eq a.stream hquiet a.drained
  rw [P2lPath.received, log_append, hnone, log_cons, hstartNone.1] at hreceived
  refine ⟨hreceived, ?_, ?_, ?_, hanswered, hord⟩
  · rw [pushes, inputs, log_append, hnoPush, log_cons, after, hpush]
    exact (pushes_eq a.calm).1
  · rw [items, inputs, log_append, hnoItem, log_cons, after, hitem]
    have hnext : (run (step gByteSwap) a.started a.rest).master.readReq.isNextItem =
        a.started.master.readReq.isNextItem := by
      have hkeeps : ∀ s i, s.master.readReq.isNextItem = a.started.master.readReq.isNextItem →
          Undisturbed s i → (step gByteSwap s i).master.readReq.isNextItem =
            a.started.master.readReq.isNextItem := fun _ _ h hi => (isNextItem_step hi).trans h
      exact invariant_run hkeeps a.calm rfl
    have hpulses := hfetch.pulses
    rwa [show step gByteSwap (run (step gByteSwap) s a.before) a.start = a.started from rfl,
      hnext] at hpulses
  · rw [NoForeignWord, inputs, always_append, always_cons]
    have hbefore' := hbefore.mono fun s' _ h => (hidle s' h.1.ready.idle h.2).2
    exact ⟨fun h => h.2.2, fun h => ⟨hbefore', hstartNone.2, h⟩⟩

end Session

/-- **Host writes and a P2L DMA.**  Take two runs of the same order from a quiet state: the
run `a` carries only completions, the run `b` the same completions with target writes
between them.  The two runs write the same words to the same addresses and present the same
next items if and only if in `b` no word of a target write is strobed while the master
waits for the words of a P2L transfer.  A fetch of a next item meets this condition always. -/
theorem same_stores_iff {order : DmaCtrl} {qs : List Packet} (hquiet : s.Quiet)
    (hstart : order.startP2l || order.startNext) (hlen : 1 ≤ order.transfer.len)
    (htypes : ∀ q ∈ qs, q.type.masterCpld = true ∨ q.type.targetMwr = true)
    (a : Session gByteSwap s order (qs.filter fun q => q.type.masterCpld))
    (b : Session gByteSwap s order qs) :
    b.pushes = a.pushes ∧ b.items = a.items ↔ b.NoForeignWord := by
  have ha := a.normal hquiet hstart hlen fun q hq => htypes q (List.mem_of_mem_filter hq)
  have hb := b.normal hquiet hstart hlen htypes
  have hreceived : received gByteSwap b.started b.rest = received gByteSwap a.started a.rest := by
    rw [ha.received, hb.received, List.filter_filter]
    simp
  have hitems : b.items = a.items := by
    rw [ha.items, hb.items, ha.ordered.isNextItem, hb.ordered.isNextItem, hreceived]
  have htarget : b.started.master.addrCnt.targetAddrCnt = a.started.master.addrCnt.targetAddrCnt := by
    rw [ha.ordered.target, hb.ordered.target]
  have hswap : b.started.master.addrCnt.toWbFifoByteSwap =
      a.started.master.addrCnt.toWbFifoByteSwap := by
    rw [ha.ordered.byteSwap, hb.ordered.byteSwap]
  rw [hb.foreign, ha.pushes, hb.pushes, htarget, hswap]
  cases hnext : order.startNext with
  | true =>
      -- a fetch stores nothing in either run
      obtain ⟨hstoredA, -⟩ := stored_of_fetch a.calm (ha.ordered.isNextItem.trans hnext)
      obtain ⟨hstoredB, hforeign⟩ := stored_of_fetch b.calm (hb.ordered.isNextItem.trans hnext)
      rw [show stored gByteSwap a.started a.rest = [] from hstoredA,
        show stored gByteSwap b.started b.rest = [] from hstoredB]
      exact ⟨fun _ => hforeign, fun _ => ⟨rfl, hitems⟩⟩
  | false =>
      have hitemA := ha.ordered.isNextItem.trans hnext
      have hitemB := hb.ordered.isNextItem.trans hnext
      have hforeignA := ha.foreign.mp (a.noForeignWord hquiet fun q hq => (List.mem_filter.mp hq).2)
      have hstoredA := stored_eq ha.answered hitemA hforeignA
      refine ⟨fun hsame => ?_, fun hforeign => ⟨?_, hitems⟩⟩
      · -- a foreign word would be one word more
        rw [← stored_length_iff hb.answered hitemB, hreceived, ← hstoredA]
        have hlength := congrArg List.length hsame.1
        rw [fifoWords, fifoWords, List.length_mapIdx, List.length_mapIdx] at hlength
        exact hlength.symm
      · rw [stored_eq hb.answered hitemB hforeign, hreceived, hstoredA]

/-! ### A transfer of two words, answered by two completions -/

/-- The order of a P2L transfer of two words. -/
def twoWords : DmaCtrl := { DmaCtrl.quiet with hostAddrL := 0x1000, len := 8, startP2l := true }

/-- A cycle on the bus without an order from the DMA controller. -/
def busEdge (gnt : Bool) (des : DesP2l) : P2lPathIn := ⟨des, .quiet, gnt⟩

/-- The request is granted, and then the bus carries the packets in `slots`. -/
def answerEdges (slots : List (Option Packet)) : List P2lPathIn :=
  [busEdge false ⟨false, false, 0⟩, busEdge true ⟨false, false, 0⟩, busEdge false ⟨false, false, 0⟩] ++
    (slots.flatMap slotCycles).map (busEdge false)

def startEdge : P2lPathIn := ⟨⟨false, false, 0⟩, twoWords, false⟩

/-- The run from reset that answers the order with the packets in `slots`. -/
def Session.ofSlots (slots : List (Option Packet))
    (calm : Always (step false) Undisturbed (step false reset startEdge) (answerEdges slots))
    (answers : Always (step false) (fun s _ => Answers s) reset (startEdge :: answerEdges slots))
    (drained : (run (step false) reset (startEdge :: answerEdges slots)).decoder.data.p2lDValid =
      false) : Session false reset twoWords (slots.filterMap id) where
  before := []
  start := startEdge
  rest := answerEdges slots
  stream := by
    have hcycles := stream_of_slots ([none, none, none, none] ++ slots)
    have hbus : (startEdge :: answerEdges slots).map P2lPathIn.des =
        ([none, none, none, none] ++ slots).flatMap slotCycles := by
      simp [startEdge, answerEdges, busEdge, slotCycles, Function.comp_def]
    rw [List.nil_append, hbus]
    exact hcycles
  ordered := rfl
  calmBefore := trivial
  calm := calm
  answers := answers
  drained := drained

/-- The two completions, and a target write. -/
def firstWord : Packet := ⟨0x05000401, 0, [0xa], by decide⟩
def secondWord : Packet := ⟨0x05008401, 0, [0xb], by decide⟩
def hostWrite : Packet := ⟨0x020f0001, 0x1004, [0xdead], by decide⟩

def undisturbed : Session false reset twoWords [firstWord, secondWord] :=
  .ofSlots [some firstWord, none, some secondWord, none] (by decide +kernel) (by decide +kernel)
    (by decide +kernel)

/-- The write comes between the completions. -/
def writeBetween : Session false reset twoWords [firstWord, hostWrite, secondWord] :=
  .ofSlots [some firstWord, some hostWrite, some secondWord, none] (by decide +kernel)
    (by decide +kernel) (by decide +kernel)

/-- The write comes after them. -/
def writeAfter : Session false reset twoWords [firstWord, secondWord, hostWrite] :=
  .ofSlots [some firstWord, none, some secondWord, some hostWrite, none] (by decide +kernel)
    (by decide +kernel) (by decide +kernel)

/-- A target write between the completions is stored in carrier memory, and shifts the
words behind it. -/
theorem hostWrite_is_stored :
    [firstWord, hostWrite, secondWord].filter (fun q => q.type.masterCpld) =
        [firstWord, secondWord] ∧
      undisturbed.pushes = [⟨0, 0xa⟩, ⟨1, 0xb⟩] ∧
      writeBetween.pushes = [⟨0, 0xa⟩, ⟨1, 0xdead⟩, ⟨2, 0xb⟩] := by
  refine ⟨?_, by decide +kernel, by decide +kernel⟩
  rfl

theorem hostWrite_after_transfer :
    writeAfter.pushes = undisturbed.pushes ∧ writeAfter.items = undisturbed.items := by
  have htypes : ∀ q ∈ [firstWord, secondWord, hostWrite],
      q.type.masterCpld = true ∨ q.type.targetMwr = true := by
    simp only [List.forall_mem_cons]
    decide
  have hforeign : writeAfter.NoForeignWord := by
    unfold Session.NoForeignWord
    decide +kernel
  exact (same_stores_iff reset_quiet rfl (by decide) htypes undisturbed writeAfter).mpr hforeign

end P2lPath

end Gn4124Core
