import Gn4124Core.L2pDma.Headers

/-!
# L2P transfers from a slow memory

Without stalls of the GN4124, but with words that reach the data FIFO at any time, also not
before the address of their packet is sent.  `Flow` follows the words from the FIFO to the
packets like `Stage` does, next to the `Front` of the transfer: in `L2P_DATA` a word is at the
output of the FIFO if `data_fifo_valid` says so, and `L2P_WAIT_DATA` is reached when there is
no other word behind it.

Twice the FSM goes on to `L2P_LAST_DATA` before it knows that the FIFO has a word for it to
send there.  `L2P_ADDR_L` does so for a packet of one word, and then sends the word that was
sent before; `L2P_DATA` does so with two words to go when the first of them is popped only now,
and then sends this one as the last.  `Timely` excludes both.
-/

namespace Gn4124Core

open Clocked

namespace L2pDmaPath

/-- The word of a packet of one word is in the FIFO when the address is sent; and where the words of
a packet of two words were not, the first of them does not arrive just one cycle later. -/
structure Timely (s : L2pDmaPath) : Prop where
  one : s.ldm.fsm.l2pDmaCurrentState = .addrL → s.ldm.pktGen.l2pDataCnt ≤ 1 →
    s.dataFifo.empty = false
  two : s.ldm.fsm.l2pDmaCurrentState = .data → s.ldm.dataFifoValid = false →
    s.ldm.pktGen.l2pDataCnt ≤ 2 → s.dataFifo.empty = true

instance (s : L2pDmaPath) : Decidable (Timely s) :=
  decidable_of_iff
    ((s.ldm.fsm.l2pDmaCurrentState = .addrL → s.ldm.pktGen.l2pDataCnt ≤ 1 →
        s.dataFifo.empty = false) ∧
      (s.ldm.fsm.l2pDmaCurrentState = .data → s.ldm.dataFifoValid = false →
        s.ldm.pktGen.l2pDataCnt ≤ 2 → s.dataFifo.empty = true))
    ⟨fun h => ⟨h.1, h.2⟩, fun h => ⟨h.one, h.two⟩⟩

end L2pDmaPath

namespace WriteTransfer

open L2pDmaPath

variable (gByteSwap : Bool) (t : WriteTransfer)

/-! ## The words in the FIFO -/

/-- The words from number `m` on are in the FIFO or on their way there. -/
def Rest (m : ℕ) (f : AsyncFifo Word) : Prop := f.contents = t.words.drop m

/-- Word `m` is at the output of the FIFO, and the words after it have not been popped. -/
def Next (m : ℕ) (f : AsyncFifo Word) : Prop := f.q :: f.contents = t.words.drop m

/-- What each FSM state says about the words of a transfer of which `k` packets are sent. -/
def AtFlow (k : ℕ) (s : L2pDmaPath) (words : List (Bool × Word)) : Prop :=
  let g := s.ldm.pktGen
  let fsm := s.ldm.fsm
  match fsm.l2pDmaCurrentState with
  | .idle => fsm.dmaCtrlDone = false → fsm.dataFifoRd = false ∧ t.Rest (32 * k) s.dataFifo
  | .header | .addrH => fsm.dataFifoRd = false ∧ t.Rest (32 * k) s.dataFifo
  | .addrL => fsm.dataFifoRd = true ∧ t.Rest (32 * k) s.dataFifo
  | .data => ∃ j,
      t.OpenAt gByteSwap k j words ∧ g.l2pDataCnt.toNat + j = t.chunk k ∧
        2 ≤ g.l2pDataCnt.toNat ∧ fsm.dataFifoRd = true ∧
        if s.ldm.dataFifoValid then t.Next (32 * k + j) s.dataFifo
        else t.Rest (32 * k + j) s.dataFifo
  | .waitData => ∃ j,
      t.OpenAt gByteSwap k j words ∧ g.l2pDataCnt.toNat + j = t.chunk k ∧
        1 ≤ g.l2pDataCnt.toNat ∧ fsm.dataFifoRd = true ∧ t.Rest (32 * k + j) s.dataFifo
  | .lastData => ∃ j,
      t.OpenAt gByteSwap k j words ∧ j + 1 = t.chunk k ∧ fsm.dataFifoRd = false ∧
        t.Next (32 * k + j) s.dataFifo
  | .waitRdy => False

/-- A transfer of which `k` packets are sent, in the state `s` after the words `words`. -/
structure Flow (k : ℕ) (s : L2pDmaPath) (words : List (Bool × Word)) : Prop where
  front : t.Front (fun _ _ => True) k s words
  delivered : (packets words).flatMap payload = (t.hostWords gByteSwap).take (32 * k)
  lengths : ∀ p ∈ packets words, (payload p).length = announcedLength p
  byteSwap : s.ldm.pktGen.l2pByteSwap = t.byteSwap
  atFlow : t.AtFlow gByteSwap k s words

variable {gByteSwap t} {k j m : ℕ} {s : L2pDmaPath} {i : L2pDmaPathIn} {words : List (Bool × Word)}
  {f : AsyncFifo Word}

theorem Rest.hold (h : t.Rest m f) (n : ℕ) : t.Rest m ((f.read false).arrive n) := by
  rw [Rest, AsyncFifo.contents_arrive, AsyncFifo.read_false]
  exact h

/-- A read that finds no word. -/
theorem Rest.miss (h : t.Rest m f) (hempty : f.empty = true) (rd : Bool) (n : ℕ) :
    t.Rest m ((f.read rd).arrive n) := by
  rw [Rest, AsyncFifo.contents_arrive, AsyncFifo.read_of_empty hempty]
  exact h

/-- A read that pops a word. -/
theorem Rest.pop (h : t.Rest m f) (hempty : f.empty = false) (n : ℕ) :
    t.Next m ((f.read true).arrive n) := by
  rw [Next, AsyncFifo.contents_arrive, AsyncFifo.arrive_q,
    AsyncFifo.contents_read (AsyncFifo.ready_ne_nil hempty)]
  exact h

/-- The words behind the one at the output. -/
theorem Next.rest (h : t.Next m f) : t.Rest (m + 1) f := by
  rw [Rest, ← List.tail_drop, ← h]
  rfl

/-! ## One edge -/

theorem Flow.idle_step (h : t.Flow gByteSwap k s words) (hgo : Ongoing s i)
    (hstate : s.ldm.fsm.l2pDmaCurrentState = .idle) :
    t.Flow gByteSwap k (step gByteSwap s i) (wordsAfter gByteSwap s i words) := by
  have hfront : t.Front (fun _ _ => True) k (step gByteSwap s i) (wordsAfter gByteSwap s i words) :=
    h.front.idle_step hgo hstate
  obtain ⟨-, hdelivered, hlengths, hswap, hat⟩ := h
  simp only [AtFlow, hstate] at hat
  obtain ⟨hrd, hrest⟩ := hat hgo.done
  have hregs : (step gByteSwap s i).ldm.pktGen = s.ldm.pktGen := by
    simp [step, L2pDmaMaster.step, L2pDmaMaster.pPktGen, ldmIn, hstate, hgo.start hstate]
  have hrd' : (step gByteSwap s i).ldm.fsm.dataFifoRd = false := by
    simp [step, L2pDmaMaster.step, L2pDmaMaster.pPktFsm, hstate]
  have hfifo : t.Rest (32 * k) (step gByteSwap s i).dataFifo := by
    rw [step, hrd]
    exact hrest.hold i.arrive
  have hwords : wordsAfter gByteSwap s i words = words :=
    wordsAfter_of_invalid (by simp [L2pDmaMaster.pPktFsm, hstate])
  rw [hwords] at hfront ⊢
  refine ⟨hfront, hdelivered, hlengths, by rwa [hregs], ?_⟩
  cases hempty : s.dataFifo.empty with
  | true =>
      have hidle : (step gByteSwap s i).ldm.fsm.l2pDmaCurrentState = .idle := by
        simp [step, L2pDmaMaster.step, L2pDmaMaster.pPktFsm, ldmIn, hstate, hempty]
      simp only [AtFlow, hidle]
      exact fun _ => ⟨hrd', hfifo⟩
  | false =>
      have hheader : (step gByteSwap s i).ldm.fsm.l2pDmaCurrentState = .header := by
        simp [step, L2pDmaMaster.step, L2pDmaMaster.pPktFsm, ldmIn, hstate, hempty]
      simp only [AtFlow, hheader]
      exact ⟨hrd', hfifo⟩

theorem Flow.header_step (h : t.Flow gByteSwap k s words) (hgo : Ongoing s i)
    (hstate : s.ldm.fsm.l2pDmaCurrentState = .header) :
    t.Flow gByteSwap k (step gByteSwap s i) (wordsAfter gByteSwap s i words) := by
  have hfront : t.Front (fun _ _ => True) k (step gByteSwap s i) (wordsAfter gByteSwap s i words) :=
    h.front.header_step hgo hstate
  obtain ⟨-, hdelivered, hlengths, hswap, hat⟩ := h
  simp only [AtFlow, hstate] at hat
  obtain ⟨hrd, hrest⟩ := hat
  have hswap' : (step gByteSwap s i).ldm.pktGen.l2pByteSwap = t.byteSwap := by
    simp [step, L2pDmaMaster.step, L2pDmaMaster.pPktGen, hstate, hswap]
  have hfifo : t.Rest (32 * k) (step gByteSwap s i).dataFifo := by
    rw [step, hrd]
    exact hrest.hold i.arrive
  have hfsm' : (step gByteSwap s i).ldm.fsm = s.ldm.pPktFsm gByteSwap (s.ldmIn i) := rfl
  by_cases haccept : s.arb.gnt.arbLdmGnt = true ∧ i.lWrRdy = 0b11#2
  · obtain ⟨hgnt, hwrRdy⟩ := haccept
    have hfsm := L2pDmaMaster.header_sends gByteSwap (i := s.ldmIn i) hstate hgnt hwrRdy
    rw [hrd] at hfsm
    have hwords : wordsAfter gByteSwap s i words = words ++ [(true, s.ldm.pktGen.sL2pHeader)] := by
      rw [wordsAfter_of_valid (by rw [hfsm]), hfsm]
    rw [hwords] at hfront ⊢
    refine ⟨hfront, by rwa [packets_more], by rwa [packets_more], hswap', ?_⟩
    cases hwide : s.ldm.pktGen.l2p64bAddress with
    | true =>
        have hstate' : (step gByteSwap s i).ldm.fsm.l2pDmaCurrentState = .addrH := by
          rw [hfsm', hfsm]
          exact if_pos hwide
        simp only [AtFlow, hstate']
        refine ⟨?_, hfifo⟩
        rw [hfsm', hfsm]
        exact if_pos hwide
    | false =>
        have hstate' : (step gByteSwap s i).ldm.fsm.l2pDmaCurrentState = .addrL := by
          rw [hfsm', hfsm]
          exact if_neg (by simp [hwide])
        simp only [AtFlow, hstate']
        refine ⟨?_, hfifo⟩
        rw [hfsm', hfsm]
        exact if_neg (by simp [hwide])
  · have hfsm := L2pDmaMaster.header_waits gByteSwap (i := s.ldmIn i) hstate haccept
    have hwords : wordsAfter gByteSwap s i words = words := wordsAfter_of_invalid (by rw [hfsm])
    have hstate' : (step gByteSwap s i).ldm.fsm.l2pDmaCurrentState = .header := by
      rw [hfsm', hfsm]
      exact hstate
    rw [hwords] at hfront ⊢
    refine ⟨hfront, hdelivered, hlengths, hswap', ?_⟩
    simp only [AtFlow, hstate']
    refine ⟨?_, hfifo⟩
    rw [hfsm', hfsm]
    exact hrd

theorem Flow.addrH_step (h : t.Flow gByteSwap k s words) (hgo : Ongoing s i)
    (hstate : s.ldm.fsm.l2pDmaCurrentState = .addrH) :
    t.Flow gByteSwap k (step gByteSwap s i) (wordsAfter gByteSwap s i words) := by
  have hfront : t.Front (fun _ _ => True) k (step gByteSwap s i) (wordsAfter gByteSwap s i words) :=
    h.front.addrH_step hgo hstate
  obtain ⟨hbefore, hdelivered, hlengths, hswap, hat⟩ := h
  have hopen := hbefore.atFront
  simp only [AtFlow, AtFront, hstate] at hat hopen
  obtain ⟨hrd, hrest⟩ := hat
  obtain ⟨-, -, -, -, hdframe⟩ := hopen
  have hfsm := L2pDmaMaster.addrH_sends gByteSwap (i := s.ldmIn i) hstate
  have hfsm' : (step gByteSwap s i).ldm.fsm = s.ldm.pPktFsm gByteSwap (s.ldmIn i) := rfl
  have hpackets : packets (wordsAfter gByteSwap s i words) = packets words :=
    (wordsAfter_open words (by rw [hfsm]; exact hdframe)).1
  have hswap' : (step gByteSwap s i).ldm.pktGen.l2pByteSwap = t.byteSwap := by
    simp [step, L2pDmaMaster.step, L2pDmaMaster.pPktGen, hstate, hswap]
  have hstate' : (step gByteSwap s i).ldm.fsm.l2pDmaCurrentState = .addrL := by rw [hfsm', hfsm]
  refine ⟨hfront, by rwa [hpackets], by rwa [hpackets], hswap', ?_⟩
  simp only [AtFlow, hstate']
  refine ⟨by rw [hfsm', hfsm], ?_⟩
  rw [step, hrd]
  exact hrest.hold i.arrive

theorem Flow.addrL_step (h : t.Flow gByteSwap k s words) (hgo : Ongoing s i) (htimely : Timely s)
    (hstate : s.ldm.fsm.l2pDmaCurrentState = .addrL) :
    t.Flow gByteSwap k (step gByteSwap s i) (wordsAfter gByteSwap s i words) := by
  have hfront : t.Front (fun _ _ => True) k (step gByteSwap s i) (wordsAfter gByteSwap s i words) :=
    h.front.addrL_step hgo hstate
  obtain ⟨hbefore, hdelivered, hlengths, hswap, hat⟩ := h
  have hopen := hbefore.atFront
  simp only [AtFlow, AtFront, hstate] at hat hopen
  obtain ⟨hrd, hrest⟩ := hat
  obtain ⟨hopen, ⟨hmore, -, ⟨hcnt, -, -⟩, -, -⟩, hvalid, hdframe⟩ := hopen
  have hfsm := L2pDmaMaster.addrL_sends gByteSwap (i := s.ldmIn i) hstate hrd
  have hfsm' : (step gByteSwap s i).ldm.fsm = s.ldm.pPktFsm gByteSwap (s.ldmIn i) := rfl
  have hwords : wordsAfter gByteSwap s i words =
      words ++ [(true, s.ldm.pktGen.l2pAddressL)] := by
    rw [wordsAfter_of_valid (by rw [hfsm]; exact hvalid), hfsm, hdframe]
  have hnone : t.OpenAt gByteSwap k 0 (words ++ [(true, s.ldm.pktGen.l2pAddressL)]) := by
    refine ⟨s.ldm.pktGen.l2pAddressL, ?_⟩
    rw [openPacket_more, hopen, head_eq, List.take_zero, List.append_nil, List.cons_append]
  have hregs : (step gByteSwap s i).ldm.pktGen.l2pByteSwap = t.byteSwap ∧
      (step gByteSwap s i).ldm.pktGen.l2pDataCnt = s.ldm.pktGen.l2pDataCnt := by
    simp only [step, L2pDmaMaster.step, L2pDmaMaster.pPktGen, hstate]
    split_ifs <;> exact ⟨hswap, rfl⟩
  have hvalid' : (step gByteSwap s i).ldm.dataFifoValid = !s.dataFifo.empty := by
    simp [step, L2pDmaMaster.step, L2pDmaMaster.pGenDataFifoValid, ldmIn, hrd]
  have hle : s.ldm.pktGen.l2pDataCnt ≤ 1#11 ↔ t.chunk k ≤ 1 := by
    rw [BitVec.le_def, hcnt]
    rfl
  have hpos : 1 ≤ t.chunk k := by
    unfold chunk
    omega
  rw [hwords] at hfront ⊢
  refine ⟨hfront, by rwa [packets_more], by rwa [packets_more], hregs.1, ?_⟩
  by_cases hone : s.ldm.pktGen.l2pDataCnt ≤ 1#11
  · -- the state does not look at the FIFO: only `Timely` says that the word is popped
    have hstate' : (step gByteSwap s i).ldm.fsm.l2pDmaCurrentState = .lastData := by
      rw [hfsm', hfsm]
      exact if_pos hone
    have hchunk := hle.mp hone
    simp only [AtFlow, hstate']
    refine ⟨0, hnone, by omega, by rw [hfsm', hfsm]; simp [hone], ?_⟩
    rw [step, hrd]
    exact hrest.pop (htimely.one hstate hone) i.arrive
  · have hstate' : (step gByteSwap s i).ldm.fsm.l2pDmaCurrentState = .data := by
      rw [hfsm', hfsm]
      exact if_neg hone
    have hchunk := mt hle.mpr hone
    simp only [AtFlow, hstate', hregs.2, hvalid']
    refine ⟨0, hnone, hcnt, by omega, by rw [hfsm', hfsm]; simp [hone], ?_⟩
    rw [step, hrd]
    cases hempty : s.dataFifo.empty with
    | true => exact hrest.miss hempty true i.arrive
    | false => exact hrest.pop hempty i.arrive

theorem Flow.waitData_step (h : t.Flow gByteSwap k s words) (hgo : Ongoing s i)
    (hstate : s.ldm.fsm.l2pDmaCurrentState = .waitData) :
    t.Flow gByteSwap k (step gByteSwap s i) (wordsAfter gByteSwap s i words) := by
  have hfront : t.Front (fun _ _ => True) k (step gByteSwap s i) (wordsAfter gByteSwap s i words) :=
    h.front.body_step hgo (.inr (.inl hstate))
  obtain ⟨-, hdelivered, hlengths, hswap, hat⟩ := h
  simp only [AtFlow, hstate] at hat
  obtain ⟨j, hopen, hcnt, hpos, hrd, hrest⟩ := hat
  have hregs : (step gByteSwap s i).ldm.pktGen = s.ldm.pktGen := by
    simp [step, L2pDmaMaster.step, L2pDmaMaster.pPktGen, hstate]
  have hfsm' : (step gByteSwap s i).ldm.fsm = s.ldm.pPktFsm gByteSwap (s.ldmIn i) := rfl
  have hwords : wordsAfter gByteSwap s i words = words := by
    apply wordsAfter_of_invalid
    simp only [L2pDmaMaster.pPktFsm, hstate]
    split_ifs <;> rfl
  rw [hwords] at hfront ⊢
  refine ⟨hfront, hdelivered, hlengths, by rwa [hregs], ?_⟩
  cases hempty : s.dataFifo.empty with
  | true =>
      have hfsm := L2pDmaMaster.waitData_waits gByteSwap (i := s.ldmIn i) hstate hempty
      have hstate' : (step gByteSwap s i).ldm.fsm.l2pDmaCurrentState = .waitData := by
        rw [hfsm', hfsm]
        exact hstate
      simp only [AtFlow, hstate', hregs]
      refine ⟨j, hopen, hcnt, hpos, by rw [hfsm', hfsm]; exact hrd, ?_⟩
      rw [step]
      exact hrest.miss hempty _ i.arrive
  | false =>
      have hfsm := L2pDmaMaster.waitData_pops gByteSwap (i := s.ldmIn i) hstate hempty hrd
      have hle : s.ldm.pktGen.l2pDataCnt ≤ 1#11 ↔ s.ldm.pktGen.l2pDataCnt.toNat ≤ 1 := BitVec.le_def
      have hnext : t.Next (32 * k + j) (step gByteSwap s i).dataFifo := by
        rw [step, hrd]
        exact hrest.pop hempty i.arrive
      have hvalid' : (step gByteSwap s i).ldm.dataFifoValid = true := by
        simp [step, L2pDmaMaster.step, L2pDmaMaster.pGenDataFifoValid, ldmIn, hrd, hempty]
      by_cases hone : s.ldm.pktGen.l2pDataCnt ≤ 1#11
      · have hstate' : (step gByteSwap s i).ldm.fsm.l2pDmaCurrentState = .lastData := by
          rw [hfsm', hfsm]
          exact if_pos hone
        have hlast := hle.mp hone
        simp only [AtFlow, hstate']
        exact ⟨j, hopen, by omega, by rw [hfsm', hfsm]; simp [hone], hnext⟩
      · have hstate' : (step gByteSwap s i).ldm.fsm.l2pDmaCurrentState = .data := by
          rw [hfsm', hfsm]
          exact if_neg hone
        have hmore := mt hle.mpr hone
        simp only [AtFlow, hstate', hregs, hvalid', if_true]
        exact ⟨j, hopen, hcnt, by omega, by rw [hfsm', hfsm]; simp [hone], hnext⟩

theorem Flow.data_step (h : t.Flow gByteSwap k s words) (hgo : Ongoing s i) (hrdy : i.l2pRdy = true)
    (htimely : Timely s) (hstate : s.ldm.fsm.l2pDmaCurrentState = .data) :
    t.Flow gByteSwap k (step gByteSwap s i) (wordsAfter gByteSwap s i words) := by
  have hfront : t.Front (fun _ _ => True) k (step gByteSwap s i) (wordsAfter gByteSwap s i words) :=
    h.front.body_step hgo (.inl hstate)
  obtain ⟨hbefore, hdelivered, hlengths, hswap, hat⟩ := h
  have hbody := hbefore.atFront
  simp only [AtFlow, AtFront, hstate] at hat hbody
  obtain ⟨j, hopen, hcnt, htwo, hrd, hfifo⟩ := hat
  have hdframe : s.ldm.fsm.ldmArbDframe = true := hbody.1.dframe
  have hfsm := L2pDmaMaster.data_sends gByteSwap (i := s.ldmIn i) hstate hgo.abort hrdy hrd
  have hfsm' : (step gByteSwap s i).ldm.fsm = s.ldm.pPktFsm gByteSwap (s.ldmIn i) := rfl
  have hempty' : (s.ldmIn i).dataFifoEmpty = s.dataFifo.empty := rfl
  have hvalid' : (step gByteSwap s i).ldm.dataFifoValid = !s.dataFifo.empty := by
    simp [step, L2pDmaMaster.step, L2pDmaMaster.pGenDataFifoValid, ldmIn, hrd]
  have hle : s.ldm.pktGen.l2pDataCnt ≤ 2#11 ↔ s.ldm.pktGen.l2pDataCnt.toNat ≤ 2 := BitVec.le_def
  have hone : (1 : BitVec 11).toNat = 1 := rfl
  rw [hempty'] at hfsm
  cases hvalid : s.ldm.dataFifoValid with
  | true =>
      -- the word at the output is sent, whether or not the next one is popped
      rw [hvalid, if_pos rfl] at hfifo
      simp only [hvalid, if_true] at hfsm
      have hword := hostWords_of_drop gByteSwap hfifo
      rw [← dataWord_eq hswap (i := i)] at hword
      have hregs : (step gByteSwap s i).ldm.pktGen =
          { s.ldm.pktGen with l2pDataCnt := s.ldm.pktGen.l2pDataCnt - 1 } := by
        simp [step, L2pDmaMaster.step, L2pDmaMaster.pPktGen, hstate, hvalid]
      have hcnt' : (s.ldm.pktGen.l2pDataCnt - 1).toNat = s.ldm.pktGen.l2pDataCnt.toNat - 1 := by
        rw [BitVec.toNat_sub_of_le (by rw [BitVec.le_def]; omega), hone]
      have hwords : wordsAfter gByteSwap s i words =
          words ++ [(true, s.ldm.dataWord gByteSwap (s.ldmIn i))] := by
        rw [wordsAfter_of_valid (by rw [hfsm]), hfsm, hdframe]
      have hopen' := hopen.more hword
      rw [hwords] at hfront ⊢
      refine ⟨hfront, by rwa [packets_more], by rwa [packets_more], by rwa [hregs], ?_⟩
      cases hempty : s.dataFifo.empty with
      | true =>
          have hstate' : (step gByteSwap s i).ldm.fsm.l2pDmaCurrentState = .waitData := by
            rw [hfsm', hfsm]
            exact if_pos hempty
          simp only [AtFlow, hstate', hregs, hcnt']
          refine ⟨j + 1, hopen', by omega, by omega, by rw [hfsm', hfsm]; simp [hempty], ?_⟩
          rw [step]
          exact hfifo.rest.miss hempty _ i.arrive
      | false =>
          have hnext : t.Next (32 * k + (j + 1)) (step gByteSwap s i).dataFifo := by
            rw [step, hrd]
            exact hfifo.rest.pop hempty i.arrive
          by_cases hlow : s.ldm.pktGen.l2pDataCnt ≤ 2#11
          · have hstate' : (step gByteSwap s i).ldm.fsm.l2pDmaCurrentState = .lastData := by
              rw [hfsm', hfsm]
              simp [hempty, hlow]
            have hlow' := hle.mp hlow
            simp only [AtFlow, hstate']
            exact ⟨j + 1, hopen', by omega, by rw [hfsm', hfsm]; simp [hempty, hlow], hnext⟩
          · have hstate' : (step gByteSwap s i).ldm.fsm.l2pDmaCurrentState = .data := by
              rw [hfsm', hfsm]
              simp [hempty, hlow]
            have hlow' := mt hle.mpr hlow
            simp only [AtFlow, hstate', hregs, hcnt', hvalid', hempty, Bool.not_false, if_true]
            exact ⟨j + 1, hopen', by omega, by omega, by rw [hfsm', hfsm]; simp [hlow], hnext⟩
  | false =>
      -- no word was popped for this cycle
      rw [hvalid, if_neg (by decide)] at hfifo
      simp only [hvalid, Bool.false_eq_true, if_false] at hfsm
      have hregs : (step gByteSwap s i).ldm.pktGen = s.ldm.pktGen := by
        simp [step, L2pDmaMaster.step, L2pDmaMaster.pPktGen, hstate, hvalid]
      have hwords : wordsAfter gByteSwap s i words = words := wordsAfter_of_invalid (by rw [hfsm])
      rw [hwords] at hfront ⊢
      refine ⟨hfront, hdelivered, hlengths, by rwa [hregs], ?_⟩
      cases hempty : s.dataFifo.empty with
      | true =>
          have hstate' : (step gByteSwap s i).ldm.fsm.l2pDmaCurrentState = .waitData := by
            rw [hfsm', hfsm]
            exact if_pos hempty
          simp only [AtFlow, hstate', hregs]
          refine ⟨j, hopen, hcnt, by omega, by rw [hfsm', hfsm]; simp [hempty], ?_⟩
          rw [step]
          exact hfifo.miss hempty _ i.arrive
      | false =>
          -- two words are missing and one of them comes: too early for `L2P_LAST_DATA`
          have hlow : ¬ s.ldm.pktGen.l2pDataCnt ≤ 2#11 := by
            intro hlow
            have hnone := htimely.two hstate hvalid hlow
            rw [hempty] at hnone
            exact absurd hnone (by decide)
          have hstate' : (step gByteSwap s i).ldm.fsm.l2pDmaCurrentState = .data := by
            rw [hfsm', hfsm]
            simp [hempty, hlow]
          simp only [AtFlow, hstate', hregs, hvalid', hempty, Bool.not_false, if_true]
          refine ⟨j, hopen, hcnt, htwo, by rw [hfsm', hfsm]; simp [hlow], ?_⟩
          rw [step, hrd]
          exact hfifo.pop hempty i.arrive

theorem Flow.lastData_step (h : t.Flow gByteSwap k s words) (hgo : Ongoing s i)
    (hrdy : i.l2pRdy = true) (hstate : s.ldm.fsm.l2pDmaCurrentState = .lastData) :
    t.Flow gByteSwap (k + 1) (step gByteSwap s i) (wordsAfter gByteSwap s i words) := by
  obtain ⟨k', hfront⟩ : ∃ k', t.Front (fun _ _ => True) k' (step gByteSwap s i)
      (wordsAfter gByteSwap s i words) :=
    h.front.lastData_step hgo (fun _ _ _ => trivial) (.inr fun _ _ _ => trivial) hstate
  obtain ⟨hbefore, hdelivered, hlengths, hswap, hat⟩ := h
  have hbody := hbefore.atFront
  simp only [AtFlow, AtFront, hstate] at hat hbody
  obtain ⟨j, hopen, hj, hrd, hfifo⟩ := hat
  have hword := hostWords_of_drop gByteSwap hfifo
  rw [← dataWord_eq hswap (i := i)] at hword
  obtain ⟨hpayload, hannounced⟩ := hopen.last hword hj
  have hfsm := L2pDmaMaster.lastData_sends gByteSwap (i := s.ldmIn i) hstate hrdy
  have hfsm' : (step gByteSwap s i).ldm.fsm = s.ldm.pPktFsm gByteSwap (s.ldmIn i) := rfl
  have hwords : wordsAfter gByteSwap s i words =
      words ++ [(false, s.ldm.dataWord gByteSwap (s.ldmIn i))] := by
    rw [wordsAfter_of_valid (by rw [hfsm]), hfsm]
  rw [hwords] at hfront ⊢
  -- the front moves on by the packet that ends here
  obtain rfl : k' = k + 1 := by
    rw [← hfront.count, ← hbefore.count, packets_last, List.length_append, List.length_singleton]
  have hswap' : (step gByteSwap s i).ldm.pktGen.l2pByteSwap = t.byteSwap := by
    simp only [step, L2pDmaMaster.step, L2pDmaMaster.pPktGen, hstate]
    split_ifs <;> simp [hswap]
  refine ⟨hfront, ?_, ?_, hswap', ?_⟩
  · rw [packets_last, List.flatMap_append, List.flatMap_singleton, hdelivered, hpayload, take_chunk]
  · intro p hp
    rw [packets_last, List.mem_append, List.mem_singleton] at hp
    rcases hp with hp | rfl
    · exact hlengths p hp
    · rw [hpayload, hannounced, length_take_chunk]
  · by_cases hmore : 0 < s.ldm.pktGen.l2pLenCnt
    · have hstate' : (step gByteSwap s i).ldm.fsm.l2pDmaCurrentState = .header := by
        rw [hfsm', hfsm]
        exact if_pos hmore
      have hlong := (lenCnt_pos_iff hbody.1.lenCnt).mp hmore
      have hnext : 32 * k + j + 1 = 32 * (k + 1) := by
        unfold chunk at hj
        omega
      simp only [AtFlow, hstate']
      refine ⟨by rw [hfsm', hfsm]; exact hrd, ?_⟩
      rw [step, hrd, ← hnext]
      exact hfifo.rest.hold i.arrive
    · have hstate' : (step gByteSwap s i).ldm.fsm.l2pDmaCurrentState = .idle := by
        rw [hfsm', hfsm]
        exact if_neg hmore
      have hdone : (step gByteSwap s i).ldm.fsm.dmaCtrlDone = true := by
        rw [hfsm', hfsm]
        exact if_neg hmore
      simp only [AtFlow, hstate']
      intro hnot
      rw [hdone] at hnot
      exact absurd hnot (by decide)

/-- Every edge keeps the flow, or completes one packet. -/
theorem Flow.step (h : t.Flow gByteSwap k s words) (hgo : Ongoing s i) (hrdy : i.l2pRdy = true)
    (htimely : Timely s) :
    ∃ k', t.Flow gByteSwap k' (L2pDmaPath.step gByteSwap s i) (wordsAfter gByteSwap s i words) := by
  cases hstate : s.ldm.fsm.l2pDmaCurrentState with
  | idle => exact ⟨k, h.idle_step hgo hstate⟩
  | header => exact ⟨k, h.header_step hgo hstate⟩
  | addrH => exact ⟨k, h.addrH_step hgo hstate⟩
  | addrL => exact ⟨k, h.addrL_step hgo htimely hstate⟩
  | data => exact ⟨k, h.data_step hgo hrdy htimely hstate⟩
  | waitData => exact ⟨k, h.waitData_step hgo hstate⟩
  | lastData => exact ⟨k + 1, h.lastData_step hgo hrdy hstate⟩
  | waitRdy =>
      -- without a stall the state is never entered
      have hnever := h.atFlow
      rw [AtFlow, hstate] at hnever
      exact hnever.elim

/-! ## A whole transfer -/

theorem Flow.run {is : List L2pDmaPathIn} (h : t.Flow gByteSwap 0 s [])
    (hcalm : Always (L2pDmaPath.step gByteSwap)
      (fun s i => Ongoing s i ∧ i.l2pRdy = true ∧ Timely s) s is) :
    ∃ k, t.Flow gByteSwap k (Clocked.run (L2pDmaPath.step gByteSwap) s is)
      (emitted gByteSwap s is) := by
  refine invariant_log (motive := fun s words => ∃ k, t.Flow gByteSwap k s words) ?_ hcalm ⟨0, h⟩
  intro s i words hflow hi
  obtain ⟨k, hk⟩ := hflow
  exact hk.step hi.1 hi.2.1 hi.2.2

theorem Flow.survives (h : t.Flow gByteSwap k s words) : t.Survives gByteSwap s words where
  lengths := h.lengths
  inOrder := by
    rw [h.delivered]
    exact List.take_prefix _ _
  complete hdone := by
    rw [h.delivered, List.take_of_length_le]
    rw [hostWords, List.length_map]
    exact (h.front.done hdone).1

end WriteTransfer

namespace L2pDmaPath

open WriteTransfer

variable {gByteSwap : Bool} {s : L2pDmaPath} {i : L2pDmaPathIn}

/-- A start order puts the master before the first word. -/
theorem Settled.flow (h : s.Settled) (hidle : s.ldm.fsm.l2pDmaCurrentState = .idle)
    (hempty : s.dataFifo.ready = []) (hstart : i.ctrl.startL2p = true)
    (hlen : s.dataFifo.crossing.length = (i.ctrl.len.extractLsb' 2 30).toNat)
    (hpos : 0 < s.dataFifo.crossing.length) :
    (i.ctrl.writeTransfer s.dataFifo.crossing).Flow gByteSwap 0 (L2pDmaPath.step gByteSwap s i) [] := by
  have hreads := h.reads
  rw [ReadsInPacket, hidle] at hreads
  have hnone : s.dataFifo.empty = true := by rw [AsyncFifo.empty, hempty, List.isEmpty_nil]
  have hswap : (L2pDmaPath.step gByteSwap s i).ldm.pktGen.l2pByteSwap = i.ctrl.byteSwap := by
    simp [L2pDmaPath.step, L2pDmaMaster.step, L2pDmaMaster.pPktGen, ldmIn, hidle, hstart]
  refine ⟨h.front hidle hempty hstart hlen hpos trivial, rfl, by simp, hswap, ?_⟩
  have hstate : (L2pDmaPath.step gByteSwap s i).ldm.fsm.l2pDmaCurrentState = .idle := by
    simp [L2pDmaPath.step, L2pDmaMaster.step, L2pDmaMaster.pPktFsm, ldmIn, hidle, hnone]
  simp only [AtFlow, hstate]
  intro _
  refine ⟨by simp [L2pDmaPath.step, L2pDmaMaster.step, L2pDmaMaster.pPktFsm, hidle], ?_⟩
  rw [Rest, L2pDmaPath.step, AsyncFifo.contents_arrive, hreads, AsyncFifo.read_false, AsyncFifo.contents,
    hempty]
  rfl

/-- **L2P transfers from a slow memory.**  Take an order of `n` words in any idle state that can
be reached from reset without an abort, with the data FIFO empty and the `n` words on their
way to it, and any run up to its end with no abort, no other order and no stall, in which the
words arrive at any time but those that `Timely` excludes.  In every state of this run the
transfer survives. -/
theorem slow_memory_survives (gByteSwap : Bool) (addrFifoDin : Word) (dataFifoValid : Bool)
    (q : Word) (ws : List Word) (hs : List L2pDmaPathIn) (i : L2pDmaPathIn)
    (is : List L2pDmaPathIn) :
    let s := run (step gByteSwap) (reset addrFifoDin dataFifoValid q ws) hs
    let n := (i.ctrl.len.extractLsb' 2 30).toNat
    Always (step gByteSwap) (fun _ i => i.ctrl.abort = false)
      (reset addrFifoDin dataFifoValid q ws) hs →
    s.ldm.fsm.l2pDmaCurrentState = .idle → s.dataFifo.ready = [] →
    i.ctrl.startL2p = true → 1 ≤ n → s.dataFifo.crossing.length = n →
    Always (step gByteSwap) (fun s i => Ongoing s i ∧ i.l2pRdy = true ∧ Timely s)
      (step gByteSwap s i) is →
    (i.ctrl.writeTransfer s.dataFifo.crossing).Survives gByteSwap
      (run (step gByteSwap) (step gByteSwap s i) is) (emitted gByteSwap (step gByteSwap s i) is) := by
  intro s n hquiet hidle hempty hstart hpos hlen hrun
  have hsettled : s.Settled :=
    invariant_run (fun _ _ h habort => h.step habort) hquiet
      (reset_settled addrFifoDin dataFifoValid q ws)
  obtain ⟨k, hflow⟩ := (hsettled.flow hidle hempty hstart hlen (by omega)).run hrun
  exact hflow.survives

/-- A cycle without a stall in which up to `arrive` words reach the data FIFO. -/
def arrivalEdge (arrive : ℕ) : L2pDmaPathIn := { dataEdge true with arrive := arrive }

/-- The words of a test memory. -/
def countedWords (n : ℕ) : List Word := (List.range n).map fun k => BitVec.ofNat 32 k

/-- The last of 33 words is not in the FIFO when its packet begins: the word before is sent again in
its place, and the transfer is done. -/
theorem late_word_repeats_word :
    let i := orderEdge 0x1000 132
    let s := step false (reset 0 false 0 (countedWords 33)) i
    let is := ([32] ++ List.replicate 39 0).map arrivalEdge
    Always (step false) (fun s i => Ongoing s i ∧ i.l2pRdy = true) s is ∧
      (run (step false) s is).ldm.fsm.dmaCtrlDone = true ∧
      (packets (emitted false s is))[1]? = some [writeHeader false 1, 0x1080, 31] ∧
      ¬ (i.ctrl.writeTransfer (countedWords 33)).Survives false (run (step false) s is)
        (emitted false s is) := by
  refine ⟨by decide +kernel, by decide +kernel, by decide +kernel, fun h => ?_⟩
  have hall := h.complete (by decide +kernel)
  revert hall
  decide +kernel

/-- The first word of the packet of two words arrives one cycle after its address is sent: it is
sent as the last. -/
theorem late_word_shortens_packet :
    let i := orderEdge 0x1000 136
    let s := step false (reset 0 false 0 (countedWords 34)) i
    let is := ([32] ++ List.replicate 37 0 ++ [1, 0, 0]).map arrivalEdge
    Always (step false) (fun s i => Ongoing s i ∧ i.l2pRdy = true) s is ∧
      (run (step false) s is).ldm.fsm.dmaCtrlDone = true ∧
      (packets (emitted false s is))[1]? = some [writeHeader false 2, 0x1080, 32] := by
  refine ⟨?_, ?_, ?_⟩ <;> decide +kernel

/-- A packet of two words that arrive some cycles after its address is sent. -/
theorem slow_memory_survives_gap :
    let i := orderEdge 0x1000 136
    let s := step false (reset 0 false 0 (countedWords 34)) i
    let is := ([32] ++ List.replicate 39 0 ++ [2, 0, 0, 0]).map arrivalEdge
    (i.ctrl.writeTransfer (countedWords 34)).Survives false (run (step false) s is)
      (emitted false s is) := by
  intro i s is
  exact slow_memory_survives false 0 false 0 (countedWords 34) [] i is trivial rfl rfl rfl
    (by decide) (by decide +kernel) (by decide +kernel)

end L2pDmaPath

end Gn4124Core
