import Gn4124Core.L2pDma.Path

/-!
# The payload of an L2P transfer

A transfer of `n` words goes out in packets of at most 32.  `Stage` follows the words from
the data FIFO to the packets: `k` packets are complete, and `AtState` says for each FSM
state how many words of the current packet have been presented and where the next one is.

The FIFO answers a read one cycle later.  In `L2P_DATA` a word is at its output while the
next one is being popped.  A stall in this state stops the FIFO after that pop, and on the
way back from `L2P_WAIT_RDY` the FSM pops again before it looks at the output: the word in
between is lost.  It is not lost when it is the last of the packet, since `L2P_LAST_DATA`
waits with the word at the output.  So the invariant is kept as long as no stall comes in
`L2P_DATA` with more than two words to go (`Smooth`); stalls in the other states do no harm.

In this case `L2P_WAIT_DATA` is never reached, for the FIFO has all the words from the
first header on.
-/

namespace Gn4124Core

open Clocked

/-! ## The packets of a transfer -/

/-- The payload of a write packet: it follows one or two address words. -/
def payload : List Word → List Word
  | [] => []
  | header :: rest => if header.extractLsb' 24 4 = 0b0011#4 then rest.drop 2 else rest.drop 1

/-- The number of payload words that the header of a packet announces. -/
def announcedLength : List Word → ℕ
  | [] => 0
  | header :: _ => wordsAnnounced (header.extractLsb' 0 10)

theorem writeHeader_type (b : Bool) (length : BitVec 10) :
    (writeHeader b length).extractLsb' 24 4 = if b then 0b0011#4 else 0b0010#4 := by
  unfold writeHeader
  rw [BitVec.extractLsb'_append_eq_of_le (by omega),
    BitVec.extractLsb'_append_eq_of_le (by omega),
    BitVec.extractLsb'_append_eq_of_le (by omega),
    BitVec.extractLsb'_append_eq_of_le (by omega),
    BitVec.extractLsb'_append_eq_of_le (by omega),
    BitVec.extractLsb'_append_eq_of_le (by omega)]
  cases b <;> rfl

theorem writeHeader_length (b : Bool) (length : BitVec 10) :
    (writeHeader b length).extractLsb' 0 10 = length :=
  BitVec.extractLsb'_append_eq_right

/-- A transfer: the words in the data FIFO and the byte swap ordered for them, and the high
word of the host address. -/
structure WriteTransfer where
  addrH : Word
  byteSwap : BitVec 2
  words : List Word

namespace WriteTransfer

variable (gByteSwap : Bool) (t : WriteTransfer)

def len : ℕ := t.words.length

/-- The words as the host has to see them. -/
def hostWords : List Word := t.words.map fun w => fByteSwap gByteSwap w t.byteSwap

/-- The payload words of packet `k`. -/
def chunk (k : ℕ) : ℕ := min 32 (t.len - 32 * k)

/-- Packet `k` before its payload.  The low word of the address is of no concern here. -/
def head (k : ℕ) (low : Word) : List Word :=
  writeHeader (t.addrH != 0) (BitVec.ofNat 10 (t.chunk k)) ::
    if t.addrH != 0 then [t.addrH, low] else [low]

theorem payload_head (k : ℕ) (low : Word) (ws : List Word) : payload (t.head k low ++ ws) = ws := by
  unfold head
  rw [List.cons_append, payload, writeHeader_type]
  cases t.addrH != 0 <;> simp

theorem announcedLength_head {k : ℕ} (hk : 32 * k < t.len) (low : Word) (ws : List Word) :
    announcedLength (t.head k low ++ ws) = t.chunk k := by
  have hchunk : 1 ≤ t.chunk k ∧ t.chunk k ≤ 32 := by
    unfold chunk
    omega
  have hnat : (BitVec.ofNat 10 (t.chunk k)).toNat = t.chunk k := by
    rw [BitVec.toNat_ofNat]
    omega
  unfold head
  rw [List.cons_append, announcedLength, writeHeader_length, wordsAnnounced, if_neg, hnat]
  intro hzero
  rw [hzero] at hnat
  have hnone : (0 : BitVec 10).toNat = 0 := rfl
  omega

/-! ## The stages of a transfer -/

/-- The size registers hold the size of packet `k`. -/
def Sized (k : ℕ) (g : PktGen) : Prop :=
  g.l2pDataCnt.toNat = t.chunk k ∧ g.l2pLenHeader = BitVec.ofNat 10 (t.chunk k) ∧
    g.l2pLastPacket = decide (t.len ≤ 32 * (k + 1))

/-- The words from number `m` on are in the FIFO, and none is on its way there. -/
def Stored (m : ℕ) (f : AsyncFifo Word) : Prop := f.ready = t.words.drop m ∧ f.crossing = []

/-- Word `m` is at the output of the FIFO, and the words after it are in the FIFO. -/
def Shown (m : ℕ) (f : AsyncFifo Word) : Prop := f.q :: f.ready = t.words.drop m ∧ f.crossing = []

/-- The packet under way has its first `j` payload words. -/
def OpenAt (k j : ℕ) (words : List (Bool × Word)) : Prop :=
  ∃ low, openPacket words = t.head k low ++ ((t.hostWords gByteSwap).drop (32 * k)).take j

/-- What each FSM state says about a transfer of which `k` packets are sent. -/
def AtState (k : ℕ) (s : L2pDmaPath) (words : List (Bool × Word)) : Prop :=
  let g := s.ldm.pktGen
  let fsm := s.ldm.fsm
  match fsm.l2pDmaCurrentState with
  | .idle =>
      openPacket words = [] ∧ fsm.dataFifoRd = false ∧
        s.dataFifo.contents = t.words.drop (32 * k) ∧
        (32 * k < t.len → g.l2pLenCnt.toNat = t.len - 32 * k ∧ fsm.ldmArbReq = false ∧
          s.arb.gnt.arbLdmGnt = false)
  | .header =>
      32 * k < t.len ∧ openPacket words = [] ∧ fsm.dataFifoRd = false ∧
        s.dataFifo.contents = t.words.drop (32 * k) ∧ g.l2pLenCnt.toNat = t.len - 32 * k ∧
        (s.arb.gnt.arbLdmGnt → t.Sized k g ∧ g.l2p64bAddress = (t.addrH != 0))
  | .addrH =>
      32 * k < t.len ∧ (∀ low, openPacket words ++ [t.addrH, low] = t.head k low) ∧
        fsm.ldmArbValid = true ∧ fsm.ldmArbDframe = true ∧ t.Stored (32 * k) s.dataFifo ∧
        g.l2pLenCnt.toNat = t.len - 32 * k ∧ t.Sized k g ∧
        g.l2p64bAddress = (t.addrH != 0) ∧ fsm.dataFifoRd = false
  | .addrL =>
      32 * k < t.len ∧ (∀ low, openPacket words ++ [low] = t.head k low) ∧
        fsm.ldmArbValid = true ∧ fsm.ldmArbDframe = true ∧ t.Stored (32 * k) s.dataFifo ∧
        g.l2pLenCnt.toNat = t.len - 32 * k ∧ t.Sized k g ∧
        g.l2p64bAddress = (t.addrH != 0) ∧ fsm.dataFifoRd = true
  | .data => ∃ j,
      t.OpenAt gByteSwap k j words ∧ g.l2pDataCnt.toNat + j = t.chunk k ∧
        2 ≤ g.l2pDataCnt.toNat ∧ s.ldm.dataFifoValid = true ∧ t.Shown (32 * k + j) s.dataFifo ∧
        fsm.dataFifoRd = true ∧ fsm.ldmArbDframe = true ∧
        g.l2pLenCnt.toNat = t.len - 32 * (k + 1) ∧ g.l2p64bAddress = (t.addrH != 0) ∧
        g.l2pLastPacket = decide (t.len ≤ 32 * (k + 1))
  | .waitRdy => ∃ j,
      t.OpenAt gByteSwap k j words ∧ j + 2 = t.chunk k ∧ g.l2pDataCnt = 1 ∧
        some fsm.ldmArbData = (t.hostWords gByteSwap)[32 * k + j]? ∧
        t.Shown (32 * k + j + 1) s.dataFifo ∧ fsm.dataFifoRd = false ∧
        fsm.ldmArbDframe = true ∧ g.l2pLenCnt.toNat = t.len - 32 * (k + 1) ∧
        g.l2p64bAddress = (t.addrH != 0) ∧ g.l2pLastPacket = decide (t.len ≤ 32 * (k + 1))
  | .lastData => ∃ j,
      t.OpenAt gByteSwap k j words ∧ j + 1 = t.chunk k ∧ t.Shown (32 * k + j) s.dataFifo ∧
        fsm.dataFifoRd = false ∧ fsm.ldmArbDframe = true ∧
        g.l2pLenCnt.toNat = t.len - 32 * (k + 1) ∧ g.l2p64bAddress = (t.addrH != 0) ∧
        (g.l2pLastPacket = decide (t.len ≤ 32 * (k + 1)) ∨
          32 * (k + 1) < t.len ∧ t.Sized (k + 1) g)
  | .waitData => False

/-- A transfer of which `k` packets are sent, in the state `s` after the words `words`. -/
structure Stage (k : ℕ) (s : L2pDmaPath) (words : List (Bool × Word)) : Prop where
  delivered : (packets words).flatMap payload = (t.hostWords gByteSwap).take (32 * k)
  lengths : ∀ p ∈ packets words, (payload p).length = announcedLength p
  done : s.ldm.fsm.dmaCtrlDone = true → t.len ≤ 32 * k
  addrH : s.ldm.pktGen.l2pAddressH = t.addrH
  byteSwap : s.ldm.pktGen.l2pByteSwap = t.byteSwap
  atState : t.AtState gByteSwap k s words

/-! ## Words and sizes -/

variable {gByteSwap t} {k j m : ℕ} {words : List (Bool × Word)}

variable (gByteSwap) in
/-- The first of the words from number `m` on is payload word `m`. -/
theorem hostWords_of_drop {q : Word} {rest : List Word} (h : q :: rest = t.words.drop m) :
    (t.hostWords gByteSwap)[m]? = some (fByteSwap gByteSwap q t.byteSwap) := by
  have hword : t.words[m]? = some q := by
    rw [← List.head?_drop, ← h]
    rfl
  rw [hostWords, List.getElem?_map, hword]
  rfl

theorem OpenAt.take_succ (h : t.OpenAt gByteSwap k j words) {w : Word}
    (hw : (t.hostWords gByteSwap)[32 * k + j]? = some w) :
    ∃ low, openPacket words ++ [w] =
      t.head k low ++ ((t.hostWords gByteSwap).drop (32 * k)).take (j + 1) := by
  obtain ⟨low, hopen⟩ := h
  refine ⟨low, ?_⟩
  rw [hopen, List.take_add_one, List.getElem?_drop, hw, List.append_assoc]
  rfl

/-- One more payload word. -/
theorem OpenAt.more (h : t.OpenAt gByteSwap k j words) {w : Word}
    (hw : (t.hostWords gByteSwap)[32 * k + j]? = some w) :
    t.OpenAt gByteSwap k (j + 1) (words ++ [(true, w)]) := by
  rw [OpenAt, openPacket_more]
  exact h.take_succ hw

theorem length_take_chunk :
    (((t.hostWords gByteSwap).drop (32 * k)).take (t.chunk k)).length = t.chunk k := by
  rw [List.length_take, List.length_drop, hostWords, List.length_map]
  exact Nat.min_eq_left (Nat.min_le_right _ _)

/-- The last payload word. -/
theorem OpenAt.last (h : t.OpenAt gByteSwap k j words) {w : Word}
    (hw : (t.hostWords gByteSwap)[32 * k + j]? = some w) (hj : j + 1 = t.chunk k) :
    payload (openPacket words ++ [w]) = ((t.hostWords gByteSwap).drop (32 * k)).take (t.chunk k) ∧
      announcedLength (openPacket words ++ [w]) = t.chunk k := by
  obtain ⟨low, hpacket⟩ := h.take_succ hw
  have hlt : 32 * k < t.len := by
    unfold chunk at hj
    omega
  rw [hpacket, hj, payload_head, t.announcedLength_head hlt]
  exact ⟨rfl, rfl⟩

/-- The packets add up to the transfer. -/
theorem take_chunk : (t.hostWords gByteSwap).take (32 * (k + 1)) =
    (t.hostWords gByteSwap).take (32 * k) ++
      ((t.hostWords gByteSwap).drop (32 * k)).take (t.chunk k) := by
  have hlen : ((t.hostWords gByteSwap).drop (32 * k)).length = t.len - 32 * k := by
    simp [hostWords, len]
  rw [Nat.mul_succ, List.take_add, chunk]
  congr 1
  rcases le_total 32 (t.len - 32 * k) with h | h
  · rw [min_eq_left h]
  · rw [min_eq_right h, List.take_of_length_le (by omega), List.take_of_length_le (by omega)]

theorem sized_loadSize {g : PktGen} (hlt : 32 * k < t.len)
    (hlen : g.l2pLenCnt.toNat = t.len - 32 * k) : t.Sized k g.loadSize := by
  have hmax : (cL2pMaxPayload.setWidth 30).toNat = 32 := rfl
  simp only [PktGen.loadSize, BitVec.lt_def, hmax, hlen]
  by_cases hmore : 32 < t.len - 32 * k
  · have hchunk : t.chunk k = 32 := by
      unfold chunk
      omega
    have hlast : ¬ t.len ≤ 32 * (k + 1) := by omega
    simp only [hmore, if_true, Sized, hchunk, hlast, decide_false]
    exact ⟨rfl, rfl, trivial⟩
  · have hchunk : t.chunk k = t.len - 32 * k := by
      unfold chunk
      omega
    have hlast : t.len ≤ 32 * (k + 1) := by omega
    simp only [hmore, if_false, Sized, hchunk, hlast, decide_true]
    split
    case isTrue heq =>
        rw [heq, hmax] at hlen
        exact ⟨by rw [← hlen]; rfl, by rw [← hlen]; rfl, rfl⟩
    case isFalse =>
        refine ⟨?_, BitVec.eq_of_toNat_eq ?_, rfl⟩
        · rw [BitVec.toNat_setWidth, hlen]
          omega
        · rw [BitVec.toNat_setWidth, hlen, BitVec.toNat_ofNat]

/-- Behind the address words of packet `k` the counter tells whether a packet follows. -/
theorem lenCnt_pos_iff {g : PktGen} (hlen : g.l2pLenCnt.toNat = t.len - 32 * (k + 1)) :
    0 < g.l2pLenCnt ↔ 32 * (k + 1) < t.len := by
  have hnat : 0 < g.l2pLenCnt ↔ 0 < g.l2pLenCnt.toNat := BitVec.lt_def
  rw [hnat, hlen]
  omega

/-! ## The FIFO at one edge -/

theorem Stored.read {f : AsyncFifo Word} (h : t.Stored m f) (hlt : m < t.len) (n : ℕ) :
    t.Shown m ((f.read true).arrive n) := by
  obtain ⟨hready, hcrossing⟩ := h
  obtain ⟨a, r, hdrop⟩ := List.exists_cons_of_ne_nil
    (List.ne_nil_of_length_pos (l := t.words.drop m) (by rw [List.length_drop]; exact Nat.sub_pos_of_lt hlt))
  have hcons : f.ready = a :: r := hready.trans hdrop
  have hread : f.read true = { f with ready := r, q := a } := AsyncFifo.read_cons hcons
  have hnone : (f.read true).crossing = [] := (AsyncFifo.read_crossing f true).trans hcrossing
  rw [AsyncFifo.arrive_of_crossing_nil hnone, hread]
  exact ⟨hdrop.symm, hcrossing⟩

theorem Stored.hold {f : AsyncFifo Word} (h : t.Stored m f) (n : ℕ) :
    t.Stored m ((f.read false).arrive n) := by
  rw [AsyncFifo.read_false, AsyncFifo.arrive_of_crossing_nil h.2]
  exact h

theorem Shown.hold {f : AsyncFifo Word} (h : t.Shown m f) (n : ℕ) :
    t.Shown m ((f.read false).arrive n) := by
  rw [AsyncFifo.read_false, AsyncFifo.arrive_of_crossing_nil h.2]
  exact h

/-- The word behind the one at the output is popped. -/
theorem Shown.read {f : AsyncFifo Word} (h : t.Shown m f) (hlt : m + 1 < t.len) (n : ℕ) :
    f.empty = false ∧ t.Shown (m + 1) ((f.read true).arrive n) := by
  obtain ⟨hdrop, hcrossing⟩ := h
  have hrest : f.ready = t.words.drop (m + 1) := by
    rw [← List.tail_drop, ← hdrop]
    rfl
  have hstored : t.Stored (m + 1) f := ⟨hrest, hcrossing⟩
  refine ⟨?_, hstored.read hlt n⟩
  rw [AsyncFifo.empty_eq_false, hrest]
  exact List.ne_nil_of_length_pos (by rw [List.length_drop]; exact Nat.sub_pos_of_lt hlt)

/-- The word at the output has the words behind it in the FIFO. -/
theorem Shown.stored {f : AsyncFifo Word} (h : t.Shown m f) : t.Stored (m + 1) f := by
  refine ⟨?_, h.2⟩
  rw [← List.tail_drop, ← h.1]
  rfl

end WriteTransfer

end Gn4124Core
