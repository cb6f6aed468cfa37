import Gn4124Core.L2pDma.Addresses
import Gn4124Core.L2pDma.SlowMemory
import Gn4124Core.Memory.Blocks

/-!
# What the packets write into host memory

The host takes the payload of a write packet to the address in front of it, word by word, if it
is as long as the header announces.  The packets of a transfer of which `k` are sent have then
written the first `32 * k` words of the transfer from the host address on, and nothing else
(`Front.hostMemory`): they carry consecutive addresses, and all but the last are full.

The address of a packet is `packetAddress_eq`, for headers of both lengths, and its place in
memory `wordAddress_add`.  That all packets but the last are full is `Flow.full`.  The packets
then are adjacent blocks, and `Memory.Blocks` knows what is left in memory by storing these one
after the other.
-/

namespace Gn4124Core

open Clocked Blocks

/-! ## Host memory -/

/-- The memory of the host, by words: the two low bits of an address select a byte. -/
abbrev HostWords := BitVec 62 → Word

/-- The word that a byte address is in. -/
def wordAddress (a : BitVec 64) : BitVec 62 := a.extractLsb' 2 62

/-- The address in a write packet: two words or one. -/
def packetAddress : List Word → BitVec 64
  | [] => 0
  | header :: rest =>
      if header.extractLsb' 24 4 = 0b0011#4 then rest[0]?.getD 0 ++ rest[1]?.getD 0
      else 0#32 ++ rest[0]?.getD 0

/-- What the host does with a write packet. -/
def hostWrite (host : HostWords) (p : List Word) : HostWords :=
  if (payload p).length = announcedLength p then
    store host (wordAddress (packetAddress p)) (payload p)
  else host

theorem packetAddress_eq {p : List Word} {a : BitVec 64} (h : Carries p a) : packetAddress p = a := by
  have hhalves : a.extractLsb' 32 32 ++ a.extractLsb' 0 32 = a := by
    apply BitVec.eq_of_toNat_eq
    have hlt := a.isLt
    rw [toNat_halves, BitVec.extractLsb'_toNat, BitVec.extractLsb'_toNat,
      Nat.shiftRight_eq_div_pow, Nat.shiftRight_zero]
    omega
  cases p with
  | nil => exact h.elim
  | cons header rest =>
      rw [Carries] at h
      rw [packetAddress]
      by_cases hnarrow : a.extractLsb' 32 32 = 0#32
      · rw [if_pos hnarrow] at h
        obtain ⟨htype, hrest⟩ := h
        have hlow : rest[0]? = some (a.extractLsb' 0 32) := by
          cases rest with
          | nil => simp at hrest
          | cons low rest => simpa using hrest
        rw [if_neg (by rw [htype]; decide), hlow, Option.getD_some, ← hnarrow, hhalves]
      · rw [if_neg hnarrow] at h
        obtain ⟨htype, hrest⟩ := h
        have hwords : rest[0]? = some (a.extractLsb' 32 32) ∧ rest[1]? = some (a.extractLsb' 0 32) := by
          cases rest with
          | nil => simp at hrest
          | cons high rest =>
              cases rest with
              | nil => simp at hrest
              | cons low rest => simpa using hrest
        rw [if_pos htype, hwords.1, hwords.2, Option.getD_some, Option.getD_some, hhalves]

theorem wordAddress_add (a : BitVec 64) (n : ℕ) :
    wordAddress (a + BitVec.ofNat 64 (4 * n)) = wordAddress a + BitVec.ofNat 62 n := by
  apply BitVec.eq_of_toNat_eq
  have hlt := a.isLt
  rw [wordAddress, wordAddress, BitVec.extractLsb'_toNat, BitVec.toNat_add, BitVec.toNat_add,
    BitVec.extractLsb'_toNat, BitVec.toNat_ofNat, BitVec.toNat_ofNat, Nat.shiftRight_eq_div_pow,
    Nat.shiftRight_eq_div_pow]
  omega

/-! ## The packets of a transfer -/

namespace WriteTransfer

variable {gByteSwap : Bool} {t : WriteTransfer} {k : ℕ} {aL : Word} {s : L2pDmaPath}
  {words : List (Bool × Word)}

/-- All packets but the last are full. -/
theorem Flow.full (h : t.Flow gByteSwap k s words) {j : ℕ} {p : List Word}
    (hp : (packets words)[j]? = some p) (hmore : j + 1 < (packets words).length) :
    (payload p).length = 32 := by
  have hcount := h.front.count
  have hbound := h.front.bound
  unfold packetCount at hbound
  obtain ⟨low, -, rest, hhead⟩ := h.front.headed j p hp
  rw [h.lengths p (List.mem_of_getElem? hp), ← hhead, t.announcedLength_head (by omega), chunk]
  omega

/-- **Host memory during a transfer.** -/
theorem Front.hostMemory (hfront : t.Front (fun k w => w = lowWord aL k) k s words)
    (hflow : t.Flow gByteSwap k s words) (hlen : t.len < 2 ^ 30)
    (hfits : aL.toNat + 128 * (t.packetCount - 1) < 2 ^ 32) (host : HostWords) :
    (packets words).foldl hostWrite host =
      store host (wordAddress (t.addrH ++ aL)) ((t.hostWords gByteSwap).take (32 * k)) := by
  have hwalks := hfront.walks hlen hfits
  rw [← hflow.delivered]
  apply foldl_store (n := 32)
  · intro j p hp host
    have hlength := hflow.lengths p (List.mem_of_getElem? hp)
    have hbytes : 128 * j = 4 * (32 * j) := by omega
    rw [hostWrite, if_pos hlength, packetAddress_eq (hwalks j p hp), hbytes, wordAddress_add]
  · exact fun j p hp hmore => hflow.full hp hmore
  · have hhost : (t.hostWords gByteSwap).length = t.len := by simp [hostWords, len]
    rw [hflow.delivered, List.length_take, hhost]
    omega

/-- At the end of the transfer all its words are there. -/
theorem Front.hostMemory_done (hfront : t.Front (fun k w => w = lowWord aL k) k s words)
    (hflow : t.Flow gByteSwap k s words) (hdone : s.ldm.fsm.dmaCtrlDone = true) (hlen : t.len < 2 ^ 30)
    (hfits : aL.toNat + 128 * (t.packetCount - 1) < 2 ^ 32) (host : HostWords) :
    (packets words).foldl hostWrite host =
      store host (wordAddress (t.addrH ++ aL)) (t.hostWords gByteSwap) := by
  have hall : (t.hostWords gByteSwap).length ≤ 32 * k := by
    have hle := (hfront.done hdone).1
    simpa [hostWords, len] using hle
  rw [hfront.hostMemory hflow hlen hfits host, List.take_of_length_le hall]

/-- The words of a transfer are gone from the FIFO when the last one is sent. -/
theorem Flow.drained {i : L2pDmaPathIn} (h : t.Flow gByteSwap k s words)
    (hgo : L2pDmaPath.Ongoing s i) (hdone : (L2pDmaPath.step gByteSwap s i).ldm.fsm.dmaCtrlDone = true) :
    s.dataFifo.contents = [] ∧ s.ldm.fsm.dataFifoRd = false ∧
      (L2pDmaPath.step gByteSwap s i).ldm.fsm.l2pDmaCurrentState = .idle := by
  have hfsm : (L2pDmaPath.step gByteSwap s i).ldm.fsm = s.ldm.pPktFsm gByteSwap (s.ldmIn i) := rfl
  have hnow := hgo.done
  rw [hfsm] at hdone ⊢
  cases hstate : s.ldm.fsm.l2pDmaCurrentState with
  | lastData =>
      have hbody := h.front.atFront
      have hat := h.atFlow
      simp only [AtFront, AtFlow, hstate] at hbody hat
      obtain ⟨j, -, hj, hrd, hnext⟩ := hat
      cases hrdy : i.l2pRdy with
      | false =>
          rw [L2pDmaMaster.lastData_waits gByteSwap (i := s.ldmIn i) hstate hrdy] at hdone
          exact absurd (hnow.symm.trans hdone) (by decide)
      | true =>
          rw [L2pDmaMaster.lastData_sends gByteSwap (i := s.ldmIn i) hstate hrdy] at hdone ⊢
          have hlast : ¬ 0 < s.ldm.pktGen.l2pLenCnt := by
            intro hmore
            have hset : (if 0 < s.ldm.pktGen.l2pLenCnt then s.ldm.fsm.dmaCtrlDone else true) = true :=
              hdone
            rw [if_pos hmore, hnow] at hset
            exact absurd hset (by decide)
          have hend := mt (lenCnt_pos_iff hbody.1.lenCnt).mpr hlast
          refine ⟨?_, hrd, if_neg hlast⟩
          have hwords := congrArg List.length hnext
          have hlen : t.words.length = t.len := rfl
          rw [List.length_cons, List.length_drop, hlen] at hwords
          unfold chunk at hj
          exact List.eq_nil_of_length_eq_zero (by omega)
  | idle => simp [L2pDmaMaster.pPktFsm, hstate] at hdone
  | addrH | addrL =>
      simp only [L2pDmaMaster.pPktFsm, hstate] at hdone
      exact absurd (hnow.symm.trans hdone) (by decide)
  | header | data | waitRdy | waitData =>
      simp only [L2pDmaMaster.pPktFsm, hstate] at hdone
      split_ifs at hdone <;> exact absurd (hnow.symm.trans hdone) (by decide)

end WriteTransfer

end Gn4124Core
