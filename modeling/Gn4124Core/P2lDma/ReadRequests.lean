import Gn4124Core.Arbitration.Sources
import Gn4124Core.Clocked.Handshake

/-!
# The read requests of a P2L transfer

A transfer of `n` words is split into `⌈n / 1024⌉` read requests of at most 1024 words.
This file follows the requests `p2l_dma_master` presents to the arbiter through a whole
transfer.  `Stage` ties each FSM state to the packets sent so far: `k` requests are
complete, and the length counter holds what remains after them.

The counters are spread over two processes.  `p_read_req` computes the length field in
every `P2L_HEADER` cycle, while the FSM sends the header in the cycle of the grant; the
field is right because a grant comes one cycle after its request at the earliest.

The address registers are loaded at the start of the transfer and never again.  So every
request carries the address of the first (`requests_of_finished`), and the requests tile
the host buffer exactly when there is only one of them.
-/

namespace Gn4124Core

open Clocked

/-- A transfer, as the DMA controller orders it: host address and length in words. -/
structure ReadTransfer where
  addrH : Word
  addrL : Word
  len : ℕ

/-- What a read request packet asks of the host. -/
structure HostRead where
  address : BitVec 64
  words : ℕ
deriving DecidableEq

/-- The request in a packet.  Header bit 24 announces a 64-bit address, that is, an
address-high word before the address-low word. -/
def HostRead.parse : List Word → Option HostRead
  | [header, low] =>
      if header.extractLsb' 24 4 = 0b0000#4 then
        some ⟨0#32 ++ low, wordsAnnounced (header.extractLsb' 0 10)⟩
      else none
  | [header, high, low] =>
      if header.extractLsb' 24 4 = 0b0001#4 then
        some ⟨high ++ low, wordsAnnounced (header.extractLsb' 0 10)⟩
      else none
  | _ => none

theorem readHeader_type (b : Bool) (length : BitVec 10) :
    (readHeader b length).extractLsb' 24 4 = if b then 0b0001#4 else 0b0000#4 := by
  unfold readHeader
  -- six fields below the type field
  rw [BitVec.extractLsb'_append_eq_of_le (by omega),
    BitVec.extractLsb'_append_eq_of_le (by omega),
    BitVec.extractLsb'_append_eq_of_le (by omega),
    BitVec.extractLsb'_append_eq_of_le (by omega),
    BitVec.extractLsb'_append_eq_of_le (by omega),
    BitVec.extractLsb'_append_eq_of_le (by omega)]
  cases b <;> rfl

theorem readHeader_length (b : Bool) (length : BitVec 10) :
    (readHeader b length).extractLsb' 0 10 = length :=
  BitVec.extractLsb'_append_eq_right

/-! ## The packets of a transfer -/

namespace ReadTransfer

variable (t : ReadTransfer)

/-- The host address of the transfer. -/
def address : BitVec 64 := t.addrH ++ t.addrL

/-- The words the `k`-th request has to ask for. -/
def chunk (k : ℕ) : ℕ := min 1024 (t.len - 1024 * k)

/-- The number of requests, `⌈len / 1024⌉`. -/
def requests : ℕ := (t.len + 1023) / 1024

/-- The requests that tile the host buffer. -/
def tiling : List HostRead :=
  (List.range t.requests).map fun k => ⟨t.address + BitVec.ofNat 64 (4096 * k), t.chunk k⟩

/-- The `k`-th packet as the master builds it. -/
def packet (k : ℕ) : List Word :=
  readHeader (t.addrH != 0) (BitVec.ofNat 10 (t.chunk k)) ::
    if t.addrH != 0 then [t.addrH, t.addrL] else [t.addrL]

theorem wordsAnnounced_chunk {k : ℕ} (hk : 1024 * k < t.len) :
    wordsAnnounced (BitVec.ofNat 10 (t.chunk k)) = t.chunk k := by
  have hchunk : 1 ≤ t.chunk k ∧ t.chunk k ≤ 1024 := by
    unfold chunk
    omega
  have hnat : (BitVec.ofNat 10 (t.chunk k)).toNat = t.chunk k % 1024 := BitVec.toNat_ofNat ..
  unfold wordsAnnounced
  split
  case isTrue hzero =>
      have hnone : (BitVec.ofNat 10 (t.chunk k)).toNat = 0 := by simp [hzero]
      omega
  case isFalse hzero =>
      have hne : (BitVec.ofNat 10 (t.chunk k)).toNat ≠ 0 := fun h => hzero (BitVec.eq_of_toNat_eq h)
      omega

/-- Every packet asks for the right number of words, at the address of the transfer. -/
theorem parse_packet {k : ℕ} (hk : 1024 * k < t.len) :
    HostRead.parse (t.packet k) = some ⟨t.address, t.chunk k⟩ := by
  unfold packet
  cases hb : t.addrH != 0 with
  | false =>
      have hzero : t.addrH = 0 := by simpa using hb
      simp only [Bool.false_eq_true, if_false, HostRead.parse, readHeader_type,
        readHeader_length, if_true, t.wordsAnnounced_chunk hk, address, hzero]
      rfl
  | true =>
      simp only [if_true, HostRead.parse, readHeader_type, readHeader_length,
        t.wordsAnnounced_chunk hk, address]

/-- A transfer of at most 1024 words is one request. -/
theorem tiling_of_le (h1 : 1 ≤ t.len) (hle : t.len ≤ 1024) :
    t.tiling = [⟨t.address, t.chunk 0⟩] := by
  have hone : t.requests = 1 := by
    unfold requests
    omega
  simp [tiling, hone]

/-- The second request of a longer transfer is 4096 bytes further. -/
theorem tiling_ne_of_lt (hlt : 1024 < t.len) :
    (List.range t.requests).map (fun k => some (⟨t.address, t.chunk k⟩ : HostRead)) ≠
      t.tiling.map some := by
  intro heq
  have htwo : 1 < t.requests := by
    unfold requests
    omega
  have hsecond := congrArg (fun l => l[1]?) heq
  simp only [tiling, List.map_map, List.getElem?_map, List.getElem?_range htwo, Option.map_some,
    Function.comp_apply, Option.some.injEq, HostRead.mk.injEq, and_true] at hsecond
  have hnat := congrArg BitVec.toNat hsecond
  rw [BitVec.toNat_add] at hnat
  simp only [BitVec.toNat_ofNat] at hnat
  omega

/-! ## One edge -/

/-- The registers announce the `k`-th request. -/
def Announced (k : ℕ) (r : ReadReq) : Prop :=
  r.l2pLenHeader = BitVec.ofNat 10 (t.chunk k) ∧
    r.l2pLastPacket = decide (t.len ≤ 1024 * (k + 1))

/-- What each FSM state says about a transfer of which `k` requests are sent.  `asked` makes
the difference in `P2L_HEADER`: one cycle after the request the length field is ready. -/
def AtState (k : ℕ) (s : Asking P2lDmaMaster) (words : List (Bool × Word)) : Prop :=
  match s.client.fsm.p2lDmaCurrentState with
  | .idle => t.len ≤ 1024 * k ∧ openPacket words = [] ∧ s.client.fsm.pdmArbValid = false
  | .header =>
      1024 * k < t.len ∧ openPacket words = [] ∧ s.client.fsm.pdmArbValid = false ∧
        s.client.fsm.pdmArbReq = true ∧
        s.client.readReq.l2pLenCnt.toNat = t.len - 1024 * k ∧
        (s.asked → t.Announced k s.client.readReq)
  | .addrH =>
      1024 * k < t.len ∧ openPacket words ++ [t.addrH, t.addrL] = t.packet k ∧
        s.client.fsm.pdmArbReq = false ∧ s.client.fsm.pdmArbValid = true ∧
        s.client.fsm.pdmArbDframe = true ∧
        s.client.readReq.l2pLenCnt.toNat = t.len - 1024 * k ∧ t.Announced k s.client.readReq
  | .addrL =>
      1024 * k < t.len ∧ openPacket words ++ [t.addrL] = t.packet k ∧
        s.client.fsm.pdmArbReq = false ∧ s.client.fsm.pdmArbValid = true ∧
        s.client.readReq.l2pLenCnt.toNat = t.len - 1024 * k ∧ t.Announced k s.client.readReq
  | .waitReadCompletion =>
      openPacket words = [] ∧ s.client.fsm.pdmArbReq = false ∧
        s.client.readReq.l2pLastPacket = decide (t.len ≤ 1024 * k) ∧
        (1024 * k < t.len → s.client.readReq.l2pLenCnt.toNat = t.len - 1024 * k)

/-- The address registers hold the address of the transfer, whichever request is next. -/
def Addressed (r : ReadReq) : Prop :=
  r.l2pAddressH = t.addrH ∧ r.l2pAddressL = t.addrL ∧ r.l2p64bAddress = (t.addrH != 0)

/-- A transfer of which `k` requests are sent, in the state `s` after the words `words`. -/
structure Stage (k : ℕ) (s : Asking P2lDmaMaster) (words : List (Bool × Word)) : Prop where
  sent : packets words = (List.range k).map t.packet
  needed : 1024 * k < t.len + 1024
  addressed : t.Addressed s.client.readReq
  atState : t.AtState k s words

end ReadTransfer

/-- What the master presents to the arbiter: a word, flagged with whether its packet goes on. -/
def P2lDmaMaster.presented (s : P2lDmaMaster) : List (Bool × Word) :=
  if s.fsm.pdmArbValid then [(s.fsm.pdmArbDframe, s.fsm.pdmArbData)] else []

namespace P2lDmaMaster

variable (gByteSwap : Bool)

/-- The master, with its request of the previous cycle. -/
abbrev askingStep : Asking P2lDmaMaster → P2lDmaIn → Asking P2lDmaMaster :=
  Asking.next (step gByteSwap) (fun s => s.fsm.pdmArbReq)

/-- A run without abort and without error in which a grant answers a request, and in which
the master is not started again. -/
def Calm (s : Asking P2lDmaMaster) (i : P2lDmaIn) : Prop :=
  (i.arbPdmGnt → s.client.fsm.pdmArbReq → s.asked) ∧ i.ctrl.abort = false ∧
    i.pd.masterCpln = false ∧
    (s.client.fsm.p2lDmaCurrentState = .idle →
      i.ctrl.startP2l = false ∧ i.ctrl.startNext = false)

instance (s : Asking P2lDmaMaster) (i : P2lDmaIn) : Decidable (Calm s i) :=
  inferInstanceAs (Decidable (_ ∧ _))

end P2lDmaMaster

namespace ReadTransfer

open P2lDmaMaster

variable {gByteSwap : Bool} {t : ReadTransfer} {k : ℕ} {s : Asking P2lDmaMaster}
  {words : List (Bool × Word)} {i : P2lDmaIn}

/-- What an edge adds to the requests of a stage, and the request that it leaves open. -/
theorem Stage.framed {s' : Asking P2lDmaMaster} {k' : ℕ} {more : List (Bool × Word)}
    {opened : List Word} (h : t.Stage k s words) (hopen : opened = openPacket words)
    (h' : t.Stage k' s' (words ++ more)) :
    (List.range k').map t.packet =
        (List.range k).map t.packet ++ (more.foldl frameStep ([], opened)).1 ∧
      (more.foldl frameStep ([], opened)).2 = openPacket (words ++ more) := by
  rw [← h'.sent, ← h.sent, packets_append, openPacket_append, hopen]
  exact ⟨rfl, rfl⟩

/-- An edge that completes no request. -/
theorem Stage.framed_same {s' : Asking P2lDmaMaster} {more : List (Bool × Word)} {opened : List Word}
    (h : t.Stage k s words) (hopen : opened = openPacket words) (h' : t.Stage k s' (words ++ more)) :
    (more.foldl frameStep ([], opened)).1 = [] ∧
      ∃ words, t.Stage k s' words ∧ (more.foldl frameStep ([], opened)).2 = openPacket words := by
  obtain ⟨hsent, hopen'⟩ := h.framed hopen h'
  exact ⟨List.append_right_eq_self.mp hsent.symm, _, h', hopen'⟩

/-- The words after an edge, with what the master presents then. -/
abbrev wordsAfter (gByteSwap : Bool) (s : Asking P2lDmaMaster) (i : P2lDmaIn)
    (words : List (Bool × Word)) : List (Bool × Word) :=
  words ++ (askingStep gByteSwap s i).client.presented

theorem Stage.idle_step (h : t.Stage k s words) (hcalm : Calm s i)
    (hstate : s.client.fsm.p2lDmaCurrentState = .idle) :
    t.Stage k (askingStep gByteSwap s i) (wordsAfter gByteSwap s i words) := by
  obtain ⟨hsent, hneeded, haddressed, hat⟩ := h
  obtain ⟨-, -, -, hstart⟩ := hcalm
  obtain ⟨hp2l, hnext⟩ := hstart hstate
  simp only [AtState, hstate] at hat
  obtain ⟨hlen, hopen, hvalid⟩ := hat
  have hwords : wordsAfter gByteSwap s i words = words := by
    simp [presented, step, pReadReqFsm, hstate, hvalid]
  rw [hwords]
  refine ⟨hsent, hneeded, ?_, ?_⟩
  · simpa [step, pReadReq, hstate, hp2l, hnext] using haddressed
  · simpa [AtState, step, pReadReqFsm, hstate, hp2l, hnext, hvalid] using ⟨hlen, hopen⟩

/-- A cycle in `P2L_HEADER` computes the length field of the next request. -/
theorem announced_pReadReq {m : P2lDmaMaster} (i : P2lDmaIn)
    (hstate : m.fsm.p2lDmaCurrentState = .header) (hlt : 1024 * k < t.len)
    (hlen : m.readReq.l2pLenCnt.toNat = t.len - 1024 * k) : t.Announced k (m.pReadReq i) := by
  have hmax : (cMaxReadReqSize.setWidth 30).toNat = 1024 := rfl
  simp only [pReadReq, hstate, BitVec.lt_def, hmax, hlen]
  by_cases hmore : 1024 < t.len - 1024 * k
  · have hchunk : t.chunk k = 1024 := by
      unfold chunk
      omega
    simp only [hmore, if_true, Announced, hchunk]
    exact ⟨rfl, by simpa using by omega⟩
  · have hchunk : t.chunk k = t.len - 1024 * k := by
      unfold chunk
      omega
    have hlast : t.len ≤ 1024 * (k + 1) := by omega
    simp only [hmore, if_false, Announced, hchunk, hlast, decide_true]
    split
    case isTrue heq =>
        rw [heq, hmax] at hlen
        exact ⟨by rw [← hlen]; rfl, rfl⟩
    case isFalse =>
        refine ⟨BitVec.eq_of_toNat_eq ?_, rfl⟩
        rw [BitVec.toNat_setWidth, hlen, BitVec.toNat_ofNat]

variable (gByteSwap) in
theorem Stage.header_step (h : t.Stage k s words) (hcalm : Calm s i)
    (hstate : s.client.fsm.p2lDmaCurrentState = .header) :
    t.Stage k (askingStep gByteSwap s i) (wordsAfter gByteSwap s i words) := by
  obtain ⟨hsent, hneeded, ⟨haddrH, haddrL, h64b⟩, hat⟩ := h
  simp only [AtState, hstate] at hat
  obtain ⟨hlt, hopen, hvalid, hreq, hlen, hasked⟩ := hat
  have hnow : t.Announced k (s.client.pReadReq i) := announced_pReadReq i hstate hlt hlen
  have haddressed : t.Addressed (s.client.pReadReq i) := by
    simp only [pReadReq, hstate, Addressed]
    split_ifs <;> exact ⟨haddrH, haddrL, h64b⟩
  have hcnt : (s.client.pReadReq i).l2pLenCnt.toNat = t.len - 1024 * k := by
    simp only [pReadReq, hstate]
    split_ifs <;> exact hlen
  cases hgnt : i.arbPdmGnt with
  | false =>
      have hwords : wordsAfter gByteSwap s i words = words := by
        simp [presented, step, pReadReqFsm, hstate, hgnt, hvalid]
      rw [hwords]
      refine ⟨hsent, hneeded, haddressed, ?_⟩
      simp only [AtState, Asking.next_client, step, pReadReqFsm, hstate, hgnt, Bool.false_eq_true,
        if_false]
      exact ⟨hlt, hopen, hvalid, hreq, hcnt, fun _ => hnow⟩
  | true =>
      -- the request is a cycle old, so the header shows the length computed in that cycle
      obtain ⟨hlength, -⟩ := hasked (hcalm.1 hgnt hreq)
      have hheader : s.client.readReq.sL2pHeader =
          readHeader (t.addrH != 0) (BitVec.ofNat 10 (t.chunk k)) := by
        rw [ReadReq.sL2pHeader, h64b, hlength]
      have hwords : wordsAfter gByteSwap s i words =
          words ++ [(true, s.client.readReq.sL2pHeader)] := by
        simp [presented, step, pReadReqFsm, hstate, hgnt]
      rw [hwords]
      refine ⟨by rwa [packets_more], hneeded, haddressed, ?_⟩
      simp only [AtState, Asking.next_client, step, pReadReqFsm, hstate, hgnt, if_true, h64b,
        openPacket_more, hopen, hheader, packet]
      cases hb : t.addrH != 0 with
      | false => exact ⟨hlt, rfl, trivial, trivial, hcnt, hnow⟩
      | true => exact ⟨hlt, rfl, trivial, trivial, trivial, hcnt, hnow⟩

variable (gByteSwap) in
theorem Stage.addrH_step (h : t.Stage k s words)
    (hstate : s.client.fsm.p2lDmaCurrentState = .addrH) :
    t.Stage k (askingStep gByteSwap s i) (wordsAfter gByteSwap s i words) := by
  obtain ⟨hsent, hneeded, haddressed, hat⟩ := h
  simp only [AtState, hstate] at hat
  obtain ⟨hlt, hpacket, hreq, hvalid, hdframe, hlen, hannounced⟩ := hat
  have hwords : wordsAfter gByteSwap s i words = words ++ [(true, t.addrH)] := by
    simp [presented, step, pReadReqFsm, hstate, hvalid, hdframe, haddressed.1]
  have hregs : s.client.pReadReq i = s.client.readReq := by simp [pReadReq, hstate]
  rw [hwords]
  refine ⟨by rwa [packets_more], hneeded, by simpa [step, hregs] using haddressed, ?_⟩
  simp only [AtState, Asking.next_client, step, pReadReqFsm, hstate, hregs, openPacket_more]
  exact ⟨hlt, by rw [← hpacket]; simp, hreq, hvalid, hlen, hannounced⟩

variable (gByteSwap) in
theorem Stage.addrL_step (h : t.Stage k s words)
    (hstate : s.client.fsm.p2lDmaCurrentState = .addrL) :
    t.Stage (k + 1) (askingStep gByteSwap s i) (wordsAfter gByteSwap s i words) := by
  obtain ⟨hsent, hneeded, haddressed, hat⟩ := h
  simp only [AtState, hstate] at hat
  obtain ⟨hlt, hpacket, hreq, hvalid, hlen, -, hlast⟩ := hat
  have hwords : wordsAfter gByteSwap s i words = words ++ [(false, t.addrL)] := by
    simp [presented, step, pReadReqFsm, hstate, hvalid, haddressed.2.1]
  have haddressed' : t.Addressed (s.client.pReadReq i) := by
    simp only [pReadReq, hstate, Addressed]
    split_ifs <;> exact haddressed
  have hlast' : (s.client.pReadReq i).l2pLastPacket = decide (t.len ≤ 1024 * (k + 1)) := by
    simp only [pReadReq, hstate]
    split_ifs <;> exact hlast
  rw [hwords]
  refine ⟨?_, by omega, haddressed', ?_⟩
  · rw [packets_last, hsent, hpacket, List.range_succ, List.map_append, List.map_singleton]
  · simp only [AtState, Asking.next_client, step, pReadReqFsm, hstate, openPacket_last]
    refine ⟨trivial, hreq, hlast', fun hmore => ?_⟩
    have hnot : s.client.readReq.l2pLastPacket = false := by
      rw [hlast]
      simpa using hmore
    have hmax : (cMaxReadReqSize.setWidth 30).toNat = 1024 := rfl
    simp only [pReadReq, hstate, hnot, Bool.false_eq_true, if_false]
    rw [BitVec.toNat_sub_of_le (by rw [BitVec.le_def, hmax]; omega), hmax]
    omega

variable (gByteSwap) in
theorem Stage.wait_step (h : t.Stage k s words) (hcalm : Calm s i)
    (hstate : s.client.fsm.p2lDmaCurrentState = .waitReadCompletion) :
    t.Stage k (askingStep gByteSwap s i) (wordsAfter gByteSwap s i words) := by
  obtain ⟨hsent, hneeded, haddressed, hat⟩ := h
  obtain ⟨-, habort, hcpln, -⟩ := hcalm
  simp only [AtState, hstate] at hat
  obtain ⟨hopen, hreq, hlast, hlen⟩ := hat
  have hregs : s.client.pReadReq i = s.client.readReq := by simp [pReadReq, hstate]
  have hvalid : (s.client.pReadReqFsm i).pdmArbValid = false := by
    simp only [pReadReqFsm, hstate]
    split_ifs <;> rfl
  have hwords : wordsAfter gByteSwap s i words = words := by
    simp [presented, step, hvalid]
  rw [hwords]
  refine ⟨hsent, hneeded, by simpa [step, hregs] using haddressed, ?_⟩
  simp only [AtState, Asking.next_client, Asking.next_asked, step, hregs, hvalid, hreq]
  by_cases hreceived : s.client.lastWordReceived i
  · by_cases hfinal : s.client.readReq.l2pLastPacket
    · have hidle : (s.client.pReadReqFsm i).p2lDmaCurrentState = .idle := by
        simp only [pReadReqFsm, hstate, habort, hreceived, hfinal, if_true]
        split_ifs <;> rfl
      rw [hidle]
      exact ⟨by simpa [hfinal] using hlast, hopen, trivial⟩
    · have hlt : 1024 * k < t.len := by simpa [hfinal] using hlast
      simp only [pReadReqFsm, hstate, habort, hreceived, hfinal, if_true, Bool.false_eq_true,
        if_false]
      exact ⟨hlt, hopen, trivial, trivial, hlen hlt, fun h => absurd h (by simp)⟩
  · simp only [pReadReqFsm, hstate, habort, hreceived, hcpln, Bool.false_eq_true, if_false]
    exact ⟨hopen, hreq, hlast, hlen⟩

/-- Every edge keeps the stage, or completes one request. -/
theorem Stage.step (h : t.Stage k s words) (hcalm : Calm s i) :
    ∃ k', t.Stage k' (askingStep gByteSwap s i) (wordsAfter gByteSwap s i words) := by
  cases hstate : s.client.fsm.p2lDmaCurrentState with
  | idle => exact ⟨k, h.idle_step hcalm hstate⟩
  | header => exact ⟨k, h.header_step _ hcalm hstate⟩
  | addrH => exact ⟨k, h.addrH_step _ hstate⟩
  | addrL => exact ⟨k + 1, h.addrL_step _ hstate⟩
  | waitReadCompletion => exact ⟨k, h.wait_step _ hcalm hstate⟩

end ReadTransfer

/-! ## The words of a request -/

/-- The decoder hands over a word of a completion. -/
def PdPdm.completionWord (pd : PdPdm) : Bool := pd.dataValid && pd.masterCpld

namespace P2lDmaMaster

/-- After the last word of a request the master either is done or asks for more. -/
theorem pReadReqFsm_of_last {m : P2lDmaMaster} {i : P2lDmaIn}
    (hwait : m.fsm.p2lDmaCurrentState = .waitReadCompletion) (habort : i.ctrl.abort = false)
    (hlast : m.lastWordReceived i = true) :
    (m.pReadReqFsm i).p2lDmaCurrentState = (if m.readReq.l2pLastPacket then .idle else .header) ∧
      (m.pReadReqFsm i).nextItemValid =
        (m.fsm.nextItemValid || (m.readReq.l2pLastPacket && m.readReq.isNextItem)) := by
  simp only [pReadReqFsm, hwait, habort, hlast, Bool.false_eq_true, if_false, if_true]
  cases m.readReq.l2pLastPacket <;> cases m.readReq.isNextItem <;> simp

/-- The three things that can happen in the waiting state. -/
theorem wait_cases {m : P2lDmaMaster} {i : P2lDmaIn}
    (hwait : m.fsm.p2lDmaCurrentState = .waitReadCompletion) (habort : i.ctrl.abort = false)
    (hcpln : i.pd.masterCpln = false) (hpos : 1 ≤ m.p2lDataCnt.toNat)
    (hvalid : i.pd.dataLast = true → i.pd.dataValid = true)
    (hlast : i.pd.completionWord = true → m.p2lDataCnt = 1 → i.pd.dataLast = true) :
    (i.pd.completionWord = false ∧ (m.pReadReqFsm i).p2lDmaCurrentState = .waitReadCompletion ∧
      m.pRecvDataCnt i = m.p2lDataCnt) ∨
    (i.pd.completionWord = true ∧ 1 < m.p2lDataCnt.toNat ∧
      (m.pReadReqFsm i).p2lDmaCurrentState = .waitReadCompletion ∧
      m.pRecvDataCnt i = m.p2lDataCnt - 1) ∨
    (i.pd.completionWord = true ∧ m.p2lDataCnt = 1 ∧ m.lastWordReceived i = true) := by
  have hcnt : m.pRecvDataCnt i = if i.pd.completionWord then m.p2lDataCnt - 1 else m.p2lDataCnt := by
    simp only [pRecvDataCnt, hwait]
    rfl
  have hstay : m.lastWordReceived i = false →
      (m.pReadReqFsm i).p2lDmaCurrentState = .waitReadCompletion := by
    intro hnot
    simp only [pReadReqFsm, hwait, habort, hnot, hcpln, Bool.false_eq_true, if_false]
  cases hword : i.pd.completionWord with
  | false =>
      refine .inl ⟨rfl, hstay ?_, by rw [hcnt, hword]; rfl⟩
      -- the last-word flag would come with a data strobe
      by_contra hreceived
      rw [Bool.not_eq_false, lastWordReceived, Bool.and_eq_true, Bool.and_eq_true] at hreceived
      simp [PdPdm.completionWord, hvalid hreceived.1.2, hreceived.1.1] at hword
  | true =>
      have hcpld : i.pd.masterCpld = true := (Bool.and_eq_true_iff.mp hword).2
      by_cases hone : m.p2lDataCnt = 1
      · refine .inr (.inr ⟨rfl, hone, ?_⟩)
        rw [lastWordReceived, hcpld, hlast hword hone, hone]
        rfl
      · have hmore : 1 < m.p2lDataCnt.toNat := by
          have hne : m.p2lDataCnt.toNat ≠ 1 := fun h => hone (BitVec.eq_of_toNat_eq h)
          omega
        refine .inr (.inl ⟨rfl, hmore, hstay ?_, by rw [hcnt, hword]; rfl⟩)
        rw [lastWordReceived, Bool.and_eq_false_iff]
        refine .inr (decide_eq_false ?_)
        rw [BitVec.le_def]
        exact Nat.not_le.mpr hmore

/-- The counter of a request starts with the number of words the request asks for. -/
theorem pRecvDataCnt_addrL {m : P2lDmaMaster} {t : ReadTransfer} {k : ℕ} (i : P2lDmaIn)
    (hlt : 1024 * k < t.len) (hannounced : t.Announced k m.readReq)
    (hstate : m.fsm.p2lDmaCurrentState = .addrL) : (m.pRecvDataCnt i).toNat = t.chunk k := by
  have hchunk : 1 ≤ t.chunk k ∧ t.chunk k ≤ 1024 := by
    unfold ReadTransfer.chunk
    omega
  have hnat : m.readReq.l2pLenHeader.toNat = t.chunk k % 1024 := by
    rw [hannounced.1]
    exact BitVec.toNat_ofNat ..
  simp only [pRecvDataCnt, hstate]
  split
  case isTrue hzero =>
      have hnone : m.readReq.l2pLenHeader.toNat = 0 := by simp [hzero]
      have hfull : t.chunk k = 1024 := by omega
      rw [hfull]
      rfl
  case isFalse hzero =>
      have hne : m.readReq.l2pLenHeader.toNat ≠ 0 := fun h => hzero (BitVec.eq_of_toNat_eq h)
      rw [BitVec.toNat_setWidth]
      omega

end P2lDmaMaster

namespace ReadTransfer

open P2lDmaMaster

variable {gByteSwap : Bool} {t : ReadTransfer} {k : ℕ} {s : Asking P2lDmaMaster}
  {words : List (Bool × Word)} {i : P2lDmaIn}

/-! ## A whole transfer -/

/-- The words the master presents at the edges of a run. -/
abbrev emitted (gByteSwap : Bool) (s : Asking P2lDmaMaster) (is : List P2lDmaIn) :
    List (Bool × Word) :=
  log (askingStep gByteSwap) (after (askingStep gByteSwap) fun s => s.client.presented) s is

theorem Stage.run {is : List P2lDmaIn} (h : t.Stage 0 s [])
    (hcalm : Always (askingStep gByteSwap) Calm s is) :
    ∃ k, t.Stage k (run (askingStep gByteSwap) s is) (emitted gByteSwap s is) := by
  refine invariant_log (motive := fun s words => ∃ k, t.Stage k s words) ?_ hcalm ⟨0, h⟩
  intro s i words hstage hi
  obtain ⟨k, hk⟩ := hstage
  exact hk.step hi

/-- The requests sent so far, in a transfer that may still be under way. -/
theorem Stage.requests (h : t.Stage k s words) :
    (packets words).map HostRead.parse =
      (List.range k).map fun j => some ⟨t.address, t.chunk j⟩ := by
  rw [h.sent, List.map_map]
  refine List.map_congr_left fun j hj => ?_
  have hlt : j < k := List.mem_range.mp hj
  have hneeded := h.needed
  exact t.parse_packet (by omega)

theorem Stage.requests_of_idle (h : t.Stage k s words)
    (hidle : s.client.fsm.p2lDmaCurrentState = .idle) : k = t.requests := by
  obtain ⟨-, hneeded, -, hat⟩ := h
  simp only [AtState, hidle] at hat
  have hlen := hat.1
  unfold ReadTransfer.requests
  omega

end ReadTransfer

namespace P2lDmaMaster

/-- No request and no word is left over from an earlier transfer. -/
structure Ready (s : P2lDmaMaster) : Prop where
  idle : s.fsm.p2lDmaCurrentState = .idle
  noWord : s.fsm.pdmArbValid = false
  noRequest : s.fsm.pdmArbReq = false

/-- Whatever happened before, an idle master is ready. -/
theorem ready_of_reachable (hs : List P2lDmaIn)
    (hidle : (run (step gByteSwap) reset hs).fsm.p2lDmaCurrentState = .idle) :
    Ready (run (step gByteSwap) reset hs) := by
  have hshape : Shape (run (step gByteSwap) reset hs) :=
    stable_run (fun _ _ h => h.step) reset_shape hs
  rw [Shape, hidle] at hshape
  exact ⟨hidle, hshape.2.1, hshape.2.2⟩

end P2lDmaMaster

/-- The transfer that a start pulse orders; the length register counts bytes. -/
def DmaCtrl.transfer (c : DmaCtrl) : ReadTransfer :=
  ⟨c.hostAddrH, c.hostAddrL, (c.len.extractLsb' 2 30).toNat⟩

namespace P2lDmaMaster

variable {gByteSwap : Bool} {s : Asking P2lDmaMaster} {i : P2lDmaIn} {is : List P2lDmaIn}

/-- The read requests sent along a run, as the host understands them. -/
def requests (gByteSwap : Bool) (s : Asking P2lDmaMaster) (is : List P2lDmaIn) :
    List (Option HostRead) :=
  (packets (ReadTransfer.emitted gByteSwap s is)).map HostRead.parse

/-- A start order puts the master at the beginning of a transfer. -/
theorem Ready.stage (hready : s.client.Ready) (hstart : i.ctrl.startP2l || i.ctrl.startNext)
    (hlen : 1 ≤ i.ctrl.transfer.len) : i.ctrl.transfer.Stage 0 (askingStep gByteSwap s i) [] := by
  obtain ⟨hidle, hword, hreq⟩ := hready
  refine ⟨rfl, by omega, ?_, ?_⟩
  · simp only [ReadTransfer.Addressed, Asking.next_client, step, pReadReq, hidle, hstart, if_true]
    exact ⟨rfl, rfl, rfl⟩
  · simp only [ReadTransfer.AtState, Asking.next_client, Asking.next_asked, step, pReadReq,
      pReadReqFsm, hidle, hstart, if_true]
    exact ⟨by omega, rfl, hword, trivial, rfl, fun hasked => absurd hasked (by simp [hreq])⟩

/-- At the end of a transfer all its requests are sent.  Their lengths tile the host
buffer, but each of them carries the address of the first. -/
theorem requests_of_finished (hready : s.client.Ready)
    (hstart : i.ctrl.startP2l || i.ctrl.startNext) (hlen : 1 ≤ i.ctrl.transfer.len)
    (hcalm : Always (askingStep gByteSwap) Calm (askingStep gByteSwap s i) is)
    (hdone : (run (askingStep gByteSwap) (askingStep gByteSwap s i) is).client.fsm.p2lDmaCurrentState
      = .idle) :
    requests gByteSwap (askingStep gByteSwap s i) is =
      (List.range i.ctrl.transfer.requests).map fun k =>
        some ⟨i.ctrl.transfer.address, i.ctrl.transfer.chunk k⟩ := by
  obtain ⟨k, hstage⟩ := (hready.stage hstart hlen).run hcalm
  rw [requests, hstage.requests, hstage.requests_of_idle hdone]

/-- **Read requests.**  Take a transfer of `n ≥ 1` words that the master starts in any state
it can reach from reset, and any calm run of it.  When the transfer is over, the requests
sent are those that tile the host buffer if and only if `n ≤ 1024`, that is, if there is
only one of them; and then they are a part of the tiling all the time. -/
theorem requests_tile_iff (gByteSwap : Bool) (hs : List P2lDmaIn) (i : P2lDmaIn)
    (is : List P2lDmaIn) :
    let s := run (askingStep gByteSwap) ⟨reset, false⟩ hs
    s.client.fsm.p2lDmaCurrentState = .idle →
    (i.ctrl.startP2l || i.ctrl.startNext) → 1 ≤ i.ctrl.transfer.len →
    Always (askingStep gByteSwap) Calm (askingStep gByteSwap s i) is →
    (i.ctrl.transfer.len ≤ 1024 →
      requests gByteSwap (askingStep gByteSwap s i) is <+: i.ctrl.transfer.tiling.map some) ∧
    ((run (askingStep gByteSwap) (askingStep gByteSwap s i) is).client.fsm.p2lDmaCurrentState
        = .idle →
      (requests gByteSwap (askingStep gByteSwap s i) is = i.ctrl.transfer.tiling.map some ↔
        i.ctrl.transfer.len ≤ 1024)) := by
  intro s hidle hstart hlen hcalm
  have hready : s.client.Ready := by
    rw [Asking.run_client] at hidle ⊢
    exact ready_of_reachable hs hidle
  refine ⟨fun hle => ?_, fun hdone => ?_⟩
  · obtain ⟨k, hstage⟩ := (hready.stage hstart hlen).run hcalm
    rw [requests, hstage.requests, i.ctrl.transfer.tiling_of_le hlen hle]
    -- there is one request, which is sent or not
    have hk : k = 0 ∨ k = 1 := by
      have hneeded := hstage.needed
      omega
    rcases hk with rfl | rfl
    · exact List.nil_prefix
    · exact List.prefix_rfl
  · rw [requests_of_finished hready hstart hlen hcalm hdone]
    refine ⟨fun heq => ?_, fun hle => ?_⟩
    · by_contra hlt
      exact i.ctrl.transfer.tiling_ne_of_lt (by omega) heq
    · have hone : i.ctrl.transfer.requests = 1 := by
        unfold ReadTransfer.requests
        omega
      rw [i.ctrl.transfer.tiling_of_le hlen hle, hone]
      rfl

/-! ### Two transfers from reset -/

/-- The order of a P2L transfer of `len` bytes from the host address `addrL`. -/
def orderEdge (addrL len : Word) : P2lDmaIn where
  ctrl := { DmaCtrl.quiet with hostAddrL := addrL, len := len, startP2l := true }
  pd := .quiet
  arbPdmGnt := false

/-- A cycle without any order from the DMA controller. -/
def requestEdge (gnt : Bool) : P2lDmaIn := ⟨.quiet, .quiet, gnt⟩

/-- A cycle in which the decoder hands over a word of a completion. -/
def completionEdge (last : Bool) (w : Word) : P2lDmaIn :=
  ⟨.quiet, ⟨true, false, true, last, w⟩, false⟩

/-- One request, granted, and the `words + 1` words that answer it. -/
def requestAndAnswer (words : ℕ) : List P2lDmaIn :=
  [requestEdge false, requestEdge true, requestEdge false] ++
    List.replicate words (completionEdge false 0) ++ [completionEdge true 0]

/-- 1025 words take two requests.  The second asks for word 0 again, not for word 1024. -/
theorem requests_of_1025_words :
    let i := orderEdge 0x1000 4100
    let s := askingStep false ⟨reset, false⟩ i
    let is := requestAndAnswer 1023 ++ requestAndAnswer 0
    Always (askingStep false) Calm s is ∧
      (run (askingStep false) s is).client.fsm.p2lDmaCurrentState = .idle ∧
      requests false s is = [some ⟨0x1000, 1024⟩, some ⟨0x1000, 1⟩] ∧
      i.ctrl.transfer.tiling = [⟨0x1000, 1024⟩, ⟨0x2000, 1⟩] ∧
      requests false s is ≠ i.ctrl.transfer.tiling.map some := by
  decide +kernel

/-- 1024 words take one. -/
theorem requests_of_1024_words :
    let i := orderEdge 0x1000 4096
    let s := askingStep false ⟨reset, false⟩ i
    requests false s (requestAndAnswer 1023) = i.ctrl.transfer.tiling.map some ∧
      i.ctrl.transfer.tiling = [⟨0x1000, 1024⟩] := by
  have htiles := requests_tile_iff false [] (orderEdge 0x1000 4096) (requestAndAnswer 1023) rfl rfl
    (by decide) (by decide +kernel)
  exact ⟨(htiles.2 (by decide +kernel)).mpr (by decide), by decide⟩

end P2lDmaMaster

end Gn4124Core
