import Gn4124Core.L2pDma.Backpressure

/-!
# The headers and addresses of an L2P transfer

What comes before the payload of a packet does not depend on the payload, so nothing is
assumed here of the words in the data FIFO or of the times at which they arrive.  `Front`
follows a transfer of which `k` packets are sent: each of them began with the head it has to
have, and the registers are those of packet `k` up to the moment at which the last word of
the packet is sent, when they are those of packet `k + 1`.

The header fields are computed in two states.  `L2P_HEADER` computes them again in every
cycle in which it waits, and a grant that was kept from the packet before finds those of
`L2P_LAST_DATA` (`Loaded`).

`L2P_LAST_DATA` also moves the low address word on, once in every cycle in which the packet
under way is not known to be the last.  `Low k w` says which low words are right for packet
`k`, and `Steady` that this happens once.
-/

namespace Gn4124Core

open Clocked

/-- The headers in a list of words, the one of the packet under way included. -/
def headers (words : List (Bool × Word)) : List Word :=
  (packets words ++ [openPacket words]).filterMap List.head?

namespace L2pDmaPath

/-- What is assumed of every edge of a transfer: no abort, no order in its place, and the
transfer is not done. -/
structure Ongoing (s : L2pDmaPath) (i : L2pDmaPathIn) : Prop where
  abort : i.ctrl.abort = false
  start : s.ldm.fsm.l2pDmaCurrentState = .idle → i.ctrl.startL2p = false
  done : s.ldm.fsm.dmaCtrlDone = false

instance (s : L2pDmaPath) (i : L2pDmaPathIn) : Decidable (Ongoing s i) :=
  decidable_of_iff
    (i.ctrl.abort = false ∧
      (s.ldm.fsm.l2pDmaCurrentState = .idle → i.ctrl.startL2p = false) ∧
      s.ldm.fsm.dmaCtrlDone = false)
    ⟨fun h => ⟨h.1, h.2.1, h.2.2⟩, fun h => ⟨h.abort, h.start, h.done⟩⟩

/-- The last word of a packet is not held back while more than one packet is to follow. -/
def Steady (s : L2pDmaPath) (i : L2pDmaPathIn) : Prop :=
  s.ldm.fsm.l2pDmaCurrentState = .lastData → s.ldm.pktGen.l2pLastPacket = false →
    cL2pMaxPayload.setWidth 30 < s.ldm.pktGen.l2pLenCnt → i.l2pRdy = true

instance (s : L2pDmaPath) (i : L2pDmaPathIn) : Decidable (Steady s i) :=
  inferInstanceAs (Decidable (_ → _ → _ → _))

end L2pDmaPath

namespace WriteTransfer

open L2pDmaPath

variable (gByteSwap : Bool) (t : WriteTransfer) (Low : ℕ → Word → Prop)

/-- The address of the next packet. -/
def nextLow (w : Word) : Word := w + cL2pMaxPayload.setWidth 32 * 4

/-- The low word may move on within a packet. -/
def Drifts : Prop := ∀ k w, Low k w → Low k (nextLow w)

/-- The header of packet `k`. -/
def header (k : ℕ) : Word := writeHeader (t.addrH != 0) (BitVec.ofNat 10 (t.chunk k))

/-- The number of packets. -/
def packetCount : ℕ := (t.len + 31) / 32

theorem head_eq (k : ℕ) (low : Word) :
    t.head k low = t.header k :: ((if t.addrH != 0 then [t.addrH] else []) ++ [low]) := by
  unfold head header
  cases t.addrH != 0 <;> rfl

/-! ## The stages of a transfer -/

/-- A packet that begins as packet `k` has to. -/
def Headed (k : ℕ) (p : List Word) : Prop := ∃ low, Low k low ∧ t.head k low <+: p

/-- The registers of packet `k` before its address words are sent. -/
structure Loaded (k : ℕ) (g : PktGen) : Prop where
  more : 32 * k < t.len
  lenCnt : g.l2pLenCnt.toNat = t.len - 32 * k
  sized : t.Sized k g
  wide : g.l2p64bAddress = (t.addrH != 0)
  low : Low k g.l2pAddressL

/-- The state of packet `k` after its address words. -/
structure Body (k : ℕ) (s : L2pDmaPath) (words : List (Bool × Word)) : Prop where
  more : 32 * k < t.len
  headed : t.Headed Low k (openPacket words)
  dframe : s.ldm.fsm.ldmArbDframe = true
  lenCnt : s.ldm.pktGen.l2pLenCnt.toNat = t.len - 32 * (k + 1)
  wide : s.ldm.pktGen.l2p64bAddress = (t.addrH != 0)

/-- The registers of packet `k` after its address words. -/
def Current (k : ℕ) (g : PktGen) : Prop :=
  g.l2pLastPacket = decide (t.len ≤ 32 * (k + 1)) ∧ Low k g.l2pAddressL

/-- The registers are ready for packet `k + 1`.  They move on once more unless that packet is
the last, so `Low` has to allow it. -/
def Advanced (k : ℕ) (g : PktGen) : Prop :=
  32 * (k + 1) < t.len ∧ t.Sized (k + 1) g ∧ Low (k + 1) g.l2pAddressL ∧
    (g.l2pLastPacket = true ∨ Drifts Low)

/-- What each FSM state says about a transfer of which `k` packets are sent. -/
def AtFront (k : ℕ) (s : L2pDmaPath) (words : List (Bool × Word)) : Prop :=
  let g := s.ldm.pktGen
  let fsm := s.ldm.fsm
  match fsm.l2pDmaCurrentState with
  | .idle =>
      openPacket words = [] ∧
        (fsm.dmaCtrlDone = false → k = 0 ∧ 0 < t.len ∧ g.l2pLenCnt.toNat = t.len ∧
          Low 0 g.l2pAddressL ∧ fsm.ldmArbReq = false ∧ s.arb.gnt.arbLdmGnt = false)
  | .header =>
      openPacket words = [] ∧ 32 * k < t.len ∧ g.l2pLenCnt.toNat = t.len - 32 * k ∧
        Low k g.l2pAddressL ∧ (s.arb.gnt.arbLdmGnt = true → t.Loaded Low k g)
  | .addrH =>
      openPacket words = [t.header k] ∧ (t.addrH != 0) = true ∧ t.Loaded Low k g ∧
        fsm.ldmArbValid = true ∧ fsm.ldmArbDframe = true
  | .addrL =>
      openPacket words = t.header k :: (if t.addrH != 0 then [t.addrH] else []) ∧
        t.Loaded Low k g ∧ fsm.ldmArbValid = true ∧ fsm.ldmArbDframe = true
  | .data | .waitData | .waitRdy => t.Body Low k s words ∧ t.Current Low k g
  | .lastData => t.Body Low k s words ∧ (t.Current Low k g ∨ t.Advanced Low k g)

/-- A transfer of which `k` packets are sent, in the state `s` after the words `words`. -/
structure Front (k : ℕ) (s : L2pDmaPath) (words : List (Bool × Word)) : Prop where
  count : (packets words).length = k
  headed : ∀ j p, (packets words)[j]? = some p → t.Headed Low j p
  done : s.ldm.fsm.dmaCtrlDone = true → t.len ≤ 32 * k ∧ openPacket words = []
  bound : k ≤ t.packetCount
  addrH : s.ldm.pktGen.l2pAddressH = t.addrH
  atFront : t.AtFront Low k s words

variable {gByteSwap t Low} {k : ℕ} {s : L2pDmaPath} {i : L2pDmaPathIn} {words : List (Bool × Word)}

/-! ## One edge -/

theorem Headed.mono {p p' : List Word} (h : t.Headed Low k p) (hp : p <+: p') :
    t.Headed Low k p' := by
  obtain ⟨low, hlow, hhead⟩ := h
  exact ⟨low, hlow, hhead.trans hp⟩

/-- Every packet is headed once the one that ends is. -/
theorem headed_concat {ps : List (List Word)} {p : List Word} (hcount : ps.length = k)
    (hheaded : ∀ j q, ps[j]? = some q → t.Headed Low j q) (h : t.Headed Low k p) (j : ℕ)
    (q : List Word) (hq : (ps ++ [p])[j]? = some q) : t.Headed Low j q := by
  rcases Nat.lt_trichotomy j k with hj | rfl | hj
  · rw [List.getElem?_append_left (by omega)] at hq
    exact hheaded j q hq
  · rw [← hcount, List.getElem?_concat_length] at hq
    rw [← Option.some.inj hq]
    exact h
  · rw [List.getElem?_eq_none (by simp; omega)] at hq
    exact absurd hq (by simp)

variable (words) in
/-- As long as the frame is open no packet is completed, and the one under way only grows. -/
theorem wordsAfter_open (hdframe : (s.ldm.pPktFsm gByteSwap (s.ldmIn i)).ldmArbDframe = true) :
    packets (wordsAfter gByteSwap s i words) = packets words ∧
      openPacket words <+: openPacket (wordsAfter gByteSwap s i words) := by
  cases hvalid : (s.ldm.pPktFsm gByteSwap (s.ldmIn i)).ldmArbValid with
  | false =>
      rw [wordsAfter_of_invalid hvalid]
      exact ⟨rfl, List.prefix_refl _⟩
  | true =>
      rw [wordsAfter_of_valid hvalid, hdframe, packets_more, openPacket_more]
      exact ⟨rfl, List.prefix_append _ _⟩

theorem Front.idle_step (h : t.Front Low k s words) (hgo : Ongoing s i)
    (hstate : s.ldm.fsm.l2pDmaCurrentState = .idle) :
    t.Front Low k (step gByteSwap s i) (wordsAfter gByteSwap s i words) := by
  obtain ⟨hcount, hheaded, -, hbound, haddrH, hat⟩ := h
  simp only [AtFront, hstate] at hat
  obtain ⟨hopen, hwaiting⟩ := hat
  obtain ⟨rfl, hpos, hlen, hlow, hreq, hgnt⟩ := hwaiting hgo.done
  have hregs : (step gByteSwap s i).ldm.pktGen = s.ldm.pktGen := by
    simp [step, L2pDmaMaster.step, L2pDmaMaster.pPktGen, ldmIn, hstate, hgo.start hstate]
  have hdone : (step gByteSwap s i).ldm.fsm.dmaCtrlDone = false := by
    simp [step, L2pDmaMaster.step, L2pDmaMaster.pPktFsm, hstate]
  have hgnt' : (step gByteSwap s i).arb.gnt.arbLdmGnt = false :=
    gnt_released gByteSwap hreq fun hheld => by simp [hgnt] at hheld
  rw [wordsAfter_of_invalid (by simp [L2pDmaMaster.pPktFsm, hstate])]
  refine ⟨hcount, hheaded, by simp [hdone], hbound, by rwa [hregs], ?_⟩
  -- the first word in the data FIFO wakes up the FSM
  cases hempty : s.dataFifo.empty with
  | true =>
      have hidle : (step gByteSwap s i).ldm.fsm.l2pDmaCurrentState = .idle := by
        simp [step, L2pDmaMaster.step, L2pDmaMaster.pPktFsm, ldmIn, hstate, hempty]
      have hreq' : (step gByteSwap s i).ldm.fsm.ldmArbReq = false := by
        simpa [step, L2pDmaMaster.step, L2pDmaMaster.pPktFsm, ldmIn, hstate, hempty] using hreq
      simp only [AtFront, hidle, hregs]
      exact ⟨hopen, fun _ => ⟨trivial, hpos, hlen, hlow, hreq', hgnt'⟩⟩
  | false =>
      have hheader : (step gByteSwap s i).ldm.fsm.l2pDmaCurrentState = .header := by
        simp [step, L2pDmaMaster.step, L2pDmaMaster.pPktFsm, ldmIn, hstate, hempty]
      simp only [AtFront, hheader, hregs, hgnt']
      exact ⟨hopen, by omega, by omega, hlow, by simp⟩

theorem Front.header_step (h : t.Front Low k s words)
    (hgo : Ongoing s i) (hstate : s.ldm.fsm.l2pDmaCurrentState = .header) :
    t.Front Low k (step gByteSwap s i) (wordsAfter gByteSwap s i words) := by
  obtain ⟨hcount, hheaded, -, hbound, haddrH, hat⟩ := h
  simp only [AtFront, hstate] at hat
  obtain ⟨hopen, hmore, hlen, hlow, hgranted⟩ := hat
  have hregs : (step gByteSwap s i).ldm.pktGen =
      { s.ldm.pktGen.loadSize with l2p64bAddress := t.addrH != 0 } := by
    simp [step, L2pDmaMaster.step, L2pDmaMaster.pPktGen, hstate, haddrH]
  have haddrH' : (step gByteSwap s i).ldm.pktGen.l2pAddressH = t.addrH := by simp [hregs, haddrH]
  -- `p_pkt_gen` sizes packet `k` in every cycle of `L2P_HEADER`, before the grant comes
  have hloaded : t.Loaded Low k (step gByteSwap s i).ldm.pktGen := by
    rw [hregs]
    refine ⟨hmore, by simpa using hlen, sized_loadSize hmore hlen, rfl, ?_⟩
    simpa using hlow
  have hdone : (step gByteSwap s i).ldm.fsm.dmaCtrlDone = false := by
    rw [← hgo.done]
    simp only [step, L2pDmaMaster.step, L2pDmaMaster.pPktFsm, hstate]
    split_ifs <;> rfl
  by_cases haccept : s.arb.gnt.arbLdmGnt = true ∧ i.lWrRdy = 0b11#2
  · obtain ⟨hgnt, hrdy⟩ := haccept
    obtain ⟨-, -, ⟨-, hlength, -⟩, h64b, -⟩ := hgranted hgnt
    have hheader : s.ldm.pktGen.sL2pHeader = t.header k := by
      rw [PktGen.sL2pHeader, h64b, hlength, header]
    have hfsm := L2pDmaMaster.header_sends gByteSwap (i := s.ldmIn i) hstate hgnt hrdy
    rw [h64b, hheader] at hfsm
    have hfsm' : (step gByteSwap s i).ldm.fsm = s.ldm.pPktFsm gByteSwap (s.ldmIn i) := rfl
    rw [wordsAfter_of_valid (by rw [hfsm]), hfsm]
    refine ⟨by rwa [packets_more], by rwa [packets_more], by simp [hdone], hbound, haddrH', ?_⟩
    by_cases hb : (t.addrH != 0) = true
    · have hstate' : (step gByteSwap s i).ldm.fsm.l2pDmaCurrentState = .addrH := by
        rw [hfsm', hfsm]
        exact if_pos hb
      simp only [AtFront, hstate', openPacket_more, hopen]
      exact ⟨rfl, hb, hloaded, by rw [hfsm', hfsm], by rw [hfsm', hfsm]⟩
    · have hstate' : (step gByteSwap s i).ldm.fsm.l2pDmaCurrentState = .addrL := by
        rw [hfsm', hfsm]
        exact if_neg hb
      simp only [AtFront, hstate', openPacket_more, hopen]
      exact ⟨by rw [if_neg hb]; rfl, hloaded, by rw [hfsm', hfsm], by rw [hfsm', hfsm]⟩
  · have hfsm := L2pDmaMaster.header_waits gByteSwap (i := s.ldmIn i) hstate haccept
    have hstate' : (step gByteSwap s i).ldm.fsm.l2pDmaCurrentState = .header := by
      simp [step, L2pDmaMaster.step, hfsm, hstate]
    rw [wordsAfter_of_invalid (by rw [hfsm])]
    refine ⟨hcount, hheaded, by simp [hdone], hbound, haddrH', ?_⟩
    simp only [AtFront, hstate']
    exact ⟨hopen, hmore, hloaded.lenCnt, hloaded.low, fun _ => hloaded⟩

theorem Front.addrH_step (h : t.Front Low k s words) (hgo : Ongoing s i)
    (hstate : s.ldm.fsm.l2pDmaCurrentState = .addrH) :
    t.Front Low k (step gByteSwap s i) (wordsAfter gByteSwap s i words) := by
  obtain ⟨hcount, hheaded, -, hbound, haddrH, hat⟩ := h
  simp only [AtFront, hstate] at hat
  obtain ⟨hopen, hwide, hloaded, hvalid, hdframe⟩ := hat
  have hregs : (step gByteSwap s i).ldm.pktGen = s.ldm.pktGen := by
    simp [step, L2pDmaMaster.step, L2pDmaMaster.pPktGen, hstate]
  have hfsm := L2pDmaMaster.addrH_sends gByteSwap (i := s.ldmIn i) hstate
  rw [haddrH] at hfsm
  have hfsm' : (step gByteSwap s i).ldm.fsm = s.ldm.pPktFsm gByteSwap (s.ldmIn i) := rfl
  rw [wordsAfter_of_valid (by rw [hfsm]; exact hvalid), hfsm]
  simp only [hdframe]
  refine ⟨by rwa [packets_more], by rwa [packets_more], by simp [hfsm', hfsm, hgo.done], hbound,
    by rwa [hregs], ?_⟩
  simp only [AtFront, hfsm', hfsm, hregs, openPacket_more, hopen, hwide, if_true]
  exact ⟨rfl, hloaded, hvalid, hdframe⟩

theorem Front.addrL_step (h : t.Front Low k s words) (hgo : Ongoing s i)
    (hstate : s.ldm.fsm.l2pDmaCurrentState = .addrL) :
    t.Front Low k (step gByteSwap s i) (wordsAfter gByteSwap s i words) := by
  obtain ⟨hcount, hheaded, -, hbound, haddrH, hat⟩ := h
  simp only [AtFront, hstate] at hat
  obtain ⟨hopen, hloaded, hvalid, hdframe⟩ := hat
  obtain ⟨hmore, hlen, ⟨-, -, hlast⟩, hwide, hlow⟩ := hloaded
  obtain ⟨lenCnt, hregs, hlen'⟩ := lenCnt_addrL (x := s.ldmIn i) hstate hmore hlen hlast
  have hregs' : (step gByteSwap s i).ldm.pktGen = s.ldm.pPktGen (s.ldmIn i) := rfl
  rw [← hregs'] at hregs
  have hfsm : s.ldm.pPktFsm gByteSwap (s.ldmIn i) =
      { s.ldm.fsm with
        ldmArbData := s.ldm.pktGen.l2pAddressL
        dataFifoRd := if s.ldm.pktGen.l2pDataCnt ≤ 1 then false else s.ldm.fsm.dataFifoRd
        l2pDmaCurrentState := if s.ldm.pktGen.l2pDataCnt ≤ 1 then .lastData else .data } := by
    simp only [L2pDmaMaster.pPktFsm, hstate]
  have hfsm' : (step gByteSwap s i).ldm.fsm = s.ldm.pPktFsm gByteSwap (s.ldmIn i) := rfl
  rw [wordsAfter_of_valid (by rw [hfsm]; exact hvalid), hfsm]
  simp only [hdframe]
  refine ⟨by rwa [packets_more], by rwa [packets_more], by simp [hfsm', hfsm, hgo.done], hbound,
    by rwa [hregs], ?_⟩
  have hbody : t.Body Low k (step gByteSwap s i)
      (words ++ [(true, s.ldm.pktGen.l2pAddressL)]) := by
    refine ⟨hmore, ⟨s.ldm.pktGen.l2pAddressL, hlow, ?_⟩, by simp [hfsm', hfsm, hdframe],
      by simpa [hregs] using hlen', by simpa [hregs] using hwide⟩
    rw [openPacket_more, hopen, head_eq, List.cons_append]
  have hcurrent : t.Current Low k (step gByteSwap s i).ldm.pktGen := by
    rw [hregs]
    exact ⟨hlast, hlow⟩
  -- a packet of one word has no other word than the last
  by_cases hone : s.ldm.pktGen.l2pDataCnt ≤ 1
  · have hstate' : (step gByteSwap s i).ldm.fsm.l2pDmaCurrentState = .lastData := by
      simp only [hfsm', hfsm, hone, if_true]
    simp only [AtFront, hstate']
    exact ⟨hbody, .inl hcurrent⟩
  · have hstate' : (step gByteSwap s i).ldm.fsm.l2pDmaCurrentState = .data := by
      simp only [hfsm', hfsm, hone, if_false]
    simp only [AtFront, hstate']
    exact ⟨hbody, hcurrent⟩

/-- The states between the address words and the last word of a packet. -/
def InBody (state : L2pDmaState) : Prop :=
  state = .data ∨ state = .waitData ∨ state = .waitRdy

variable (gByteSwap) in
/-- These states leave everything about the packet as it is but the count of its words. -/
theorem inBody_step {m : L2pDmaMaster} {x : L2pDmaIn} (habort : x.ctrl.abort = false)
    (hstate : InBody m.fsm.l2pDmaCurrentState) :
    let fsm := m.pPktFsm gByteSwap x
    (InBody fsm.l2pDmaCurrentState ∨ fsm.l2pDmaCurrentState = .lastData) ∧
      fsm.ldmArbDframe = m.fsm.ldmArbDframe ∧ fsm.dmaCtrlDone = m.fsm.dmaCtrlDone ∧
      ∃ cnt, m.pPktGen x = { m.pktGen with l2pDataCnt := cnt } := by
  unfold InBody at hstate ⊢
  rcases hstate with hstate | hstate | hstate
  · refine ⟨?_, ?_, ?_, if m.dataFifoValid then m.pktGen.l2pDataCnt - 1 else m.pktGen.l2pDataCnt, ?_⟩
    · simp only [L2pDmaMaster.pPktFsm, hstate, habort]
      split_ifs <;> simp_all
    · simp only [L2pDmaMaster.pPktFsm, hstate, habort]
      split_ifs <;> simp_all
    · simp only [L2pDmaMaster.pPktFsm, hstate, habort]
      split_ifs <;> simp_all
    · simp only [L2pDmaMaster.pPktGen, hstate]
      split_ifs <;> rfl
  · refine ⟨?_, ?_, ?_, m.pktGen.l2pDataCnt, by simp only [L2pDmaMaster.pPktGen, hstate]⟩
    all_goals
      simp only [L2pDmaMaster.pPktFsm, hstate]
      split_ifs <;> simp_all
  · refine ⟨?_, ?_, ?_, m.pktGen.l2pDataCnt, by simp only [L2pDmaMaster.pPktGen, hstate]⟩
    all_goals
      simp only [L2pDmaMaster.pPktFsm, hstate]
      split_ifs <;> simp_all

theorem Front.body_step (h : t.Front Low k s words) (hgo : Ongoing s i)
    (hstate : InBody s.ldm.fsm.l2pDmaCurrentState) :
    t.Front Low k (step gByteSwap s i) (wordsAfter gByteSwap s i words) := by
  obtain ⟨hcount, hheaded, -, hbound, haddrH, hat⟩ := h
  have hat' : t.Body Low k s words ∧ t.Current Low k s.ldm.pktGen := by
    rcases hstate with hstate | hstate | hstate <;> simpa only [AtFront, hstate] using hat
  obtain ⟨⟨hmore, hopen, hdframe, hlen, hwide⟩, hcurrent⟩ := hat'
  obtain ⟨hnext, hdframe', hdone', cnt, hregs⟩ :=
    inBody_step gByteSwap (x := s.ldmIn i) hgo.abort hstate
  replace hregs : (step gByteSwap s i).ldm.pktGen = { s.ldm.pktGen with l2pDataCnt := cnt } := hregs
  rw [hdframe] at hdframe'
  -- the frame stays open, so the packet under way keeps its head
  obtain ⟨hpackets, hgrows⟩ := wordsAfter_open words hdframe'
  have hdone : (step gByteSwap s i).ldm.fsm.dmaCtrlDone = false := hdone'.trans hgo.done
  have hbody : t.Body Low k (step gByteSwap s i) (wordsAfter gByteSwap s i words) :=
    ⟨hmore, hopen.mono hgrows, hdframe', by simpa [hregs] using hlen, by simpa [hregs] using hwide⟩
  have hcurrent' : t.Current Low k (step gByteSwap s i).ldm.pktGen := by
    rw [hregs]
    exact hcurrent
  refine ⟨by rwa [hpackets], by rwa [hpackets], by simp [hdone], hbound, by rwa [hregs], ?_⟩
  have hfsm : (step gByteSwap s i).ldm.fsm = s.ldm.pPktFsm gByteSwap (s.ldmIn i) := rfl
  rw [← hfsm] at hnext
  rcases hnext with (hdata | hwait | hrdy) | hlast
  · simp only [AtFront, hdata]
    exact ⟨hbody, hcurrent'⟩
  · simp only [AtFront, hwait]
    exact ⟨hbody, hcurrent'⟩
  · simp only [AtFront, hrdy]
    exact ⟨hbody, hcurrent'⟩
  · simp only [AtFront, hlast]
    exact ⟨hbody, .inl hcurrent'⟩

/-- The registers after one cycle of `L2P_LAST_DATA`: nothing is left to send, or they are ready
for the next packet. -/
theorem regs_lastData (hnext : ∀ k w, Low k w → Low (k + 1) (nextLow w))
    (hsteady : Steady s i ∨ Drifts Low)
    (hstate : s.ldm.fsm.l2pDmaCurrentState = .lastData)
    (hlen : s.ldm.pktGen.l2pLenCnt.toNat = t.len - 32 * (k + 1))
    (hregs : t.Current Low k s.ldm.pktGen ∨ t.Advanced Low k s.ldm.pktGen) :
    (t.len ≤ 32 * (k + 1) ∧ t.Current Low k (s.ldm.pPktGen (s.ldmIn i))) ∨
      32 * (k + 1) < t.len ∧ t.Sized (k + 1) (s.ldm.pPktGen (s.ldmIn i)) ∧
        Low (k + 1) (s.ldm.pPktGen (s.ldmIn i)).l2pAddressL ∧
        (i.l2pRdy = false → t.Advanced Low k (s.ldm.pPktGen (s.ldmIn i))) := by
  simp only [L2pDmaMaster.pPktGen, hstate]
  cases hfinal : s.ldm.pktGen.l2pLastPacket with
  | true =>
      -- `l2p_last_packet` is about this packet, or in a stall already about the next
      rw [if_pos rfl]
      rcases hregs with hcurrent | hadvanced
      · refine .inl ⟨?_, hcurrent⟩
        have hlast := hcurrent.1
        rw [hfinal] at hlast
        exact of_decide_eq_true hlast.symm
      · exact .inr ⟨hadvanced.1, hadvanced.2.1, hadvanced.2.2.1, fun _ => hadvanced⟩
  | false =>
      rw [if_neg (by decide)]
      right
      have hmore : 32 * (k + 1) < t.len := by
        rcases hregs with hcurrent | hadvanced
        · have hlast := hcurrent.1
          rw [hfinal] at hlast
          exact Nat.lt_of_not_le (of_decide_eq_false hlast.symm)
        · exact hadvanced.1
      have hsized := sized_loadSize hmore hlen
      have hlow : Low (k + 1) (nextLow s.ldm.pktGen.l2pAddressL) := by
        rcases hregs with hcurrent | ⟨-, -, hlow, hlast | hagain⟩
        · exact hnext k _ hcurrent.2
        · rw [hfinal] at hlast
          exact absurd hlast (by decide)
        · exact hagain _ _ hlow
      refine ⟨hmore, hsized, hlow, fun hstall => ⟨hmore, hsized, hlow, ?_⟩⟩
      rcases hsteady with hsteady | hagain
      · left
        -- a stall is allowed only before the last packet
        have hle : ¬ cL2pMaxPayload.setWidth 30 < s.ldm.pktGen.l2pLenCnt := by
          intro hlong
          have hready := hsteady hstate hfinal hlong
          rw [hstall] at hready
          exact absurd hready (by decide)
        have hmax : (cL2pMaxPayload.setWidth 30).toNat = 32 := rfl
        rw [BitVec.lt_def, hmax, hlen] at hle
        exact hsized.2.2.trans (decide_eq_true (by omega))
      · exact .inr hagain

/-- In `L2P_LAST_DATA` the high address, the length and the choice of the header stay. -/
theorem pPktGen_lastData (hstate : s.ldm.fsm.l2pDmaCurrentState = .lastData) :
    (s.ldm.pPktGen (s.ldmIn i)).l2pAddressH = s.ldm.pktGen.l2pAddressH ∧
      (s.ldm.pPktGen (s.ldmIn i)).l2pLenCnt = s.ldm.pktGen.l2pLenCnt ∧
      (s.ldm.pPktGen (s.ldmIn i)).l2p64bAddress = s.ldm.pktGen.l2p64bAddress := by
  simp only [L2pDmaMaster.pPktGen, hstate]
  split_ifs <;> simp

theorem Front.lastData_step (h : t.Front Low k s words) (hgo : Ongoing s i)
    (hnext : ∀ k w, Low k w → Low (k + 1) (nextLow w))
    (hsteady : Steady s i ∨ Drifts Low)
    (hstate : s.ldm.fsm.l2pDmaCurrentState = .lastData) :
    ∃ k', t.Front Low k' (step gByteSwap s i) (wordsAfter gByteSwap s i words) := by
  obtain ⟨hcount, hheaded, -, hbound, haddrH, hat⟩ := h
  simp only [AtFront, hstate] at hat
  obtain ⟨⟨hmore, hopen, hdframe, hlen, hwide⟩, hat⟩ := hat
  have hregs := regs_lastData hnext hsteady hstate hlen hat
  have hregs' : (step gByteSwap s i).ldm.pktGen = s.ldm.pPktGen (s.ldmIn i) := rfl
  obtain ⟨haddrH', hlen', hwide'⟩ := pPktGen_lastData (i := i) hstate
  rw [haddrH] at haddrH'
  rw [← BitVec.toNat_inj, hlen] at hlen'
  rw [hwide] at hwide'
  have hfsm' : (step gByteSwap s i).ldm.fsm = s.ldm.pPktFsm gByteSwap (s.ldmIn i) := rfl
  rw [← hregs'] at hregs
  cases hrdy : i.l2pRdy with
  | false =>
      have hfsm := L2pDmaMaster.lastData_waits gByteSwap (i := s.ldmIn i) hstate hrdy
      have hstate' : (step gByteSwap s i).ldm.fsm.l2pDmaCurrentState = .lastData := by
        rw [hfsm', hfsm]
        exact hstate
      have hdone : (step gByteSwap s i).ldm.fsm.dmaCtrlDone = false := by
        rw [hfsm', hfsm]
        exact hgo.done
      rw [wordsAfter_of_invalid (by rw [hfsm])]
      refine ⟨k, hcount, hheaded, by simp [hdone], hbound, haddrH', ?_⟩
      simp only [AtFront, hstate']
      refine ⟨⟨hmore, hopen, by rw [hfsm', hfsm]; exact hdframe, hlen', hwide'⟩, ?_⟩
      rcases hregs with ⟨-, hcurrent⟩ | ⟨-, -, -, hadvanced⟩
      · exact .inl hcurrent
      · exact .inr (hadvanced hrdy)
  | true =>
      have hpos := lenCnt_pos_iff hlen
      have hfsm : s.ldm.pPktFsm gByteSwap (s.ldmIn i) =
          { s.ldm.fsm with
            ldmArbData := s.ldm.dataWord gByteSwap (s.ldmIn i)
            ldmArbValid := true
            ldmArbDframe := false
            ldmArbReq := if 32 * (k + 1) < t.len then true else s.ldm.fsm.ldmArbReq
            dmaCtrlDone := if 32 * (k + 1) < t.len then s.ldm.fsm.dmaCtrlDone else true
            l2pDmaCurrentState := if 32 * (k + 1) < t.len then .header else .idle } := by
        rw [L2pDmaMaster.lastData_sends gByteSwap (i := s.ldmIn i) hstate hrdy]
        simp only [hpos]
      have hsent : t.Headed Low k (openPacket words ++ [s.ldm.dataWord gByteSwap (s.ldmIn i)]) :=
        hopen.mono (List.prefix_append _ _)
      -- the packet that ends here is packet `k`, and those before have not changed
      have hheaded' := headed_concat hcount hheaded hsent
      have hbound' : k + 1 ≤ t.packetCount := by
        unfold packetCount
        omega
      rw [wordsAfter_of_valid (by rw [hfsm]), hfsm]
      refine ⟨k + 1, by simp [hcount], by rwa [packets_last], ?_, hbound', haddrH', ?_⟩
      · rw [hfsm', hfsm, openPacket_last]
        intro hdone
        refine ⟨?_, rfl⟩
        by_contra hlong
        simp [Nat.lt_of_not_le hlong, hgo.done] at hdone
      · rcases hregs with ⟨hle, hcurrent⟩ | ⟨hlt, hsized, hlow, -⟩
        · have hstate' : (step gByteSwap s i).ldm.fsm.l2pDmaCurrentState = .idle := by
            rw [hfsm', hfsm]
            exact if_neg (by omega)
          have hdone : (step gByteSwap s i).ldm.fsm.dmaCtrlDone = true := by
            rw [hfsm', hfsm]
            exact if_neg (by omega)
          simp only [AtFront, hstate', openPacket_last]
          exact ⟨trivial, fun hnot => by simp [hdone] at hnot⟩
        · have hstate' : (step gByteSwap s i).ldm.fsm.l2pDmaCurrentState = .header := by
            rw [hfsm', hfsm]
            exact if_pos hlt
          simp only [AtFront, hstate', openPacket_last]
          exact ⟨trivial, hlt, hlen', hlow, fun _ => ⟨hlt, hlen', hsized, hwide', hlow⟩⟩

/-- Every edge keeps the front, or completes one packet. -/
theorem Front.step (h : t.Front Low k s words) (hgo : Ongoing s i)
    (hnext : ∀ k w, Low k w → Low (k + 1) (nextLow w))
    (hsteady : Steady s i ∨ Drifts Low) :
    ∃ k', t.Front Low k' (L2pDmaPath.step gByteSwap s i) (wordsAfter gByteSwap s i words) := by
  cases hstate : s.ldm.fsm.l2pDmaCurrentState with
  | idle => exact ⟨k, h.idle_step hgo hstate⟩
  | header => exact ⟨k, h.header_step hgo hstate⟩
  | addrH => exact ⟨k, h.addrH_step hgo hstate⟩
  | addrL => exact ⟨k, h.addrL_step hgo hstate⟩
  | data => exact ⟨k, h.body_step hgo (.inl hstate)⟩
  | waitData => exact ⟨k, h.body_step hgo (.inr (.inl hstate))⟩
  | waitRdy => exact ⟨k, h.body_step hgo (.inr (.inr hstate))⟩
  | lastData => exact h.lastData_step hgo hnext hsteady hstate

/-! ## A whole transfer -/

theorem Front.run {is : List L2pDmaPathIn} (h : t.Front Low 0 s [])
    (hnext : ∀ k w, Low k w → Low (k + 1) (nextLow w))
    (hgo : Always (L2pDmaPath.step gByteSwap) Ongoing s is)
    (hsteady : Always (L2pDmaPath.step gByteSwap) Steady s is ∨ Drifts Low) :
    ∃ k, t.Front Low k (Clocked.run (L2pDmaPath.step gByteSwap) s is) (emitted gByteSwap s is) := by
  have hedges : Always (L2pDmaPath.step gByteSwap)
      (fun s i => Ongoing s i ∧ (Steady s i ∨ Drifts Low)) s is := by
    rcases hsteady with hsteady | hdrifts
    · exact (hgo.and hsteady).mono fun _ _ hi => ⟨hi.1, .inl hi.2⟩
    · exact hgo.mono fun _ _ hi => ⟨hi, .inr hdrifts⟩
  refine invariant_log (motive := fun s words => ∃ k, t.Front Low k s words) ?_ hedges ⟨0, h⟩
  intro s i words hfront hi
  obtain ⟨k, hk⟩ := hfront
  exact hk.step hi.1 hnext hi.2

/-- At the end of a transfer all the packets are sent. -/
theorem Front.count_of_done (h : t.Front Low k s words) (hdone : s.ldm.fsm.dmaCtrlDone = true) :
    k = t.packetCount := by
  refine Nat.le_antisymm h.bound ?_
  have hle := (h.done hdone).1
  unfold packetCount
  omega

/-! ## The headers of a transfer -/

variable (t) in
/-- All the headers of the transfer. -/
def allHeaders : List Word := (List.range t.packetCount).map t.header

theorem Headed.head? {p : List Word} (h : t.Headed Low k p) : p.head? = some (t.header k) := by
  obtain ⟨low, -, rest, rfl⟩ := h
  rw [head_eq]
  rfl

theorem Front.openPacket_head? (h : t.Front Low k s words) :
    openPacket words = [] ∨ 32 * k < t.len ∧ (openPacket words).head? = some (t.header k) := by
  have hat := h.atFront
  cases hstate : s.ldm.fsm.l2pDmaCurrentState with
  | idle | header =>
      simp only [AtFront, hstate] at hat
      exact .inl hat.1
  | addrH =>
      simp only [AtFront, hstate] at hat
      exact .inr ⟨hat.2.2.1.more, by rw [hat.1]; rfl⟩
  | addrL =>
      simp only [AtFront, hstate] at hat
      exact .inr ⟨hat.2.1.more, by rw [hat.1]; rfl⟩
  | data | waitData | waitRdy | lastData =>
      simp only [AtFront, hstate] at hat
      exact .inr ⟨hat.1.more, hat.1.headed.head?⟩

theorem map_packets {β : Type*} {ps : List (List Word)} {g : List Word → β} {f : ℕ → β}
    (h : ∀ j p, ps[j]? = some p → g p = f j) : ps.map g = (List.range ps.length).map f := by
  apply List.ext_getElem?
  intro j
  rw [List.getElem?_map, List.getElem?_map]
  rcases Nat.lt_or_ge j ps.length with hj | hj
  · rw [List.getElem?_range hj, List.getElem?_eq_getElem hj]
    simpa using h j _ (List.getElem?_eq_getElem hj)
  · rw [List.getElem?_eq_none hj, List.getElem?_eq_none (by simpa using hj)]
    rfl

/-- The headers so far are the first ones of the transfer, and all of them at its end. -/
theorem Front.headers (h : t.Front Low k s words) :
    Gn4124Core.headers words <+: t.allHeaders ∧
      (s.ldm.fsm.dmaCtrlDone = true → Gn4124Core.headers words = t.allHeaders) := by
  have hsent : (packets words).filterMap List.head? = (List.range k).map t.header := by
    have hheads : (packets words).map List.head? = (List.range k).map (some ∘ t.header) := by
      rw [← h.count]
      exact map_packets fun j p hp => (h.headed j p hp).head?
    have hmap : (packets words).filterMap List.head? =
        ((packets words).map List.head?).filterMap id := by
      rw [List.filterMap_map, Function.id_comp]
    rw [hmap, hheads, List.filterMap_map, Function.id_comp, List.filterMap_eq_map]
  have hfirst : ∀ m ≤ t.packetCount, (List.range m).map t.header <+: t.allHeaders := by
    intro m hm
    have hrange : List.range m = (List.range t.packetCount).take m := by
      rw [List.take_range, Nat.min_eq_left hm]
    rw [hrange]
    exact (List.take_prefix _ _).map _
  rw [Gn4124Core.headers, List.filterMap_append, hsent]
  refine ⟨?_, fun hdone => ?_⟩
  · -- the packet under way is one more, if its header is sent
    rcases h.openPacket_head? with hnone | ⟨hmore, hopen⟩
    · have hempty : [([] : List Word)].filterMap List.head? = [] := rfl
      rw [hnone, hempty, List.append_nil]
      exact hfirst k h.bound
    · have hnext : (List.range k).map t.header ++ [t.header k] =
          (List.range (k + 1)).map t.header := by
        rw [List.range_succ, List.map_append, List.map_singleton]
      rw [List.filterMap_cons, hopen]
      simp only [List.filterMap_nil]
      rw [hnext]
      apply hfirst
      unfold packetCount
      omega
  · rw [(h.done hdone).2, h.count_of_done hdone]
    exact List.append_nil _

end WriteTransfer

/-! ## The header fields -/

/-- The length field of a header. -/
def lengthField (header : Word) : ℕ := (header.extractLsb' 0 10).toNat

/-- The last byte enables of a header. -/
def lbeField (header : Word) : BitVec 4 := header.extractLsb' 20 4

/-- The lengths of the packets of `n` words: full ones, and at the end what is left. -/
def packetLengths (n : ℕ) : List ℕ :=
  let k := (n + 31) / 32
  List.replicate (k - 1) 32 ++ [n - 32 * (k - 1)]

theorem lbeField_writeHeader (b : Bool) (length : BitVec 10) :
    lbeField (writeHeader b length) = if length = 1 then 0b0000#4 else 0b1111#4 := by
  unfold lbeField writeHeader
  rw [BitVec.extractLsb'_append_eq_of_le (by omega),
    BitVec.extractLsb'_append_eq_of_le (by omega),
    BitVec.extractLsb'_append_eq_of_le (by omega),
    BitVec.extractLsb'_append_eq_of_le (by omega),
    BitVec.extractLsb'_append_eq_of_le (by omega)]
  exact BitVec.extractLsb'_append_eq_right

theorem getLsbD_writeHeader (b : Bool) (length : BitVec 10) :
    (writeHeader b length).getLsbD 24 = b := by
  have htype := congrArg (fun v => BitVec.getLsbD v 0) (writeHeader_type b length)
  simp only [BitVec.getLsbD_extractLsb'] at htype
  cases b <;> simpa using htype

namespace WriteTransfer

variable {t : WriteTransfer}

theorem lengthField_header (k : ℕ) : lengthField (t.header k) = t.chunk k := by
  have hchunk : t.chunk k ≤ 32 := Nat.min_le_left _ _
  rw [lengthField, header, writeHeader_length, BitVec.toNat_ofNat]
  omega

/-- The chunks of the packets are what the transfer is split into. -/
theorem lengths_allHeaders (hpos : 0 < t.len) :
    t.allHeaders.map lengthField = packetLengths t.len := by
  obtain ⟨m, hm⟩ : ∃ m, t.packetCount = m + 1 := ⟨t.packetCount - 1, by unfold packetCount; omega⟩
  have hcount : (t.len + 31) / 32 = m + 1 := hm
  have hlengths : ∀ k, (lengthField ∘ t.header) k = t.chunk k := lengthField_header
  have hfull : (List.range m).map t.chunk = List.replicate m 32 := by
    rw [List.eq_replicate_iff]
    refine ⟨by simp, fun n hn => ?_⟩
    obtain ⟨k, hk, rfl⟩ := List.mem_map.mp hn
    have hlt := List.mem_range.mp hk
    unfold chunk
    omega
  have hlast : t.chunk m = t.len - 32 * m := by
    unfold chunk
    omega
  rw [allHeaders, List.map_map, funext hlengths, hm, List.range_succ, List.map_append, hfull,
    List.map_singleton, hlast, packetLengths, hcount]
  rfl

end WriteTransfer

namespace L2pDmaPath

open WriteTransfer

variable {gByteSwap : Bool} {s : L2pDmaPath} {i : L2pDmaPathIn} {Low : ℕ → Word → Prop}

/-- A start order puts the master before the first packet. -/
theorem Settled.front (h : s.Settled) (hidle : s.ldm.fsm.l2pDmaCurrentState = .idle)
    (hempty : s.dataFifo.ready = []) (hstart : i.ctrl.startL2p = true) {ws : List Word}
    (hlen : ws.length = (i.ctrl.len.extractLsb' 2 30).toNat) (hpos : 0 < ws.length)
    (hlow : Low 0 i.ctrl.hostAddrL) :
    (i.ctrl.writeTransfer ws).Front Low 0 (L2pDmaPath.step gByteSwap s i) [] := by
  have hshape := h.shape
  rw [L2pDmaMaster.Shape, hidle] at hshape
  have hnone : s.dataFifo.empty = true := by rw [AsyncFifo.empty, hempty, List.isEmpty_nil]
  have hregs : (L2pDmaPath.step gByteSwap s i).ldm.pktGen =
      { s.ldm.pktGen with
        l2pLenCnt := i.ctrl.len.extractLsb' 2 30
        l2pAddressH := i.ctrl.hostAddrH
        l2pAddressL := i.ctrl.hostAddrL
        l2pByteSwap := i.ctrl.byteSwap } := by
    simp [L2pDmaPath.step, L2pDmaMaster.step, L2pDmaMaster.pPktGen, ldmIn, hidle, hstart]
  have hdone : (L2pDmaPath.step gByteSwap s i).ldm.fsm.dmaCtrlDone = false := by
    simp [L2pDmaPath.step, L2pDmaMaster.step, L2pDmaMaster.pPktFsm, hidle]
  have hstate : (L2pDmaPath.step gByteSwap s i).ldm.fsm.l2pDmaCurrentState = .idle := by
    simp [L2pDmaPath.step, L2pDmaMaster.step, L2pDmaMaster.pPktFsm, ldmIn, hidle, hnone]
  have hreq : (L2pDmaPath.step gByteSwap s i).ldm.fsm.ldmArbReq = false := by
    simpa [L2pDmaPath.step, L2pDmaMaster.step, L2pDmaMaster.pPktFsm, ldmIn, hidle, hnone] using hshape.2
  refine ⟨rfl, by simp, by simp [hdone], Nat.zero_le _, by rw [hregs]; rfl, ?_⟩
  simp only [AtFront, hstate, hregs]
  exact ⟨rfl, fun _ => ⟨trivial, hpos, hlen.symm, hlow, hreq, h.gnt_of_idle hidle⟩⟩

/-- **The headers of an L2P transfer.**  Take an order of `n` words in any idle state that can
be reached from reset without an abort, with the data FIFO empty, and any run up to its end
with no abort and no other order.  The length fields sent so far are the first ones of the
packets that `n` words are split into, and all of them at the end of the transfer.  Bit 24 of
a header tells whether the host address has a high word, and the last byte enables are those
of a length of one or of more. -/
theorem headers_split (gByteSwap : Bool) (addrFifoDin : Word) (dataFifoValid : Bool) (q : Word)
    (ws : List Word) (hs : List L2pDmaPathIn) (i : L2pDmaPathIn) (is : List L2pDmaPathIn) :
    let s := run (step gByteSwap) (reset addrFifoDin dataFifoValid q ws) hs
    let n := (i.ctrl.len.extractLsb' 2 30).toNat
    let s' := run (step gByteSwap) (step gByteSwap s i) is
    let sent := headers (emitted gByteSwap (step gByteSwap s i) is)
    Always (step gByteSwap) (fun _ i => i.ctrl.abort = false)
      (reset addrFifoDin dataFifoValid q ws) hs →
    s.ldm.fsm.l2pDmaCurrentState = .idle → s.dataFifo.ready = [] →
    i.ctrl.startL2p = true → 1 ≤ n →
    Always (step gByteSwap) Ongoing (step gByteSwap s i) is →
    sent.map lengthField <+: packetLengths n ∧
      (s'.ldm.fsm.dmaCtrlDone = true → sent.map lengthField = packetLengths n) ∧
      ∀ header ∈ sent, (header.getLsbD 24 = true ↔ i.ctrl.hostAddrH ≠ 0) ∧
        lbeField header = if lengthField header = 1 then 0b0000#4 else 0b1111#4 := by
  intro s n s' sent hquiet hidle hempty hstart hpos hgo
  have hsettled : s.Settled :=
    invariant_run (fun _ _ h habort => h.step habort) hquiet
      (reset_settled addrFifoDin dataFifoValid q ws)
  -- the payload is of no concern
  let t := i.ctrl.writeTransfer (List.replicate n 0)
  have hlen : t.len = n := List.length_replicate
  have hfront : t.Front (fun _ _ => True) 0 (step gByteSwap s i) [] :=
    hsettled.front hidle hempty hstart hlen (by rw [List.length_replicate]; exact hpos) trivial
  obtain ⟨k, hk⟩ := hfront.run (fun _ _ _ => trivial) hgo (.inr fun _ _ _ => trivial)
  obtain ⟨hfirst, hall⟩ := hk.headers
  have hlengths : t.allHeaders.map lengthField = packetLengths n := by
    rw [lengths_allHeaders (by omega), hlen]
  refine ⟨?_, fun hdone => ?_, fun header hmem => ?_⟩
  · rw [← hlengths]
    exact hfirst.map lengthField
  · rw [← hlengths, ← hall hdone]
  · obtain ⟨j, -, rfl⟩ := List.mem_map.mp (hfirst.subset hmem)
    refine ⟨?_, ?_⟩
    · rw [WriteTransfer.header, getLsbD_writeHeader, bne_iff_ne]
      rfl
    · have hone : BitVec.ofNat 10 (t.chunk j) = 1 ↔ lengthField (t.header j) = 1 := by
        rw [lengthField, WriteTransfer.header, writeHeader_length, BitVec.toNat_eq]
        rfl
      rw [WriteTransfer.header, lbeField_writeHeader]
      simp only [hone]
      rfl

/-- Two packets, with a stall before the last word of the first. -/
theorem headers_split_two :
    let s := step false (reset 0 false 0 (List.replicate 33 7)) (orderEdge 0x1000 132)
    let is := (List.replicate 36 true ++ [false] ++ List.replicate 4 true).map dataEdge
    (headers (emitted false s is)).map lengthField = [32, 1] :=
  (headers_split false 0 false 0 (List.replicate 33 7) [] (orderEdge 0x1000 132)
    ((List.replicate 36 true ++ [false] ++ List.replicate 4 true).map dataEdge)
    trivial rfl rfl rfl (by decide) (by decide +kernel)).2.1 (by decide +kernel)

end L2pDmaPath

end Gn4124Core
