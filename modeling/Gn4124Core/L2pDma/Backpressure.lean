import Gn4124Core.L2pDma.Payload

/-!
# L2P transfers under back-pressure

The steps of a transfer, one for each FSM state, and what they add up to over a run: if no stall
comes in `L2P_DATA` with more than two words of the packet to go, every packet has the payload it
announces, and all the payloads together are the words of the data FIFO.  A stall at another time
loses a word (`stall_loses_word`).

The invariant of a transfer is `WriteTransfer.Stage`, of the state together with the words that
were presented so far.  Its case for each FSM state says how many packets are complete, which
word of the open one comes next, and what the output of the data FIFO shows meanwhile:

* `Stage.idle_step`, `Stage.header_step`, `Stage.addrH_step` and `Stage.addrL_step` open a
  packet.  The grant is as the FSM expects, since `Settled.gnt_of_idle` excludes that of an
  earlier packet;
* `Stage.data_step` and `Stage.waitRdy_step` send its words.  The condition on stalls (`Smooth`)
  is used in the first of them only: a word that is at the output while the next one is popped
  must be sent;
* `Stage.lastData_step` closes the packet.  The FSM may stay in `L2P_LAST_DATA`, and computes the
  size of the next packet again each time, which changes nothing (`size_in_lastData`).

`Stage.step` collects these, `Stage.run` follows a run, and `Stage.survives` reads off what is
claimed of the words sent.  The header words are left to `L2pDma/Headers`.
-/

namespace Gn4124Core

open Clocked

namespace L2pDmaPath

/-- What is assumed of every edge after the order.  No word is written to the data FIFO
later on, so that all of them are there at every header if they are at the first. -/
structure Calm (s : L2pDmaPath) (i : L2pDmaPathIn) : Prop where
  abort : i.ctrl.abort = false
  start : i.ctrl.startL2p = false
  available : s.ldm.fsm.l2pDmaCurrentState = .header → s.arb.gnt.arbLdmGnt = true →
    i.lWrRdy = 0b11#2 → s.dataFifo.crossing = []

instance (s : L2pDmaPath) (i : L2pDmaPathIn) : Decidable (Calm s i) :=
  decidable_of_iff
    (i.ctrl.abort = false ∧ i.ctrl.startL2p = false ∧
      (s.ldm.fsm.l2pDmaCurrentState = .header → s.arb.gnt.arbLdmGnt = true →
        i.lWrRdy = 0b11#2 → s.dataFifo.crossing = []))
    ⟨fun h => ⟨h.1, h.2.1, h.2.2⟩, fun h => ⟨h.abort, h.start, h.available⟩⟩

/-- No stall while a word is at the output of the FIFO and another one is being popped. -/
def Smooth (s : L2pDmaPath) (i : L2pDmaPathIn) : Prop :=
  s.ldm.fsm.l2pDmaCurrentState = .data → 2#11 < s.ldm.pktGen.l2pDataCnt → i.l2pRdy = true

instance (s : L2pDmaPath) (i : L2pDmaPathIn) : Decidable (Smooth s i) :=
  inferInstanceAs (Decidable (_ → _ → _))

variable {gByteSwap : Bool} {s : L2pDmaPath} {i : L2pDmaPathIn}

/-! ## Between two transfers -/

/-- The FIFO is read only in the states that take a word from it. -/
def ReadsInPacket (m : L2pDmaMaster) : Prop :=
  match m.fsm.l2pDmaCurrentState with
  | .idle | .header | .waitRdy | .lastData => m.fsm.dataFifoRd = false
  | _ => True

theorem ReadsInPacket.step {m : L2pDmaMaster} {x : L2pDmaIn} (h : ReadsInPacket m)
    (habort : x.ctrl.abort = false) : ReadsInPacket (m.step gByteSwap x) := by
  unfold ReadsInPacket at h
  simp only [ReadsInPacket, L2pDmaMaster.step, L2pDmaMaster.pPktFsm]
  cases hstate : m.fsm.l2pDmaCurrentState with
  | idle => cases hempty : x.dataFifoEmpty <;> simp
  | header =>
      rw [hstate] at h
      cases hgnt : x.arbLdmGnt && x.lWrRdy == 0b11#2 with
      | false => simpa [hstate] using h
      | true => cases h64b : m.pktGen.l2p64bAddress <;> simp
  | addrH => trivial
  | addrL => by_cases hone : m.pktGen.l2pDataCnt ≤ 1#11 <;> simp [hone]
  | data =>
      simp only [habort, Bool.false_eq_true, if_false]
      split_ifs <;> simp
  | waitRdy =>
      rw [hstate] at h
      cases hrdy : x.l2pRdy <;> by_cases hone : m.pktGen.l2pDataCnt ≤ 1#11 <;>
        simp [hone, h]
  | waitData =>
      cases hempty : x.dataFifoEmpty <;> by_cases hone : m.pktGen.l2pDataCnt ≤ 1#11 <;>
        simp [hone]
  | lastData =>
      rw [hstate] at h
      cases hrdy : x.l2pRdy <;> by_cases hmore : 0#30 < m.pktGen.l2pLenCnt <;>
        simp [hmore, h]

/-- What holds in every state of a run without an abort. -/
structure Settled (s : L2pDmaPath) : Prop where
  shape : s.ldm.Shape
  reads : ReadsInPacket s.ldm
  granted : s.arb.gnt.arbLdmGnt = true → s.ldm.arb.phase ≠ .silent

theorem reset_settled (addrFifoDin : Word) (dataFifoValid : Bool) (q : Word) (ws : List Word) :
    Settled (reset addrFifoDin dataFifoValid q ws) :=
  ⟨L2pDmaMaster.reset_shape addrFifoDin dataFifoValid, rfl, fun h => absurd h (by simp [reset, L2pArbiter.reset])⟩

theorem Settled.step (h : s.Settled) (habort : i.ctrl.abort = false) :
    (step gByteSwap s i).Settled := by
  obtain ⟨hshape, hreads, hgranted⟩ := h
  refine ⟨hshape.step habort, hreads.step habort, fun hgnt' => ?_⟩
  have hnext : Phase.Next (s.ldmIn i).arbLdmGnt s.ldm.arb.phase
      (s.ldm.step gByteSwap (s.ldmIn i)).arb.phase := hshape.next habort
  obtain hreq | ⟨hgnt, hlast⟩ := L2pArbiter.ldm_granted hgnt'
  · exact SourceLines.next_not_silent hnext (.inl hreq)
  · exact SourceLines.next_not_silent hnext (.inr ⟨hgranted hgnt, hlast⟩)

/-- An idle master that still has the grant is about to lose it. -/
theorem Settled.gnt_of_idle (h : s.Settled) (hidle : s.ldm.fsm.l2pDmaCurrentState = .idle) :
    (L2pDmaPath.step gByteSwap s i).arb.gnt.arbLdmGnt = false := by
  have hshape := h.shape
  rw [L2pDmaMaster.Shape, hidle] at hshape
  obtain ⟨hdframe, hreq⟩ := hshape
  apply gnt_released gByteSwap hreq
  intro hgnt
  have hphase := h.granted hgnt
  cases hvalid : s.ldm.fsm.ldmArbValid with
  | false =>
      refine absurd (SourceLines.phase_eq_silent.mpr ?_) hphase
      exact ⟨hdframe, hvalid, hreq⟩
  | true => simp [SourceLines.last, L2pDmaMaster.arb, hdframe, hvalid]

end L2pDmaPath

namespace WriteTransfer

open L2pDmaPath

variable {gByteSwap : Bool} {t : WriteTransfer} {k j : ℕ} {s : L2pDmaPath} {i : L2pDmaPathIn}
  {words : List (Bool × Word)}

/-- The words presented, with what one more edge shows. -/
def wordsAfter (gByteSwap : Bool) (s : L2pDmaPath) (i : L2pDmaPathIn)
    (words : List (Bool × Word)) : List (Bool × Word) :=
  words ++ (step gByteSwap s i).presented

theorem wordsAfter_of_invalid (h : (s.ldm.pPktFsm gByteSwap (s.ldmIn i)).ldmArbValid = false) :
    wordsAfter gByteSwap s i words = words := by
  simp [wordsAfter, presented, step, L2pDmaMaster.step, L2pDmaMaster.arb, SourceLines.word, h]

theorem wordsAfter_of_valid (h : (s.ldm.pPktFsm gByteSwap (s.ldmIn i)).ldmArbValid = true) :
    wordsAfter gByteSwap s i words =
      words ++ [((s.ldm.pPktFsm gByteSwap (s.ldmIn i)).ldmArbDframe,
        (s.ldm.pPktFsm gByteSwap (s.ldmIn i)).ldmArbData)] := by
  simp [wordsAfter, presented, step, L2pDmaMaster.step, L2pDmaMaster.arb, SourceLines.word, h]

/-! ## One edge -/

theorem Stage.idle_step (h : t.Stage gByteSwap k s words) (hcalm : Calm s i)
    (hstate : s.ldm.fsm.l2pDmaCurrentState = .idle) :
    t.Stage gByteSwap k (step gByteSwap s i) (wordsAfter gByteSwap s i words) := by
  obtain ⟨hdelivered, hlengths, -, haddrH, hswap, hat⟩ := h
  simp only [AtState, hstate] at hat
  obtain ⟨hopen, hrd, hcontents, hmore⟩ := hat
  have hregs : (step gByteSwap s i).ldm.pktGen = s.ldm.pktGen := by
    simp [step, L2pDmaMaster.step, L2pDmaMaster.pPktGen, ldmIn, hstate, hcalm.start]
  have hfifo : (step gByteSwap s i).dataFifo.contents = t.words.drop (32 * k) := by
    rw [← hcontents, step, hrd, AsyncFifo.contents_arrive]
    rfl
  have hdone : (step gByteSwap s i).ldm.fsm.dmaCtrlDone = false := by
    simp [step, L2pDmaMaster.step, L2pDmaMaster.pPktFsm, hstate]
  have hrd' : (step gByteSwap s i).ldm.fsm.dataFifoRd = false := by
    simp [step, L2pDmaMaster.step, L2pDmaMaster.pPktFsm, hstate]
  rw [wordsAfter_of_invalid (by simp [L2pDmaMaster.pPktFsm, hstate])]
  refine ⟨hdelivered, hlengths, by simp [hdone], by rwa [hregs], by rwa [hregs], ?_⟩
  cases hempty : s.dataFifo.empty with
  | true =>
      have hidle : (step gByteSwap s i).ldm.fsm.l2pDmaCurrentState = .idle := by
        simp [step, L2pDmaMaster.step, L2pDmaMaster.pPktFsm, ldmIn, hstate, hempty]
      simp only [AtState, hidle, hregs, hrd', hfifo]
      refine ⟨hopen, trivial, trivial, fun hlt => ?_⟩
      obtain ⟨hlen, hreq, hgnt⟩ := hmore hlt
      refine ⟨hlen, ?_, gnt_released gByteSwap hreq fun hgnt' => by simp [hgnt] at hgnt'⟩
      simpa [step, L2pDmaMaster.step, L2pDmaMaster.pPktFsm, ldmIn, hstate, hempty] using hreq
  | false =>
      have hlt : 32 * k < t.len := by
        have hready : s.dataFifo.ready ≠ [] := AsyncFifo.ready_ne_nil hempty
        by_contra hnone
        rw [List.drop_eq_nil_of_le (by unfold len at hnone; omega), AsyncFifo.contents] at hcontents
        exact hready (List.append_eq_nil_iff.mp hcontents).1
      obtain ⟨hlen, hreq, hgnt⟩ := hmore hlt
      have hheader : (step gByteSwap s i).ldm.fsm.l2pDmaCurrentState = .header := by
        simp [step, L2pDmaMaster.step, L2pDmaMaster.pPktFsm, ldmIn, hstate, hempty]
      have hgnt' : (step gByteSwap s i).arb.gnt.arbLdmGnt = false :=
        gnt_released gByteSwap hreq fun hgnt' => by simp [hgnt] at hgnt'
      simp only [AtState, hheader, hregs, hrd', hfifo, hgnt']
      exact ⟨hlt, hopen, trivial, trivial, hlen, by simp⟩

theorem Stage.header_step (h : t.Stage gByteSwap k s words) (hcalm : Calm s i)
    (hstate : s.ldm.fsm.l2pDmaCurrentState = .header) :
    t.Stage gByteSwap k (step gByteSwap s i) (wordsAfter gByteSwap s i words) := by
  obtain ⟨hdelivered, hlengths, hdone, haddrH, hswap, hat⟩ := h
  simp only [AtState, hstate] at hat
  obtain ⟨hlt, hopen, hrd, hcontents, hlen, hgranted⟩ := hat
  have hregs : (step gByteSwap s i).ldm.pktGen =
      { s.ldm.pktGen.loadSize with l2p64bAddress := t.addrH != 0 } := by
    simp [step, L2pDmaMaster.step, L2pDmaMaster.pPktGen, hstate, haddrH]
  have hsized : t.Sized k (step gByteSwap s i).ldm.pktGen := by
    rw [hregs]
    exact sized_loadSize hlt hlen
  have hfifo : (step gByteSwap s i).dataFifo = s.dataFifo.arrive i.arrive := by
    rw [step, hrd, AsyncFifo.read_false]
  by_cases haccept : s.arb.gnt.arbLdmGnt = true ∧ i.lWrRdy = 0b11#2
  · obtain ⟨hgnt, hrdy⟩ := haccept
    have hcrossing : s.dataFifo.crossing = [] := hcalm.available hstate hgnt hrdy
    have hstored : t.Stored (32 * k) (step gByteSwap s i).dataFifo := by
      rw [hfifo, AsyncFifo.arrive_of_crossing_nil hcrossing]
      refine ⟨?_, hcrossing⟩
      rw [← hcontents, AsyncFifo.contents, hcrossing, List.append_nil]
    obtain ⟨⟨-, hlength, -⟩, h64b⟩ := hgranted hgnt
    have hheader : s.ldm.pktGen.sL2pHeader =
        writeHeader (t.addrH != 0) (BitVec.ofNat 10 (t.chunk k)) := by
      rw [PktGen.sL2pHeader, h64b, hlength]
    have hfsm := L2pDmaMaster.header_sends gByteSwap (i := s.ldmIn i) hstate hgnt hrdy
    rw [h64b, hrd] at hfsm
    rw [wordsAfter_of_valid (by rw [hfsm]), hfsm]
    refine ⟨by rwa [packets_more], by rwa [packets_more], by simpa [step, L2pDmaMaster.step, hfsm]
      using hdone, by simp [hregs, haddrH], by simp [hregs, hswap], ?_⟩
    simp only [AtState, openPacket_more, hopen, hheader]
    simp only [step, L2pDmaMaster.step, hfsm] at hregs hsized hstored ⊢
    rw [hregs] at hsized ⊢
    cases hb : t.addrH != 0 with
    | true =>
        simp only [hb] at hsized
        simp only [if_true]
        exact ⟨hlt, fun low => by rw [head, hb]; rfl, trivial, trivial, hstored, by simpa using hlen,
          hsized, trivial, trivial⟩
    | false =>
        simp only [hb] at hsized
        simp only [Bool.false_eq_true, if_false]
        exact ⟨hlt, fun low => by rw [head, hb]; rfl, trivial, trivial, hstored, by simpa using hlen,
          hsized, trivial, trivial⟩
  · have hfsm := L2pDmaMaster.header_waits gByteSwap (i := s.ldmIn i) hstate haccept
    rw [wordsAfter_of_invalid (by rw [hfsm])]
    refine ⟨hdelivered, hlengths, by simpa [step, L2pDmaMaster.step, hfsm] using hdone,
      by simp [hregs, haddrH], by simp [hregs, hswap], ?_⟩
    have hstate' : (step gByteSwap s i).ldm.fsm.l2pDmaCurrentState = .header := by
      simp [step, L2pDmaMaster.step, hfsm, hstate]
    simp only [AtState, hstate']
    refine ⟨hlt, hopen, by simpa [step, L2pDmaMaster.step, hfsm] using hrd, ?_,
      by simpa [hregs] using hlen, fun _ => ⟨hsized, by simp [hregs]⟩⟩
    rw [hfifo, AsyncFifo.contents_arrive, hcontents]

theorem Stage.addrH_step (h : t.Stage gByteSwap k s words)
    (hstate : s.ldm.fsm.l2pDmaCurrentState = .addrH) :
    t.Stage gByteSwap k (step gByteSwap s i) (wordsAfter gByteSwap s i words) := by
  obtain ⟨hdelivered, hlengths, hdone, haddrH, hswap, hat⟩ := h
  simp only [AtState, hstate] at hat
  obtain ⟨hlt, hopen, hvalid, hdframe, hstored, hlen, hsized, h64b, hrd⟩ := hat
  have hregs : (step gByteSwap s i).ldm.pktGen = s.ldm.pktGen := by
    simp [step, L2pDmaMaster.step, L2pDmaMaster.pPktGen, hstate]
  have hfsm := L2pDmaMaster.addrH_sends gByteSwap (i := s.ldmIn i) hstate
  rw [haddrH] at hfsm
  have hfifo : t.Stored (32 * k) (step gByteSwap s i).dataFifo := by
    rw [step, hrd]
    exact hstored.hold i.arrive
  rw [wordsAfter_of_valid (by rw [hfsm]; exact hvalid), hfsm]
  simp only [hdframe]
  refine ⟨by rwa [packets_more], by rwa [packets_more], by simpa [step, L2pDmaMaster.step, hfsm]
    using hdone, by rwa [hregs], by rwa [hregs], ?_⟩
  have hstate' : (step gByteSwap s i).ldm.fsm.l2pDmaCurrentState = .addrL := by
    simp [step, L2pDmaMaster.step, hfsm]
  simp only [AtState, hstate', hregs, openPacket_more]
  refine ⟨hlt, fun low => by simpa using hopen low, ?_, ?_, hfifo, hlen, hsized, h64b, ?_⟩
  all_goals simp [step, L2pDmaMaster.step, hfsm, hvalid, hdframe]

/-- `L2P_ADDR_L` counts the words of the packet as sent. -/
theorem lenCnt_addrL {m : L2pDmaMaster} {x : L2pDmaIn}
    (hstate : m.fsm.l2pDmaCurrentState = .addrL) (hmore : 32 * k < t.len)
    (hlen : m.pktGen.l2pLenCnt.toNat = t.len - 32 * k)
    (hlast : m.pktGen.l2pLastPacket = decide (t.len ≤ 32 * (k + 1))) :
    ∃ lenCnt : BitVec 30, m.pPktGen x = { m.pktGen with l2pLenCnt := lenCnt } ∧
      lenCnt.toNat = t.len - 32 * (k + 1) := by
  simp only [L2pDmaMaster.pPktGen, hstate, hlast]
  by_cases hle : t.len ≤ 32 * (k + 1)
  · refine ⟨0, by simp [hle], ?_⟩
    have hzero : (0 : BitVec 30).toNat = 0 := rfl
    omega
  · refine ⟨m.pktGen.l2pLenCnt - cL2pMaxPayload.setWidth 30, by simp [hle], ?_⟩
    have hmax : (cL2pMaxPayload.setWidth 30).toNat = 32 := rfl
    rw [BitVec.toNat_sub_of_le (by rw [BitVec.le_def, hmax]; omega), hmax]
    omega

theorem Stage.addrL_step (h : t.Stage gByteSwap k s words)
    (hstate : s.ldm.fsm.l2pDmaCurrentState = .addrL) :
    t.Stage gByteSwap k (step gByteSwap s i) (wordsAfter gByteSwap s i words) := by
  obtain ⟨hdelivered, hlengths, hdone, haddrH, hswap, hat⟩ := h
  simp only [AtState, hstate] at hat
  obtain ⟨hlt, hopen, hvalid, hdframe, hstored, hlen, ⟨hcnt, -, hlast⟩, h64b, hrd⟩ := hat
  obtain ⟨lenCnt, hregs, hlen'⟩ := lenCnt_addrL (x := s.ldmIn i) hstate hlt hlen hlast
  replace hregs : (step gByteSwap s i).ldm.pktGen = { s.ldm.pktGen with l2pLenCnt := lenCnt } := hregs
  have hshown : t.Shown (32 * k) (step gByteSwap s i).dataFifo := by
    rw [step, hrd]
    exact hstored.read hlt i.arrive
  have hempty : s.dataFifo.empty = false := by
    rw [AsyncFifo.empty_eq_false, hstored.1]
    exact List.ne_nil_of_length_pos (by rw [List.length_drop]; exact Nat.sub_pos_of_lt hlt)
  have hfsm := L2pDmaMaster.addrL_sends gByteSwap (i := s.ldmIn i) hstate hrd
  rw [wordsAfter_of_valid (by rw [hfsm]; exact hvalid), hfsm]
  simp only [hdframe]
  refine ⟨by rwa [packets_more], by rwa [packets_more], by simpa [step, L2pDmaMaster.step, hfsm]
    using hdone, by rwa [hregs], by rwa [hregs], ?_⟩
  have hnone : t.OpenAt gByteSwap k 0 (words ++ [(true, s.ldm.pktGen.l2pAddressL)]) :=
    ⟨s.ldm.pktGen.l2pAddressL, by rw [openPacket_more, hopen]; simp⟩
  have hle : s.ldm.pktGen.l2pDataCnt ≤ 1#11 ↔ t.chunk k ≤ 1 := by
    rw [BitVec.le_def, hcnt]
    rfl
  have hpos : 1 ≤ t.chunk k := by
    unfold chunk
    omega
  by_cases hone : s.ldm.pktGen.l2pDataCnt ≤ 1#11
  · have hstate' : (step gByteSwap s i).ldm.fsm.l2pDmaCurrentState = .lastData := by
      simp [step, L2pDmaMaster.step, hfsm, hone]
    have hchunk : t.chunk k ≤ 1 := hle.mp hone
    simp only [AtState, hstate', hregs]
    refine ⟨0, hnone, by omega, hshown, ?_, ?_, hlen', h64b, .inl hlast⟩
    all_goals simp [step, L2pDmaMaster.step, hfsm, hone, hdframe]
  · have hstate' : (step gByteSwap s i).ldm.fsm.l2pDmaCurrentState = .data := by
      simp [step, L2pDmaMaster.step, hfsm, hone]
    have hchunk : ¬ t.chunk k ≤ 1 := mt hle.mpr hone
    simp only [AtState, hstate', hregs]
    refine ⟨0, hnone, hcnt, by omega, ?_, hshown, ?_, ?_, hlen', h64b, hlast⟩
    · simp [step, L2pDmaMaster.step, L2pDmaMaster.pGenDataFifoValid, ldmIn, hrd, hempty]
    all_goals simp [step, L2pDmaMaster.step, hfsm, hone, hdframe]

theorem dataWord_eq (hswap : s.ldm.pktGen.l2pByteSwap = t.byteSwap) :
    s.ldm.dataWord gByteSwap (s.ldmIn i) = fByteSwap gByteSwap s.dataFifo.q t.byteSwap := by
  rw [L2pDmaMaster.dataWord, hswap]
  rfl

theorem Stage.data_step (h : t.Stage gByteSwap k s words) (hcalm : Calm s i) (hsmooth : Smooth s i)
    (hstate : s.ldm.fsm.l2pDmaCurrentState = .data) :
    t.Stage gByteSwap k (step gByteSwap s i) (wordsAfter gByteSwap s i words) := by
  obtain ⟨hdelivered, hlengths, hdone, haddrH, hswap, hat⟩ := h
  simp only [AtState, hstate] at hat
  obtain ⟨j, hopen, hcnt, htwo, hvalid, hshown, hrd, hdframe, hlen, h64b, hlast⟩ := hat
  have hpop : 32 * k + j + 1 < t.len := by
    unfold chunk at hcnt
    omega
  obtain ⟨hempty, hnext⟩ := hshown.read hpop i.arrive
  have hfifo : t.Shown (32 * k + (j + 1)) (step gByteSwap s i).dataFifo := by
    rw [step, hrd]
    exact hnext
  have hregs : (step gByteSwap s i).ldm.pktGen =
      { s.ldm.pktGen with l2pDataCnt := s.ldm.pktGen.l2pDataCnt - 1 } := by
    simp [step, L2pDmaMaster.step, L2pDmaMaster.pPktGen, hstate, hvalid]
  have hone : (1 : BitVec 11).toNat = 1 := rfl
  have hcnt' : (s.ldm.pktGen.l2pDataCnt - 1).toNat = s.ldm.pktGen.l2pDataCnt.toNat - 1 := by
    rw [BitVec.toNat_sub_of_le (by rw [BitVec.le_def]; omega), hone]
  have hle : s.ldm.pktGen.l2pDataCnt ≤ 2#11 ↔ s.ldm.pktGen.l2pDataCnt.toNat ≤ 2 := BitVec.le_def
  have hword := hostWords_of_drop gByteSwap hshown.1
  rw [← dataWord_eq hswap (i := i)] at hword
  have hlatched := hopen.more hword
  cases hrdy : i.l2pRdy with
  | true =>
      have hempty' : (s.ldmIn i).dataFifoEmpty = false := hempty
      have hfsm := L2pDmaMaster.data_sends gByteSwap (i := s.ldmIn i) hstate hcalm.abort hrdy hrd
      simp only [hvalid, hempty', if_true, Bool.false_or, Bool.false_eq_true, if_false] at hfsm
      rw [wordsAfter_of_valid (by rw [hfsm]), hfsm]
      simp only [hdframe]
      refine ⟨by rwa [packets_more], by rwa [packets_more],
        by simpa [step, L2pDmaMaster.step, hfsm] using hdone, by rwa [hregs], by rwa [hregs], ?_⟩
      by_cases hlow : s.ldm.pktGen.l2pDataCnt ≤ 2#11
      · have hstate' : (step gByteSwap s i).ldm.fsm.l2pDmaCurrentState = .lastData := by
          simp [step, L2pDmaMaster.step, hfsm, hlow]
        have hlow' := hle.mp hlow
        simp only [AtState, hstate', hregs]
        refine ⟨j + 1, hlatched, by omega, hfifo, ?_, ?_, hlen, h64b, .inl hlast⟩
        all_goals simp [step, L2pDmaMaster.step, hfsm, hlow, hdframe]
      · have hstate' : (step gByteSwap s i).ldm.fsm.l2pDmaCurrentState = .data := by
          simp [step, L2pDmaMaster.step, hfsm, hlow]
        have hlow' := mt hle.mpr hlow
        simp only [AtState, hstate', hregs, hcnt']
        refine ⟨j + 1, hlatched, by omega, by omega, ?_, hfifo, ?_, ?_, hlen, h64b, hlast⟩
        · simp [step, L2pDmaMaster.step, L2pDmaMaster.pGenDataFifoValid, ldmIn, hrd, hempty]
        all_goals simp [step, L2pDmaMaster.step, hfsm, hlow, hdframe]
  | false =>
      -- two words to go: the one latched here, and the one at the output from now on
      have hlow : ¬ 2#11 < s.ldm.pktGen.l2pDataCnt := by
        intro hmore
        have hready := hsmooth hstate hmore
        rw [hrdy] at hready
        exact absurd hready (by decide)
      have htwo' : s.ldm.pktGen.l2pDataCnt.toNat = 2 := by
        have htwo'' : ¬ 2 < s.ldm.pktGen.l2pDataCnt.toNat := hlow
        omega
      have hfsm := L2pDmaMaster.data_stalls gByteSwap (i := s.ldmIn i) hstate hcalm.abort hrdy hvalid
      rw [wordsAfter_of_invalid (by rw [hfsm])]
      refine ⟨hdelivered, hlengths, by simpa [step, L2pDmaMaster.step, hfsm] using hdone,
        by rwa [hregs], by rwa [hregs], ?_⟩
      have hstate' : (step gByteSwap s i).ldm.fsm.l2pDmaCurrentState = .waitRdy := by
        simp [step, L2pDmaMaster.step, hfsm]
      simp only [AtState, hstate', hregs]
      refine ⟨j, hopen, by omega, BitVec.eq_of_toNat_eq (by rw [hcnt', htwo', hone]), ?_, hfifo, ?_, ?_,
        hlen, h64b, hlast⟩
      · rw [hword]
        simp [step, L2pDmaMaster.step, hfsm]
      all_goals simp [step, L2pDmaMaster.step, hfsm, hdframe]

theorem Stage.waitRdy_step (h : t.Stage gByteSwap k s words)
    (hstate : s.ldm.fsm.l2pDmaCurrentState = .waitRdy) :
    t.Stage gByteSwap k (step gByteSwap s i) (wordsAfter gByteSwap s i words) := by
  obtain ⟨hdelivered, hlengths, hdone, haddrH, hswap, hat⟩ := h
  simp only [AtState, hstate] at hat
  obtain ⟨j, hopen, hj, hcnt, hword, hshown, hrd, hdframe, hlen, h64b, hlast⟩ := hat
  have hregs : (step gByteSwap s i).ldm.pktGen = s.ldm.pktGen := by
    simp [step, L2pDmaMaster.step, L2pDmaMaster.pPktGen, hstate]
  have hfifo : t.Shown (32 * k + j + 1) (step gByteSwap s i).dataFifo := by
    rw [step, hrd]
    exact hshown.hold i.arrive
  cases hrdy : i.l2pRdy with
  | true =>
      have hfsm := L2pDmaMaster.waitRdy_sends gByteSwap (i := s.ldmIn i) hstate hrdy hcnt
      rw [wordsAfter_of_valid (by rw [hfsm]), hfsm]
      simp only [hdframe]
      refine ⟨by rwa [packets_more], by rwa [packets_more],
        by simpa [step, L2pDmaMaster.step, hfsm] using hdone, by rwa [hregs], by rwa [hregs], ?_⟩
      have hstate' : (step gByteSwap s i).ldm.fsm.l2pDmaCurrentState = .lastData := by
        simp [step, L2pDmaMaster.step, hfsm]
      simp only [AtState, hstate', hregs]
      refine ⟨j + 1, hopen.more hword.symm, by omega, hfifo, ?_, ?_, hlen, h64b, .inl hlast⟩
      all_goals simp [step, L2pDmaMaster.step, hfsm, hrd, hdframe]
  | false =>
      have hfsm := L2pDmaMaster.waitRdy_waits gByteSwap (i := s.ldmIn i) hstate hrdy
      rw [wordsAfter_of_invalid (by rw [hfsm])]
      refine ⟨hdelivered, hlengths, by simpa [step, L2pDmaMaster.step, hfsm] using hdone,
        by rwa [hregs], by rwa [hregs], ?_⟩
      have hstate' : (step gByteSwap s i).ldm.fsm.l2pDmaCurrentState = .waitRdy := by
        simp [step, L2pDmaMaster.step, hfsm, hstate]
      simp only [AtState, hstate', hregs]
      refine ⟨j, hopen, hj, hcnt, ?_, hfifo, ?_, ?_, hlen, h64b, hlast⟩
      · simpa [step, L2pDmaMaster.step, hfsm] using hword
      all_goals simp [step, L2pDmaMaster.step, hfsm, hrd, hdframe]

/-- `L2P_LAST_DATA` computes the size of the next packet in its first cycle; computing it
again makes no difference. -/
theorem size_in_lastData {m : L2pDmaMaster} {x : L2pDmaIn}
    (hstate : m.fsm.l2pDmaCurrentState = .lastData)
    (hlen : m.pktGen.l2pLenCnt.toNat = t.len - 32 * (k + 1))
    (hlast : m.pktGen.l2pLastPacket = decide (t.len ≤ 32 * (k + 1)) ∨
      32 * (k + 1) < t.len ∧ t.Sized (k + 1) m.pktGen) :
    (32 * (k + 1) < t.len ∧ t.Sized (k + 1) (m.pPktGen x)) ∨
      t.len ≤ 32 * (k + 1) ∧ (m.pPktGen x).l2pLastPacket = true := by
  simp only [L2pDmaMaster.pPktGen, hstate]
  by_cases hmore : 32 * (k + 1) < t.len
  · left
    refine ⟨hmore, ?_⟩
    cases hfinal : m.pktGen.l2pLastPacket with
    | false => exact sized_loadSize hmore hlen
    | true =>
        rcases hlast with hlast | ⟨-, hsized⟩
        · rw [hfinal] at hlast
          have hle := of_decide_eq_true hlast.symm
          omega
        · exact hsized
  · right
    rcases hlast with hlast | ⟨hlt, -⟩
    · have hfinal : m.pktGen.l2pLastPacket = true := by
        rw [hlast]
        exact decide_eq_true (by omega)
      rw [if_pos hfinal]
      exact ⟨by omega, hfinal⟩
    · exact absurd hlt hmore

theorem Stage.lastData_step (h : t.Stage gByteSwap k s words)
    (hstate : s.ldm.fsm.l2pDmaCurrentState = .lastData) :
    ∃ k', t.Stage gByteSwap k' (step gByteSwap s i) (wordsAfter gByteSwap s i words) := by
  obtain ⟨hdelivered, hlengths, hdone, haddrH, hswap, hat⟩ := h
  simp only [AtState, hstate] at hat
  obtain ⟨j, hopen, hj, hshown, hrd, hdframe, hlen, h64b, hlast⟩ := hat
  have hfifo : t.Shown (32 * k + j) (step gByteSwap s i).dataFifo := by
    rw [step, hrd]
    exact hshown.hold i.arrive
  have hregs : (step gByteSwap s i).ldm.pktGen = s.ldm.pPktGen (s.ldmIn i) := rfl
  have hsize := size_in_lastData (x := s.ldmIn i) hstate hlen hlast
  rw [← hregs] at hsize
  obtain ⟨haddrH', hswap', hlen', h64b'⟩ :
      (step gByteSwap s i).ldm.pktGen.l2pAddressH = t.addrH ∧
        (step gByteSwap s i).ldm.pktGen.l2pByteSwap = t.byteSwap ∧
        (step gByteSwap s i).ldm.pktGen.l2pLenCnt.toNat = t.len - 32 * (k + 1) ∧
        (step gByteSwap s i).ldm.pktGen.l2p64bAddress = (t.addrH != 0) := by
    rw [hregs]
    simp only [L2pDmaMaster.pPktGen, hstate]
    split_ifs
    · exact ⟨haddrH, hswap, hlen, h64b⟩
    · simp [haddrH, hswap, hlen, h64b]
  cases hrdy : i.l2pRdy with
  | false =>
      have hfsm := L2pDmaMaster.lastData_waits gByteSwap (i := s.ldmIn i) hstate hrdy
      rw [wordsAfter_of_invalid (by rw [hfsm])]
      refine ⟨k, hdelivered, hlengths, by simpa [step, L2pDmaMaster.step, hfsm] using hdone, haddrH',
        hswap', ?_⟩
      have hstate' : (step gByteSwap s i).ldm.fsm.l2pDmaCurrentState = .lastData := by
        simp [step, L2pDmaMaster.step, hfsm, hstate]
      simp only [AtState, hstate']
      refine ⟨j, hopen, hj, hfifo, ?_, ?_, hlen', h64b', ?_⟩
      · simp [step, L2pDmaMaster.step, hfsm, hrd]
      · simp [step, L2pDmaMaster.step, hfsm, hdframe]
      · rcases hsize with hsized | ⟨hle, hfinal⟩
        · exact .inr hsized
        · exact .inl (by rw [hfinal, decide_eq_true hle])
  | true =>
      have hword := hostWords_of_drop gByteSwap hshown.1
      rw [← dataWord_eq hswap (i := i)] at hword
      obtain ⟨hpayload, hannounced⟩ := hopen.last hword hj
      have hfsm := L2pDmaMaster.lastData_sends gByteSwap (i := s.ldmIn i) hstate hrdy
      have hpos := lenCnt_pos_iff hlen
      -- what is left in the FIFO begins with the next packet
      have hrest : (step gByteSwap s i).dataFifo.contents = t.words.drop (32 * (k + 1)) := by
        obtain ⟨hready, hcrossing⟩ := hfifo.stored
        rw [AsyncFifo.contents, hready, hcrossing, List.append_nil]
        rcases Nat.lt_or_ge (32 * (k + 1)) t.len with hmore | hle
        · congr 1
          unfold chunk at hj
          omega
        · rw [List.drop_eq_nil_of_le, List.drop_eq_nil_of_le]
          · exact hle
          · unfold chunk len at *
            omega
      have hdone' : (step gByteSwap s i).ldm.fsm.dmaCtrlDone = true → t.len ≤ 32 * (k + 1) := by
        simp only [step, L2pDmaMaster.step, hfsm, hpos]
        split_ifs with hmore
        · intro hdone'
          have hle := hdone hdone'
          omega
        · omega
      rw [wordsAfter_of_valid (by rw [hfsm]), hfsm]
      refine ⟨k + 1, ?_, ?_, hdone', haddrH', hswap', ?_⟩
      · rw [packets_last, List.flatMap_append, List.flatMap_singleton, hdelivered, hpayload,
          take_chunk]
      · intro p hp
        rw [packets_last, List.mem_append, List.mem_singleton] at hp
        rcases hp with hp | rfl
        · exact hlengths p hp
        · rw [hpayload, hannounced, length_take_chunk]
      · have hrd' : (step gByteSwap s i).ldm.fsm.dataFifoRd = false := by
          simp [step, L2pDmaMaster.step, hfsm, hrd]
        by_cases hmore : 32 * (k + 1) < t.len
        · have hstate' : (step gByteSwap s i).ldm.fsm.l2pDmaCurrentState = .header := by
            simp only [step, L2pDmaMaster.step, hfsm, hpos, hmore, if_true]
          simp only [AtState, hstate', openPacket_last]
          rcases hsize with ⟨-, hsized⟩ | ⟨hle, -⟩
          · exact ⟨hmore, trivial, hrd', hrest, hlen', fun _ => ⟨hsized, h64b'⟩⟩
          · omega
        · have hstate' : (step gByteSwap s i).ldm.fsm.l2pDmaCurrentState = .idle := by
            simp only [step, L2pDmaMaster.step, hfsm, hpos, hmore, if_false]
          simp only [AtState, hstate', openPacket_last]
          exact ⟨trivial, hrd', hrest, fun hlt => absurd hlt hmore⟩

/-- Every edge keeps the stage, or completes one packet. -/
theorem Stage.step (h : t.Stage gByteSwap k s words) (hcalm : Calm s i) (hsmooth : Smooth s i) :
    ∃ k', t.Stage gByteSwap k' (step gByteSwap s i) (wordsAfter gByteSwap s i words) := by
  cases hstate : s.ldm.fsm.l2pDmaCurrentState with
  | idle => exact ⟨k, h.idle_step hcalm hstate⟩
  | header => exact ⟨k, h.header_step hcalm hstate⟩
  | addrH => exact ⟨k, h.addrH_step hstate⟩
  | addrL => exact ⟨k, h.addrL_step hstate⟩
  | data => exact ⟨k, h.data_step hcalm hsmooth hstate⟩
  | waitRdy => exact ⟨k, h.waitRdy_step hstate⟩
  | lastData => exact h.lastData_step hstate
  | waitData =>
      have hnever := h.atState
      rw [AtState, hstate] at hnever
      exact hnever.elim

/-! ## A whole transfer -/

/-- The words the master presents at the edges of a run. -/
abbrev emitted (gByteSwap : Bool) (s : L2pDmaPath) (is : List L2pDmaPathIn) : List (Bool × Word) :=
  log (L2pDmaPath.step gByteSwap) (after (L2pDmaPath.step gByteSwap) presented) s is

theorem Stage.run {is : List L2pDmaPathIn} (h : t.Stage gByteSwap 0 s [])
    (hcalm : Always (L2pDmaPath.step gByteSwap) (fun s i => Calm s i ∧ Smooth s i) s is) :
    ∃ k, t.Stage gByteSwap k (run (L2pDmaPath.step gByteSwap) s is) (emitted gByteSwap s is) := by
  refine invariant_log (motive := fun s words => ∃ k, t.Stage gByteSwap k s words) ?_ hcalm ⟨0, h⟩
  intro s i words hstage hi
  obtain ⟨k, hk⟩ := hstage
  exact hk.step hi.1 hi.2

/-- The transfer has arrived, in a state `s` after the words `words`: each complete packet
has the payload it announces, the payloads are the first words of the transfer, and at the
end all of them. -/
structure Survives (gByteSwap : Bool) (t : WriteTransfer) (s : L2pDmaPath)
    (words : List (Bool × Word)) : Prop where
  lengths : ∀ p ∈ packets words, (payload p).length = announcedLength p
  inOrder : (packets words).flatMap payload <+: t.hostWords gByteSwap
  complete : s.ldm.fsm.dmaCtrlDone = true → (packets words).flatMap payload = t.hostWords gByteSwap

theorem Stage.survives (h : t.Stage gByteSwap k s words) : t.Survives gByteSwap s words where
  lengths := h.lengths
  inOrder := by
    rw [h.delivered]
    exact List.take_prefix _ _
  complete hdone := by
    rw [h.delivered, List.take_of_length_le]
    rw [hostWords, List.length_map]
    exact h.done hdone

end WriteTransfer

/-- The transfer that a start pulse orders, for words that come out of carrier memory. -/
def DmaCtrl.writeTransfer (c : DmaCtrl) (ws : List Word) : WriteTransfer :=
  ⟨c.hostAddrH, c.byteSwap, ws⟩

namespace L2pDmaPath

open WriteTransfer

variable {gByteSwap : Bool} {s : L2pDmaPath} {i : L2pDmaPathIn}

/-- A start order puts the master at the beginning of a transfer. -/
theorem Settled.stage (h : s.Settled) (hidle : s.ldm.fsm.l2pDmaCurrentState = .idle)
    (hempty : s.dataFifo.ready = []) (hstart : i.ctrl.startL2p = true)
    (hlen : s.dataFifo.crossing.length = (i.ctrl.len.extractLsb' 2 30).toNat) :
    (i.ctrl.writeTransfer s.dataFifo.crossing).Stage gByteSwap 0 (L2pDmaPath.step gByteSwap s i) [] := by
  have hshape := h.shape
  have hreads := h.reads
  rw [L2pDmaMaster.Shape, hidle] at hshape
  rw [ReadsInPacket, hidle] at hreads
  have hnone : s.dataFifo.empty = true := by rw [AsyncFifo.empty, hempty, List.isEmpty_nil]
  have hregs : (L2pDmaPath.step gByteSwap s i).ldm.pktGen =
      { s.ldm.pktGen with
        l2pLenCnt := i.ctrl.len.extractLsb' 2 30
        l2pAddressH := i.ctrl.hostAddrH
        l2pAddressL := i.ctrl.hostAddrL
        l2pByteSwap := i.ctrl.byteSwap } := by
    simp [L2pDmaPath.step, L2pDmaMaster.step, L2pDmaMaster.pPktGen, ldmIn, hidle, hstart]
  have hdone : (L2pDmaPath.step gByteSwap s i).ldm.fsm.dmaCtrlDone = false := by
    simp [L2pDmaPath.step, L2pDmaMaster.step, L2pDmaMaster.pPktFsm, hidle]
  refine ⟨rfl, by simp, by simp [hdone], by rw [hregs]; rfl, by rw [hregs]; rfl, ?_⟩
  have hstate : (L2pDmaPath.step gByteSwap s i).ldm.fsm.l2pDmaCurrentState = .idle := by
    simp [L2pDmaPath.step, L2pDmaMaster.step, L2pDmaMaster.pPktFsm, ldmIn, hidle, hnone]
  simp only [AtState, hstate]
  refine ⟨rfl, ?_, ?_, fun _ => ⟨?_, ?_, h.gnt_of_idle hidle⟩⟩
  · simp [L2pDmaPath.step, L2pDmaMaster.step, L2pDmaMaster.pPktFsm, hidle]
  · rw [L2pDmaPath.step, AsyncFifo.contents_arrive, hreads, AsyncFifo.read_false, AsyncFifo.contents, hempty]
    rfl
  · rw [hregs]
    exact hlen.symm
  · simpa [L2pDmaPath.step, L2pDmaMaster.step, L2pDmaMaster.pPktFsm, ldmIn, hidle, hnone] using hshape.2

/-- **L2P transfers under back-pressure.**  Take an order of `n` words in any idle state
that can be reached from reset without an abort, with the data FIFO empty and `n` words on
their way to it, and any calm run in which no stall comes in `L2P_DATA` with more than two
words of the packet to go.  In every state of this run the transfer survives. -/
theorem payload_survives (gByteSwap : Bool) (addrFifoDin : Word) (dataFifoValid : Bool) (q : Word)
    (ws : List Word) (hs : List L2pDmaPathIn) (i : L2pDmaPathIn) (is : List L2pDmaPathIn) :
    let s := run (step gByteSwap) (reset addrFifoDin dataFifoValid q ws) hs
    Always (step gByteSwap) (fun _ i => i.ctrl.abort = false)
      (reset addrFifoDin dataFifoValid q ws) hs →
    s.ldm.fsm.l2pDmaCurrentState = .idle → s.dataFifo.ready = [] →
    i.ctrl.startL2p = true →
    s.dataFifo.crossing.length = (i.ctrl.len.extractLsb' 2 30).toNat →
    Always (step gByteSwap) (fun s i => Calm s i ∧ Smooth s i) (step gByteSwap s i) is →
    (i.ctrl.writeTransfer s.dataFifo.crossing).Survives gByteSwap
      (run (step gByteSwap) (step gByteSwap s i) is) (emitted gByteSwap (step gByteSwap s i) is) := by
  intro s hquiet hidle hempty hstart hlen hcalm
  have hsettled : s.Settled :=
    invariant_run (fun _ _ h habort => h.step habort) hquiet
      (reset_settled addrFifoDin dataFifoValid q ws)
  obtain ⟨k, hstage⟩ := (hsettled.stage hidle hempty hstart hlen).run hcalm
  exact hstage.survives

/-! ### Transfers from reset -/

/-- The order of an L2P transfer of `len` bytes to the host address `addrL`. -/
def orderEdge (addrL len : Word) : L2pDmaPathIn where
  ctrl := { DmaCtrl.quiet with hostAddrL := addrL, len := len, startL2p := true }
  lWrRdy := 0b11#2
  l2pRdy := true
  addrFifoFull := false
  arrive := 0
  wbm := ⟨false, false, 0, false⟩
  pdm := ⟨false, false, 0, false⟩

/-- A cycle in which any number of words may arrive, with or without a stall. -/
def dataEdge (l2pRdy : Bool) : L2pDmaPathIn where
  ctrl := .quiet
  lWrRdy := 0b11#2
  l2pRdy := l2pRdy
  addrFifoFull := false
  arrive := 128
  wbm := ⟨false, false, 0, false⟩
  pdm := ⟨false, false, 0, false⟩

/-- Three words, and a stall of one cycle when the first of them is at the output of the FIFO:
the second word never reaches the host. -/
theorem stall_loses_word :
    let i := orderEdge 0x1000 12
    let s := step false (reset 0 false 0 [1, 2, 3]) i
    let is := (List.replicate 5 true ++ [false] ++ List.replicate 3 true).map dataEdge
    Always (step false) Calm s is ∧
      (run (step false) s is).ldm.fsm.dmaCtrlDone = true ∧
      packets (emitted false s is) = [[writeHeader false 3, 0x1000, 1, 3]] ∧
      ¬ (i.ctrl.writeTransfer [1, 2, 3]).Survives false (run (step false) s is)
        (emitted false s is) := by
  refine ⟨by decide +kernel, by decide +kernel, by decide +kernel, fun h => ?_⟩
  have hall := h.complete (by decide +kernel)
  revert hall
  decide +kernel

/-- Stalls with two words to go and with one word to go. -/
theorem payload_survives_stalls :
    let s := step false (reset 0 false 0 [1, 2, 3]) (orderEdge 0x1000 12)
    let is := (List.replicate 6 true ++ [false, false, true, false, true]).map dataEdge
    (packets (emitted false s is)).flatMap payload = [1, 2, 3] :=
  (payload_survives false 0 false 0 [1, 2, 3] [] (orderEdge 0x1000 12)
    ((List.replicate 6 true ++ [false, false, true, false, true]).map dataEdge) trivial rfl rfl rfl
    rfl (by decide +kernel)).complete (by decide +kernel)

end L2pDmaPath

end Gn4124Core
