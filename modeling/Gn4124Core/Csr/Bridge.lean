import Gn4124Core.Clocked.Flow
import Gn4124Core.Clocked.Framing
import Gn4124Core.Rtl.WbMaster32

/-!
# The CSR bridge executes every request once and in order

A request flows through `to_wb_fifo` to the Wishbone bus, and the data of a read flows back
through `from_wb_fifo` into a completion.  On the way there are four stages, each of which
conserves what it takes:

* requests wait until a Wishbone cycle starts for them (`waiting`);
* the cycle on the bus is the request until it is acknowledged (`current`);
* the data of an acknowledged read waits to be pushed (`unpushed`);
* a pushed word waits to be sent (`unsent`).

`Legal` says of each FSM state which word has been popped from a FIFO and which is still to be
popped; that is all the invariant there is.  The acknowledges, the stalls, the grants, the
ready lines and the latencies of the FIFOs are all free.
-/

namespace Gn4124Core

open Clocked

/-- A register access of the host, under its Wishbone address. -/
inductive CsrRequest where
  | write (addr : BitVec 31) (data : Word)
  | read (addr : BitVec 31)
deriving DecidableEq

/-- The requests that the decoder hands over in one cycle. -/
def PdWbm.requests (pd : PdWbm) : List CsrRequest :=
  if pd.targetMwr && pd.dataValid then [.write (wbAddr pd.addr) pd.data]
  else if pd.targetMrd && pd.addrStart then [.read (wbAddr pd.addr)]
  else []

/-- The request in a word of `to_wb_fifo`; a read leaves the data field as it was. -/
def WbRequest.csr (r : WbRequest) : CsrRequest :=
  if r.rw then .write r.addr r.data else .read r.addr

/-- The request on the Wishbone lines. -/
def WbmWb.request (s : WbmWb) : CsrRequest :=
  if s.wbWe then .write s.wbAdr s.wbDatO else .read s.wbAdr

/-- The data of an acknowledged cycle, if it is a read. -/
def readData (cycle : CsrRequest × Word) : Option Word :=
  match cycle.1 with
  | .read _ => some cycle.2
  | .write _ _ => none

namespace WbMaster32

/-! ## What an observer sees -/

section Observers

variable (s : WbMaster32) (t : WbmTick)

/-- The requests handed over by the decoder. -/
def requested (_ : WbMaster32) (t : WbmTick) : List CsrRequest :=
  match t.clk with
  | some p => p.pd.requests
  | none => []

/-- The Wishbone cycles, at the edge that raises `wb_cyc_o`. -/
def started : List CsrRequest :=
  if !s.wb.wbCyc && (s.stepWb t.wb).wbCyc then [(s.stepWb t.wb).request] else []

/-- The strobes that the Wishbone slave accepts. -/
def accepted : List CsrRequest :=
  match t.wb with
  | some p => if s.wb.wbCyc && s.wb.wbStb && !p.wbStall then [s.wb.request] else []
  | none => []

/-- The Wishbone cycles with the data on the bus, at the edge that samples the acknowledge. -/
def executed : List (CsrRequest × Word) :=
  match t.wb with
  | some p => if s.wb.wbCyc && p.wbAck then [(s.wb.request, p.wbDat)] else []
  | none => []

/-- The words pushed into `from_wb_fifo`. -/
def pushed : List Word :=
  match t.wb with
  | some _ => if s.wb.fromWbFifoWr then [s.wb.fromWbFifoDin] else []
  | none => []

/-- The words presented to the arbiter. -/
def presented : List (Bool × Word) :=
  match t.clk with
  | some p => (s.clk.step (s.clkIn p)).arb.word
  | none => []

/-- The words presented as the last of their packet. -/
def sent : List Word := (s.presented t).filterMap fun w => if w.1 then none else some w.2

end Observers

/-! ## What each stage holds -/

section Stages

variable (s : WbMaster32)

def unwritten : List WbRequest :=
  if s.clk.fromDecoder.toWbFifoWr then [s.clk.fromDecoder.toWbFifoDin] else []

/-- The request that has been popped for the next Wishbone cycle. -/
def fetched : List WbRequest := if s.wb.wishboneCurrentState = .cycle then [s.toWbFifo.q] else []

def waiting : List CsrRequest :=
  (s.fetched ++ (s.toWbFifo.contents ++ s.unwritten)).map WbRequest.csr

def current : List CsrRequest := if s.wb.wbCyc then [s.wb.request] else []

def unpushed : List Word := if s.wb.fromWbFifoWr then [s.wb.fromWbFifoDin] else []

/-- The word that has been popped for the completion under way. -/
def answer : List Word :=
  match s.clk.fsm.l2pReadCplCurrentState with
  | .idle => []
  | .header => if s.clk.fsm.fromWbFifoRd then [] else [s.fromWbFifo.q]
  | .data => [s.fromWbFifo.q]

def unsent : List Word := s.answer ++ s.fromWbFifo.contents

/-- What each FSM state says about the FIFO it reads. -/
structure Legal : Prop where
  wb : match s.wb.wishboneCurrentState with
    | .idle => s.wb.toWbFifoRd = false ∧ s.wb.wbCyc = false
    | .readFifo =>
        s.wb.toWbFifoRd = true ∧ s.toWbFifo.ready ≠ [] ∧ s.wb.wbCyc = false ∧
          s.wb.fromWbFifoWr = false
    | .cycle => s.wb.toWbFifoRd = false ∧ s.wb.wbCyc = false ∧ s.wb.fromWbFifoWr = false
    | .waitAck => s.wb.toWbFifoRd = false ∧ s.wb.wbCyc = true ∧ s.wb.fromWbFifoWr = false
  clk : match s.clk.fsm.l2pReadCplCurrentState with
    | .idle => s.clk.fsm.fromWbFifoRd = false
    | .header => (s.clk.fsm.fromWbFifoRd = true → s.fromWbFifo.ready ≠ []) ∧
        s.clk.fsm.wbmArbValid = false
    | .data => s.clk.fsm.fromWbFifoRd = false ∧ s.clk.fsm.wbmArbValid = true

end Stages

theorem reset_legal (toWbFifoDout : WbRequest) (fromWbFifoDout : Word) :
    Legal (reset toWbFifoDout fromWbFifoDout) :=
  ⟨⟨rfl, rfl⟩, rfl⟩

variable {s : WbMaster32} {t : WbmTick}

/-! ## The invariant -/

theorem Legal.read_toWb (h : s.Legal) (hrd : s.wb.toWbFifoRd = true) : s.toWbFifo.ready ≠ [] := by
  have hwb := h.wb
  cases hstate : s.wb.wishboneCurrentState <;> simp_all

theorem Legal.read_fromWb (h : s.Legal) (hrd : s.clk.fsm.fromWbFifoRd = true) :
    s.fromWbFifo.ready ≠ [] := by
  have hclk := h.clk
  cases hstate : s.clk.fsm.l2pReadCplCurrentState <;> simp_all

theorem Legal.step (h : s.Legal) : (step s t).Legal := by
  obtain ⟨hwb, hclk⟩ := h
  constructor
  · cases hedge : t.wb with
    | none =>
        simp only [WbMaster32.step, stepWb, hedge]
        cases hstate : s.wb.wishboneCurrentState with
        | readFifo =>
            -- the request may wait for its clock, and no other edge takes a word away
            simp only [hstate] at hwb
            obtain ⟨hrd, hready, hcyc, hwr⟩ := hwb
            exact ⟨hrd, AsyncFifo.tick_false_ready_ne_nil hready _ _ _, hcyc, hwr⟩
        | idle => simpa only [hstate] using hwb
        | cycle => simpa only [hstate] using hwb
        | waitAck => simpa only [hstate] using hwb
    | some p =>
        simp only [WbMaster32.step, stepWb, hedge, WbmWb.step]
        cases hstate : s.wb.wishboneCurrentState with
        | idle =>
            simp only [hstate] at hwb
            cases hempty : s.toWbFifo.empty with
            | true => simp [wbIn, hempty, hwb.1]
            | false =>
                have hready := AsyncFifo.tick_false_ready_ne_nil (AsyncFifo.ready_ne_nil hempty)
                simp [wbIn, hempty, hwb.1, hready]
        | readFifo =>
            simp only [hstate] at hwb
            simp [hwb]
        | cycle =>
            simp only [hstate] at hwb
            simp [hwb]
        | waitAck =>
            simp only [hstate] at hwb
            cases hack : p.wbAck <;> simp [wbIn, hack, hwb]
  · cases hedge : t.clk with
    | none =>
        simp only [WbMaster32.step, stepClk, hedge]
        cases hstate : s.clk.fsm.l2pReadCplCurrentState with
        | header =>
            simp only [hstate] at hclk
            obtain ⟨hready, hvalid⟩ := hclk
            exact ⟨fun hrd => AsyncFifo.tick_false_ready_ne_nil (hready hrd) _ _ _, hvalid⟩
        | idle => simpa only [hstate] using hclk
        | data => simpa only [hstate] using hclk
    | some p =>
        simp only [WbMaster32.step, stepClk, hedge, WbmClk.step, WbmClk.pReadCplFsm]
        cases hstate : s.clk.fsm.l2pReadCplCurrentState with
        | idle =>
            simp only [hstate] at hclk
            cases hstart : !s.fromWbFifo.empty && p.pRdDRdy == 0b11#2 with
            | false => simp [clkIn, hstart, hclk]
            | true =>
                have hempty : s.fromWbFifo.empty = false := by
                  simp only [Bool.and_eq_true, Bool.not_eq_true'] at hstart
                  exact hstart.1
                have hready := AsyncFifo.tick_false_ready_ne_nil (AsyncFifo.ready_ne_nil hempty)
                simp [clkIn, hstart, hclk, hready]
        | header =>
            simp only [hstate] at hclk
            cases hgnt : p.arbWbmGnt <;> simp [clkIn, hgnt, hclk]
        | data =>
            simp only [hstate] at hclk
            simp [hclk]

/-! ## The stages conserve what they take -/

section Edges

variable (s : WbMaster32) (t : WbmTick)

/-- The words written into `to_wb_fifo`, and those read from it. -/
def writtenToWb : List WbRequest :=
  if t.clk.isSome && s.clk.fromDecoder.toWbFifoWr then [s.clk.fromDecoder.toWbFifoDin] else []

def readToWb : List WbRequest :=
  if t.wb.isSome && s.wb.toWbFifoRd then [(step s t).toWbFifo.q] else []

/-- The words read from `from_wb_fifo`. -/
def readFromWb : List Word :=
  if t.clk.isSome && s.clk.fsm.fromWbFifoRd then [(step s t).fromWbFifo.q] else []

end Edges

theorem unwritten_conserves : Conserves (s.requested t) ((s.writtenToWb t).map WbRequest.csr)
    (s.unwritten.map WbRequest.csr) ((step s t).unwritten.map WbRequest.csr) := by
  unfold Conserves
  cases hedge : t.clk with
  | none => simp [requested, writtenToWb, unwritten, step, stepClk, hedge]
  | some p =>
      have hrequest : ((step s t).unwritten).map WbRequest.csr = p.pd.requests := by
        simp only [unwritten, step, stepClk, hedge, WbmClk.step, WbmClk.pFromDecoder, clkIn,
          PdWbm.requests]
        by_cases hmwr : (p.pd.targetMwr && p.pd.dataValid) = true
        · simp only [hmwr, if_true]
          rfl
        · by_cases hmrd : (p.pd.targetMrd && p.pd.addrStart) = true
          · simp only [hmwr, hmrd, if_true]
            rfl
          · simp only [hmwr, hmrd]
            rfl
      have hwritten : s.writtenToWb t = s.unwritten := by simp [writtenToWb, unwritten, hedge]
      rw [hrequest, hwritten, requested, hedge]

theorem toWbFifo_conserves (h : s.Legal) : Conserves (s.writtenToWb t) (s.readToWb t)
    s.toWbFifo.contents (step s t).toWbFifo.contents := by
  refine AsyncFifo.contents_tick (fun hrd => h.read_toWb ?_) _ _ _
  rw [Bool.and_eq_true] at hrd
  exact hrd.2

theorem fromWbFifo_conserves (h : s.Legal) : Conserves (s.pushed t) (s.readFromWb t)
    s.fromWbFifo.contents (step s t).fromWbFifo.contents := by
  have hpushed : s.pushed t =
      if t.wb.isSome && s.wb.fromWbFifoWr then [s.wb.fromWbFifoDin] else [] := by
    cases hedge : t.wb <;> simp [pushed, hedge]
  rw [hpushed]
  refine AsyncFifo.contents_tick (fun hrd => h.read_fromWb ?_) _ _ _
  rw [Bool.and_eq_true] at hrd
  exact hrd.2

/-- A popped request is the next Wishbone cycle. -/
theorem fetched_conserves (h : s.Legal) : Conserves ((s.readToWb t).map WbRequest.csr) (s.started t)
    (s.fetched.map WbRequest.csr) ((step s t).fetched.map WbRequest.csr) := by
  have hwb := h.wb
  unfold Conserves
  cases hedge : t.wb with
  | none =>
      have hq : (step s t).toWbFifo.q = s.toWbFifo.q := by simp [step, hedge]
      have hsame : (step s t).fetched = s.fetched := by
        simp only [fetched, hq]
        simp [step, stepWb, hedge]
      rw [hsame, started, readToWb, hedge]
      simp [stepWb]
  | some p =>
      cases hstate : s.wb.wishboneCurrentState with
      | idle =>
          simp only [hstate] at hwb
          cases hempty : s.toWbFifo.empty <;>
            simp [started, fetched, readToWb, step, stepWb, WbmWb.step, wbIn, hedge, hstate, hwb,
              hempty]
      | readFifo =>
          simp only [hstate] at hwb
          simp [started, fetched, readToWb, step, stepWb, WbmWb.step, hedge, hstate, hwb]
      | cycle =>
          simp only [hstate] at hwb
          simp [started, fetched, readToWb, step, stepWb, WbmWb.step, wbIn, WbmWb.request,
            WbRequest.csr, hedge, hstate, hwb]
      | waitAck =>
          simp only [hstate] at hwb
          cases hack : p.wbAck <;>
            simp [started, fetched, readToWb, step, stepWb, WbmWb.step, wbIn, hedge, hstate, hwb,
              hack]

theorem waiting_conserves (h : s.Legal) :
    Conserves (s.requested t) (s.started t) s.waiting (step s t).waiting := by
  have hfifo := (toWbFifo_conserves (t := t) h).map WbRequest.csr
  have hall := (fetched_conserves (t := t) h).comp (hfifo.comp unwritten_conserves)
  simpa only [waiting, List.map_append] using hall

/-- The lines keep the request until it is acknowledged. -/
theorem current_conserves (h : s.Legal) :
    Conserves (s.started t) ((s.executed t).map Prod.fst) s.current (step s t).current := by
  have hwb := h.wb
  unfold Conserves
  cases hedge : t.wb with
  | none => simp [started, executed, current, step, stepWb, hedge]
  | some p =>
      cases hstate : s.wb.wishboneCurrentState with
      | waitAck =>
          simp only [hstate] at hwb
          cases hack : p.wbAck <;>
            simp [started, executed, current, step, stepWb, WbmWb.step, wbIn, WbmWb.request, hedge,
              hstate, hwb, hack]
      | idle =>
          simp only [hstate] at hwb
          simp [started, executed, current, step, stepWb, WbmWb.step, hedge, hstate, hwb]
      | readFifo =>
          simp only [hstate] at hwb
          simp [started, executed, current, step, stepWb, WbmWb.step, hedge, hstate, hwb]
      | cycle =>
          simp only [hstate] at hwb
          simp [started, executed, current, step, stepWb, WbmWb.step, hedge, hstate, hwb]

/-- The request whose strobe has not been accepted. -/
def strobed (s : WbMaster32) : List CsrRequest :=
  if s.wb.wbCyc && s.wb.wbStb then [s.wb.request] else []

theorem strobed_drops (h : s.Legal) :
    (s.accepted t ++ (step s t).strobed).Sublist (s.strobed ++ s.started t) := by
  have hwb := h.wb
  cases hedge : t.wb with
  | none => simp [started, accepted, strobed, step, stepWb, hedge]
  | some p =>
      cases hstate : s.wb.wishboneCurrentState with
      | waitAck =>
          -- an acknowledge ends the cycle even if the strobe is still stalled, which drops it
          simp only [hstate] at hwb
          cases hack : p.wbAck <;> cases hstall : p.wbStall <;> cases hstb : s.wb.wbStb <;>
            simp [started, accepted, strobed, step, stepWb, WbmWb.step, wbIn, WbmWb.request, hedge,
              hstate, hwb, hack, hstall, hstb]
      | idle =>
          simp only [hstate] at hwb
          simp [started, accepted, strobed, step, stepWb, WbmWb.step, hedge, hstate, hwb]
      | readFifo =>
          simp only [hstate] at hwb
          simp [started, accepted, strobed, step, stepWb, WbmWb.step, hedge, hstate, hwb]
      | cycle =>
          simp only [hstate] at hwb
          simp [started, accepted, strobed, step, stepWb, WbmWb.step, hedge, hstate, hwb]

/-- The data of an acknowledged read is pushed at the next edge of `wb_clk_i`, once. -/
theorem unpushed_conserves (h : s.Legal) :
    Conserves ((s.executed t).filterMap readData) (s.pushed t) s.unpushed (step s t).unpushed := by
  have hwb := h.wb
  unfold Conserves
  cases hedge : t.wb with
  | none => simp [executed, pushed, unpushed, step, stepWb, hedge]
  | some p =>
      cases hstate : s.wb.wishboneCurrentState with
      | waitAck =>
          simp only [hstate] at hwb
          cases hack : p.wbAck <;> cases hwe : s.wb.wbWe <;>
            simp [executed, pushed, unpushed, step, stepWb, WbmWb.step, wbIn, WbmWb.request,
              readData, hedge, hstate, hwb, hack, hwe]
      | idle =>
          simp only [hstate] at hwb
          simp [executed, pushed, unpushed, step, stepWb, WbmWb.step, hedge, hstate, hwb]
      | readFifo =>
          simp only [hstate] at hwb
          simp [executed, pushed, unpushed, step, stepWb, WbmWb.step, hedge, hstate, hwb]
      | cycle =>
          simp only [hstate] at hwb
          simp [executed, pushed, unpushed, step, stepWb, WbmWb.step, hedge, hstate, hwb]

/-- A popped word is the data word of the next completion. -/
theorem answer_conserves (h : s.Legal) :
    Conserves (s.readFromWb t) (s.sent t) s.answer (step s t).answer := by
  have hclk := h.clk
  unfold Conserves
  cases hedge : t.clk with
  | none =>
      simp [sent, presented, readFromWb, answer, hedge, step, stepClk]
  | some p =>
      cases hstate : s.clk.fsm.l2pReadCplCurrentState with
      | idle =>
          simp only [hstate] at hclk
          cases hstart : !s.fromWbFifo.empty && p.pRdDRdy == 0b11#2 <;>
            simp [sent, presented, SourceLines.word, readFromWb, answer, step, stepClk, WbmClk.step,
              WbmClk.pReadCplFsm, WbmClk.arb, clkIn, hedge, hstate, hclk, hstart]
      | header =>
          simp only [hstate] at hclk
          obtain ⟨-, hvalid⟩ := hclk
          cases hgnt : p.arbWbmGnt <;> cases hrd : s.clk.fsm.fromWbFifoRd <;>
            simp [sent, presented, SourceLines.word, readFromWb, answer, step, stepClk, WbmClk.step,
              WbmClk.pReadCplFsm, WbmClk.arb, clkIn, hedge, hstate, hvalid, hgnt, hrd]
      | data =>
          simp only [hstate] at hclk
          simp [sent, presented, SourceLines.word, readFromWb, answer, step, stepClk, WbmClk.step,
            WbmClk.pReadCplFsm, WbmClk.arb, clkIn, hedge, hstate, hclk]

theorem unsent_conserves (h : s.Legal) :
    Conserves (s.pushed t) (s.sent t) s.unsent (step s t).unsent :=
  (answer_conserves h).comp (fromWbFifo_conserves h)

/-! ## Completions -/

/-- Whole completions, and the header of the one under way. -/
structure Completions (s : WbMaster32) (words : List (Bool × Word)) : Prop where
  whole : ∀ p ∈ packets words, ∃ cid d, p = [completionHeader cid, d]
  openPacket : match s.clk.fsm.l2pReadCplCurrentState with
    | .data => ∃ cid, Clocked.openPacket words = [completionHeader cid]
    | _ => Clocked.openPacket words = []

/-- A step presents a header, or the data word behind it, or nothing. -/
theorem presented_cases (h : s.Legal) :
    (s.presented t = [] ∧ ((step s t).clk.fsm.l2pReadCplCurrentState = .data ↔
        s.clk.fsm.l2pReadCplCurrentState = .data)) ∨
      (s.presented t = [(true, completionHeader s.clk.p2lCid)] ∧
        s.clk.fsm.l2pReadCplCurrentState = .header ∧
        (step s t).clk.fsm.l2pReadCplCurrentState = .data) ∨
      (s.presented t = [(false, s.fromWbFifo.q)] ∧ s.clk.fsm.l2pReadCplCurrentState = .data ∧
        (step s t).clk.fsm.l2pReadCplCurrentState = .idle) := by
  have hclk := h.clk
  cases hedge : t.clk with
  | none => exact .inl ⟨by simp [presented, hedge], by simp [step, stepClk, hedge]⟩
  | some p =>
      cases hstate : s.clk.fsm.l2pReadCplCurrentState with
      | idle =>
          left
          cases hstart : !s.fromWbFifo.empty && p.pRdDRdy == 0b11#2 <;>
            simp [presented, SourceLines.word, step, stepClk, WbmClk.step, WbmClk.pReadCplFsm,
              WbmClk.arb, clkIn, hedge, hstate, hstart]
      | header =>
          simp only [hstate] at hclk
          cases hgnt : p.arbWbmGnt with
          | false =>
              left
              simp [presented, SourceLines.word, step, stepClk, WbmClk.step, WbmClk.pReadCplFsm,
                WbmClk.arb, clkIn, hedge, hstate, hclk.2, hgnt]
          | true =>
              right
              left
              simp [presented, SourceLines.word, step, stepClk, WbmClk.step, WbmClk.pReadCplFsm,
                WbmClk.arb, clkIn, hedge, hstate, hgnt]
      | data =>
          simp only [hstate] at hclk
          right
          right
          simp [presented, SourceLines.word, step, stepClk, WbmClk.step, WbmClk.pReadCplFsm,
            WbmClk.arb, clkIn, hedge, hstate, hclk.2]

theorem Completions.step {words : List (Bool × Word)} (hwords : Completions s words)
    (h : s.Legal) : Completions (step s t) (words ++ s.presented t) := by
  obtain ⟨hwhole, hopen⟩ := hwords
  rcases presented_cases (t := t) h with ⟨hnone, hsame⟩ | ⟨hheader, hstate, hnext⟩ |
    ⟨hdata, hstate, hnext⟩
  · rw [hnone, List.append_nil]
    refine ⟨hwhole, ?_⟩
    by_cases hstate : s.clk.fsm.l2pReadCplCurrentState = .data
    · have hnext := hsame.mpr hstate
      rw [hstate] at hopen
      rw [hnext]
      exact hopen
    · have hnext := mt hsame.mp hstate
      have hopen' : Clocked.openPacket words = [] := by
        cases hcase : s.clk.fsm.l2pReadCplCurrentState <;> simp_all
      cases hcase : (WbMaster32.step s t).clk.fsm.l2pReadCplCurrentState with
      | idle => exact hopen'
      | header => exact hopen'
      | data => exact absurd hcase hnext
  · rw [hheader]
    rw [hstate] at hopen
    refine ⟨by rwa [packets_more], ?_⟩
    rw [hnext]
    exact ⟨s.clk.p2lCid, by rw [openPacket_more, hopen]; rfl⟩
  · rw [hdata]
    rw [hstate] at hopen
    obtain ⟨cid, hheader⟩ := hopen
    refine ⟨?_, by rw [hnext, openPacket_last]⟩
    intro p hp
    rw [packets_last, List.mem_append, List.mem_singleton] at hp
    rcases hp with hp | rfl
    · exact hwhole p hp
    · exact ⟨cid, s.fromWbFifo.q, by rw [hheader]; rfl⟩

/-- The data words of the completions, each behind its header. -/
def completionData (words : List (Bool × Word)) : List Word := (packets words).flatMap (List.drop 1)

theorem completionData_eq {words : List (Bool × Word)} (hwords : Completions s words) :
    completionData words = words.filterMap fun w => if w.1 then none else some w.2 := by
  have hsplit := flagged_packets words
  have hwhole := hwords.whole
  conv_rhs => rw [← hsplit]
  rw [List.filterMap_append, completionData]
  generalize packets words = ps at hwhole
  have hnone : ((openPacket words).map fun w => (true, w)).filterMap
      (fun w => if w.1 then none else some w.2) = [] := by
    rw [List.filterMap_map]
    simp
  -- a completion is a header with more to come, and one data word
  rw [hnone, List.append_nil]
  induction ps with
  | nil => rfl
  | cons p ps ih =>
      obtain ⟨cid, d, rfl⟩ := hwhole p (List.mem_cons_self)
      rw [List.flatMap_cons, List.flatMap_cons, List.filterMap_append,
        ih fun p' hp' => hwhole p' (List.mem_cons_of_mem _ hp')]
      rfl

end WbMaster32

end Gn4124Core
