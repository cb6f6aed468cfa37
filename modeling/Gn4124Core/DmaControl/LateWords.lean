import Gn4124Core.DmaChain.Abort
import Gn4124Core.P2lDma.ReadRequests

/-!
# Completions that come after an abort

The DMA controller and the P2L DMA master, with the orders that the master accepts, transfers
and item fetches, numbered one after the other.  `owed` has the number of the order of every
completion word that the host has still to send, `aborted` the orders that the host has
aborted with a read request sent, and `late` those of them that a later start has followed.
Every word comes under the number of the order it answers, which the master does not see.

The master recognises the words of a completion by the type of the packet.  What it does with one is
seen in the registers that an edge loads (`received`): it leaves a word alone if they are the same
as after an edge without the word.

* While the master does not wait for any words, it does not look at the decoder
  (`P2lDmaMaster.step_of_not_waiting`); while it waits, it counts every word
  (`P2lDmaMaster.p2lDataCnt_step_word`).  So a late word is left alone at an edge if and only if it
  does not come while the master waits (`leftAlone_iff`).
* A run in which all late words are left alone is, for the controller and the master, the run in
  which they do not come at all (`spared_run`), and only such a run is (`inTime_of_spared`).
* A host can see to that: it starts nothing before the master is idle and all the words of the
  aborted order have come (`Waited`, `no_late_word`).
-/

namespace Gn4124Core

open Clocked

namespace P2lDmaMaster

variable (s : P2lDmaMaster) (i : P2lDmaIn)

/-- What a word of a completion can change: the input of `to_wb_fifo`, the fields of the next item,
and the number of words that the current read request still waits for. -/
def received : Bool × ToWbWord × DmaItem × BitVec 11 :=
  (s.addrCnt.toWbFifoWr, s.addrCnt.toWbFifoDin, s.nextItem, s.p2lDataCnt)

/-- The master accepts an order. -/
def accepts : Bool :=
  decide (s.fsm.p2lDmaCurrentState = .idle) && (i.ctrl.startP2l || i.ctrl.startNext)

/-- The last address word of a read request is handed to the arbiter. -/
def sendsRequest : Bool := decide (s.fsm.p2lDmaCurrentState = .addrL)

variable {s i}

/-- Outside `P2L_WAIT_READ_COMPLETION` the master does not look at the decoder. -/
theorem step_of_not_waiting {gByteSwap : Bool}
    (h : s.fsm.p2lDmaCurrentState ≠ .waitReadCompletion) (pd : PdPdm) :
    s.step gByteSwap i = s.step gByteSwap { i with pd := pd } := by
  cases hstate : s.fsm.p2lDmaCurrentState with
  | waitReadCompletion => exact absurd hstate h
  | _ =>
      simp [step, pReadReq, pReadReqFsm, pRecvDataCnt, pNextItem, pAddrCnt, storesItem, storesWord,
        hstate]

/-- In `P2L_WAIT_READ_COMPLETION` every word of a completion is counted. -/
theorem p2lDataCnt_step_word {gByteSwap : Bool}
    (h : s.fsm.p2lDmaCurrentState = .waitReadCompletion) (hword : i.pd.completionWord = true) :
    (s.step gByteSwap i).p2lDataCnt = s.p2lDataCnt - 1 := by
  show s.pRecvDataCnt i = _
  unfold PdPdm.completionWord at hword
  rw [pRecvDataCnt, h]
  exact if_pos hword

theorem p2lDataCnt_step_noWord {gByteSwap : Bool}
    (h : s.fsm.p2lDmaCurrentState = .waitReadCompletion) (hword : i.pd.completionWord = false) :
    (s.step gByteSwap i).p2lDataCnt = s.p2lDataCnt := by
  show s.pRecvDataCnt i = _
  unfold PdPdm.completionWord at hword
  rw [pRecvDataCnt, h]
  exact if_neg (ne_true_of_eq_false hword)

/-- An idle master stays idle unless it accepts an order. -/
theorem idle_step {gByteSwap : Bool} (h : s.fsm.p2lDmaCurrentState = .idle)
    (hnone : s.accepts i = false) : (s.step gByteSwap i).fsm.p2lDmaCurrentState = .idle := by
  show (s.pReadReqFsm i).p2lDmaCurrentState = .idle
  simp only [accepts, h, decide_true, Bool.true_and] at hnone
  simp [pReadReqFsm, h, hnone]

end P2lDmaMaster

/-- The engine with its orders numbered. -/
structure AnsweredEngine where
  engine : DmaEngine
  orders : ℕ
  requested : Bool
  aborted : List ℕ
  late : List ℕ
  owed : List ℕ
deriving DecidableEq

/-- The inputs of one edge, and the number of the order that a completion word answers. -/
structure AnsweredIn where
  edge : DmaEngineIn
  answers : ℕ
deriving DecidableEq

/-- The edge without a word from the decoder. -/
def AnsweredIn.withoutWord (i : AnsweredIn) : AnsweredIn :=
  { i with edge := { i.edge with pd := { i.edge.pd with dataValid := false, dataLast := false } } }

namespace AnsweredEngine

variable (gByteSwap : Bool) (s : AnsweredEngine) (i : AnsweredIn)

def controller : DmaController := s.engine.controller

def master : P2lDmaMaster := s.engine.master

/-- What the P2L DMA master reads in one clock cycle. -/
def masterIn : P2lDmaIn := s.engine.masterIn i.edge

/-- The words of a read request that is being sent. -/
def requestedWords : List ℕ :=
  if s.master.sendsRequest then
    List.replicate (wordsAnnounced s.master.readReq.l2pLenHeader) s.orders
  else []

/-- The controller starts something. -/
def pulse : Bool :=
  s.controller.fsm.dmaCtrlStartL2p || s.controller.fsm.dmaCtrlStartP2l ||
    s.controller.fsm.dmaCtrlStartNext

/-- The host aborts the order that the master works on, after a read request. -/
def AbortsRead : Prop :=
  s.engine.Aborts ∧ s.requested = true ∧ s.master.fsm.p2lDmaCurrentState ≠ .idle

instance : Decidable s.AbortsRead := inferInstanceAs (Decidable (_ ∧ _))

/-- One edge of `clk_i`. -/
def step : AnsweredEngine where
  engine := s.engine.step gByteSwap i.edge
  orders := if s.master.accepts (s.masterIn i) then s.orders + 1 else s.orders
  requested := !s.master.accepts (s.masterIn i) && (s.requested || s.master.sendsRequest)
  aborted := if s.AbortsRead then s.orders :: s.aborted else s.aborted
  late := if s.pulse then s.aborted else s.late
  owed := (if i.edge.pd.completionWord then s.owed.erase i.answers else s.owed) ++ s.requestedWords

def reset : AnsweredEngine := ⟨.reset, 0, false, [], [], []⟩

/-- The decoder strobes a word of an order that was aborted before the last start. -/
def Late : Prop := i.edge.pd.completionWord = true ∧ i.answers ∈ s.late

instance : Decidable (s.Late i) := inferInstanceAs (Decidable (_ ∧ _))

/-- A late word is neither written into `to_wb_fifo` nor stored in a field of the next item, and it
is not counted: the registers after the edge are the same as without the word. -/
def LeftAlone : Prop :=
  s.Late i → (s.step gByteSwap i).master.received = (s.step gByteSwap i.withoutWord).master.received

/-- No late word comes while the master waits for the words of a completion. -/
def InTime : Prop := s.Late i → s.master.fsm.p2lDmaCurrentState ≠ .waitReadCompletion

instance : Decidable (s.LeftAlone gByteSwap i) := inferInstanceAs (Decidable (_ → _))

instance : Decidable (s.InTime i) := inferInstanceAs (Decidable (_ → _))

/-- One edge of `clk_i`, at which no late word comes. -/
def sparedStep : AnsweredEngine := s.step gByteSwap (if s.Late i then i.withoutWord else i)

/-- The host sends the words it owes, in any order, and no other. -/
def Honest : Prop := i.edge.pd.completionWord = true → i.answers ∈ s.owed

/-- Nothing is started before the master is idle and all words of the aborted orders have come. -/
def Drained : Prop :=
  s.pulse = true → s.master.fsm.p2lDmaCurrentState = .idle ∧ ∀ n ∈ s.owed, n ∉ s.aborted

instance : Decidable (s.Honest i) := inferInstanceAs (Decidable (_ → _))

instance : Decidable s.Drained := inferInstanceAs (Decidable (_ → _))

variable {gByteSwap s i} {is : List AnsweredIn}

/-! ## One edge -/

theorem engine_step_withoutWord (h : s.master.fsm.p2lDmaCurrentState ≠ .waitReadCompletion) :
    (s.step gByteSwap i).engine = (s.step gByteSwap i.withoutWord).engine := by
  have hmaster : (s.step gByteSwap i).engine.master = (s.step gByteSwap i.withoutWord).engine.master :=
    P2lDmaMaster.step_of_not_waiting h _
  have hcontroller : (s.step gByteSwap i).engine.controller =
      (s.step gByteSwap i.withoutWord).engine.controller := rfl
  cases hwith : (s.step gByteSwap i).engine
  cases hwithout : (s.step gByteSwap i.withoutWord).engine
  rw [hwith, hwithout] at hmaster hcontroller
  congr

/-- A word that comes while the master waits is counted. -/
theorem received_step_withoutWord (hword : i.edge.pd.completionWord = true)
    (hwait : s.master.fsm.p2lDmaCurrentState = .waitReadCompletion) :
    (s.step gByteSwap i).master.received ≠ (s.step gByteSwap i.withoutWord).master.received := by
  intro hsame
  have hcount : (s.step gByteSwap i).master.p2lDataCnt =
      (s.step gByteSwap i.withoutWord).master.p2lDataCnt := congrArg (fun r => r.2.2.2) hsame
  have hone : (s.step gByteSwap i).master.p2lDataCnt = s.master.p2lDataCnt - 1 :=
    P2lDmaMaster.p2lDataCnt_step_word hwait hword
  have hnone : (s.step gByteSwap i.withoutWord).master.p2lDataCnt = s.master.p2lDataCnt :=
    P2lDmaMaster.p2lDataCnt_step_noWord hwait rfl
  rw [hone, hnone] at hcount
  bv_omega

theorem leftAlone_iff : s.LeftAlone gByteSwap i ↔ s.InTime i := by
  refine forall_congr' fun hlate => ?_
  constructor
  · intro hsame hwait
    exact received_step_withoutWord hlate.1 hwait hsame
  · intro hwait
    exact congrArg (fun e : DmaEngine => e.master.received) (engine_step_withoutWord hwait)

/-! ## Runs without the late words -/

/-- The same but for the words that the host owes. -/
def SameEngine (s t : AnsweredEngine) : Prop := ∃ owed, t = { s with owed := owed }

theorem SameEngine.engine {t : AnsweredEngine} (h : SameEngine s t) : s.engine = t.engine := by
  obtain ⟨owed, rfl⟩ := h
  rfl

theorem SameEngine.step {t : AnsweredEngine} (h : SameEngine s t) (hintime : s.InTime i) :
    SameEngine (s.step gByteSwap i) (t.sparedStep gByteSwap i) := by
  obtain ⟨owed, rfl⟩ := h
  have hsame : ({ s with owed := owed } : AnsweredEngine).Late i ↔ s.Late i := Iff.rfl
  refine ⟨(sparedStep gByteSwap { s with owed := owed } i).owed, ?_⟩
  by_cases hlate : s.Late i
  · have hengine : (s.step gByteSwap i).engine = (s.step gByteSwap i.withoutWord).engine :=
      engine_step_withoutWord (hintime hlate)
    rw [sparedStep, if_pos (hsame.mpr hlate), hengine]
    rfl
  · rw [sparedStep, if_neg fun h => hlate (hsame.mp h)]
    rfl

theorem SameEngine.engine_of_late {t : AnsweredEngine} (h : SameEngine s t) (hlate : s.Late i) :
    (t.sparedStep gByteSwap i).engine = (s.step gByteSwap i.withoutWord).engine := by
  obtain ⟨owed, rfl⟩ := h
  have hlate' : ({ s with owed := owed } : AnsweredEngine).Late i := hlate
  rw [sparedStep, if_pos hlate']
  rfl

/-- If the late words come in time, they might as well not come. -/
theorem spared_run (h : Always (step gByteSwap) InTime reset is) :
    SameEngine (run (step gByteSwap) reset is) (run (sparedStep gByteSwap) reset is) := by
  refine run_induction (motive := fun js =>
    SameEngine (run (step gByteSwap) reset js) (run (sparedStep gByteSwap) reset js)) h ?_ ?_
  · exact ⟨[], rfl⟩
  · intro js i _ hi hbefore
    rw [run_concat, run_concat]
    exact hbefore.step hi

/-- The first late word that does not come in time makes a difference. -/
theorem inTime_of_spared (h : ∀ js, js <+: is →
    (run (step gByteSwap) reset js).engine = (run (sparedStep gByteSwap) reset js).engine) :
    Always (step gByteSwap) InTime reset is := by
  induction is using List.reverseRecOn with
  | nil => trivial
  | append_singleton js i ih =>
      have hbefore := ih fun js' hjs' => h js' (hjs'.trans (List.prefix_append js [i]))
      refine (always_concat ..).mpr ⟨hbefore, fun hlate hwait => ?_⟩
      have hlast := h (js ++ [i]) List.prefix_rfl
      rw [run_concat, run_concat, (spared_run hbefore).engine_of_late hlate] at hlast
      have hreceived := congrArg (fun e : DmaEngine => e.master.received) hlast
      exact received_step_withoutWord hlate.1 hwait hreceived

/-! ## A host that waits -/

/-- What holds in a run of an honest host that waits for the late words before it starts again. -/
structure Waited (s : AnsweredEngine) : Prop where
  numbered : ∀ n ∈ s.aborted, n ≤ s.orders
  before : ∀ n ∈ s.late, n ≤ s.orders
  current : s.master.fsm.p2lDmaCurrentState ≠ .idle → s.orders ∉ s.late
  owed : ∀ n ∈ s.owed, n ∉ s.late

theorem reset_waited : Waited reset := by
  constructor <;> simp [reset]

theorem accepts_of_not_pulse (h : s.pulse = false) : s.master.accepts (s.masterIn i) = false := by
  simp only [pulse, Bool.or_eq_false_iff] at h
  have hp2l : (s.masterIn i).ctrl.startP2l = false := h.1.2
  have hnext : (s.masterIn i).ctrl.startNext = false := h.2
  simp [P2lDmaMaster.accepts, hp2l, hnext]

theorem idle_of_step (h : (step gByteSwap s i).master.fsm.p2lDmaCurrentState ≠ .idle)
    (hnone : s.master.accepts (s.masterIn i) = false) :
    s.master.fsm.p2lDmaCurrentState ≠ .idle :=
  fun hidle => h (P2lDmaMaster.idle_step hidle hnone)

/-- The words of a read request are owed for the current order. -/
theorem mem_owed_step {n : ℕ} (h : n ∈ (step gByteSwap s i).owed) :
    n ∈ s.owed ∨ n = s.orders ∧ s.master.fsm.p2lDmaCurrentState ≠ .idle := by
  simp only [step, List.mem_append] at h
  rcases h with hleft | hnew
  · left
    split_ifs at hleft
    · exact List.mem_of_mem_erase hleft
    · exact hleft
  · right
    unfold requestedWords at hnew
    split_ifs at hnew with hsends
    · refine ⟨List.eq_of_mem_replicate hnew, fun hidle => ?_⟩
      simp [P2lDmaMaster.sendsRequest, hidle] at hsends
    · simp at hnew

/-- Nothing is started: nothing becomes late. -/
theorem Waited.quiet_step (h : s.Waited) (hpulse : s.pulse = false) :
    (AnsweredEngine.step gByteSwap s i).Waited := by
  have hnone := accepts_of_not_pulse (i := i) hpulse
  have horders : (AnsweredEngine.step gByteSwap s i).orders = s.orders := by
    simp [AnsweredEngine.step, hnone]
  have hlate : (AnsweredEngine.step gByteSwap s i).late = s.late := by
    simp [AnsweredEngine.step, hpulse]
  refine ⟨fun n hn => ?_, ?_, fun hbusy => ?_, fun n hn => ?_⟩
  · rw [horders]
    simp only [AnsweredEngine.step] at hn
    split_ifs at hn
    · rcases List.mem_cons.mp hn with rfl | hold
      · exact le_rfl
      · exact h.numbered n hold
    · exact h.numbered n hn
  · rw [horders, hlate]
    exact h.before
  · rw [horders, hlate]
    exact h.current (idle_of_step hbusy hnone)
  · rw [hlate]
    rcases mem_owed_step hn with hold | ⟨rfl, hbusy⟩
    · exact h.owed n hold
    · exact h.current hbusy

/-- A start makes the aborted orders late, none of which has words to come. -/
theorem Waited.pulse_step (h : s.Waited) (hpulse : s.pulse = true) (hdrained : s.Drained) :
    (AnsweredEngine.step gByteSwap s i).Waited := by
  obtain ⟨hidle, howed⟩ := hdrained hpulse
  have haborted : (AnsweredEngine.step gByteSwap s i).aborted = s.aborted := by
    simp [AnsweredEngine.step, AbortsRead, hidle]
  have hlate : (AnsweredEngine.step gByteSwap s i).late = s.aborted := by
    simp [AnsweredEngine.step, hpulse]
  have hle : s.orders ≤ (AnsweredEngine.step gByteSwap s i).orders := by
    simp only [AnsweredEngine.step]
    split_ifs <;> omega
  refine ⟨fun n hn => ?_, fun n hn => ?_, fun hbusy hn => ?_, fun n hn => ?_⟩
  · rw [haborted] at hn
    exact (h.numbered n hn).trans hle
  · rw [hlate] at hn
    exact (h.numbered n hn).trans hle
  · -- the master is at work for a new order
    have haccepts : s.master.accepts (s.masterIn i) = true := by
      by_contra hnone
      exact idle_of_step hbusy (by simpa using hnone) hidle
    rw [hlate] at hn
    have hold := h.numbered _ hn
    simp only [AnsweredEngine.step, haccepts, if_true] at hold
    omega
  · rw [hlate]
    rcases mem_owed_step hn with hold | ⟨-, hbusy⟩
    · exact howed n hold
    · exact absurd hidle hbusy

/-- If the host sends the words it owes and no others, and starts nothing before the master is idle
and the words of all aborted orders have come, no late word ever comes. -/
theorem no_late_word (legal : Always (step gByteSwap) (fun s i => s.Honest i ∧ s.Drained) reset is) :
    Always (step gByteSwap) (fun s i => ¬ s.Late i) reset is := by
  have hkeeps : ∀ (s : AnsweredEngine) i, s.Waited → s.Honest i ∧ s.Drained →
      (step gByteSwap s i).Waited := by
    intro s i h hlegal
    cases hpulse : s.pulse with
    | false => exact h.quiet_step hpulse
    | true => exact h.pulse_step hpulse hlegal.2
  refine (Always.of_invariant hkeeps legal reset_waited).mono ?_
  rintro s i ⟨h, hhonest, -⟩ hlate
  exact h.owed i.answers (hhonest hlate.1) hlate.2

/-! ## Runs -/

/-- An edge at which no completion word comes. -/
def noWord (edge : DmaEngineIn) : AnsweredIn := ⟨edge, 0⟩

/-- The host starts a transfer of two words in the direction `attrib`. -/
def startEdges (carrierAddr attrib : Word) : List AnsweredIn :=
  let quiet := DmaEngine.quietEdge
  ([{ quiet with
      loads := ⟨some 1, some carrierAddr, some 0x1000, none, some 8, none, none, some attrib⟩ },
    quiet, quiet, quiet] : List DmaEngineIn).map noWord

/-- The host starts a P2L transfer of two words, and the request is sent. -/
def readEdges (carrierAddr : Word) : List AnsweredIn :=
  let quiet := DmaEngine.quietEdge
  startEdges carrierAddr 2 ++
    ([quiet, { quiet with arbPdmGnt := true }, quiet] : List DmaEngineIn).map noWord

def abortEdges : List AnsweredIn :=
  ([DmaEngine.loadCtrl 2 DmaEngine.quietEdge, DmaEngine.quietEdge, DmaEngine.quietEdge,
    DmaEngine.quietEdge] : List DmaEngineIn).map noWord

/-- The two words of a transfer. -/
def wordEdges (order : ℕ) : List AnsweredIn :=
  [⟨DmaEngine.completionEdge false 0xaa, order⟩, ⟨DmaEngine.completionEdge true 0xbb, order⟩]

/-- The transfer is aborted and a second one is started.  Then the two words of the first come,
which the host has owed all the time. -/
def restartEdges : List AnsweredIn :=
  readEdges 0x0 ++ abortEdges ++ readEdges 0x100 ++ wordEdges 1

end AnsweredEngine

end Gn4124Core
