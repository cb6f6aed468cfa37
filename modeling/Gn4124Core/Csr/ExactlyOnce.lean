import Gn4124Core.Clocked.Flow
import Gn4124Core.Csr.Accesses

/-!
# The accounts of the register accesses

Requests become accesses of the slaves, these become acknowledges of the slaves, these the
acknowledges of the decoder, and those of reads become words for `from_wb_fifo`.  Each of the
four steps conserves what it takes (`Clocked.Conserves`), and what it holds back is told by the
stage.  `stepsLeft` counts the edges until everything is done; an access adds to it the cycles
that its slave lets it wait.

The four steps are `At.notStarted_conserves`, `At.inProgress_conserves`, `At.unheard_conserves`
and `At.unpushed_conserves`, each by the cases of the stage.  Over a run they are the books
(`Books.Balanced`): what was asked for is what has happened, with what the stage holds back
behind it.  `Books.Sound` is this without the end, and holds at any time.  For `Books.Complete`
the end has to be empty: an edge without a request takes `stepsLeft` down (`At.stepsLeft_step`),
to nothing in the end (`Reached.finish`), and then the stage holds nothing back
(`Books.Balanced.complete`).
-/

namespace Gn4124Core

open Clocked

namespace CsrAccesses

variable {gWbSlavesNb : ℕ} {gWindowSize : ℕ} {style : Fin gWbSlavesNb → StallStyle}

/-! ## What each stage holds back -/

section Held

variable (s : CsrAccesses gWbSlavesNb)

/-- The requests of which no slave has seen anything. -/
def notStarted : CsrStage gWbSlavesNb → List WbRequest
  | .cycle => s.dout :: s.ready
  | .strobe _ => s.current :: s.ready
  | _ => s.ready

/-- The access that a slave has started and the bridge still waits for. -/
def inProgress (gWindowSize : ℕ) : CsrStage gWbSlavesNb → List CsrAccess
  | .busy _ _ | .acked _ => [s.current.access gWbSlavesNb gWindowSize]
  | _ => []

/-- The acknowledge that the decoder has registered. -/
def unheard : CsrStage gWbSlavesNb → List (ℕ × Word)
  | .acked slave => [((slave : ℕ), s.bus.dec.wbmDat)]
  | _ => []

/-- The read data that is still to be pushed. -/
def unpushed : List Word := if s.bus.wb.fromWbFifoWr then [s.bus.wb.fromWbFifoDin] else []

/-- The edges that are left for the requests, with those that a slave waits. -/
def stepsLeft : CsrStage gWbSlavesNb → ℕ
  | .idle => 7 * s.ready.length + s.unpushed.length
  | .readFifo => 7 * s.ready.length - 1
  | .cycle => 7 * s.ready.length + 5
  | .strobe _ => 7 * s.ready.length + 4
  | .busy _ wait => 7 * s.ready.length + 3 + wait
  | .acked _ => 7 * s.ready.length + 2

end Held

variable {s : CsrAccesses gWbSlavesNb} {i : CsrAccessesIn gWbSlavesNb}
  {stage : CsrStage gWbSlavesNb}

/-! ## One edge -/

variable (gWindowSize style i) in
theorem ready_step (hrd : s.bus.wb.toWbFifoRd = false) :
    (step gWindowSize style s i).ready = s.ready ++ i.requests := by
  simp [step, hrd]

variable (style i) in
theorem At.current_step (h : At gWindowSize stage s) (hstate : stage.state = .waitAck)
    (hack : stage.wbAckT = false) : (step gWindowSize style s i).current = s.current := by
  have hwb := waitAck_step gWindowSize style i s
    (h.state.trans hstate) (h.wbAckT.trans hack)
  rw [current, hwb]
  rfl

theorem At.started_eq_nil (h : At gWindowSize stage s) (hne : ∀ slave, stage ≠ .strobe slave) :
    s.started gWindowSize i = [] := by
  rw [started, h.starting_eq_nil hne, List.map_nil]

/-- The slave starts the access that the request on the bus asks for. -/
theorem At.started_strobe {slave : Fin gWbSlavesNb} (h : At gWindowSize (.strobe slave) s) :
    s.started gWindowSize i = [s.current.access gWbSlavesNb gWindowSize] := by
  obtain ⟨hindex, -⟩ := h.request
  rw [started, h.starting_strobe, List.map_singleton]
  have hslave : (s.current.access gWbSlavesNb gWindowSize).slave = slave := hindex
  rw [← hslave]
  rfl

theorem At.completed_eq_nil (h : At gWindowSize stage s) (hack : stage.wbAckT = false) :
    s.completed gWindowSize i = [] := by
  rw [completed, h.wbAckT, hack]
  rfl

theorem At.completed_acked {slave : Fin gWbSlavesNb} (h : At gWindowSize (.acked slave) s) :
    s.completed gWindowSize i =
      [(s.current.access gWbSlavesNb gWindowSize, s.bus.dec.wbmDat)] := by
  rw [completed, h.wbAckT]
  rfl

variable (style i) in
/-- Requests become accesses. -/
theorem At.notStarted_conserves (h : At gWindowSize stage s) :
    Conserves (i.requests.map (WbRequest.access gWbSlavesNb gWindowSize)) (s.started gWindowSize i)
      ((s.notStarted stage).map (WbRequest.access gWbSlavesNb gWindowSize))
      (((step gWindowSize style s i).notStarted (nextStage gWindowSize s i stage)).map
        (WbRequest.access gWbSlavesNb gWindowSize)) := by
  unfold Conserves
  cases stage with
  | idle =>
      rw [h.started_eq_nil (fun _ hstrobe => by cases hstrobe), List.nil_append, ← List.map_append]
      congr 1
      have hready := ready_step gWindowSize style i h.toWbFifoRd
      cases hempty : s.ready.isEmpty <;> simpa [nextStage, hempty, notStarted] using hready
  | readFifo =>
      rw [h.started_eq_nil (fun _ hstrobe => by cases hstrobe), List.nil_append, ← List.map_append]
      congr 1
      have hrd : s.bus.wb.toWbFifoRd = true := h.toWbFifoRd
      obtain ⟨r, rest, hready⟩ := List.exists_cons_of_ne_nil h.request
      simp [nextStage, notStarted, step, hrd, hready]
  | cycle =>
      have hmapped : (s.dout.access gWbSlavesNb gWindowSize).slave < gWbSlavesNb := h.request
      have hready := ready_step gWindowSize style i h.toWbFifoRd
      have hstate : s.bus.wb.wishboneCurrentState = .cycle := h.state
      have hcurrent : (step gWindowSize style s i).current = s.dout := by
        simp [current, step, CsrBus.step, WbmWb.step, hstate]
      rw [h.started_eq_nil (fun _ hstrobe => by cases hstrobe), List.nil_append, ← List.map_append,
        nextStage, dif_pos hmapped, notStarted, notStarted, hready, hcurrent, List.cons_append]
  | strobe slave =>
      have hready := ready_step gWindowSize style i h.toWbFifoRd
      have hnext : (step gWindowSize style s i).notStarted (nextStage gWindowSize s i (.strobe slave)) =
          (step gWindowSize style s i).ready := rfl
      rw [h.started_strobe, hnext, hready, List.map_append]
      rfl
  | busy slave wait =>
      have hready := ready_step gWindowSize style i h.toWbFifoRd
      rw [h.started_eq_nil (fun _ hstrobe => by cases hstrobe), List.nil_append, ← List.map_append]
      congr 1
      cases wait <;> simpa [nextStage, notStarted] using hready
  | acked slave =>
      have hready := ready_step gWindowSize style i h.toWbFifoRd
      rw [h.started_eq_nil (fun _ hstrobe => by cases hstrobe), List.nil_append, ← List.map_append]
      congr 1

variable (style i) in
/-- An access is on the bus until the decoder acknowledges it. -/
theorem At.inProgress_conserves (h : At gWindowSize stage s) :
    Conserves (s.started gWindowSize i) ((s.completed gWindowSize i).map Prod.fst)
      (s.inProgress gWindowSize stage)
      ((step gWindowSize style s i).inProgress gWindowSize (nextStage gWindowSize s i stage)) := by
  unfold Conserves
  cases stage with
  | idle =>
      rw [h.started_eq_nil (fun _ hstrobe => by cases hstrobe), h.completed_eq_nil rfl]
      cases hempty : s.ready.isEmpty <;> simp [nextStage, hempty, inProgress]
  | readFifo =>
      rw [h.started_eq_nil (fun _ hstrobe => by cases hstrobe), h.completed_eq_nil rfl]
      rfl
  | cycle =>
      have hmapped : (s.dout.access gWbSlavesNb gWindowSize).slave < gWbSlavesNb := h.request
      rw [h.started_eq_nil (fun _ hstrobe => by cases hstrobe), h.completed_eq_nil rfl, nextStage,
        dif_pos hmapped]
      rfl
  | strobe slave =>
      have hcurrent := h.current_step style i rfl rfl
      rw [h.started_strobe, h.completed_eq_nil rfl, nextStage, inProgress, hcurrent]
      rfl
  | busy slave wait =>
      have hcurrent := h.current_step style i rfl rfl
      rw [h.started_eq_nil (fun _ hstrobe => by cases hstrobe), h.completed_eq_nil rfl]
      cases wait <;> simp [nextStage, inProgress, hcurrent]
  | acked slave =>
      rw [h.started_eq_nil (fun _ hstrobe => by cases hstrobe), h.completed_acked]
      rfl

variable (style i) in
/-- What the decoder hands over is what the slave of the access has answered. -/
theorem At.unheard_conserves (h : At gWindowSize stage s) :
    Conserves (s.answered i) ((s.completed gWindowSize i).map fun c => (c.1.slave, c.2))
      (s.unheard stage)
      ((step gWindowSize style s i).unheard (nextStage gWindowSize s i stage)) := by
  unfold Conserves
  cases stage with
  | idle =>
      rw [h.answered_eq_nil (fun _ hbusy => by cases hbusy), h.completed_eq_nil rfl]
      cases hempty : s.ready.isEmpty <;> simp [nextStage, hempty, unheard]
  | readFifo =>
      rw [h.answered_eq_nil (fun _ hbusy => by cases hbusy), h.completed_eq_nil rfl]
      rfl
  | cycle =>
      have hmapped : (s.dout.access gWbSlavesNb gWindowSize).slave < gWbSlavesNb := h.request
      rw [h.answered_eq_nil (fun _ hbusy => by cases hbusy), h.completed_eq_nil rfl, nextStage,
        dif_pos hmapped]
      rfl
  | strobe slave =>
      rw [h.answered_eq_nil (fun _ hbusy => by cases hbusy), h.completed_eq_nil rfl]
      rfl
  | busy slave wait =>
      cases wait with
      | zero =>
          rw [h.answered_busy, h.completed_eq_nil rfl, nextStage, unheard, h.wbAckT_busy.2]
          rfl
      | succ wait =>
          rw [h.answered_eq_nil (fun _ hbusy => by cases hbusy), h.completed_eq_nil rfl]
          rfl
  | acked slave =>
      obtain ⟨hindex, -⟩ := h.request
      have hslave : (s.current.access gWbSlavesNb gWindowSize).slave = slave := hindex
      rw [h.answered_eq_nil (fun _ hbusy => by cases hbusy), h.completed_acked, List.map_singleton,
        hslave]
      rfl

variable (style i) in
/-- The data of a completed read is pushed. -/
theorem At.unpushed_conserves (h : At gWindowSize stage s) :
    Conserves (readBack (s.completed gWindowSize i)) (s.pushed i) s.unpushed
      (step gWindowSize style s i).unpushed := by
  unfold Conserves
  have hpushed : s.pushed i = s.unpushed := rfl
  rw [hpushed]
  congr 1
  cases hack : stage.wbAckT with
  | true =>
      cases stage with
      | acked slave =>
          have hstate : s.bus.wb.wishboneCurrentState = .waitAck := h.state
          have hackT : s.bus.dec.wbAckT = true := h.wbAckT
          have hwr : s.bus.wb.fromWbFifoWr = false := h.fromWbFifoWr (fun hidle => by cases hidle)
          rw [h.completed_acked]
          cases hwe : s.bus.wb.wbWe <;>
            simp [unpushed, step, CsrBus.step, WbmWb.step, hstate, hackT, hwe, hwr, readBack,
              WbRequest.access, current]
      | _ => cases hack
  | false =>
      rw [h.completed_eq_nil hack]
      have hwr : (step gWindowSize style s i).bus.wb.fromWbFifoWr = false := by
        have hackT : s.bus.dec.wbAckT = false := h.wbAckT.trans hack
        cases stage with
        | idle =>
            have hstate : s.bus.wb.wishboneCurrentState = .idle := h.state
            simp [step, CsrBus.step, WbmWb.step, hstate]
        | _ =>
            have hwr := h.fromWbFifoWr (fun hidle => by cases hidle)
            cases hstate : s.bus.wb.wishboneCurrentState <;>
              simp [step, CsrBus.step, WbmWb.step, hstate, hwr, hackT]
      rw [unpushed, hwr]
      rfl

variable (style i) in
/-- Every edge brings the work one step further; an access that starts adds its waiting time. -/
theorem At.stepsLeft_step (h : At gWindowSize stage s) :
    (0 < s.stepsLeft stage →
      (step gWindowSize style s i).stepsLeft (nextStage gWindowSize s i stage) + 1 ≤
        s.stepsLeft stage + 7 * i.requests.length + (s.waiting gWindowSize i).sum) ∧
      (s.stepsLeft stage = 0 →
        (step gWindowSize style s i).stepsLeft (nextStage gWindowSize s i stage) =
          7 * i.requests.length) := by
  cases stage with
  | idle =>
      have hready := ready_step gWindowSize style i h.toWbFifoRd
      have hstate : s.bus.wb.wishboneCurrentState = .idle := h.state
      have hpushed : (step gWindowSize style s i).unpushed = [] := by
        simp [unpushed, step, CsrBus.step, WbmWb.step, hstate]
      cases hempty : s.ready.isEmpty with
      | true =>
          have hnil : s.ready = [] := List.isEmpty_iff.mp hempty
          have hnext : nextStage gWindowSize s i .idle = .idle := by rw [nextStage, hempty, if_pos rfl]
          rw [hnext, stepsLeft, stepsLeft, hready, hpushed, hnil, List.nil_append, List.length_nil,
            List.length_nil]
          omega
      | false =>
          have hpos : 0 < s.ready.length := by
            apply List.length_pos_iff.mpr
            simpa using hempty
          have hnext : nextStage gWindowSize s i .idle = .readFifo := by
            rw [nextStage, hempty, if_neg Bool.false_ne_true]
          rw [hnext, stepsLeft, stepsLeft, hready, List.length_append]
          omega
  | readFifo =>
      have hrd : s.bus.wb.toWbFifoRd = true := h.toWbFifoRd
      obtain ⟨r, rest, hready⟩ := List.exists_cons_of_ne_nil h.request
      simp only [nextStage, stepsLeft, step, hrd, if_true, hready, List.tail_cons,
        List.length_append, List.length_cons]
      omega
  | cycle =>
      have hready := ready_step gWindowSize style i h.toWbFifoRd
      have hmapped : (s.dout.access gWbSlavesNb gWindowSize).slave < gWbSlavesNb := h.request
      rw [nextStage, dif_pos hmapped, stepsLeft, stepsLeft, hready, List.length_append]
      omega
  | strobe slave =>
      have hready := ready_step gWindowSize style i h.toWbFifoRd
      have hwaiting : (s.waiting gWindowSize i).sum = i.wait slave := by
        rw [waiting, h.starting_strobe]
        simp
      have hnext : nextStage gWindowSize s i (.strobe slave) = .busy slave (i.wait slave) := rfl
      rw [hnext, stepsLeft, stepsLeft, hready, hwaiting, List.length_append]
      omega
  | busy slave wait =>
      have hready := ready_step gWindowSize style i h.toWbFifoRd
      cases wait with
      | zero =>
          have hnext : nextStage gWindowSize s i (.busy slave 0) = .acked slave := rfl
          rw [hnext, stepsLeft, stepsLeft, hready, List.length_append]
          omega
      | succ wait =>
          have hnext : nextStage gWindowSize s i (.busy slave (wait + 1)) = .busy slave wait := rfl
          rw [hnext, stepsLeft, stepsLeft, hready, List.length_append]
          omega
  | acked slave =>
      have hready := ready_step gWindowSize style i h.toWbFifoRd
      have hnext : nextStage gWindowSize s i (.acked slave) = .idle := rfl
      have hone : (step gWindowSize style s i).unpushed.length ≤ 1 := by
        unfold unpushed
        split <;> simp
      rw [hnext, stepsLeft, stepsLeft, hready, List.length_append]
      omega

/-! ## The books of a run -/

/-- What the observers have seen. -/
structure Books where
  requested : List WbRequest
  started : List CsrAccess
  answered : List (ℕ × Word)
  completed : List (CsrAccess × Word)
  pushed : List Word

section Books

variable (gWindowSize style) (s)

def books (is : List (CsrAccessesIn gWbSlavesNb)) : Books where
  requested := log (step gWindowSize style) requested s is
  started := log (step gWindowSize style) (started gWindowSize) s is
  answered := log (step gWindowSize style) answered s is
  completed := log (step gWindowSize style) (completed gWindowSize) s is
  pushed := log (step gWindowSize style) pushed s is

/-- The cycles that slaves let their accesses wait in a run. -/
def waitingTime (is : List (CsrAccessesIn gWbSlavesNb)) : ℕ :=
  (log (step gWindowSize style) (waiting gWindowSize) s is).sum

end Books

namespace Books

variable (gWbSlavesNb gWindowSize) (b : Books)

/-- Nothing happens that was not asked for: every access is one of a request, in the order of the
requests; every acknowledge ends the oldest access and hands over what its slave has answered; a
pushed word is the data of a completed read. -/
structure Sound : Prop where
  started : b.started <+: b.requested.map (WbRequest.access gWbSlavesNb gWindowSize)
  completed : b.completed.map Prod.fst <+: b.started
  answered : (b.completed.map fun c => (c.1.slave, c.2)) <+: b.answered
  pushed : b.pushed <+: readBack b.completed

/-- Everything that was asked for has happened. -/
structure Complete : Prop where
  started : b.started = b.requested.map (WbRequest.access gWbSlavesNb gWindowSize)
  completed : b.completed.map Prod.fst = b.started
  answered : (b.completed.map fun c => (c.1.slave, c.2)) = b.answered
  pushed : b.pushed = readBack b.completed

/-- The books, with what the stage holds back. -/
structure Balanced (stage : CsrStage gWbSlavesNb) (s : CsrAccesses gWbSlavesNb) : Prop where
  started : b.requested.map (WbRequest.access gWbSlavesNb gWindowSize) =
    b.started ++ (s.notStarted stage).map (WbRequest.access gWbSlavesNb gWindowSize)
  completed : b.started = b.completed.map Prod.fst ++ s.inProgress gWindowSize stage
  answered : b.answered = (b.completed.map fun c => (c.1.slave, c.2)) ++ s.unheard stage
  pushed : readBack b.completed = b.pushed ++ s.unpushed

end Books

/-! ## A whole run -/

/-- What is known of a run that led to a state. -/
structure Reached (gWindowSize : ℕ) (style : Fin gWbSlavesNb → StallStyle) (dout : WbRequest)
    (is : List (CsrAccessesIn gWbSlavesNb)) (stage : CsrStage gWbSlavesNb) : Prop where
  at_stage : At gWindowSize stage (run (step gWindowSize style) (reset dout) is)
  balanced : (books gWindowSize style (reset dout) is).Balanced gWbSlavesNb gWindowSize stage
    (run (step gWindowSize style) (reset dout) is)
  stepsLeft : (run (step gWindowSize style) (reset dout) is).stepsLeft stage ≤
    7 * (books gWindowSize style (reset dout) is).requested.length +
      waitingTime gWindowSize style (reset dout) is

theorem At.reset (dout : WbRequest) :
    At gWindowSize .idle (CsrAccesses.reset dout : CsrAccesses gWbSlavesNb) :=
  ⟨rfl, rfl, rfl, rfl, fun _ => rfl, fun _ => rfl, fun _ hr => absurd hr List.not_mem_nil, trivial⟩

theorem Reached.concat {dout : WbRequest} {is : List (CsrAccessesIn gWbSlavesNb)}
    (h : Reached gWindowSize style dout is stage) (i : CsrAccessesIn gWbSlavesNb)
    (hreq : ∀ r ∈ i.requests, Mapped gWbSlavesNb gWindowSize r) :
    Reached gWindowSize style dout (is ++ [i])
      (nextStage gWindowSize (run (CsrAccesses.step gWindowSize style) (CsrAccesses.reset dout) is) i
        stage) := by
  obtain ⟨hat, ⟨hstarted, hcompleted, hanswered, hpushed⟩, hleft⟩ := h
  refine ⟨?_, ⟨?_, ?_, ?_, ?_⟩, ?_⟩
  · rw [run_concat]
    exact hat.next hreq
  · have hstage := hat.notStarted_conserves style i
    unfold Conserves at hstage
    simp only [books, log_concat, run_concat, List.map_append] at hstarted ⊢
    rw [hstarted, List.append_assoc, List.append_assoc, hstage]
    rfl
  · have hstage := hat.inProgress_conserves style i
    unfold Conserves at hstage
    simp only [books, log_concat, run_concat, List.map_append] at hcompleted ⊢
    rw [List.append_assoc, hstage, ← List.append_assoc, ← hcompleted]
  · have hstage := hat.unheard_conserves style i
    unfold Conserves at hstage
    simp only [books, log_concat, run_concat, List.map_append] at hanswered ⊢
    rw [List.append_assoc, hstage, ← List.append_assoc, ← hanswered]
  · have hstage := hat.unpushed_conserves style i
    unfold Conserves at hstage
    simp only [books, log_concat, run_concat] at hpushed ⊢
    rw [List.append_assoc, hstage, ← List.append_assoc, ← hpushed]
    simp only [readBack, List.filter_append, List.map_append]
  · have hstep := hat.stepsLeft_step style i
    simp only [books, waitingTime, log_concat, run_concat, List.length_append, List.sum_append]
      at hleft ⊢
    have hrequested : (requested (run (CsrAccesses.step gWindowSize style)
        (CsrAccesses.reset dout) is) i).length = i.requests.length := rfl
    omega

theorem reached_run (dout : WbRequest) (is : List (CsrAccessesIn gWbSlavesNb))
    (hmapped : ∀ r ∈ (books gWindowSize style (reset dout) is).requested,
      Mapped gWbSlavesNb gWindowSize r) :
    ∃ stage, Reached gWindowSize style dout is stage := by
  induction is using List.reverseRecOn with
  | nil => exact ⟨.idle, At.reset dout, ⟨rfl, rfl, rfl, rfl⟩, Nat.zero_le _⟩
  | append_singleton is i ih =>
      simp only [books, log_concat, List.forall_mem_append] at hmapped
      obtain ⟨stage, hreached⟩ := ih hmapped.1
      exact ⟨_, hreached.concat i hmapped.2⟩

/-- Where no more requests come, the work that is left goes down to nothing. -/
theorem Reached.finish {dout : WbRequest} {is js : List (CsrAccessesIn gWbSlavesNb)}
    (h : Reached gWindowSize style dout is stage) (hquiet : ∀ j ∈ js, j.requests = [])
    (hlong : (run (step gWindowSize style) (reset dout) is).stepsLeft stage = 0 ∨
      (run (step gWindowSize style) (reset dout) is).stepsLeft stage +
        waitingTime gWindowSize style (run (step gWindowSize style) (reset dout) is) js ≤
          js.length) :
    ∃ stage', Reached gWindowSize style dout (is ++ js) stage' ∧
      (run (step gWindowSize style) (reset dout) (is ++ js)).stepsLeft stage' = 0 := by
  induction js generalizing is stage with
  | nil =>
      rw [List.append_nil]
      exact ⟨stage, h, by simpa [waitingTime] using hlong⟩
  | cons j js ih =>
      have hnone : j.requests = [] := hquiet j List.mem_cons_self
      have hreq : ∀ r ∈ j.requests, Mapped gWbSlavesNb gWindowSize r := by
        intro r hr
        rw [hnone] at hr
        exact absurd hr List.not_mem_nil
      obtain ⟨hstep, hdone⟩ := h.at_stage.stepsLeft_step style j
      rw [hnone, List.length_nil] at hstep hdone
      simp only [waitingTime, log_cons, List.sum_append, List.length_cons] at hlong
      rw [List.append_cons]
      apply ih (h.concat j hreq) (fun j' hj' => hquiet j' (List.mem_cons_of_mem _ hj'))
      rw [run_concat, waitingTime]
      by_cases hzero : (run (step gWindowSize style) (reset dout) is).stepsLeft stage = 0
      · exact .inl (hdone hzero)
      · right
        have hless := hstep (Nat.pos_of_ne_zero hzero)
        omega

/-- Nothing is held back once no step is left. -/
theorem Books.Balanced.complete {b : Books} (h : b.Balanced gWbSlavesNb gWindowSize stage s)
    (hat : At gWindowSize stage s) (hdone : s.stepsLeft stage = 0) :
    b.Complete gWbSlavesNb gWindowSize := by
  obtain ⟨hstarted, hcompleted, hanswered, hpushed⟩ := h
  cases stage with
  | idle =>
      rw [stepsLeft] at hdone
      have hready : s.ready = [] := List.eq_nil_of_length_eq_zero (by omega)
      have hunpushed : s.unpushed = [] := List.eq_nil_of_length_eq_zero (by omega)
      simp only [notStarted, hready, List.map_nil, List.append_nil] at hstarted
      simp only [inProgress, List.append_nil] at hcompleted
      simp only [unheard, List.append_nil] at hanswered
      rw [hunpushed, List.append_nil] at hpushed
      exact ⟨hstarted.symm, hcompleted.symm, hanswered.symm, hpushed.symm⟩
  | readFifo =>
      have hpos := List.length_pos_iff.mpr hat.request
      rw [stepsLeft] at hdone
      omega
  | cycle => cases hdone
  | strobe slave => cases hdone
  | busy slave wait =>
      rw [stepsLeft] at hdone
      omega
  | acked slave => cases hdone

/-- **Each register access reaches its slave exactly once.**  Let requests that have a slave come
in any order and at any time, and let the slaves stall in their ways and wait as long as they
like.  At any time, what has happened was asked for.  When no more requests come, and the bridge
has had seven edges for each of them on top of the cycles that the slaves let it wait, everything
that was asked for has happened. -/
theorem accesses_exactly_once (gWindowSize : ℕ) (style : Fin gWbSlavesNb → StallStyle)
    (dout : WbRequest) (is : List (CsrAccessesIn gWbSlavesNb))
    (hmapped : ∀ r ∈ (books gWindowSize style (reset dout) is).requested,
      Mapped gWbSlavesNb gWindowSize r) :
    (books gWindowSize style (reset dout) is).Sound gWbSlavesNb gWindowSize ∧
      ∀ js : List (CsrAccessesIn gWbSlavesNb), (∀ j ∈ js, j.requests = []) →
        7 * (books gWindowSize style (reset dout) is).requested.length +
            waitingTime gWindowSize style (reset dout) (is ++ js) ≤ js.length →
          (books gWindowSize style (reset dout) (is ++ js)).Complete gWbSlavesNb gWindowSize := by
  obtain ⟨stage, hreached⟩ := reached_run dout is hmapped
  refine ⟨⟨?_, ?_, ?_, ?_⟩, fun js hquiet hlong => ?_⟩
  · exact ⟨_, hreached.balanced.started.symm⟩
  · exact ⟨_, hreached.balanced.completed.symm⟩
  · exact ⟨_, hreached.balanced.answered.symm⟩
  · exact ⟨_, hreached.balanced.pushed.symm⟩
  · have hleft := hreached.stepsLeft
    rw [waitingTime, log_append, List.sum_append] at hlong
    rw [waitingTime] at hleft
    have hwork : (run (CsrAccesses.step gWindowSize style) (reset dout) is).stepsLeft stage +
        waitingTime gWindowSize style (run (CsrAccesses.step gWindowSize style) (reset dout) is) js ≤
          js.length := by
      rw [waitingTime]
      omega
    obtain ⟨stage', hfinal, hdone⟩ := hreached.finish hquiet (.inr hwork)
    exact hfinal.balanced.complete hfinal.at_stage hdone

/-- A write to the second of three slaves and a read from the third, at once. -/
def twoRequests : List (CsrAccessesIn 3) :=
  [⟨[⟨true, 0x10004#31, 0x1234⟩, ⟨false, 0x20002#31, 0⟩], fun _ => 0, 0, 0⟩]

/-- Cycles without a request, in which every access would wait three cycles. -/
def slowAnswers : List (CsrAccessesIn 3) :=
  List.replicate 20 ⟨[], fun _ => 2, 0x11111111_22222222_33333333#96, 0⟩

/-- The third slave stalls until it acknowledges. -/
def thirdStalls (slave : Fin 3) : StallStyle := if slave.val = 2 then .untilAck else .low

theorem twoRequests_complete :
    (books 18 thirdStalls (reset ⟨false, 0, 0⟩) (twoRequests ++ slowAnswers)).Complete 3 18 :=
  (accesses_exactly_once 18 thirdStalls ⟨false, 0, 0⟩ twoRequests (by decide +kernel)).2
    slowAnswers (by decide +kernel) (by decide +kernel)

end CsrAccesses

end Gn4124Core
