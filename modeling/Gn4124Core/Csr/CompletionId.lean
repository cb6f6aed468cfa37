import Gn4124Core.Csr.Execution

/-!
# The completion IDs of the CSR bridge

A read completion has to carry the CID of the read it answers.  `p_pkt_gen` has one register
for the CID, and it takes the CID of every packet, so the header of a completion shows the
CID of the last packet that came in before it.

`Tracked` runs the bridge together with what the decoder has told it: the CID of the last
packet, and the CIDs of the reads that are not answered yet.  There is always a read for the
completion that goes out (`Tracked.Matches`), and a run answers all its reads under their CIDs
if and only if the last packet has the CID of this read each time (`completion_cids_iff`).
-/

namespace Gn4124Core

open Clocked

/-- The CID of the last packet, after the header strobes of one more cycle. -/
def WbmTick.cid (t : WbmTick) (lastCid : BitVec 2) : BitVec 2 :=
  match t.clk with
  | some p => if p.pd.hdrStart then p.pd.hdrCid else lastCid
  | none => lastCid

def CsrRequest.isRead : CsrRequest → Bool
  | .read _ => true
  | .write _ _ => false

theorem completionHeader_cid : ∀ cid : BitVec 2, (completionHeader cid).extractLsb' 10 2 = cid := by
  decide

theorem completionHeader_inj {cid cid' : BitVec 2} :
    completionHeader cid = completionHeader cid' ↔ cid = cid' := by
  refine ⟨fun h => ?_, fun h => by rw [h]⟩
  rw [← completionHeader_cid cid, h, completionHeader_cid]

namespace WbMaster32

/-- The bridge, the CID of the last packet and the CIDs of the unanswered reads. -/
structure Tracked where
  bridge : WbMaster32
  lastCid : BitVec 2
  unanswered : List (BitVec 2)

namespace Tracked

section Observers

variable (s : Tracked) (t : WbmTick)

/-- The grant for a completion: its header is presented at this edge. -/
def emits : Bool :=
  decide (s.bridge.clk.fsm.l2pReadCplCurrentState = .header) && t.clk.any fun p => p.arbWbmGnt

/-- The CIDs of the target reads handed over by the decoder. -/
def readCids : List (BitVec 2) :=
  ((s.bridge.requested t).filter CsrRequest.isRead).map fun _ => t.cid s.lastCid

/-- The read that the completion sent at this edge answers. -/
def answered : List (BitVec 2) := if s.emits t then s.unanswered.take 1 else []

def step : Tracked where
  bridge := s.bridge.step t
  lastCid := t.cid s.lastCid
  unanswered := (if s.emits t then s.unanswered.drop 1 else s.unanswered) ++ s.readCids t

/-- The headers of the completions. -/
def headers : List Word := (s.bridge.presented t).filterMap fun w => if w.1 then some w.2 else none

/-- When a completion goes out, the last packet that came in has the CID of the read that it
answers. -/
def Current : Prop := s.emits t = true → s.unanswered.head? = some s.lastCid

instance : Decidable (s.Current t) := inferInstanceAs (Decidable (_ → _))

end Observers

/-- Reset, before any packet. -/
def reset (toWbFifoDout : WbRequest) (fromWbFifoDout : Word) : Tracked :=
  ⟨.reset toWbFifoDout fromWbFifoDout, 0, []⟩

end Tracked

/-! ## The reads inside the bridge -/

section Counts

variable (s : WbMaster32)

/-- The reads that wait for the header of their completion, and the one that has it. -/
def pendingReads : ℕ :=
  s.waiting.countP CsrRequest.isRead + s.current.countP CsrRequest.isRead + s.unpushed.length +
    s.unsent.length

/-- Whether a header has been sent without its data word. -/
def sending : ℕ := if s.clk.fsm.l2pReadCplCurrentState = .data then 1 else 0

end Counts

theorem length_readData (cycles : List (CsrRequest × Word)) :
    (cycles.filterMap readData).length = (cycles.map Prod.fst).countP CsrRequest.isRead := by
  induction cycles with
  | nil => rfl
  | cons c cycles ih =>
      obtain ⟨request, d⟩ := c
      cases request with
      | write addr data =>
          rw [List.filterMap_cons_none rfl, ih, List.map_cons,
            List.countP_cons_of_neg (by simp [CsrRequest.isRead])]
      | read addr =>
          have hdata : readData (.read addr, d) = some d := rfl
          rw [List.filterMap_cons_some hdata, List.length_cons, ih, List.map_cons,
            List.countP_cons_of_pos rfl]

variable {s : WbMaster32} {t : WbmTick}

theorem pendingReads_step (h : s.Legal) :
    (s.sent t).length + (s.step t).pendingReads =
      s.pendingReads + (s.requested t).countP CsrRequest.isRead := by
  have hwaiting : s.started t ++ (s.step t).waiting = s.waiting ++ s.requested t :=
    waiting_conserves h
  have hcurrent : (s.executed t).map Prod.fst ++ (s.step t).current = s.current ++ s.started t :=
    current_conserves h
  have hunpushed : s.pushed t ++ (s.step t).unpushed =
      s.unpushed ++ (s.executed t).filterMap readData := unpushed_conserves h
  have hunsent : s.sent t ++ (s.step t).unsent = s.unsent ++ s.pushed t := unsent_conserves h
  have hcountWaiting := congrArg (List.countP CsrRequest.isRead) hwaiting
  have hcountCurrent := congrArg (List.countP CsrRequest.isRead) hcurrent
  have hcountUnpushed := congrArg List.length hunpushed
  have hcountUnsent := congrArg List.length hunsent
  simp only [List.countP_append, List.length_append, length_readData] at *
  unfold pendingReads
  omega

/-- In `L2P_HEADER` there is a word to send. -/
theorem Legal.pendingReads_pos (h : s.Legal)
    (hheader : s.clk.fsm.l2pReadCplCurrentState = .header) : 1 ≤ s.pendingReads := by
  have hunsent : 1 ≤ s.unsent.length := by
    rw [unsent, answer, hheader]
    cases hrd : s.clk.fsm.fromWbFifoRd with
    | false => simp
    | true =>
        have hready := List.length_pos_iff.mpr (h.read_fromWb hrd)
        simp only [if_true, List.nil_append, AsyncFifo.contents, List.length_append]
        omega
  unfold pendingReads
  omega

namespace Tracked

variable {s : Tracked} {ts : List WbmTick}

/-! ## One edge -/

theorem emits_eq_true : s.emits t = true ↔ s.bridge.clk.fsm.l2pReadCplCurrentState = .header ∧
    (s.bridge.step t).clk.fsm.l2pReadCplCurrentState = .data := by
  cases hedge : t.clk with
  | none =>
      cases hstate : s.bridge.clk.fsm.l2pReadCplCurrentState <;>
        simp [emits, WbMaster32.step, stepClk, hedge, hstate]
  | some p =>
      cases hstate : s.bridge.clk.fsm.l2pReadCplCurrentState with
      | idle => simp [emits, hstate]
      | data => simp [emits, hstate]
      | header =>
          cases hgnt : p.arbWbmGnt <;>
            simp [emits, WbMaster32.step, stepClk, WbmClk.step, WbmClk.pReadCplFsm, clkIn, hedge,
              hstate, hgnt]

/-- The header that goes out, and the data words that follow the headers. -/
theorem headers_spec (h : s.bridge.Legal) :
    s.headers t = (if s.emits t then [completionHeader s.bridge.clk.p2lCid] else []) ∧
      (s.emits t).toNat + s.bridge.sending =
        (s.bridge.step t).sending + (s.bridge.sent t).length := by
  rcases presented_cases (t := t) h with ⟨hnone, hsame⟩ | ⟨hheader, hstate, hnext⟩ |
    ⟨hdata, hstate, hnext⟩
  · have hemits : s.emits t = false := by
      rw [Bool.eq_false_iff, Ne, emits_eq_true, hsame]
      rintro ⟨hheader, hdata⟩
      rw [hheader] at hdata
      exact absurd hdata (by decide)
    simp [headers, sent, sending, hnone, hemits, hsame]
  · have hemits : s.emits t = true := emits_eq_true.mpr ⟨hstate, hnext⟩
    simp [headers, sent, sending, hheader, hemits, hstate, hnext]
  · have hemits : s.emits t = false := by
      rw [Bool.eq_false_iff, Ne, emits_eq_true, hstate]
      rintro ⟨hheader, -⟩
      exact absurd hheader (by decide)
    simp [headers, sent, sending, hdata, hemits, hstate, hnext]

/-- What the bridge knows of what the decoder has told it. -/
structure Matches (s : Tracked) : Prop where
  legal : s.bridge.Legal
  cid : s.bridge.clk.p2lCid = s.lastCid
  reads : s.unanswered.length + s.bridge.sending = s.bridge.pendingReads

theorem reset_matches (toWbFifoDout : WbRequest) (fromWbFifoDout : Word) :
    Matches (reset toWbFifoDout fromWbFifoDout) :=
  ⟨reset_legal _ _, rfl, rfl⟩

/-- There is a read for every completion. -/
theorem Matches.unanswered_ne_nil (h : s.Matches) (hemits : s.emits t = true) :
    s.unanswered ≠ [] := by
  have hheader := (emits_eq_true.mp hemits).1
  have hpos := h.legal.pendingReads_pos hheader
  have hreads := h.reads
  rw [sending, hheader, if_neg (by decide)] at hreads
  exact List.ne_nil_of_length_pos (by omega)

theorem Matches.step (h : s.Matches) : (s.step t).Matches := by
  have hnonempty := h.unanswered_ne_nil (t := t)
  obtain ⟨hlegal, hcid, hreads⟩ := h
  refine ⟨hlegal.step, ?_, ?_⟩
  · cases hedge : t.clk <;>
      simp [Tracked.step, WbMaster32.step, stepClk, WbmClk.step, WbmClk.pPktGen, clkIn, WbmTick.cid,
        hedge, hcid]
  · obtain ⟨-, hsending⟩ := headers_spec (t := t) hlegal
    have hpending := pendingReads_step (t := t) hlegal
    have hcids : (s.readCids t).length = (s.bridge.requested t).countP CsrRequest.isRead := by
      rw [readCids, List.length_map, List.countP_eq_length_filter]
    simp only [Tracked.step, List.length_append, hcids]
    cases hemits : s.emits t with
    | false =>
        simp only [hemits, Bool.toNat_false, Bool.false_eq_true, if_false] at hsending ⊢
        omega
    | true =>
        have hpos := List.length_pos_iff.mpr (hnonempty hemits)
        simp only [hemits, Bool.toNat_true, if_true, List.length_drop] at hsending ⊢
        omega

/-- The reads are answered in the order of their arrival. -/
theorem unanswered_conserves :
    Conserves (s.readCids t) (s.answered t) s.unanswered (s.step t).unanswered := by
  unfold Conserves
  cases hemits : s.emits t with
  | false => simp [answered, Tracked.step, hemits]
  | true =>
      simp only [answered, Tracked.step, hemits, if_true]
      rw [← List.append_assoc, List.take_append_drop]

/-- The header that goes out is the right one when the last packet has the right CID. -/
theorem Matches.headers_eq_iff (h : s.Matches) :
    s.headers t = (s.answered t).map completionHeader ↔ s.Current t := by
  obtain ⟨hheaders, -⟩ := headers_spec (t := t) h.legal
  rw [hheaders, h.cid, Current]
  cases hemits : s.emits t with
  | false => simp [answered, hemits]
  | true =>
      obtain ⟨cid, rest, hcids⟩ := List.exists_cons_of_ne_nil (h.unanswered_ne_nil hemits)
      simp [answered, hemits, hcids, completionHeader_inj, eq_comm]

theorem Matches.length_headers (h : s.Matches) :
    (s.headers t).length = ((s.answered t).map completionHeader).length := by
  obtain ⟨hheaders, -⟩ := headers_spec (t := t) h.legal
  rw [hheaders, List.length_map]
  cases hemits : s.emits t with
  | false => simp [answered, hemits]
  | true =>
      obtain ⟨cid, rest, hcids⟩ := List.exists_cons_of_ne_nil (h.unanswered_ne_nil hemits)
      simp [answered, hemits, hcids]

/-! ## Runs -/

/-- **Completion IDs.**  In a run from reset, with any packets, any timing and any latencies of
the FIFOs, the `n`-th completion header carries the CID of the `n`-th target read for all `n`
if and only if, whenever a completion goes out, the last packet that came in has the CID of
the read that it answers. -/
theorem completion_cids_iff (toWbFifoDout : WbRequest) (fromWbFifoDout : Word)
    (ts : List WbmTick) :
    let s₀ := reset toWbFifoDout fromWbFifoDout
    log step headers s₀ ts <+: (log step readCids s₀ ts).map completionHeader ↔
      Always step Current s₀ ts := by
  intro s₀
  have hmatches : Always step (fun s _ => Matches s) s₀ ts :=
    always_stable (fun _ _ h => h.step) (reset_matches _ _) ts
  have hanswered : (log step answered s₀ ts).map completionHeader <+:
      (log step readCids s₀ ts).map completionHeader := by
    have hconserves : ∀ s t, Matches s →
        Conserves (readCids s t) (answered s t) s.unanswered (s.step t).unanswered :=
      fun _ _ _ => unanswered_conserves
    have hflow := flow_stable (fun _ _ h => h.step) hconserves (reset_matches toWbFifoDout fromWbFifoDout) ts
    exact List.IsPrefix.map completionHeader ⟨_, hflow⟩
  have hlen : ∀ s t, Matches s →
      (headers s t).length = ((answered s t).map completionHeader).length :=
    fun _ _ h => h.length_headers
  have hiff := log_eq_iff hlen hmatches
  rw [log_map] at hiff
  have hsame : (log step headers s₀ ts).length =
      ((log step answered s₀ ts).map completionHeader).length := by
    rw [← log_map]
    exact (length_log_eq_iff (fun _ _ h => (hlen _ _ h).le)
      (fun s t h => iff_of_true (hlen s t h) (trivial : True)) hmatches).mpr
      (always_of_forall (fun _ _ => trivial) s₀ ts)
  -- there are as many headers as answers, so a part of the reads is all that is answered
  calc log step headers s₀ ts <+: (log step readCids s₀ ts).map completionHeader
      ↔ log step headers s₀ ts = (log step answered s₀ ts).map completionHeader :=
        ⟨fun h => (List.prefix_of_prefix_length_le h hanswered hsame.le).eq_of_length hsame,
          fun h => h ▸ hanswered⟩
    _ ↔ Always step (fun s t => headers s t = (answered s t).map completionHeader) s₀ ts := hiff
    _ ↔ Always step Current s₀ ts := by
        refine ⟨fun h => (hmatches.and h).mono fun _ _ h => h.1.headers_eq_iff.mp h.2,
          fun h => (hmatches.and h).mono fun _ _ h => h.1.headers_eq_iff.mpr h.2⟩

/-- A read under the CID 1 is followed by a write under the CID 2, and its completion carries
the CID 2. -/
theorem write_takes_cid :
    let s₀ := reset ⟨false, 0, 0⟩ 0
    log step readCids s₀ (readAndWrite 1 2) = [1] ∧
      log step headers s₀ (readAndWrite 1 2) = [completionHeader 2] ∧
      ¬ log step headers s₀ (readAndWrite 1 2) <+:
        (log step readCids s₀ (readAndWrite 1 2)).map completionHeader := by
  decide +kernel

end Tracked

end WbMaster32

end Gn4124Core
