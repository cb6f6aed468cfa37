import Gn4124Core.Csr.Progress

/-!
# Every request is executed exactly once

The stages of the bridge and its progress put together: at any time the Wishbone cycles are the
first of the requests, and the completions carry the data of the first of the reads
(`ExactlyOnce`).  Once the bridge is quiescent they are all of them (`AllDone`), and when no more
requests come it gets there in as many rounds as there is work left.

A request is in turn a word of `to_wb_fifo`, a cycle on the bus, a word of `from_wb_fifo` and a
completion, and each stage is a flow (`Clocked.Flow`): what has come out, with what is held, is
what has come in.  `waiting_run`, `current_run`, `unpushed_run` and `unsent_run` are the four of
them, and they compose in `exactlyOnce`.  For `AllDone` nothing may be held, which is what
quiescence means (`Quiescent.holds_nothing`), and `quiescent_run` says that it is reached.
-/

namespace Gn4124Core

open Clocked

namespace WbMaster32

section Logs

variable (s : WbMaster32) (ts : List WbmTick)

/-- What holds at any time of a run of the bridge. -/
structure ExactlyOnce : Prop where
  cycles : log step started s ts <+: log step requested s ts
  ended : (log step executed s ts).map Prod.fst <+: log step started s ts
  oneAtATime : (log step started s ts).length ≤ (log step executed s ts).length + 1
  strobes : (log step accepted s ts).Sublist (log step started s ts)
  pushes : log step pushed s ts <+: (log step executed s ts).filterMap readData
  completions : ∀ p ∈ packets (log step presented s ts), ∃ cid d, p = [completionHeader cid, d]
  answers : completionData (log step presented s ts) <+: log step pushed s ts

/-- All the requests are executed, and all the reads are answered. -/
structure AllDone : Prop where
  cycles : (log step executed s ts).map Prod.fst = log step requested s ts
  answers : completionData (log step presented s ts) =
    (log step executed s ts).filterMap readData

end Logs

variable {s : WbMaster32} {ts : List WbmTick} {toWbFifoDout : WbRequest} {fromWbFifoDout : Word}

/-! ## The stages over a run -/

theorem legal_run (h : s.Legal) : (run step s ts).Legal :=
  stable_run (fun _ _ h => h.step) h ts

theorem completions_run (h : s.Legal) (hwords : Completions s []) :
    Completions (run step s ts) (log step presented s ts) := by
  refine invariant_log (motive := Completions) ?_ (always_stable (fun _ _ h => Legal.step h) h ts)
    hwords
  intro s t words hwords hlegal
  exact hwords.step hlegal

theorem reset_completions : Completions (reset toWbFifoDout fromWbFifoDout) [] :=
  ⟨by simp, rfl⟩

theorem sent_run : log step sent s ts = (log step presented s ts).filterMap
    fun w => if w.1 then none else some w.2 :=
  log_filterMap _ presented s ts

/-- The data of the completions are the words sent as the last of their packet. -/
theorem completionData_run (h : s.Legal) (hwords : Completions s []) :
    completionData (log step presented s ts) = log step sent s ts := by
  rw [completionData_eq (completions_run h hwords), sent_run]

section Stages

variable (ts) (h : s.Legal)

include h

theorem waiting_run : log step started s ts ++ (run step s ts).waiting =
    s.waiting ++ log step requested s ts :=
  flow_stable (fun _ _ h => h.step) (fun _ _ h => waiting_conserves h) h ts

theorem current_run : (log step executed s ts).map Prod.fst ++ (run step s ts).current =
    s.current ++ log step started s ts := by
  rw [← log_map]
  exact flow_stable (fun _ _ h => h.step) (fun _ _ h => current_conserves h) h ts

theorem unpushed_run : log step pushed s ts ++ (run step s ts).unpushed =
    s.unpushed ++ (log step executed s ts).filterMap readData := by
  rw [← log_filterMap]
  exact flow_stable (fun _ _ h => h.step) (fun _ _ h => unpushed_conserves h) h ts

theorem unsent_run : log step sent s ts ++ (run step s ts).unsent =
    s.unsent ++ log step pushed s ts :=
  flow_stable (fun _ _ h => h.step) (fun _ _ h => unsent_conserves h) h ts

theorem strobed_run : (log step accepted s ts ++ (run step s ts).strobed).Sublist
    (s.strobed ++ log step started s ts) :=
  flow_sublist (fun _ _ h _ => h.step) (fun _ _ h _ => strobed_drops h) (always_true step s ts) h

end Stages

theorem exactlyOnce : ExactlyOnce (reset toWbFifoDout fromWbFifoDout) ts := by
  have hlegal : Legal (reset toWbFifoDout fromWbFifoDout) := reset_legal _ _
  have hcurrent := current_run ts hlegal
  have hstrobed := strobed_run ts hlegal
  refine ⟨⟨_, waiting_run ts hlegal⟩, ⟨_, hcurrent⟩, ?_, ?_, ⟨_, unpushed_run ts hlegal⟩,
    (completions_run hlegal reset_completions).whole, ?_⟩
  · have hlengths := congrArg List.length hcurrent
    have hone : (run step (reset toWbFifoDout fromWbFifoDout) ts).current.length ≤ 1 := by
      unfold current
      split_ifs <;> simp
    have hnone : (reset toWbFifoDout fromWbFifoDout).current = [] := rfl
    simp only [hnone, List.nil_append, List.length_append, List.length_map] at hlengths
    omega
  · exact (List.sublist_append_left _ _).trans hstrobed
  · rw [completionData_run hlegal reset_completions]
    exact ⟨_, unsent_run ts hlegal⟩

/-! ## The end of the work -/

/-- A quiescent bridge holds nothing. -/
theorem Quiescent.holds_nothing (h : s.Quiescent) (hlegal : s.Legal) :
    s.waiting = [] ∧ s.current = [] ∧ s.unpushed = [] ∧ s.unsent = [] := by
  obtain ⟨hclk, hwb, hwr, hto, hpush, hfrom⟩ := h
  have hcyc := hlegal.wb
  rw [hwb] at hcyc
  refine ⟨?_, ?_, ?_, ?_⟩
  · simp [waiting, fetched, unwritten, hwb, hwr, hto]
  · simp [current, hcyc.2]
  · simp [unpushed, hpush]
  · simp [unsent, answer, hclk, hfrom]

theorem Quiescent.allDone
    (h : (run step (reset toWbFifoDout fromWbFifoDout) ts).Quiescent) :
    AllDone (reset toWbFifoDout fromWbFifoDout) ts := by
  have hlegal : Legal (reset toWbFifoDout fromWbFifoDout) := reset_legal _ _
  obtain ⟨hwaiting, hcurrent, hunpushed, hunsent⟩ := h.holds_nothing (legal_run hlegal)
  have hcycles := waiting_run ts hlegal
  have hended := current_run ts hlegal
  have hpushes := unpushed_run ts hlegal
  have hsent := unsent_run ts hlegal
  rw [hwaiting, List.append_nil] at hcycles
  rw [hcurrent, List.append_nil] at hended
  rw [hunpushed, List.append_nil] at hpushes
  rw [hunsent, List.append_nil] at hsent
  refine ⟨hended.trans hcycles, ?_⟩
  rw [completionData_run hlegal reset_completions]
  exact hsent.trans hpushes

/-- Served in as many rounds as it has work, the bridge becomes quiescent. -/
theorem quiescent_run {rest : List (List WbmTick)} (h : s.Legal)
    (hnone : ∀ t ∈ rest.flatten, ∀ p ∈ t.clk, p.pd.requests = [])
    (hrounds : Rounds step Serves s rest) (henough : s.work ≤ rest.length) :
    (run step s rest.flatten).Quiescent := by
  have hquiet : Always step (fun s t => s.requested t = []) s rest.flatten := by
    generalize rest.flatten = us at hnone
    clear hrounds henough h
    induction us generalizing s with
    | nil => trivial
    | cons t us ih =>
        refine ⟨?_, ih fun t' ht' => hnone t' (List.mem_cons_of_mem _ ht')⟩
        cases hedge : t.clk with
        | none => rw [requested, hedge]
        | some p =>
            rw [requested, hedge]
            exact hnone t List.mem_cons_self p hedge
  have hdone := progress_run (fun _ _ h _ => h.step) (fun _ _ h hnone => less_or_same h hnone)
    (fun _ _ hwork => needed hwork) hquiet h hrounds henough
  exact quiescent_of_work (legal_run h) hdone

/-- **The CSR bridge.**  Take any run from reset: any packets from the decoder, any edges of
the two clocks, any acknowledges and stalls, any grants and ready lines, and any latencies of
the FIFOs.  The Wishbone cycles are the requests in the order of their arrival, one at a time
and one for each, and the completions are the data of the reads in this order.  When no more
requests come and the bridge is served in as many rounds as it has work left, all the requests
are executed and all the reads are answered. -/
theorem csr_bridge (toWbFifoDout : WbRequest) (fromWbFifoDout : Word) (ts : List WbmTick) :
    let s₀ := reset toWbFifoDout fromWbFifoDout
    ExactlyOnce s₀ ts ∧ ((run step s₀ ts).Quiescent → AllDone s₀ ts) ∧
      ∀ rest : List (List WbmTick),
        (∀ t ∈ rest.flatten, ∀ p ∈ t.clk, p.pd.requests = []) →
        Rounds step Serves (run step s₀ ts) rest → (run step s₀ ts).work ≤ rest.length →
        AllDone s₀ (ts ++ rest.flatten) := by
  intro s₀
  refine ⟨exactlyOnce, Quiescent.allDone, fun rest hnone hrounds henough => ?_⟩
  refine Quiescent.allDone ?_
  rw [run_append]
  exact quiescent_run (legal_run (reset_legal _ _)) hnone hrounds henough

/-! ### A read and a write -/

/-- An edge of both clocks, with the decoder's signals `pd` and the grant `gnt`. -/
def bothClocks (gnt : Bool) (pd : PdWbm) : WbmTick where
  clk := some ⟨pd, gnt, 0b11#2⟩
  wb := some ⟨0xCAFE, true, false⟩
  toWbArrive := 1
  fromWbArrive := 1

/-- A target read of one word under the CID `cid`. -/
def readPacket (cid : BitVec 2) (addr : Word) : List PdWbm :=
  [{ PdWbm.quiet with hdrStart := true, hdrCid := cid, targetMrd := true },
    { PdWbm.quiet with addrStart := true, addr := addr, targetMrd := true }]

/-- A target write of one word under the CID `cid`. -/
def writePacket (cid : BitVec 2) (addr d : Word) : List PdWbm :=
  [{ PdWbm.quiet with hdrStart := true, hdrCid := cid, targetMwr := true },
    { PdWbm.quiet with addrStart := true, addr := addr, targetMwr := true },
    { PdWbm.quiet with addr := addr, dataValid := true, data := d, targetMwr := true }]

/-- A read and a write, and the grant for the completion of the read. -/
def readAndWrite (readCid writeCid : BitVec 2) : List WbmTick :=
  (readPacket readCid 0x10 ++ writePacket writeCid 0x20 7).map (bothClocks false) ++
    List.replicate 5 (bothClocks false .quiet) ++ [bothClocks true .quiet] ++
    List.replicate 4 (bothClocks false .quiet)

theorem read_and_write_executed :
    (log step executed (reset ⟨false, 0, 0⟩ 0) (readAndWrite 1 2)).map Prod.fst =
      [.read 4, .write 8 7] := by
  have hquiescent : (run step (reset ⟨false, 0, 0⟩ 0) (readAndWrite 1 2)).Quiescent :=
    ⟨by decide +kernel, by decide +kernel, by decide +kernel, by decide +kernel, by decide +kernel,
      by decide +kernel⟩
  have hdone := (csr_bridge ⟨false, 0, 0⟩ 0 (readAndWrite 1 2)).2.1 hquiescent
  rw [hdone.cycles]
  decide +kernel

end WbMaster32

end Gn4124Core
