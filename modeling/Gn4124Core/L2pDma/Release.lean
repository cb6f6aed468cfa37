import Gn4124Core.Arbitration.Renewal
import Gn4124Core.L2pDma.Path

/-!
# The grant of an idle master

The arbiter takes a grant back at the end of a packet: a valid word without `dframe`.  The L2P DMA
master sends such a word whenever it goes back to `L2P_IDLE` by itself.  An abort in `L2P_DATA`
takes it there too, but in the middle of the packet, with `ldm_arb_dframe_o` set; and the idle state
then clears `ldm_arb_dframe_o` and `ldm_arb_valid_o` together, so that the packet never ends.

With a word in the data FIFO the master begins the next packet at once, under the grant of the
packet before.  Without one it is idle with the grant.  So in every run the grant of an idle master
is given back if and only if no aborted packet is on the lines while the data FIFO is empty
(`givesBack_iff`).
-/

namespace Gn4124Core

open Clocked

namespace L2pDmaPath

variable (gByteSwap : Bool) (s : L2pDmaPath)

/-- The FSM is in `L2P_IDLE` and does not ask for the bus. -/
def Rests : Prop := s.ldm.fsm.l2pDmaCurrentState = .idle ∧ s.ldm.fsm.ldmArbReq = false

/-- The FSM has left a packet in the middle, and there is no word to begin another one for. -/
def Abandoned : Prop :=
  s.ldm.fsm.l2pDmaCurrentState = .idle ∧ s.ldm.fsm.ldmArbDframe = true ∧ s.dataFifo.empty = true

instance : Decidable s.Rests := inferInstanceAs (Decidable (_ ∧ _))

instance : Decidable s.Abandoned := inferInstanceAs (Decidable (_ ∧ _))

/-- Whenever the FSM rests for two cycles, the grant is clear in the next one. -/
def GivesBack (s₀ : L2pDmaPath) (is : List L2pDmaPathIn) : Prop :=
  ∀ before i j, before ++ [i, j] <+: is →
    let s := run (step gByteSwap) s₀ before
    s.Rests → (step gByteSwap s i).Rests → (step gByteSwap s i).arb.gnt.arbLdmGnt = true →
      (step gByteSwap (step gByteSwap s i) j).arb.gnt.arbLdmGnt = false

/-- No packet is abandoned, up to the last two edges. -/
def NoneAbandoned (s₀ : L2pDmaPath) (is : List L2pDmaPathIn) : Prop :=
  ∀ before i j, before ++ [i, j] <+: is → ¬ (run (step gByteSwap) s₀ before).Abandoned

variable {gByteSwap s} {i : L2pDmaPathIn}

/-! ## What holds in every run -/

/-- The lines of the master and its grant, aborts included. -/
structure Granting (s : L2pDmaPath) : Prop where
  req : s.ldm.ReqShape
  atMostOne : s.arb.gnt.AtMostOne
  inPacket : s.ldm.fsm.l2pDmaCurrentState ≠ .idle → s.ldm.fsm.l2pDmaCurrentState ≠ .header →
    s.ldm.fsm.ldmArbDframe = true
  granted : s.ldm.fsm.ldmArbDframe = true → s.arb.gnt.arbLdmGnt = true

theorem reset_granting (addrFifoDin : Word) (dataFifoValid : Bool) (q : Word) (ws : List Word) :
    Granting (reset addrFifoDin dataFifoValid q ws) where
  req := rfl
  atMostOne := by simp [L2pGrants.AtMostOne, reset, L2pArbiter.reset]
  inPacket := fun h => absurd rfl h
  granted := fun h => by simp [reset, L2pDmaMaster.reset] at h

/-- The grant stays with a master that asks for it, or whose packet does not end. -/
theorem Granting.gnt_stays (h : s.Granting) (hgnt : s.arb.gnt.arbLdmGnt = true)
    (hstays : s.ldm.fsm.ldmArbReq = true ∨ s.ldm.arb.last = false) :
    (step gByteSwap s i).arb.gnt = ⟨false, false, true⟩ := by
  have hg : s.arb.gnt = ⟨false, false, true⟩ := by
    rcases h.atMostOne.cases with hg | hg | hg | hg <;> simp_all
  rcases hstays with hreq | hlast
  · simp [step, L2pArbiter.step, L2pArbiter.pGrant, L2pArbiter.wbmArbReqValid,
      L2pArbiter.ldmArbReqValid, L2pDmaMaster.arb, hg, hreq]
  · have hlast' : SourceLines.last s.ldm.arb = false := hlast
    cases hreq : s.ldm.arb.req <;>
      simp [step, L2pArbiter.step, L2pArbiter.pGrant, L2pArbiter.wbmArbReqValid,
        L2pArbiter.pdmArbReqValid, L2pArbiter.ldmArbReqValid, L2pArbiter.eop, hg, hreq, hlast']

/-- A packet is begun with the grant. -/
theorem dframe_step (hdframe : (step gByteSwap s i).ldm.fsm.ldmArbDframe = true) :
    s.ldm.fsm.ldmArbDframe = true ∨
      s.ldm.fsm.l2pDmaCurrentState = .header ∧ s.arb.gnt.arbLdmGnt = true := by
  have hfsm : (step gByteSwap s i).ldm.fsm = s.ldm.pPktFsm gByteSwap (s.ldmIn i) := rfl
  have hgnt : (s.ldmIn i).arbLdmGnt = s.arb.gnt.arbLdmGnt := rfl
  rw [hfsm] at hdframe
  cases hstate : s.ldm.fsm.l2pDmaCurrentState with
  | idle => simp [L2pDmaMaster.pPktFsm, hstate] at hdframe
  | header =>
      simp only [L2pDmaMaster.pPktFsm, hstate, hgnt] at hdframe
      split_ifs at hdframe with hgo <;> simp_all
  | addrH => exact .inl (by simpa [L2pDmaMaster.pPktFsm, hstate] using hdframe)
  | addrL => exact .inl (by simpa [L2pDmaMaster.pPktFsm, hstate] using hdframe)
  | data =>
      left
      simp only [L2pDmaMaster.pPktFsm, hstate] at hdframe
      split_ifs at hdframe <;> exact hdframe
  | waitRdy =>
      left
      simp only [L2pDmaMaster.pPktFsm, hstate] at hdframe
      split_ifs at hdframe <;> exact hdframe
  | waitData =>
      left
      simp only [L2pDmaMaster.pPktFsm, hstate] at hdframe
      split_ifs at hdframe <;> exact hdframe
  | lastData =>
      left
      simp only [L2pDmaMaster.pPktFsm, hstate] at hdframe
      split_ifs at hdframe
      exact hdframe

theorem inPacket_step (h : s.Granting)
    (hidle : (step gByteSwap s i).ldm.fsm.l2pDmaCurrentState ≠ .idle)
    (hheader : (step gByteSwap s i).ldm.fsm.l2pDmaCurrentState ≠ .header) :
    (step gByteSwap s i).ldm.fsm.ldmArbDframe = true := by
  have hfsm : (step gByteSwap s i).ldm.fsm = s.ldm.pPktFsm gByteSwap (s.ldmIn i) := rfl
  have hin := h.inPacket
  rw [hfsm] at hidle hheader ⊢
  cases hstate : s.ldm.fsm.l2pDmaCurrentState with
  | idle =>
      simp only [L2pDmaMaster.pPktFsm, hstate] at hidle hheader
      split_ifs at hidle hheader
      · exact absurd rfl hidle
      · exact absurd rfl hheader
  | header =>
      simp only [L2pDmaMaster.pPktFsm, hstate] at hidle hheader ⊢
      split_ifs at hidle hheader ⊢ <;> simp_all
  | addrH => simpa [L2pDmaMaster.pPktFsm, hstate] using hin (by simp [hstate]) (by simp [hstate])
  | addrL => simpa [L2pDmaMaster.pPktFsm, hstate] using hin (by simp [hstate]) (by simp [hstate])
  | data =>
      have hdframe := hin (by simp [hstate]) (by simp [hstate])
      simp only [L2pDmaMaster.pPktFsm, hstate]
      split_ifs <;> exact hdframe
  | waitRdy =>
      have hdframe := hin (by simp [hstate]) (by simp [hstate])
      simp only [L2pDmaMaster.pPktFsm, hstate]
      split_ifs <;> exact hdframe
  | waitData =>
      have hdframe := hin (by simp [hstate]) (by simp [hstate])
      simp only [L2pDmaMaster.pPktFsm, hstate]
      split_ifs <;> exact hdframe
  | lastData =>
      have hdframe := hin (by simp [hstate]) (by simp [hstate])
      simp only [L2pDmaMaster.pPktFsm, hstate] at hidle hheader ⊢
      split_ifs at hidle hheader ⊢ <;> simp_all

theorem Granting.step (h : s.Granting) : (L2pDmaPath.step gByteSwap s i).Granting where
  req := h.req.step
  atMostOne := L2pArbiter.atMostOne_step h.atMostOne
  inPacket := inPacket_step h
  granted := by
    intro hdframe
    rcases dframe_step hdframe with hbegun | ⟨hheader, hgnt⟩
    · rw [h.gnt_stays (h.granted hbegun) (.inr (by simp [SourceLines.last, L2pDmaMaster.arb, hbegun]))]
    · have hreq : s.ldm.fsm.ldmArbReq = true := by
        have hshape := h.req
        simpa [L2pDmaMaster.ReqShape, hheader] using hshape
      rw [h.gnt_stays hgnt (.inl hreq)]

/-! ## Runs without an abandoned packet -/

/-- An idle master with the grant has a word or a packet on its lines. -/
def Settling (s : L2pDmaPath) : Prop :=
  s.ldm.fsm.l2pDmaCurrentState = .idle → s.arb.gnt.arbLdmGnt = true →
    s.ldm.fsm.ldmArbDframe = true ∨ s.ldm.fsm.ldmArbValid = true

/-- An idle master that has not abandoned a packet gives the grant back. -/
theorem Settling.gnt_of_idle (h : s.Settling) (hgranting : s.Granting) (hnone : ¬ s.Abandoned)
    (hidle : s.ldm.fsm.l2pDmaCurrentState = .idle)
    (hidle' : (step gByteSwap s i).ldm.fsm.l2pDmaCurrentState = .idle) :
    (step gByteSwap s i).arb.gnt.arbLdmGnt = false := by
  have hfsm : (step gByteSwap s i).ldm.fsm = s.ldm.pPktFsm gByteSwap (s.ldmIn i) := rfl
  have hempty : s.dataFifo.empty = true := by
    have hsame : (s.ldmIn i).dataFifoEmpty = s.dataFifo.empty := rfl
    rw [hfsm] at hidle'
    simp only [L2pDmaMaster.pPktFsm, hidle, hsame] at hidle'
    by_contra hword
    simp [hword] at hidle'
  have hdframe : s.ldm.fsm.ldmArbDframe = false := by
    by_contra hbegun
    exact hnone ⟨hidle, by simpa using hbegun, hempty⟩
  have hreq : s.ldm.fsm.ldmArbReq = false := by
    have hshape := hgranting.req
    simpa [L2pDmaMaster.ReqShape, hidle] using hshape
  apply gnt_released gByteSwap hreq
  intro hgnt
  -- the last word of a packet is on the lines
  have hvalid : s.ldm.fsm.ldmArbValid = true := by simpa [hdframe] using h hidle hgnt
  simp [SourceLines.last, L2pDmaMaster.arb, hdframe, hvalid]

theorem Settling.step (h : s.Settling) (hgranting : s.Granting) (hnone : ¬ s.Abandoned) :
    (L2pDmaPath.step gByteSwap s i).Settling := by
  intro hidle' hgnt'
  have hfsm : (L2pDmaPath.step gByteSwap s i).ldm.fsm = s.ldm.pPktFsm gByteSwap (s.ldmIn i) := rfl
  have hin := hgranting.inPacket
  rw [hfsm] at hidle' ⊢
  cases hstate : s.ldm.fsm.l2pDmaCurrentState with
  | idle =>
      have hfree : (L2pDmaPath.step gByteSwap s i).arb.gnt.arbLdmGnt = false :=
        h.gnt_of_idle hgranting hnone hstate hidle'
      exact absurd (hgnt'.symm.trans hfree) (by decide)
  | data =>
      -- aborted
      left
      have hdframe := hin (by simp [hstate]) (by simp [hstate])
      simp only [L2pDmaMaster.pPktFsm, hstate]
      split_ifs <;> exact hdframe
  | lastData =>
      right
      simp only [L2pDmaMaster.pPktFsm, hstate] at hidle' ⊢
      split_ifs at hidle' ⊢
      rfl
  | addrH => simp [L2pDmaMaster.pPktFsm, hstate] at hidle'
  | header | addrL | waitRdy | waitData =>
      simp only [L2pDmaMaster.pPktFsm, hstate] at hidle'
      split_ifs at hidle'

/-! ## A master that keeps the grant -/

/-- An idle master with the grant and with nothing on its lines. -/
structure Stuck (s : L2pDmaPath) : Prop where
  rests : s.Rests
  valid : s.ldm.fsm.ldmArbValid = false
  gnt : s.arb.gnt = ⟨false, false, true⟩

variable (gByteSwap) in
theorem idle_step (hidle : s.ldm.fsm.l2pDmaCurrentState = .idle) (hempty : s.dataFifo.empty = true) :
    (step gByteSwap s i).ldm.fsm.l2pDmaCurrentState = .idle ∧
      (step gByteSwap s i).ldm.fsm.ldmArbReq = s.ldm.fsm.ldmArbReq ∧
      (step gByteSwap s i).ldm.fsm.ldmArbValid = false := by
  have hsame : (s.ldmIn i).dataFifoEmpty = true := hempty
  have hfsm : (step gByteSwap s i).ldm.fsm = s.ldm.pPktFsm gByteSwap (s.ldmIn i) := rfl
  rw [hfsm]
  simp [L2pDmaMaster.pPktFsm, hidle, hsame]

/-- An abandoned packet leaves the master with the grant. -/
theorem Abandoned.stuck (h : s.Abandoned) (hgranting : s.Granting) : (step gByteSwap s i).Stuck := by
  obtain ⟨hidle, hdframe, hempty⟩ := h
  obtain ⟨hidle', hreq', hvalid'⟩ := idle_step gByteSwap (i := i) hidle hempty
  have hreq : s.ldm.fsm.ldmArbReq = false := by
    have hshape := hgranting.req
    simpa [L2pDmaMaster.ReqShape, hidle] using hshape
  refine ⟨⟨hidle', hreq'.trans hreq⟩, hvalid', ?_⟩
  exact hgranting.gnt_stays (hgranting.granted hdframe)
    (.inr (by simp [SourceLines.last, L2pDmaMaster.arb, hdframe]))

theorem Stuck.gnt_step (h : s.Stuck) : (step gByteSwap s i).arb.gnt = ⟨false, false, true⟩ := by
  obtain ⟨⟨-, hreq⟩, hvalid, hgnt⟩ := h
  have hlast : SourceLines.last s.ldm.arb = false := by simp [SourceLines.last, L2pDmaMaster.arb, hvalid]
  have hreq' : s.ldm.arb.req = false := hreq
  simp [step, L2pArbiter.step, L2pArbiter.pGrant, L2pArbiter.wbmArbReqValid,
    L2pArbiter.pdmArbReqValid, L2pArbiter.ldmArbReqValid, L2pArbiter.eop, hgnt, hreq', hlast]

/-- As long as no word comes, no other source gets the bus. -/
theorem Stuck.step (h : s.Stuck) (hempty : s.dataFifo.empty = true) :
    (L2pDmaPath.step gByteSwap s i).Stuck := by
  obtain ⟨hidle', hreq', hvalid'⟩ := idle_step gByteSwap (i := i) h.rests.1 hempty
  exact ⟨⟨hidle', hreq'.trans h.rests.2⟩, hvalid', h.gnt_step⟩

/-! ## Runs -/

variable {s₀ : L2pDmaPath} {is : List L2pDmaPathIn}

variable (gByteSwap) in
theorem granting_run (h : s₀.Granting) (is : List L2pDmaPathIn) :
    (run (step gByteSwap) s₀ is).Granting :=
  stable_run (fun _ _ h => h.step) h is

/-- Up to its last edge a run without an abandoned packet is settling. -/
theorem settling_run (h : s₀.Granting) (hs : s₀.Settling) (hnone : NoneAbandoned gByteSwap s₀ is)
    {before : List L2pDmaPathIn} {i : L2pDmaPathIn} (hpre : before ++ [i] <+: is) :
    (run (step gByteSwap) s₀ before).Settling := by
  induction before using List.reverseRecOn generalizing i with
  | nil => exact hs
  | append_singleton before k ih =>
      rw [List.append_assoc, List.singleton_append] at hpre
      have hone : before ++ [k] <+: before ++ [k, i] := by
        rw [List.prefix_append_right_inj]
        exact List.prefix_append [k] [i]
      rw [run_concat]
      exact (ih (hone.trans hpre)).step (granting_run gByteSwap h before) (hnone before k i hpre)

/-- **The grant is given back.**  In every run from reset, with aborts at any edges, with any words
that arrive in the data FIFO at any time, and with any lines of the other two sources: whenever the
FSM rests for two cycles the grant is clear in the next one if and only if no packet is
abandoned. -/
theorem givesBack_iff (gByteSwap : Bool) (addrFifoDin : Word) (dataFifoValid : Bool) (q : Word)
    (ws : List Word) (is : List L2pDmaPathIn) :
    GivesBack gByteSwap (reset addrFifoDin dataFifoValid q ws) is ↔
      NoneAbandoned gByteSwap (reset addrFifoDin dataFifoValid q ws) is := by
  have hreset := reset_granting addrFifoDin dataFifoValid q ws
  constructor
  · intro hgives before i j hpre habandoned
    have hgranting := granting_run gByteSwap hreset before
    have hstuck : (step gByteSwap (run (step gByteSwap) _ before) i).Stuck := habandoned.stuck hgranting
    have hrests : (run (step gByteSwap) (reset addrFifoDin dataFifoValid q ws) before).Rests := by
      have hshape := hgranting.req
      exact ⟨habandoned.1, by simpa [L2pDmaMaster.ReqShape, habandoned.1] using hshape⟩
    have hclear := hgives before i j hpre hrests hstuck.rests (by rw [hstuck.gnt])
    rw [hstuck.gnt_step] at hclear
    exact absurd hclear (by decide)
  · intro hnone before i j hpre s hrests hrests' hgnt
    have hsettling : s.Settling := by
      have hone : before ++ [i] <+: before ++ [i, j] := by
        rw [List.prefix_append_right_inj]
        exact List.prefix_append [i] [j]
      exact settling_run hreset (fun _ hgnt => by simp [reset, L2pArbiter.reset] at hgnt) hnone
        (hone.trans hpre)
    have hclear : (step gByteSwap s i).arb.gnt.arbLdmGnt = false :=
      hsettling.gnt_of_idle (granting_run gByteSwap hreset before) (hnone before i j hpre) hrests.1 hrests'.1
    exact absurd (hgnt.symm.trans hclear) (by decide)

/-! ### An abort in the last word but one -/

/-- An edge at which everything is ready. -/
def readyEdge (ctrl : DmaCtrl) (arrive : ℕ) : L2pDmaPathIn where
  ctrl := ctrl
  lWrRdy := 0b11#2
  l2pRdy := true
  addrFifoFull := false
  arrive := arrive
  wbm := ⟨false, false, 0, false⟩
  pdm := ⟨false, false, 0, false⟩

/-- A transfer of two words, and an abort while the second word is being popped. -/
def abortedEdges : List L2pDmaPathIn :=
  readyEdge { DmaCtrl.quiet with hostAddrL := 0x1000, len := 8, startL2p := true } 2 ::
    List.replicate 4 (readyEdge .quiet 0) ++ [readyEdge { DmaCtrl.quiet with abort := true } 0]

theorem contents_step (h : s.dataFifo.contents = []) : (step gByteSwap s i).dataFifo.contents = [] := by
  have hready : s.dataFifo.ready = [] := (List.append_eq_nil_iff.mp h).1
  have hread : ∀ rd, s.dataFifo.read rd = s.dataFifo := fun rd => by
    cases rd <;> simp [AsyncFifo.read, hready]
  show ((s.dataFifo.read s.ldm.fsm.dataFifoRd).arrive i.arrive).contents = []
  rw [AsyncFifo.contents_arrive, hread, h]

variable (gByteSwap) in
/-- With no word to come, the other two sources never get the bus again. -/
theorem Stuck.forever (h : s.Stuck) (hempty : s.dataFifo.contents = []) (is : List L2pDmaPathIn) :
    (run (L2pDmaPath.step gByteSwap) s is).Stuck := by
  have hkeeps : ∀ s i, (Stuck s ∧ s.dataFifo.contents = []) →
      (L2pDmaPath.step gByteSwap s i).Stuck ∧ (L2pDmaPath.step gByteSwap s i).dataFifo.contents = [] := by
    rintro s i ⟨hstuck, hnone⟩
    have hready : s.dataFifo.ready = [] := (List.append_eq_nil_iff.mp hnone).1
    exact ⟨hstuck.step (by simp [AsyncFifo.empty, hready]), contents_step hnone⟩
  exact (stable_run hkeeps ⟨h, hempty⟩ is).1

/-- The master keeps the bus for ever, whatever the other sources ask for. -/
theorem abort_keeps_grant :
    let s₀ := reset 0 false 0 [1, 2]
    let s := run (step false) s₀ abortedEdges
    ¬ GivesBack false s₀ (abortedEdges ++ List.replicate 2 (readyEdge .quiet 0)) ∧
      ∀ i is, (run (step false) (step false s i) is).Rests ∧
        (run (step false) (step false s i) is).arb.gnt = ⟨false, false, true⟩ := by
  intro s₀ s
  have habandoned : s.Abandoned := by decide +kernel
  have hgranting : s.Granting := granting_run false (reset_granting 0 false 0 [1, 2]) abortedEdges
  have hempty : s.dataFifo.contents = [] := by decide +kernel
  refine ⟨fun hgives => ?_, fun i is => ?_⟩
  · have hrests : s.Rests := by decide +kernel
    have hstuck : (step false s (readyEdge .quiet 0)).Stuck := habandoned.stuck hgranting
    have hclear := hgives abortedEdges (readyEdge .quiet 0) (readyEdge .quiet 0) List.prefix_rfl hrests
      hstuck.rests (by rw [hstuck.gnt])
    rw [hstuck.gnt_step] at hclear
    exact absurd hclear (by decide)
  · have hstuck : (step false s i).Stuck := habandoned.stuck hgranting
    have hrun := hstuck.forever false (contents_step hempty) is
    exact ⟨hrun.rests, hrun.gnt⟩

end L2pDmaPath

end Gn4124Core
