import Gn4124Core.Csr.Decoding
import Mathlib.Data.List.FinRange

/-!
# Each register access reaches its slave once

The Wishbone FSM of `wbmaster32`, the address decoder and the slaves on one clock.  A slave
starts an access in a cycle with its cycle line and the strobe high, and acknowledges it in one
cycle that comes any number of cycles later, with the data of the access on its lines.  It drives
its stall constantly low, or high until it acknowledges.

The decoder hands the acknowledge over one cycle late.  In that cycle the access is still on the
bus, and what keeps the slave from starting another one is that the decoder masks the cycle line.
A request thus goes through the stages of `CsrStage`, and an access is in progress in one slave
at a time.
-/

namespace Gn4124Core

open Clocked

/-- The vector of the lines of all slaves. -/
def lineVector {n : ℕ} (line : Fin n → Bool) : BitVec n :=
  (BitVec.ofBoolListLE (List.ofFn line)).setWidth n

@[simp] theorem getLsbD_lineVector {n : ℕ} (line : Fin n → Bool) (j : Fin n) :
    (lineVector line).getLsbD j = line j := by
  rw [lineVector, BitVec.getLsbD_setWidth, BitVec.getLsbD_ofBoolListLE]
  simp

/-! ## The slaves -/

/-- The ways in which a slave drives its stall line. -/
inductive StallStyle where
  | low
  | untilAck
deriving DecidableEq

/-- A slave, with the cycles that the access in progress is still to wait. -/
structure CsrSlave where
  waits : Option ℕ
deriving DecidableEq

namespace CsrSlave

variable (s : CsrSlave)

def ack : Bool := s.waits == some 0

def stall (style : StallStyle) (cyc : Bool) : Bool :=
  match style with
  | .low => false
  | .untilAck => cyc && !s.ack

/-- An access starts only if none is in progress, and it is in progress until the end of the
cycle of its acknowledge. -/
def starts (cyc stb : Bool) : Bool := cyc && stb && s.waits.isNone

/-- An access that starts is acknowledged `wait + 1` cycles later. -/
def step (starts : Bool) (wait : ℕ) : CsrSlave :=
  match s.waits with
  | none => ⟨if starts then some wait else none⟩
  | some 0 => ⟨none⟩
  | some (k + 1) => ⟨some k⟩

end CsrSlave

/-- An access as its slave sees it. -/
structure CsrAccess where
  slave : ℕ
  adr : Word
  we : Bool
  dat : Word
deriving DecidableEq

/-- The access that a request asks for. -/
def WbRequest.access (gWbSlavesNb gWindowSize : ℕ) (r : WbRequest) : CsrAccess where
  slave := (sWbPeriphAddr gWbSlavesNb gWindowSize (0#1 ++ r.addr)).toNat
  adr := localAdr gWbSlavesNb gWindowSize (0#1 ++ r.addr)
  we := r.rw
  dat := r.data

/-- The bridge, the decoder and the slaves, with the requests that `to_wb_fifo` holds. -/
structure CsrAccesses (gWbSlavesNb : ℕ) where
  bus : CsrBus gWbSlavesNb
  ready : List WbRequest
  dout : WbRequest
  slaves : Fin gWbSlavesNb → CsrSlave

/-- The requests that come out of the crossing of `to_wb_fifo`, how long each slave would let an
access wait that starts now, and what the data lines show. -/
structure CsrAccessesIn (gWbSlavesNb : ℕ) where
  requests : List WbRequest
  wait : Fin gWbSlavesNb → ℕ
  wbDat : BitVec (32 * gWbSlavesNb)
  unknown : Word

namespace CsrAccesses

variable {gWbSlavesNb : ℕ} (gWindowSize : ℕ) (style : Fin gWbSlavesNb → StallStyle)

section Step

variable (s : CsrAccesses gWbSlavesNb) (i : CsrAccessesIn gWbSlavesNb)

/-- The bus of the slaves. -/
def out : WbSlavesOut gWbSlavesNb := s.bus.slaves gWindowSize

/-- This slave starts an access. -/
def starts (j : Fin gWbSlavesNb) : Bool :=
  (s.slaves j).starts ((s.out gWindowSize).wbCyc j) (s.out gWindowSize).wbStb

/-- The lines of the slaves. -/
def lines : WbSlavesIn gWbSlavesNb where
  wbDat := i.wbDat
  wbAck := lineVector fun j => (s.slaves j).ack
  wbStall := lineVector fun j => (s.slaves j).stall (style j) ((s.out gWindowSize).wbCyc j)
  unknown := i.unknown

/-- One edge of the clock. -/
def step : CsrAccesses gWbSlavesNb where
  bus := s.bus.step gWindowSize ⟨s.ready.isEmpty, s.dout, s.lines gWindowSize style i⟩
  ready := (if s.bus.wb.toWbFifoRd then s.ready.tail else s.ready) ++ i.requests
  dout := if s.bus.wb.toWbFifoRd then s.ready.headD s.dout else s.dout
  slaves := fun j => (s.slaves j).step (s.starts gWindowSize j) (i.wait j)

end Step

/-- Reset, which leaves the output of the FIFO open. -/
def reset (toWbFifoDout : WbRequest) : CsrAccesses gWbSlavesNb :=
  ⟨.reset, [], toWbFifoDout, fun _ => ⟨none⟩⟩

/-! ## What an observer sees -/

section Observers

variable (s : CsrAccesses gWbSlavesNb) (i : CsrAccessesIn gWbSlavesNb)

def requested (_ : CsrAccesses gWbSlavesNb) (i : CsrAccessesIn gWbSlavesNb) : List WbRequest :=
  i.requests

/-- The slaves that start an access. -/
def starting : List (Fin gWbSlavesNb) := (List.finRange gWbSlavesNb).filter (s.starts gWindowSize)

/-- The accesses that slaves start. -/
def started (_ : CsrAccessesIn gWbSlavesNb) : List CsrAccess :=
  (s.starting gWindowSize).map fun (j : Fin gWbSlavesNb) =>
    ⟨j, (s.out gWindowSize).wbAdr, (s.out gWindowSize).wbWe, (s.out gWindowSize).wbDat⟩

/-- The cycles that the accesses which start are going to wait. -/
def waiting : List ℕ := (s.starting gWindowSize).map i.wait

/-- The slaves that acknowledge their access, each with its data. -/
def answered : List (ℕ × Word) :=
  ((List.finRange gWbSlavesNb).filter fun j => (s.slaves j).ack).map fun (j : Fin gWbSlavesNb) =>
    ((j : ℕ), i.wbDat.extractLsb' (32 * j) 32)

/-- The request on the lines of the bridge. -/
def current : WbRequest := ⟨s.bus.wb.wbWe, s.bus.wb.wbAdr, s.bus.wb.wbDatO⟩

/-- The acknowledges that the decoder gives to the bridge, with the access on the bus and the
data. -/
def completed (_ : CsrAccessesIn gWbSlavesNb) : List (CsrAccess × Word) :=
  if s.bus.dec.wbAckT then [(s.current.access gWbSlavesNb gWindowSize, s.bus.dec.wbmDat)] else []

/-- The words pushed into `from_wb_fifo`. -/
def pushed (_ : CsrAccessesIn gWbSlavesNb) : List Word :=
  if s.bus.wb.fromWbFifoWr then [s.bus.wb.fromWbFifoDin] else []

end Observers

/-- The data that the completed reads give back. -/
def readBack (cs : List (CsrAccess × Word)) : List Word :=
  (cs.filter fun c => !c.1.we).map Prod.snd

end CsrAccesses

/-! ## The stages of a request -/

/-- Where the request is that the bridge works on: none, in the FIFO, at its output, on the bus
but not seen yet, in a slave, acknowledged by the slave. -/
inductive CsrStage (gWbSlavesNb : ℕ) where
  | idle
  | readFifo
  | cycle
  | strobe (slave : Fin gWbSlavesNb)
  | busy (slave : Fin gWbSlavesNb) (wait : ℕ)
  | acked (slave : Fin gWbSlavesNb)
deriving DecidableEq

namespace CsrStage

variable {gWbSlavesNb : ℕ}

def state : CsrStage gWbSlavesNb → WishboneState
  | idle => .idle
  | readFifo => .readFifo
  | cycle => .cycle
  | strobe _ | busy _ _ | acked _ => .waitAck

def toWbFifoRd : CsrStage gWbSlavesNb → Bool
  | readFifo => true
  | _ => false

def wbCyc : CsrStage gWbSlavesNb → Bool
  | strobe _ | busy _ _ | acked _ => true
  | _ => false

def wbAckT : CsrStage gWbSlavesNb → Bool
  | acked _ => true
  | _ => false

/-- The access in progress in a slave. -/
def waits (j : Fin gWbSlavesNb) : CsrStage gWbSlavesNb → Option ℕ
  | busy slave wait => if j = slave then some wait else none
  | _ => none

end CsrStage

namespace CsrAccesses

variable {gWbSlavesNb : ℕ} {gWindowSize : ℕ} {style : Fin gWbSlavesNb → StallStyle}

/-- The request has a slave. -/
def Mapped (gWbSlavesNb gWindowSize : ℕ) (r : WbRequest) : Prop :=
  (r.access gWbSlavesNb gWindowSize).slave < gWbSlavesNb

instance (r : WbRequest) : Decidable (Mapped gWbSlavesNb gWindowSize r) :=
  inferInstanceAs (Decidable (_ < _))

/-- What holds of the registers in each stage. -/
structure At (gWindowSize : ℕ) (stage : CsrStage gWbSlavesNb) (s : CsrAccesses gWbSlavesNb) :
    Prop where
  state : s.bus.wb.wishboneCurrentState = stage.state
  toWbFifoRd : s.bus.wb.toWbFifoRd = stage.toWbFifoRd
  wbCyc : s.bus.wb.wbCyc = stage.wbCyc
  wbAckT : s.bus.dec.wbAckT = stage.wbAckT
  waits : ∀ j, (s.slaves j).waits = stage.waits j
  fromWbFifoWr : stage ≠ .idle → s.bus.wb.fromWbFifoWr = false
  mapped : ∀ r ∈ s.ready, Mapped gWbSlavesNb gWindowSize r
  request : match stage with
    | .idle => True
    | .readFifo => s.ready ≠ []
    | .cycle => Mapped gWbSlavesNb gWindowSize s.dout
    | .strobe slave => (s.bus.index gWindowSize).toNat = slave ∧ s.bus.wb.wbStb = true
    | .busy slave _ | .acked slave =>
        (s.bus.index gWindowSize).toNat = slave ∧ s.bus.dec.wbPeriphAddr.toNat = slave

variable {s : CsrAccesses gWbSlavesNb} {i : CsrAccessesIn gWbSlavesNb}

/-! ### What the slaves and the decoder do in each stage -/

theorem wbCyc_out (s : CsrAccesses gWbSlavesNb) (j : Fin gWbSlavesNb) :
    (s.out gWindowSize).wbCyc j =
      (s.bus.wb.wbCyc && decide ((s.bus.index gWindowSize).toNat = j) && !s.bus.dec.wbAckT) := by
  simp only [out, CsrBus.slaves, WbAddrDecoder.slaves, WbAddrDecoder.sWbCycDemuxed,
    CsrBus.master, getLsbD_onehotDecode]
  rfl

theorem starts_eq (s : CsrAccesses gWbSlavesNb) (j : Fin gWbSlavesNb) :
    s.starts gWindowSize j =
      ((s.out gWindowSize).wbCyc j && s.bus.wb.wbStb && (s.slaves j).waits.isNone) := rfl

theorem filter_finRange_eq_singleton {n : ℕ} {p : Fin n → Bool} {a : Fin n}
    (hp : ∀ j, p j = true ↔ j = a) : (List.finRange n).filter p = [a] := by
  have hcongr : (List.finRange n).filter p = (List.finRange n).filter (· == a) := by
    apply List.filter_congr
    intro j _
    rw [Bool.eq_iff_iff, hp j, beq_iff_eq]
  rw [hcongr, List.filter_beq, List.count_finRange]
  rfl

/-- An access starts in no other stage than `strobe`. -/
theorem At.starting_eq_nil {stage : CsrStage gWbSlavesNb} (h : At gWindowSize stage s)
    (hne : ∀ slave, stage ≠ .strobe slave) : s.starting gWindowSize = [] := by
  apply List.filter_eq_nil_iff.mpr
  intro j _
  have hwaits := h.waits j
  have hcyc := h.wbCyc
  have hack := h.wbAckT
  rw [starts_eq, wbCyc_out, hcyc, hack, hwaits]
  cases stage with
  | idle => simp [CsrStage.wbCyc]
  | readFifo => simp [CsrStage.wbCyc]
  | cycle => simp [CsrStage.wbCyc]
  | strobe slave => exact absurd rfl (hne slave)
  | busy slave wait =>
      -- the selected slave is at work, and no other one is selected
      have hindex : (s.bus.index gWindowSize).toNat = slave := h.request.1
      by_cases hj : j = slave
      · simp [CsrStage.waits, hj]
      · have hother : (slave : ℕ) ≠ j := fun heq => hj (Fin.ext heq.symm)
        simp [hindex, hother]
  | acked slave => simp [CsrStage.wbAckT]

theorem At.starting_strobe {slave : Fin gWbSlavesNb} (h : At gWindowSize (.strobe slave) s) :
    s.starting gWindowSize = [slave] := by
  apply filter_finRange_eq_singleton
  intro j
  obtain ⟨hindex, hstb⟩ := h.request
  have hwaits := h.waits j
  rw [starts_eq, wbCyc_out, h.wbCyc, h.wbAckT, hwaits, hindex, hstb]
  simp [CsrStage.wbCyc, CsrStage.wbAckT, CsrStage.waits, Fin.ext_iff, eq_comm]

theorem At.starts_strobe {slave : Fin gWbSlavesNb} (h : At gWindowSize (.strobe slave) s)
    (j : Fin gWbSlavesNb) : s.starts gWindowSize j = true ↔ j = slave := by
  have hmem : j ∈ s.starting gWindowSize ↔ j = slave := by
    rw [h.starting_strobe, List.mem_singleton]
  rwa [starting, List.mem_filter, and_iff_right (List.mem_finRange j)] at hmem

theorem At.not_starts {stage : CsrStage gWbSlavesNb} (h : At gWindowSize stage s)
    (hne : ∀ slave, stage ≠ .strobe slave) (j : Fin gWbSlavesNb) :
    s.starts gWindowSize j = false := by
  have hnil := List.filter_eq_nil_iff.mp (h.starting_eq_nil hne) j (List.mem_finRange j)
  exact Bool.not_eq_true _ ▸ hnil

/-- A slave acknowledges at the end of its access, and at no other time. -/
theorem At.ack_iff {stage : CsrStage gWbSlavesNb} (h : At gWindowSize stage s)
    (j : Fin gWbSlavesNb) : (s.slaves j).ack = true ↔ stage = .busy j 0 := by
  rw [CsrSlave.ack, h.waits j, beq_iff_eq]
  cases stage with
  | busy slave wait =>
      by_cases hj : j = slave
      · simp [CsrStage.waits, hj]
      · simp [CsrStage.waits, hj, Ne.symm hj]
  | idle => simp [CsrStage.waits]
  | readFifo => simp [CsrStage.waits]
  | cycle => simp [CsrStage.waits]
  | strobe slave => simp [CsrStage.waits]
  | acked slave => simp [CsrStage.waits]

theorem At.answered_eq_nil {stage : CsrStage gWbSlavesNb} (h : At gWindowSize stage s)
    (hne : ∀ slave, stage ≠ .busy slave 0) : s.answered i = [] := by
  have hnone : (List.finRange gWbSlavesNb).filter (fun j => (s.slaves j).ack) = [] := by
    apply List.filter_eq_nil_iff.mpr
    intro j _ hack
    exact hne j ((h.ack_iff j).mp hack)
  rw [answered, hnone, List.map_nil]

theorem At.answered_busy {slave : Fin gWbSlavesNb} (h : At gWindowSize (.busy slave 0) s) :
    s.answered i = [((slave : ℕ), i.wbDat.extractLsb' (32 * slave) 32)] := by
  have hone : (List.finRange gWbSlavesNb).filter (fun j => (s.slaves j).ack) = [slave] := by
    apply filter_finRange_eq_singleton
    intro j
    rw [h.ack_iff j]
    constructor
    · intro heq
      injection heq with hslave
      exact hslave.symm
    · intro heq
      rw [heq]
  rw [answered, hone, List.map_singleton]

variable (style i) in
/-- The decoder registers no acknowledge where no slave gives one. -/
theorem At.wbAckT_step {stage : CsrStage gWbSlavesNb} (h : At gWindowSize stage s)
    (hne : ∀ slave, stage ≠ .busy slave 0) :
    (step gWindowSize style s i).bus.dec.wbAckT = false := by
  have hmux : (step gWindowSize style s i).bus.dec.wbAckT =
      WbAddrDecoder.pAckMux s.bus.dec.wbPeriphAddr (s.lines gWindowSize style i) := rfl
  rw [hmux, WbAddrDecoder.pAckMux]
  by_cases hlt : s.bus.dec.wbPeriphAddr.toNat < gWbSlavesNb
  · rw [if_pos hlt]
    have hline : (s.lines gWindowSize style i).wbAck.getLsbD s.bus.dec.wbPeriphAddr.toNat =
        (s.slaves ⟨_, hlt⟩).ack := getLsbD_lineVector _ ⟨_, hlt⟩
    rw [hline, Bool.eq_false_iff]
    intro hack
    exact hne _ ((h.ack_iff _).mp hack)
  · rw [if_neg hlt]

/-- The acknowledge of the slave at work is the one that the decoder registers, with its data. -/
theorem At.wbAckT_busy {slave : Fin gWbSlavesNb} (h : At gWindowSize (.busy slave 0) s) :
    (step gWindowSize style s i).bus.dec.wbAckT = true ∧
      (step gWindowSize style s i).bus.dec.wbmDat = i.wbDat.extractLsb' (32 * slave) 32 := by
  obtain ⟨-, hregistered⟩ := h.request
  have hmux : (step gWindowSize style s i).bus.dec.wbAckT =
      WbAddrDecoder.pAckMux s.bus.dec.wbPeriphAddr (s.lines gWindowSize style i) := rfl
  have hdin : (step gWindowSize style s i).bus.dec.wbmDat =
      WbAddrDecoder.pDinMux s.bus.dec.wbPeriphAddr (s.lines gWindowSize style i) := rfl
  constructor
  · have hline : (s.lines gWindowSize style i).wbAck.getLsbD slave = (s.slaves slave).ack :=
      getLsbD_lineVector _ slave
    rw [hmux, WbAddrDecoder.pAckMux, hregistered, if_pos slave.isLt, hline]
    exact (h.ack_iff slave).mpr rfl
  · rw [hdin, WbAddrDecoder.pDinMux, hregistered, if_pos slave.isLt]
    rfl

/-! ### One edge -/

/-- The stage after an edge. -/
def nextStage (gWindowSize : ℕ) (s : CsrAccesses gWbSlavesNb) (i : CsrAccessesIn gWbSlavesNb) :
    CsrStage gWbSlavesNb → CsrStage gWbSlavesNb
  | .idle => if s.ready.isEmpty then .idle else .readFifo
  | .readFifo => .cycle
  | .cycle =>
      if h : (s.dout.access gWbSlavesNb gWindowSize).slave < gWbSlavesNb then .strobe ⟨_, h⟩
      else .idle
  | .strobe slave => .busy slave (i.wait slave)
  | .busy slave 0 => .acked slave
  | .busy slave (wait + 1) => .busy slave wait
  | .acked _ => .idle

/-- Slaves that start nothing only count down. -/
theorem waits_step (s : CsrAccesses gWbSlavesNb) (j : Fin gWbSlavesNb)
    (hstart : s.starts gWindowSize j = false) :
    ((step gWindowSize style s i).slaves j).waits =
      match (s.slaves j).waits with
      | some (k + 1) => some k
      | _ => none := by
  simp only [step, CsrSlave.step, hstart]
  cases (s.slaves j).waits with
  | none => rfl
  | some k => cases k <;> rfl

variable (style) in
/-- The requests that are left have a slave. -/
theorem At.mapped_step {stage : CsrStage gWbSlavesNb} (h : At gWindowSize stage s)
    (hreq : ∀ r ∈ i.requests, Mapped gWbSlavesNb gWindowSize r) :
    ∀ r ∈ (step gWindowSize style s i).ready, Mapped gWbSlavesNb gWindowSize r := by
  intro r hr
  rcases List.mem_append.mp hr with hr | hr
  · apply h.mapped
    cases hrd : s.bus.wb.toWbFifoRd with
    | false => simpa [hrd] using hr
    | true =>
        rw [hrd, if_pos rfl] at hr
        exact List.mem_of_mem_tail hr
  · exact hreq r hr

theorem At.step_idle (h : At gWindowSize .idle s)
    (hreq : ∀ r ∈ i.requests, Mapped gWbSlavesNb gWindowSize r) :
    At gWindowSize (nextStage gWindowSize s i .idle) (step gWindowSize style s i) := by
  have hstate : s.bus.wb.wishboneCurrentState = .idle := h.state
  have hrd : s.bus.wb.toWbFifoRd = false := h.toWbFifoRd
  have hack := h.wbAckT_step style i (fun _ hbusy => by cases hbusy)
  have hmapped := h.mapped_step style hreq
  have hwaits : ∀ j, ((step gWindowSize style s i).slaves j).waits = none := by
    intro j
    rw [waits_step s j (h.not_starts (fun _ hstrobe => by cases hstrobe) j), h.waits j]
    rfl
  cases hempty : s.ready.isEmpty with
  | true =>
      rw [nextStage, hempty, if_pos rfl]
      refine ⟨?_, ?_, ?_, hack, hwaits, fun hne => absurd rfl hne, hmapped, trivial⟩ <;>
        simp [step, CsrBus.step, WbmWb.step, hstate, hrd, hempty, CsrStage.state,
          CsrStage.toWbFifoRd, CsrStage.wbCyc]
  | false =>
      rw [nextStage, hempty, if_neg Bool.false_ne_true]
      refine ⟨?_, ?_, ?_, hack, hwaits, fun _ => ?_, hmapped, ?_⟩
      · simp [step, CsrBus.step, WbmWb.step, hstate, hempty, CsrStage.state]
      · simp [step, CsrBus.step, WbmWb.step, hstate, hempty, CsrStage.toWbFifoRd]
      · simp [step, CsrBus.step, WbmWb.step, hstate, CsrStage.wbCyc]
      · simp [step, CsrBus.step, WbmWb.step, hstate]
      · have hne : s.ready ≠ [] := by simpa using hempty
        simp [step, hrd, hne]

theorem At.step_readFifo (h : At gWindowSize .readFifo s)
    (hreq : ∀ r ∈ i.requests, Mapped gWbSlavesNb gWindowSize r) :
    At gWindowSize .cycle (step gWindowSize style s i) := by
  have hstate : s.bus.wb.wishboneCurrentState = .readFifo := h.state
  have hcyc : s.bus.wb.wbCyc = false := h.wbCyc
  have hrd : s.bus.wb.toWbFifoRd = true := h.toWbFifoRd
  have hwr : s.bus.wb.fromWbFifoWr = false := h.fromWbFifoWr (fun hidle => by cases hidle)
  refine ⟨?_, ?_, ?_, h.wbAckT_step style i (fun _ hbusy => by cases hbusy), ?_, fun _ => ?_,
    h.mapped_step style hreq, ?_⟩
  · simp [step, CsrBus.step, WbmWb.step, hstate, CsrStage.state]
  · simp [step, CsrBus.step, WbmWb.step, hstate, CsrStage.toWbFifoRd]
  · simp [step, CsrBus.step, WbmWb.step, hstate, hcyc, CsrStage.wbCyc]
  · intro j
    rw [waits_step s j (h.not_starts (fun _ hstrobe => by cases hstrobe) j), h.waits j]
    rfl
  · simp [step, CsrBus.step, WbmWb.step, hstate, hwr]
  · obtain ⟨r, rest, hready⟩ := List.exists_cons_of_ne_nil h.request
    have hdout : (step gWindowSize style s i).dout = r := by simp [step, hrd, hready]
    show Mapped gWbSlavesNb gWindowSize (step gWindowSize style s i).dout
    rw [hdout]
    exact h.mapped r (by rw [hready]; exact List.mem_cons_self)

theorem At.step_cycle (h : At gWindowSize .cycle s)
    (hreq : ∀ r ∈ i.requests, Mapped gWbSlavesNb gWindowSize r) :
    At gWindowSize (nextStage gWindowSize s i .cycle) (step gWindowSize style s i) := by
  have hstate : s.bus.wb.wishboneCurrentState = .cycle := h.state
  have hrd : s.bus.wb.toWbFifoRd = false := h.toWbFifoRd
  have hwr : s.bus.wb.fromWbFifoWr = false := h.fromWbFifoWr (fun hidle => by cases hidle)
  have hmapped : (s.dout.access gWbSlavesNb gWindowSize).slave < gWbSlavesNb := h.request
  rw [nextStage, dif_pos hmapped]
  refine ⟨?_, ?_, ?_, h.wbAckT_step style i (fun _ hbusy => by cases hbusy), ?_, fun _ => ?_,
    h.mapped_step style hreq, ?_⟩
  · simp [step, CsrBus.step, WbmWb.step, hstate, CsrStage.state]
  · simp [step, CsrBus.step, WbmWb.step, hstate, hrd, CsrStage.toWbFifoRd]
  · simp [step, CsrBus.step, WbmWb.step, hstate, CsrStage.wbCyc]
  · intro j
    rw [waits_step s j (h.not_starts (fun _ hstrobe => by cases hstrobe) j), h.waits j]
    rfl
  · simp [step, CsrBus.step, WbmWb.step, hstate, hwr]
  · simp [step, CsrBus.step, WbmWb.step, hstate, CsrBus.index, CsrBus.master, WbRequest.access]

variable (gWindowSize style i) in
/-- The lines of the bridge while it waits for the acknowledge. -/
theorem waitAck_step (s : CsrAccesses gWbSlavesNb)
    (hstate : s.bus.wb.wishboneCurrentState = .waitAck) (hack : s.bus.dec.wbAckT = false) :
    (step gWindowSize style s i).bus.wb =
      { s.bus.wb with
        wbStb := (step gWindowSize style s i).bus.wb.wbStb
        wishboneCurrentState := .waitAck } := by
  simp [step, CsrBus.step, WbmWb.step, hstate, hack]

theorem At.step_strobe {slave : Fin gWbSlavesNb} (h : At gWindowSize (.strobe slave) s)
    (hreq : ∀ r ∈ i.requests, Mapped gWbSlavesNb gWindowSize r) :
    At gWindowSize (.busy slave (i.wait slave)) (step gWindowSize style s i) := by
  have hwb := waitAck_step gWindowSize style i s h.state h.wbAckT
  have hwr : s.bus.wb.fromWbFifoWr = false := h.fromWbFifoWr (fun hidle => by cases hidle)
  obtain ⟨hindex, -⟩ := h.request
  have hkept : ((step gWindowSize style s i).bus.index gWindowSize).toNat = slave := by
    rw [CsrBus.index_congr (s := s.bus) (by rw [hwb]), hindex]
  refine ⟨?_, ?_, ?_, h.wbAckT_step style i (fun _ hbusy => by cases hbusy), ?_, fun _ => ?_,
    h.mapped_step style hreq, hkept, hindex⟩
  · rw [hwb]
    rfl
  · rw [hwb]
    exact h.toWbFifoRd
  · rw [hwb]
    exact h.wbCyc
  · intro j
    have hstep : ((step gWindowSize style s i).slaves j).waits =
        if s.starts gWindowSize j then some (i.wait j) else none := by
      have hnone : (s.slaves j).waits = none := h.waits j
      simp only [step, CsrSlave.step, hnone]
    rw [hstep]
    by_cases hj : j = slave
    · rw [if_pos ((h.starts_strobe j).mpr hj), CsrStage.waits, if_pos hj, hj]
    · rw [if_neg (fun hstarts => hj ((h.starts_strobe j).mp hstarts)), CsrStage.waits, if_neg hj]
  · rw [hwb]
    exact hwr

theorem At.step_busy {slave : Fin gWbSlavesNb} {wait : ℕ} (h : At gWindowSize (.busy slave wait) s)
    (hreq : ∀ r ∈ i.requests, Mapped gWbSlavesNb gWindowSize r) :
    At gWindowSize (nextStage gWindowSize s i (.busy slave wait)) (step gWindowSize style s i) := by
  have hwb := waitAck_step gWindowSize style i s h.state h.wbAckT
  have hwr : s.bus.wb.fromWbFifoWr = false := h.fromWbFifoWr (fun hidle => by cases hidle)
  obtain ⟨hindex, -⟩ := h.request
  have hkept : ((step gWindowSize style s i).bus.index gWindowSize).toNat = slave := by
    rw [CsrBus.index_congr (s := s.bus) (by rw [hwb]), hindex]
  have hwaits : ∀ j, ((step gWindowSize style s i).slaves j).waits =
      (nextStage gWindowSize s i (.busy slave wait)).waits j := by
    intro j
    rw [waits_step s j (h.not_starts (fun _ hstrobe => by cases hstrobe) j), h.waits j]
    by_cases hj : j = slave <;> cases wait <;> simp [nextStage, CsrStage.waits, hj]
  have hstate : (step gWindowSize style s i).bus.wb.wishboneCurrentState = .waitAck := by rw [hwb]
  have hrd : (step gWindowSize style s i).bus.wb.toWbFifoRd = false := by
    rw [hwb]
    exact h.toWbFifoRd
  have hcyc : (step gWindowSize style s i).bus.wb.wbCyc = true := by
    rw [hwb]
    exact h.wbCyc
  have hwr' : (step gWindowSize style s i).bus.wb.fromWbFifoWr = false := by
    rw [hwb]
    exact hwr
  cases wait with
  | zero =>
      exact ⟨hstate, hrd, hcyc, h.wbAckT_busy.1, hwaits, fun _ => hwr', h.mapped_step style hreq,
        hkept, hindex⟩
  | succ wait =>
      have hack := h.wbAckT_step style i (fun _ hbusy => by cases hbusy)
      exact ⟨hstate, hrd, hcyc, hack, hwaits, fun _ => hwr', h.mapped_step style hreq, hkept,
        hindex⟩

theorem At.step_acked {slave : Fin gWbSlavesNb} (h : At gWindowSize (.acked slave) s)
    (hreq : ∀ r ∈ i.requests, Mapped gWbSlavesNb gWindowSize r) :
    At gWindowSize .idle (step gWindowSize style s i) := by
  have hstate : s.bus.wb.wishboneCurrentState = .waitAck := h.state
  have hack : s.bus.dec.wbAckT = true := h.wbAckT
  have hrd : s.bus.wb.toWbFifoRd = false := h.toWbFifoRd
  refine ⟨?_, ?_, ?_, h.wbAckT_step style i (fun _ hbusy => by cases hbusy), ?_,
    fun hne => absurd rfl hne, h.mapped_step style hreq, trivial⟩
  · simp [step, CsrBus.step, WbmWb.step, hstate, hack, CsrStage.state]
  · simp [step, CsrBus.step, WbmWb.step, hstate, hrd, CsrStage.toWbFifoRd]
  · simp [step, CsrBus.step, WbmWb.step, hstate, hack, CsrStage.wbCyc]
  · intro j
    rw [waits_step s j (h.not_starts (fun _ hstrobe => by cases hstrobe) j), h.waits j]
    rfl

/-- Every edge takes the request to the next stage. -/
theorem At.next {stage : CsrStage gWbSlavesNb} (h : At gWindowSize stage s)
    (hreq : ∀ r ∈ i.requests, Mapped gWbSlavesNb gWindowSize r) :
    At gWindowSize (nextStage gWindowSize s i stage) (step gWindowSize style s i) := by
  cases stage with
  | idle => exact h.step_idle hreq
  | readFifo => exact h.step_readFifo hreq
  | cycle => exact h.step_cycle hreq
  | strobe slave => exact h.step_strobe hreq
  | busy slave wait => exact h.step_busy hreq
  | acked slave => exact h.step_acked hreq

end CsrAccesses

end Gn4124Core
