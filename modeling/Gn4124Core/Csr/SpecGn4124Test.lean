import Gn4124Core.Csr.ExactlyOnce
import Gn4124Core.DmaRegisters.Readback
import Gn4124Core.Rtl.DummyRegs

/-!
# The CSR bus of `spec_gn4124_test`

The top level of the test design puts three slaves behind the address decoder: the registers of
the DMA controller, the constants of `dummy_stat_regs` and the registers of `dummy_ctrl_regs`.
They are three of the slaves that the bus expects (`accesses_step`), so that what is known of
every such bus holds of this one.
-/

namespace Gn4124Core

open Clocked

def cBar0Aperture : ℕ := 18

def cCsrWbSlavesNb : ℕ := 3

/-- The bridge, the decoder and the slaves, with the requests that `to_wb_fifo` holds. -/
structure SpecCsr where
  bus : CsrBus 3
  ready : List WbRequest
  dout : WbRequest
  dma : DmaRegisters
  dummyStat : DummyStatRegs
  dummyCtrl : DummyCtrlRegs

/-- The requests that come out of the crossing of `to_wb_fifo`, the lock of the PLL, and what
becomes of metavalues. -/
structure SpecCsrIn where
  requests : List WbRequest
  p2lPllLocked : Bool
  unknown : Word
deriving DecidableEq

/-- An edge of `l_clk`, of the clock of the DMA controller, or of both. -/
structure SpecCsrTick where
  csr : Option SpecCsrIn
  clk : Option DmaReports
deriving DecidableEq

namespace SpecCsr

local instance slaves_neZero : NeZero 3 := ⟨by decide⟩

variable (s : SpecCsr) (i : SpecCsrIn) (t : SpecCsrTick)

/-- The bus of the slaves. -/
def out : WbSlavesOut 3 := s.bus.slaves cBar0Aperture

def dmaBus : DmaRegsBus where
  wbAddr := s.out.wbAdr.extractLsb' 0 4
  wbData := s.out.wbDat
  wbCyc := s.out.wbCyc 0
  wbStb := s.out.wbStb
  wbWe := s.out.wbWe

def dummyBus (slave : Fin 3) : DummyBus where
  wbAddr := s.out.wbAdr.extractLsb' 0 2
  wbData := s.out.wbDat
  wbCyc := s.out.wbCyc slave
  wbStb := s.out.wbStb
  wbWe := s.out.wbWe

/-- The ports of `dummy_stat_regs`. -/
def dummyStatIn : DummyStatIn where
  dummyStatReg1 := 0xDEADBABE#32
  dummyStatReg2 := 0xBEEFFACE#32
  dummyStatReg3 := 0x12345678#32
  dummyStatRegSwitch := 0#31 ++ BitVec.ofBool i.p2lPllLocked

def wbAck : Fin 3 → Bool
  | 0 => s.dma.slave.wbAckO
  | 1 => s.dummyStat.bank.wbAckO
  | 2 => s.dummyCtrl.bank.wbAckO

/-- `dma_reg_stall_o` is constantly low. -/
def wbStall : Fin 3 → Bool
  | 0 => false
  | 1 => if s.out.wbCyc 1 = false then false else !s.wbAck 1
  | 2 => if s.out.wbCyc 2 = false then false else !s.wbAck 2

/-- What the slaves drive. -/
def lines : WbSlavesIn 3 where
  wbDat := s.dummyCtrl.bank.rddataReg ++ (s.dummyStat.bank.rddataReg ++ s.dma.slave.rddataReg)
  wbAck := lineVector s.wbAck
  wbStall := lineVector s.wbStall
  unknown := i.unknown

/-- The edge, as the registers of the DMA controller see it. -/
def dmaTick : DmaRegistersTick := ⟨t.csr.map fun _ => s.dmaBus, t.clk⟩

/-- An edge of `l_clk`, after which the DMA controller is `dma`. -/
def csrEdge (dma : DmaRegisters) : SpecCsr where
  bus := s.bus.step cBar0Aperture ⟨s.ready.isEmpty, s.dout, s.lines i⟩
  ready := (if s.bus.wb.toWbFifoRd then s.ready.tail else s.ready) ++ i.requests
  dout := if s.bus.wb.toWbFifoRd then s.ready.headD s.dout else s.dout
  dma := dma
  dummyStat := s.dummyStat.step (s.dummyBus 1) (dummyStatIn i)
  dummyCtrl := s.dummyCtrl.step (s.dummyBus 2) i.unknown

def step : SpecCsr :=
  match t.csr with
  | some i => s.csrEdge i (s.dma.step (s.dmaTick t))
  | none => { s with dma := s.dma.step (s.dmaTick t) }

/-- Reset, which leaves the output of the FIFO open. -/
def reset (toWbFifoDout : WbRequest) : SpecCsr :=
  ⟨.reset, [], toWbFifoDout, .reset, .reset, .reset⟩

/-! ## The slaves are those that the bus expects -/

/-- `ack_sreg` of each slave. -/
def ackSreg : Fin 3 → BitVec 10
  | 0 => s.dma.slave.ackSreg
  | 1 => s.dummyStat.bank.ackSreg
  | 2 => s.dummyCtrl.bank.ackSreg

/-- The data that each slave shows. -/
def rddata : Fin 3 → Word
  | 0 => s.dma.slave.rddataReg
  | 1 => s.dummyStat.bank.rddataReg
  | 2 => s.dummyCtrl.bank.rddataReg

/-- How long an access waits until its acknowledge has come down to bit 0. -/
def ackWaits (ackSreg : BitVec 10) : Option ℕ := (List.range 10).find? fun k => ackSreg.getLsbD k

/-- How long an access waits that begins now. -/
def wait : Fin 3 → ℕ
  | 0 => DmaControllerWbSlave.wait s.dmaBus
  | 1 | 2 => 0

def style : Fin 3 → StallStyle
  | 0 => .low
  | 1 | 2 => .untilAck

/-- The bus, with what it knows of its slaves. -/
def accesses : CsrAccesses 3 := ⟨s.bus, s.ready, s.dout, fun j => ⟨ackWaits (s.ackSreg j)⟩⟩

def accessesIn : CsrAccessesIn 3 := ⟨i.requests, s.wait, (s.lines i).wbDat, i.unknown⟩

variable {s i t}

theorem ackWaits_eq_zero (ackSreg : BitVec 10) :
    (ackWaits ackSreg == some 0) = ackSreg.getLsbD 0 := by
  have hrange : List.range 10 = 0 :: (List.range 9).map (· + 1) := by decide
  rw [ackWaits, hrange, List.find?_cons]
  cases hzero : ackSreg.getLsbD 0 with
  | true => rfl
  | false =>
      rw [beq_eq_false_iff_ne]
      intro hsome
      have hmem := List.mem_of_find?_eq_some hsome
      simp at hmem

theorem wbAck_eq (s : SpecCsr) (j : Fin 3) : s.wbAck j = (s.accesses.slaves j).ack := by
  have hbit : s.wbAck j = (s.ackSreg j).getLsbD 0 := by
    match j with
    | 0 | 1 | 2 => rfl
  rw [hbit, ← ackWaits_eq_zero]
  rfl

theorem lines_eq (s : SpecCsr) (i : SpecCsrIn) :
    s.lines i = s.accesses.lines cBar0Aperture style (s.accessesIn i) := by
  have hack : s.wbAck = fun j => (s.accesses.slaves j).ack := funext s.wbAck_eq
  have hstall : s.wbStall =
      fun j => (s.accesses.slaves j).stall (style j) ((s.accesses.out cBar0Aperture).wbCyc j) := by
    funext j
    match j with
    | 0 => rfl
    | 1 | 2 =>
        show (if s.out.wbCyc _ = false then false else !s.wbAck _) =
          (s.out.wbCyc _ && !(s.accesses.slaves _).ack)
        rw [wbAck_eq]
        cases s.out.wbCyc _ <;> rfl
  rw [lines, CsrAccesses.lines, hack, hstall]
  rfl

/-! ## One edge -/

theorem ackWaits_stage {stage : DmaRegsStage} (h : stage.Bounded) :
    ackWaits stage.ackSreg = stage.waits := by
  cases stage with
  | free => decide
  | invalid => decide
  | busy r we j =>
      have hall : ∀ k : Fin 6, ackWaits (BitVec.twoPow 10 (5 - k.val)) = some (5 - k.val) := by
        decide
      exact hall ⟨j, Nat.lt_succ_of_le h⟩

/-- The DMA registers start and end their accesses as a slave of the bus. -/
theorem waits_dma {lag pace : ℕ} {stage : DmaRegsStage}
    (h : DmaControllerWbSlave.At pace lag stage s.dma.slave) (b : DmaRegsBus) :
    (CsrSlave.mk (ackWaits s.dma.slave.ackSreg)).step
        ((CsrSlave.mk (ackWaits s.dma.slave.ackSreg)).starts b.wbCyc b.wbStb)
        (DmaControllerWbSlave.wait b) = ⟨ackWaits (stage.next b).ackSreg⟩ ∧
      (ackWaits s.dma.slave.ackSreg).isNone = !s.dma.slave.ackInProgress := by
  have hwaits : ackWaits s.dma.slave.ackSreg = stage.waits := by
    rw [h.ackSreg, ackWaits_stage h.bounded]
  rw [hwaits, ackWaits_stage (DmaControllerWbSlave.bounded_next h.bounded)]
  refine ⟨DmaControllerWbSlave.csrSlave_step stage h.bounded b, ?_⟩
  rw [h.ackInProgress]
  cases stage <;> rfl

/-- So do the generated slaves. -/
theorem waits_dummy {d : WbgenSlave} (h : d.Acks) (b : DummyBus) (reg : Word) :
    (CsrSlave.mk (ackWaits d.ackSreg)).step
        ((CsrSlave.mk (ackWaits d.ackSreg)).starts b.wbCyc b.wbStb) 0 =
      ⟨ackWaits (d.step b reg).ackSreg⟩ ∧ (ackWaits d.ackSreg).isNone = !d.ackInProgress := by
  have hwaits : ∀ busy : Bool, ackWaits (if busy then BitVec.twoPow 10 0 else 0) =
      if busy then some 0 else none := by
    decide
  rw [(h.step reg).ackSreg, h.ackInProgress_step, h.ackSreg, hwaits, hwaits, WbgenSlave.accepts]
  cases d.ackInProgress <;> cases hask : b.wbCyc && b.wbStb <;>
    simp [CsrSlave.step, CsrSlave.starts, hask]

/-- What the slaves keep to. -/
structure Keeps (s : SpecCsr) : Prop where
  dma : ∃ pace lag stage, DmaControllerWbSlave.At pace lag stage s.dma.slave
  dummyStat : s.dummyStat.bank.Acks
  dummyCtrl : s.dummyCtrl.bank.Acks

/-- **The bus of the test design is one of those that `CsrAccesses` describes.** -/
theorem accesses_step (h : s.Keeps) (hcsr : t.csr = some i) :
    (s.step t).accesses = CsrAccesses.step cBar0Aperture style s.accesses (s.accessesIn i) := by
  obtain ⟨⟨pace, lag, stage, hat⟩, hstat, hctrl⟩ := h
  have hslaves : (s.step t).accesses.slaves = fun j =>
      (s.accesses.slaves j).step (s.accesses.starts cBar0Aperture j) (s.wait j) := by
    funext j
    match j with
    | 0 =>
        have hnext : (s.step t).ackSreg 0 = (stage.next s.dmaBus).ackSreg := by
          rw [← hat.ackSreg_next]
          simp [step, hcsr, csrEdge, ackSreg, DmaRegisters.step, DmaControllerWbSlave.step, dmaTick,
            DmaRegisters.slaveTick]
        show CsrSlave.mk (ackWaits ((s.step t).ackSreg 0)) = _
        rw [hnext]
        exact (waits_dma hat s.dmaBus).1.symm
    | 1 =>
        have hnext : (s.step t).ackSreg 1 =
            (s.dummyStat.bank.step (s.dummyBus 1) ((dummyStatIn i).read (s.dummyBus 1).wbAddr)).ackSreg := by
          simp [step, hcsr, csrEdge, ackSreg, DummyStatRegs.step]
        show CsrSlave.mk (ackWaits ((s.step t).ackSreg 1)) = _
        rw [hnext]
        exact (waits_dummy hstat (s.dummyBus 1) _).1.symm
    | 2 =>
        have hnext : (s.step t).ackSreg 2 =
            (s.dummyCtrl.bank.step (s.dummyBus 2)
              (s.dummyCtrl.read i.unknown (s.dummyBus 2).wbAddr)).ackSreg := by
          simp [step, hcsr, csrEdge, ackSreg, DummyCtrlRegs.step]
        show CsrSlave.mk (ackWaits ((s.step t).ackSreg 2)) = _
        rw [hnext]
        exact (waits_dummy hctrl (s.dummyBus 2) _).1.symm
  have hbus : (s.step t).bus = s.bus.step cBar0Aperture ⟨s.ready.isEmpty, s.dout, s.lines i⟩ := by
    simp [step, hcsr, csrEdge]
  rw [CsrAccesses.step]
  show CsrAccesses.mk (s.step t).bus (s.step t).ready (s.step t).dout (s.step t).accesses.slaves = _
  rw [hslaves, hbus, lines_eq]
  simp only [step, hcsr, csrEdge]
  rfl

end SpecCsr

end Gn4124Core
