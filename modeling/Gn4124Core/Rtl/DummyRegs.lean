import Gn4124Core.Rtl.Package

/-!
# `dummy_stat_regs` and `dummy_ctrl_regs`

The two test slaves of the CSR bus, both generated by `wbgen2` with the same process around the
registers (`WbgenSlave`): an access is acknowledged in the cycle after the one that has begun it.
-/

namespace Gn4124Core

/-- The lines of the bus that these slaves read. -/
structure DummyBus where
  wbAddr : BitVec 2
  wbData : Word
  wbCyc : Bool
  wbStb : Bool
  wbWe : Bool
deriving DecidableEq

/-- What the register bank access process keeps of an access. -/
structure WbgenSlave where
  ackSreg : BitVec 10
  ackInProgress : Bool
  rddataReg : Word
deriving DecidableEq

namespace WbgenSlave

variable (s : WbgenSlave) (b : DummyBus)

def reset : WbgenSlave := ⟨0, false, 0⟩

/-- The bus asks for an access and none is in progress. -/
def accepts : Bool := !s.ackInProgress && (b.wbCyc && b.wbStb)

/-- An edge of the bus clock; `reg` is the register at the address. -/
def step (reg : Word) : WbgenSlave where
  ackSreg := (s.ackSreg >>> 1) ||| if s.accepts b then BitVec.twoPow 10 0 else 0
  ackInProgress := if s.ackInProgress then !s.ackSreg.getLsbD 0 else s.accepts b
  rddataReg := if s.accepts b && !b.wbWe then reg else s.rddataReg

/-- `wb_ack_o`. -/
def wbAckO : Bool := s.ackSreg.getLsbD 0

/-- The acknowledge comes while an access is in progress, and at no other time. -/
structure Acks : Prop where
  ackSreg : s.ackSreg = if s.ackInProgress then BitVec.twoPow 10 0 else 0

variable {s b}

theorem Acks.wbAckO (h : s.Acks) : s.wbAckO = s.ackInProgress := by
  rw [WbgenSlave.wbAckO, h.ackSreg]
  cases s.ackInProgress <;> rfl

theorem Acks.ackInProgress_step (h : s.Acks) (reg : Word) :
    (s.step b reg).ackInProgress = s.accepts b := by
  have hbit : s.ackSreg.getLsbD 0 = s.ackInProgress := h.wbAckO
  rw [step, hbit, accepts]
  cases s.ackInProgress <;> rfl

/-- An access takes one edge. -/
theorem Acks.step (h : s.Acks) (reg : Word) : (s.step b reg).Acks := by
  refine ⟨?_⟩
  have hgone : s.ackSreg >>> 1 = 0 := by
    rw [h.ackSreg]
    cases s.ackInProgress <;> decide
  rw [h.ackInProgress_step]
  show (s.ackSreg >>> 1) ||| _ = _
  rw [hgone]
  exact BitVec.zero_or

theorem acks_reset : reset.Acks := ⟨rfl⟩

/-- A read shows the register. -/
theorem rddataReg_step_read (haccepts : s.accepts b = true) (hread : b.wbWe = false) (reg : Word) :
    (s.step b reg).rddataReg = reg := by
  rw [step, haccepts, hread]
  rfl

end WbgenSlave

/-! ## The status registers -/

/-- The ports of the registers. -/
structure DummyStatIn where
  dummyStatReg1 : Word
  dummyStatReg2 : Word
  dummyStatReg3 : Word
  dummyStatRegSwitch : Word
deriving DecidableEq

/-- The register that is read at an address. -/
def DummyStatIn.read (i : DummyStatIn) : BitVec 2 → Word
  | 0b00#2 => i.dummyStatReg1
  | 0b01#2 => i.dummyStatReg2
  | 0b10#2 => i.dummyStatReg3
  | _ => i.dummyStatRegSwitch

structure DummyStatRegs where
  bank : WbgenSlave
deriving DecidableEq

namespace DummyStatRegs

variable (s : DummyStatRegs) (b : DummyBus)

def reset : DummyStatRegs := ⟨.reset⟩

/-- An edge of the bus clock. -/
def step (i : DummyStatIn) : DummyStatRegs := ⟨s.bank.step b (i.read b.wbAddr)⟩

end DummyStatRegs

/-! ## The control registers -/

/-- The first register is outside: a write is handed through with `dummy_reg_1_wr_o`, and a read
gives metavalues. -/
structure DummyCtrlRegs where
  bank : WbgenSlave
  dummyReg1Wr : Bool
  dummyReg2 : Word
  dummyReg3 : Word
  dummyRegLed : Word
deriving DecidableEq

namespace DummyCtrlRegs

variable (s : DummyCtrlRegs) (b : DummyBus)

def reset : DummyCtrlRegs := ⟨.reset, false, 0, 0, 0⟩

/-- The register that is read at an address; `unknown` is what becomes of the metavalue. -/
def read (unknown : Word) : BitVec 2 → Word
  | 0b00#2 => unknown
  | 0b01#2 => s.dummyReg2
  | 0b10#2 => s.dummyReg3
  | _ => s.dummyRegLed

/-- The bus writes the register at `addr`. -/
def writes (addr : BitVec 2) : Bool := s.bank.accepts b && b.wbWe && decide (b.wbAddr = addr)

/-- An edge of the bus clock. -/
def step (unknown : Word) : DummyCtrlRegs where
  bank := s.bank.step b (s.read unknown b.wbAddr)
  dummyReg1Wr := if s.bank.ackInProgress then false else s.dummyReg1Wr || s.writes b 0b00#2
  dummyReg2 := if s.writes b 0b01#2 then b.wbData else s.dummyReg2
  dummyReg3 := if s.writes b 0b10#2 then b.wbData else s.dummyReg3
  dummyRegLed := if s.writes b 0b11#2 then b.wbData else s.dummyRegLed

end DummyCtrlRegs

end Gn4124Core
