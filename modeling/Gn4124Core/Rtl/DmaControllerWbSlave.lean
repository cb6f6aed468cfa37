import Gn4124Core.Clocked.LevelChain
import Gn4124Core.Clocked.Run
import Gn4124Core.Rtl.DmaController

/-!
# `dma_controller_wb_slave`

The Wishbone slave of the DMA registers.  It answers on the clock of the bus, and its nine
registers are those of `dma_controller` in the domain of `clk_i`.  Every access, a write or a
read, raises the level `lw` of its register for two edges of the bus clock.  Where `clk_i` sees it
rise, the register is loaded, or read into `int_read`.  The acknowledge is a bit that is shifted
through `ack_sreg`; it does not wait for the other clock.

The source repeats the same processes for every register.  They are here once, in `AsyncReg`.
-/

namespace Gn4124Core

open Clocked

/-- The registers of the slave. -/
inductive DmaReg where
  | ctrl
  | stat
  | cstart
  | hstartl
  | hstarth
  | len
  | nextl
  | nexth
  | attrib
deriving DecidableEq

namespace DmaReg

def all : List DmaReg := [ctrl, stat, cstart, hstartl, hstarth, len, nextl, nexth, attrib]

/-- `rwaddr_reg(3 downto 0)`; the other addresses have no register. -/
def ofAddr (rwaddrReg : BitVec 4) : Option DmaReg := all[rwaddrReg.toNat]?

theorem mem_all (r : DmaReg) : r ∈ all := by cases r <;> decide

theorem nodup_all : all.Nodup := by decide

end DmaReg

/-- The signals of one register on both clocks: `chain` has `lw`, `lw_s0`, `lw_s1` and `lw_s2`. -/
structure AsyncReg where
  chain : LevelChain
  lwDelay : Bool
  lwReadInProgress : Bool
  rwsel : Bool
  intWrite : Word
  o : Word
  loadO : Bool
  intRead : Word
deriving DecidableEq

namespace AsyncReg

variable (f : AsyncReg)

def reset : AsyncReg := ⟨⟨false, false, false, false⟩, false, false, false, 0, 0, false, 0⟩

/-- An edge of `clk_i`, on which the register reads `i`. -/
def clkEdge (i : Word) : AsyncReg :=
  { f with
    chain := f.chain.sample
    o := if f.chain.rise && f.rwsel then f.intWrite else f.o
    loadO := f.chain.rise && f.rwsel
    intRead := if f.chain.rise && !f.rwsel then i else f.intRead }

/-- An access to the register begins. -/
def access (we : Bool) (wrdataReg : Word) : AsyncReg :=
  { f with
    chain := { f.chain with level := true }
    lwDelay := true
    lwReadInProgress := !we
    rwsel := we
    intWrite := if we then wrdataReg else f.intWrite }

/-- An edge of the bus clock during an access; `ackSreg1` is `ack_sreg(1)`. -/
def advance (ackSreg1 : Bool) : AsyncReg :=
  { f with
    chain := { f.chain with level := f.lwDelay }
    lwDelay := false
    lwReadInProgress := f.lwReadInProgress && !ackSreg1 }

end AsyncReg

/-- The lines of the bus. -/
structure DmaRegsBus where
  wbAddr : BitVec 4
  wbData : Word
  wbCyc : Bool
  wbStb : Bool
  wbWe : Bool
deriving DecidableEq

/-- An edge of the bus clock, of `clk_i`, or of both. -/
structure DmaRegsTick where
  wb : Option DmaRegsBus
  clk : Option (DmaReg → Word)

structure DmaControllerWbSlave where
  ackSreg : BitVec 10
  ackInProgress : Bool
  rddataReg : Word
  reg : DmaReg → AsyncReg

namespace DmaControllerWbSlave

variable (s : DmaControllerWbSlave) (b : DmaRegsBus) (t : DmaRegsTick)

def reset : DmaControllerWbSlave := ⟨0, false, 0, fun _ => .reset⟩

/-- The bus asks for an access and none is in progress. -/
def accepts : Bool := !s.ackInProgress && (b.wbCyc && b.wbStb)

/-- The bits that the process sets in `ack_sreg` on top of the shift. -/
def ackStart : BitVec 10 :=
  if s.accepts b then
    match DmaReg.ofAddr b.wbAddr with
    | some _ => BitVec.twoPow 10 5
    -- prevents the slave from hanging the bus on an invalid address
    | none => BitVec.twoPow 10 0
  else 0

/-- What an edge of the bus clock does to a register; `f` has its signals of the other clock. -/
def regWb (r : DmaReg) (f : AsyncReg) : AsyncReg :=
  if s.ackInProgress then
    if s.ackSreg.getLsbD 0 then f else f.advance (s.ackSreg.getLsbD 1)
  else if s.accepts b && decide (DmaReg.ofAddr b.wbAddr = some r) then f.access b.wbWe b.wbData
  else f

/-- `rddata_reg` after an edge of the bus clock; of several assignments the last one counts. -/
def nextRddata : Word :=
  if s.ackInProgress && (!s.ackSreg.getLsbD 0 && s.ackSreg.getLsbD 1) then
    DmaReg.all.foldl
      (fun d r => if (s.reg r).lwReadInProgress then (s.reg r).intRead else d) s.rddataReg
  else s.rddataReg

def step : DmaControllerWbSlave where
  ackSreg :=
    match t.wb with
    | some b => (s.ackSreg >>> 1) ||| s.ackStart b
    | none => s.ackSreg
  ackInProgress :=
    match t.wb with
    | some b => if s.ackInProgress then !s.ackSreg.getLsbD 0 else s.accepts b
    | none => s.ackInProgress
  rddataReg := if t.wb.isSome then s.nextRddata else s.rddataReg
  reg := fun r =>
    let f :=
      match t.clk with
      | some i => (s.reg r).clkEdge (i r)
      | none => s.reg r
    match t.wb with
    | some b => s.regWb b r f
    | none => f

/-- `wb_ack_o`. -/
def wbAckO : Bool := s.ackSreg.getLsbD 0

/-- What a register is loaded with. -/
def load (r : DmaReg) : Option Word := if (s.reg r).loadO then some (s.reg r).o else none

/-- The loads of `dma_controller`; that of the status register is open. -/
def loads : DmaLoads where
  dmaCtrl := s.load .ctrl
  dmaCstart := s.load .cstart
  dmaHstartl := s.load .hstartl
  dmaHstarth := s.load .hstarth
  dmaLen := s.load .len
  dmaNextl := s.load .nextl
  dmaNexth := s.load .nexth
  dmaAttrib := s.load .attrib

end DmaControllerWbSlave

/-- What the controller shows the slave. -/
def DmaController.shown (s : DmaController) : DmaReg → Word
  | .ctrl => s.regs.dmaCtrlReg
  | .stat => s.regs.dmaStatReg
  | .cstart => s.regs.item.carrierAddr
  | .hstartl => s.regs.item.hostAddrL
  | .hstarth => s.regs.item.hostAddrH
  | .len => s.regs.item.len
  | .nextl => s.regs.item.nextL
  | .nexth => s.regs.item.nextH
  | .attrib => s.regs.item.attrib

end Gn4124Core
