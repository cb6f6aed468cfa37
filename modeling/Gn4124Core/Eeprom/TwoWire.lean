import Gn4124Core.PyLang.Integers
import Gn4124Core.RegisterBus.Trace

/-!
# `i2c_read` and `i2c_write` of `eeprom_utils.py`

The boot EEPROM hangs on the two-wire controller of the GN4124, whose registers are in BAR 4.  Both
functions set the controller up, give it the word offset, and then transfer the data in parts that
fit into its FIFO.  After each part they poll the interrupt status.

The loops over the parts have a bound on their rounds here, and are `none` if it is reached.  The
number of bytes is enough (`i2cWrite_eq`, `i2cRead_eq`).
-/

namespace Gn4124Core

open PyLang RegisterBus

namespace Eeprom

abbrev Byte := BitVec 8
abbrev Word := BitVec 32

/-- The registers that are used, with their addresses. -/
inductive Register where
  /-- `0x804`, with the bit that shuts off the state machine `EEPROM_INIT`. -/
  | lbCtl
  /-- `0x900`. -/
  | twiCtrl
  /-- `0x904`. -/
  | twiStatus
  /-- `0x908`, the device address: a write starts the transfer. -/
  | twiAddress
  /-- `0x90C`, the FIFO. -/
  | twiData
  /-- `0x910`. -/
  | twiIrtStatus
  /-- `0x914`. -/
  | twiTrSize
deriving DecidableEq

abbrev Card := Answers Register Word
abbrev TwiTrace := Trace Register Word

/-- A run that has ended: what is returned or raised, and all accesses. -/
structure Ended (α : Type*) where
  result : Except PyError α
  trace : TwiTrace

/-- `0xFF & x`, as it is written into a register. -/
def lowByte (x : ℤ) : Word := BitVec.ofInt 32 (x.land 0xFF)

/-- `0x7F & i2c_addr`. -/
def deviceAddress (i2cAddr : ℤ) : Word := BitVec.ofInt 32 (i2cAddr.land 0x7F)

/-- The initial value of the counters that bound the polling. -/
def pollLimit : ℕ := 2000000

/-- `tmp & 0x1`. -/
def completed (tmp : Word) : Bool := tmp &&& 0x1 != 0

/-- `tmp & 0xC`. -/
def nackOrTimeout (tmp : Word) : Bool := tmp &&& 0xC != 0

section

variable (card : Card)

/-- Shut off the state machine `EEPROM_INIT` if this was not done yet. -/
def shutOffInit (t : TwiTrace) : TwiTrace :=
  let tmp := answer card .lbCtl t
  let t := reads card .lbCtl t
  if tmp &&& 0x10000 = 0 then writes .lbCtl (tmp ||| 0x10000) t else t

/-- Wait until the bus is idle.  That it is not has no consequences. -/
def waitIdle (t : TwiTrace) : TwiTrace :=
  (poll (fun tmp => tmp &&& 0x100 = 0) (fun _ => false) card .twiStatus pollLimit t).2

/-! ## `i2c_write` -/

/-- The variables of the loops of `i2c_write`. -/
structure Counters where
  offset : ℤ
  length : ℤ
  totalTransfer : ℕ
deriving DecidableEq

/-- The inner loop, with room for `i` more bytes in the FIFO. -/
def fillFifo (writeData : List ℤ) : ℕ → Counters → TwiTrace → Except PyError Counters × TwiTrace
  | 0, c, t => (.ok c, t)
  | i + 1, c, t =>
      if 0 < c.length then
        match writeData[c.totalTransfer]? with
        | none => (.error .indexError, t)
        | some d =>
            let t := writes .twiData (lowByte d) t
            let c : Counters := ⟨c.offset + 1, c.length - 1, c.totalTransfer + 1⟩
            -- the page ends here
            if c.offset.land 7 = 0 then (.ok c, t) else fillFifo writeData i c t
      else (.ok c, t)

/-- The outer loop: one burst for each round. -/
def writeBursts (i2cAddr : ℤ) (writeData : List ℤ) : ℕ → Counters → TwiTrace → Option (Ended ℕ)
  | 0, c, t => if 0 < c.length then none else some ⟨.ok c.totalTransfer, t⟩
  | rounds + 1, c, t =>
      if 0 < c.length then
        match fillFifo writeData 6 c (writes .twiData (lowByte c.offset) t) with
        | (.error e, t) => some ⟨.error e, t⟩
        | (.ok c, t) =>
            let t := writes .twiAddress (deviceAddress i2cAddr) t
            match poll completed nackOrTimeout card .twiIrtStatus pollLimit t with
            | (.done, t) => writeBursts i2cAddr writeData rounds c (reads card .twiTrSize t)
            | (.failed, t) => some ⟨.ok c.totalTransfer, reads card .twiTrSize t⟩
            -- the counter has run out, which is not looked at
            | (.exhausted, t) => writeBursts i2cAddr writeData rounds c t
      else some ⟨.ok c.totalTransfer, t⟩

def i2cWrite (i2cAddr offset length : ℤ) (writeData : List ℤ) : Option (Ended ℕ) :=
  let t := shutOffInit card []
  let t := reads card .twiIrtStatus t
  let t := reads card .twiStatus t
  let t := writes .twiCtrl 0x384E t
  let t := reads card .twiCtrl t
  let t := waitIdle card t
  writeBursts card i2cAddr writeData length.toNat ⟨offset, length, 0⟩ t

/-! ## `i2c_read` -/

/-- Read `transferLen` bytes from the FIFO. -/
def readFifo : ℕ → List Byte → TwiTrace → List Byte × TwiTrace
  | 0, readData, t => (readData, t)
  | transferLen + 1, readData, t =>
      let tmp := answer card .twiData t
      readFifo transferLen (readData ++ [tmp.setWidth 8]) (reads card .twiData t)

/-- The outer loop: one part for each round. -/
def readParts (i2cAddr : ℤ) :
    ℕ → ℤ → Bool → ℕ → List Byte → TwiTrace → Option (Ended (ℕ × List Byte))
  | 0, length, errorFlag, totalTransfer, readData, t =>
      if 0 < length ∧ errorFlag = false then none else some ⟨.ok (totalTransfer, readData), t⟩
  | rounds + 1, length, errorFlag, totalTransfer, readData, t =>
      if 0 < length ∧ errorFlag = false then
        let transferLen := if length > 8 then 8 else length
        let length := if length > 8 then length - 8 else 0
        let t := writes .twiTrSize (BitVec.ofInt 32 transferLen) t
        let t := writes .twiAddress (deviceAddress i2cAddr) t
        let (outcome, t) := poll completed (fun _ => false) card .twiIrtStatus pollLimit t
        -- the FIFO is read in any case
        let (readData, t) := readFifo card transferLen.toNat readData t
        readParts i2cAddr rounds length (outcome = .exhausted) (totalTransfer + transferLen.toNat)
          readData t
      else some ⟨.ok (totalTransfer, readData), t⟩

def i2cRead (i2cAddr offset length : ℤ) (readData : List Byte) :
    Option (Ended (ℕ × List Byte)) :=
  let t := shutOffInit card []
  let t := writes .twiCtrl 0x384E t
  let t := reads card .twiCtrl t
  let t := waitIdle card t
  let t := reads card .twiIrtStatus t
  let t := writes .twiData (lowByte offset) t
  let t := writes .twiAddress (deviceAddress i2cAddr) t
  match poll completed nackOrTimeout card .twiIrtStatus pollLimit t with
  | (.done, t) =>
      let t := writes .twiCtrl 0x384F t
      readParts card i2cAddr length.toNat length false 0 readData t
  | (.failed, t) => some ⟨.error .systemExit, t⟩
  | (.exhausted, t) => some ⟨.error .systemExit, t⟩

end

end Eeprom

end Gn4124Core
