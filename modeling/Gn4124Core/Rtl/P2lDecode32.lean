import Gn4124Core.Clocked.Run
import Gn4124Core.Rtl.Package

/-!
# `p2l_decode32`

The packet decoder, one structure of registers and one function for each process of the
entity.  Every function reads the registers before the clock edge; `P2lDecode32.step` loads
them all at once.
-/

namespace Gn4124Core

/-- The deserialized P2L bus in one clock cycle. -/
structure DesP2l where
  valid : Bool
  dframe : Bool
  data : Word
deriving DecidableEq

/-- The delayed framing signals, for start and end of frame detection. -/
structure FrameDelay where
  desP2lDframeD : Bool
  desP2lValidD : Bool
deriving DecidableEq

/-- The packet type flags of `p_type_decode`. -/
structure TypeDecode where
  targetMrd : Bool
  targetMwr : Bool
  masterCpld : Bool
  masterCpln : Bool
deriving DecidableEq

/-- The registers of `p_header_decode`. -/
structure HeaderDecode where
  p2lHdrStrobe : Bool
  p2lHdrLength : BitVec 10
  p2lHdrCid : BitVec 2
  p2lHdrLast : Bool
  p2lHdrStat : BitVec 2
  p2lHdrFbe : BitVec 4
  p2lHdrLbe : BitVec 4
deriving DecidableEq

/-- The registers of `p_addr_decode`. -/
structure AddrDecode where
  p2lAddrCycle : Bool
  p2lAddr : Word
  p2lAddrStart : Bool
deriving DecidableEq

/-- The registers of `p_data_decode`. -/
structure DataDecode where
  p2lDataCycle : Bool
  p2lDValid : Bool
  p2lDLast : Bool
  p2lD : Word
deriving DecidableEq

/-- The registers of the packet decoder. -/
structure P2lDecode32 where
  frame : FrameDelay
  type : TypeDecode
  header : HeaderDecode
  addr : AddrDecode
  data : DataDecode
  p2lBe : BitVec 4
deriving DecidableEq

/-- No packet type: the value of the flags between packets. -/
def TypeDecode.none : TypeDecode := ⟨false, false, false, false⟩

/-- The flags for the packet type in a header word. -/
def TypeDecode.ofHeader (header : Word) : TypeDecode where
  targetMrd := header.extractLsb' 24 4 == 0b0000#4
  targetMwr := header.extractLsb' 24 4 == 0b0010#4
  masterCpld := header.extractLsb' 24 4 == 0b0101#4
  masterCpln := header.extractLsb' 24 4 == 0b0100#4

/-- The address of the next data word: bits 31 downto 2 count, bits 1 downto 0 hold. -/
def addrIncrement (addr : Word) : Word := (addr.extractLsb' 2 30 + 1) ++ addr.extractLsb' 0 2

namespace P2lDecode32

variable (s : P2lDecode32) (des : DesP2l)

def p2lPacketStart : Bool := des.dframe && !s.frame.desP2lDframeD && des.valid

def p2lPacketEnd : Bool := s.frame.desP2lValidD && !s.frame.desP2lDframeD

def pTypeDecode : TypeDecode :=
  if s.p2lPacketStart des then .ofHeader des.data
  else if s.p2lPacketEnd then .none
  else s.type

def pHeaderDecode : HeaderDecode :=
  if s.p2lPacketStart des then
    { p2lHdrStrobe := true
      p2lHdrLength := des.data.extractLsb' 0 10
      p2lHdrCid := des.data.extractLsb' 10 2
      p2lHdrLast := des.data[15]
      -- a read completion has its status where a target request has byte enables
      p2lHdrStat := if des.data[26] then des.data.extractLsb' 16 2 else s.header.p2lHdrStat
      p2lHdrFbe := if des.data[26] then s.header.p2lHdrFbe else des.data.extractLsb' 16 4
      p2lHdrLbe := if des.data[26] then s.header.p2lHdrLbe else des.data.extractLsb' 20 4 }
  else { s.header with p2lHdrStrobe := false }

def pAddrDecode : AddrDecode where
  p2lAddrCycle :=
    if s.p2lPacketStart des && !des.data[26] then true
    else if s.addr.p2lAddrCycle && des.valid then false
    else s.addr.p2lAddrCycle
  p2lAddrStart :=
    if s.type.targetMwr || s.type.targetMrd then s.addr.p2lAddrCycle && des.valid else false
  p2lAddr :=
    if s.addr.p2lAddrCycle && des.valid && (s.type.targetMwr || s.type.targetMrd) then des.data
    else if s.data.p2lDValid && (s.type.targetMwr || s.type.targetMrd) then
      addrIncrement s.addr.p2lAddr
    else s.addr.p2lAddr

def pDataDecode : DataDecode where
  p2lDataCycle :=
    if (s.addr.p2lAddrCycle || (s.p2lPacketStart des && des.data[26])) && des.valid &&
        des.dframe then true
    else if !des.dframe then false
    else s.data.p2lDataCycle
  p2lDValid := s.data.p2lDataCycle && des.valid
  p2lDLast := s.data.p2lDataCycle && !des.dframe
  p2lD := if des.valid then des.data else s.data.p2lD

def pBeDecode : BitVec 4 :=
  -- no branch looks at `des_p2l_valid_i`
  if s.addr.p2lAddrStart then s.header.p2lHdrFbe
  else if s.data.p2lDataCycle && !des.dframe then s.header.p2lHdrLbe
  else if s.data.p2lDataCycle then 0b1111#4
  else s.p2lBe

/-- One edge of `clk_i`. -/
def step : P2lDecode32 where
  frame := ⟨des.dframe, des.valid⟩
  type := s.pTypeDecode des
  header := s.pHeaderDecode des
  addr := s.pAddrDecode des
  data := s.pDataDecode des
  p2lBe := s.pBeDecode des

/-- The registers after an asynchronous reset. -/
def reset : P2lDecode32 where
  frame := ⟨false, false⟩
  type := .none
  header := ⟨false, 0, 0, false, 0, 0, 0⟩
  addr := ⟨false, 0, false⟩
  data := ⟨false, false, false, 0⟩
  p2lBe := 0

end P2lDecode32

end Gn4124Core
