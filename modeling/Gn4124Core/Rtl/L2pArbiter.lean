import Gn4124Core.Clocked.Run
import Gn4124Core.Rtl.Package

/-!
# `l2p_arbiter`

The arbiter of the three sources of L2P packets: the Wishbone master (`wbm`), the L2P DMA
master (`ldm`) and the P2L DMA master (`pdm`), in this order of priority.
-/

namespace Gn4124Core

/-- The grant registers. -/
structure L2pGrants where
  arbWbmGnt : Bool
  arbPdmGnt : Bool
  arbLdmGnt : Bool
deriving DecidableEq

/-- A word on its way to the serializer. -/
structure L2pSer where
  valid : Bool
  dframe : Bool
  data : Word
deriving DecidableEq

/-- The registers of the arbiter: the grants and two stages of output registers. -/
structure L2pArbiter where
  gnt : L2pGrants
  arbSerT : L2pSer
  arbSerO : L2pSer
deriving DecidableEq

/-- The lines of the three sources. -/
structure L2pArbiterIn where
  wbm : L2pSource
  pdm : L2pSource
  ldm : L2pSource
deriving DecidableEq

/-- No word. -/
def L2pSer.none : L2pSer := ⟨false, false, 0⟩

def L2pSource.ser (l : L2pSource) : L2pSer := ⟨l.valid, l.dframe, l.data⟩

namespace L2pArbiter

variable (s : L2pArbiter) (i : L2pArbiterIn)

def wbmArbReqValid : Bool := i.wbm.req && (!s.gnt.arbPdmGnt && !s.gnt.arbLdmGnt)

def pdmArbReqValid : Bool := i.pdm.req && (!s.gnt.arbWbmGnt && !s.gnt.arbLdmGnt)

def ldmArbReqValid : Bool := i.ldm.req && (!s.gnt.arbWbmGnt && !s.gnt.arbPdmGnt)

/-- The end of the granted packet. -/
def eop : Bool :=
  s.gnt.arbWbmGnt && i.wbm.last || s.gnt.arbPdmGnt && i.pdm.last || s.gnt.arbLdmGnt && i.ldm.last

def pGrant : L2pGrants :=
  -- a valid request comes before the end of the packet, so a source can be granted again at once
  if s.wbmArbReqValid i then ⟨true, false, false⟩
  else if s.ldmArbReqValid i then ⟨false, false, true⟩
  else if s.pdmArbReqValid i then ⟨false, true, false⟩
  else if s.eop i then ⟨false, false, false⟩
  else s.gnt

def pSerT : L2pSer :=
  if s.gnt.arbWbmGnt then i.wbm.ser
  else if s.gnt.arbPdmGnt then i.pdm.ser
  else if s.gnt.arbLdmGnt then i.ldm.ser
  else .none

/-- One edge of `clk_i`. -/
def step : L2pArbiter := ⟨s.pGrant i, s.pSerT i, s.arbSerT⟩

def reset : L2pArbiter := ⟨⟨false, false, false⟩, .none, .none⟩

end L2pArbiter

end Gn4124Core
