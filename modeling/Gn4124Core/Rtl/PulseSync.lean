import Gn4124Core.Clocked.Run
import Gn4124Core.Clocked.ToggleChain

/-!
# `pulse_synchronizer`

A pulse of one clock domain becomes a change of `s_input_toggle`, which three registers of the
other domain sample one after the other.  The output pulse is a change between the last two.
The way back, from `s_gotit_toggle` to `done_o`, is built in the same way.
-/

namespace Gn4124Core

open Clocked

/-- An edge of one of the clocks or of both; with an edge of `clk_in_i` comes the `pulse_i` it
samples. -/
structure PulseSyncTick where
  clkIn : Option Bool
  clkOut : Bool
deriving DecidableEq

/-- An edge of `clk_in_i` that samples `pulse_i = '1'`. -/
def PulseSyncTick.Pulse (t : PulseSyncTick) : Prop := t.clkIn = some true

instance (t : PulseSyncTick) : Decidable t.Pulse := inferInstanceAs (Decidable (_ = _))

/-- The flip-flops of both domains. -/
structure PulseSync where
  sInputToggle : Bool
  sInputSync : BitVec 3
  sGotitToggle : Bool
  sGotitSync : BitVec 3
deriving DecidableEq

namespace PulseSync

/-- `p_input_sync` and `p_gotit_sync`: bit 0 takes the toggle, the others move up. -/
def sync (toggle : Bool) (s : BitVec 3) : BitVec 3 := BitVec.ofBoolListLE [toggle, s[0], s[1]]

variable (s : PulseSync) (t : PulseSyncTick)

def sOutputPulse : Bool := s.sInputSync[1] ^^ s.sInputSync[2]

def pulseO : Bool := s.sOutputPulse

def doneO : Bool := s.sGotitSync[1] ^^ s.sGotitSync[2]

def step : PulseSync where
  sInputToggle := if t.Pulse then !s.sInputToggle else s.sInputToggle
  sInputSync := if t.clkOut then sync s.sInputToggle s.sInputSync else s.sInputSync
  sGotitToggle := if t.clkOut && s.sOutputPulse then !s.sGotitToggle else s.sGotitToggle
  sGotitSync := if t.clkIn.isSome then sync s.sGotitToggle s.sGotitSync else s.sGotitSync

/-- All flip-flops `'0'`. -/
def reset : PulseSync := ⟨false, 0, false, 0⟩

/-- `s_input_toggle`, `s_input_sync(0)`, `s_input_sync(1)`, `s_input_sync(2)`. -/
def chain : List Bool :=
  [s.sInputToggle, s.sInputSync[0], s.sInputSync[1], s.sInputSync[2]]

/-! ## The registers move up by one -/

variable (toggle : Bool) (r : BitVec 3)

@[simp] theorem sync_zero : (sync toggle r)[0] = toggle := by
  revert toggle r
  decide

@[simp] theorem sync_one : (sync toggle r)[1] = r[0] := by
  revert toggle r
  decide

@[simp] theorem sync_two : (sync toggle r)[2] = r[1] := by
  revert toggle r
  decide

end PulseSync

end Gn4124Core
