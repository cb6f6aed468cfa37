import Gn4124Core.Rawrabbit.Driver
import Mathlib.Logic.Function.Basic

/-!
# The interrupt of the device

`rr_interrupt`, `rr_pciprobe`, `rr_pciremove` and the ioctl commands `RR_IRQWAIT` and `RR_IRQENA`,
with what the calls of the driver do to the interrupt lines.  `RR_IRQWAIT` checks, then sleeps; the
two halves are steps of their own, and any number of processes sleep at the same time.
-/

namespace Gn4124Core

open CLang

namespace Rawrabbit

/-- The flag bits of `rawrabbit.h` that concern the interrupt. -/
def rrFlagIrqdisable : BitVec 32 := 0x00000002#32
def rrFlagIrqrequest : BitVec 32 := 0x00000002#32

def nsecPerSec : ℕ := 1000000000

/-- `struct timespec`, as the clock of the kernel gives it. -/
structure Timespec (m : DataModel) where
  tvSec : ℕ
  tvNsec : ℕ
  tvSec_lt : tvSec < 2 ^ (m.longBits - 1)
  tvNsec_lt : tvNsec < nsecPerSec

/-- The time in nanoseconds. -/
def Timespec.ns {m : DataModel} (t : Timespec m) : ℕ := t.tvSec * nsecPerSec + t.tvNsec

/-- What the driver reads of a `struct pci_dev`. -/
structure PciDev where
  busNumber : ℕ
  devfn : ℕ
  irq : ℕ
  resource : Fin 3 → Option Resource

/-- `struct rr_dev`; of `flags` no bit from 32 on is used. -/
structure RrDev (m : DataModel) where
  devsel : RrDevsel
  pdev : Option PciDev
  irqtime : Timespec m
  irqcount : BitVec m.longBits
  areas : Areas
  flags : BitVec 32

/-- The calls of the driver that concern an interrupt line; those of `request_irq` that succeed. -/
inductive IrqCall where
  | requestIrq (irq : ℕ)
  | freeIrq (irq : ℕ)
  | disableIrqNosync (irq : ℕ)
  | enableIrq (irq : ℕ)
deriving DecidableEq

/-- What the driver has done to a line: the handlers it has registered, and how often it has
disabled the line without enabling it again. -/
structure IrqLine where
  handlers : ℕ
  depth : ℕ
deriving DecidableEq

/-- The effect of a call; an `enable_irq` too many is only warned about. -/
def IrqCall.apply (lines : ℕ → IrqLine) : IrqCall → ℕ → IrqLine
  | .requestIrq irq => Function.update lines irq ⟨(lines irq).handlers + 1, (lines irq).depth⟩
  | .freeIrq irq => Function.update lines irq ⟨(lines irq).handlers - 1, (lines irq).depth⟩
  | .disableIrqNosync irq => Function.update lines irq ⟨(lines irq).handlers, (lines irq).depth + 1⟩
  | .enableIrq irq => Function.update lines irq ⟨(lines irq).handlers, (lines irq).depth - 1⟩

variable {m : DataModel}

/-- What a function of the driver leaves behind: the device, its calls in order, and the value
returned, if it returns one to its caller. -/
structure Reaction (m : DataModel) where
  dev : RrDev m
  calls : List IrqCall
  ret : Option (Except Errno ℤ)

section Functions

variable (dev : RrDev m)

/-- Nothing happens. -/
def Reaction.none : Reaction m := ⟨dev, [], .none⟩

def rrInterrupt (irq : ℕ) (now : Timespec m) : Reaction m :=
  ⟨{ dev with
      irqtime := now
      irqcount := dev.irqcount + 1
      flags := dev.flags ||| rrFlagIrqdisable }, [.disableIrqNosync irq], .none⟩

/-- What the kernel answers in the course of a probe. -/
structure ProbeCalls where
  pciEnableDevice : Except Errno Unit
  requestIrq : Except Errno Unit
  ioremap : Fin 3 → Bool

def rrPciprobe (pdev : PciDev) (kernel : ProbeCalls) : Reaction m :=
  if dev.pdev.isSome then ⟨dev, [], some (.error .ebusy)⟩
  else if dev.devsel.bus ≠ rrDevselUnused ∧ dev.devsel.bus.toNat ≠ pdev.busNumber then
    ⟨dev, [], some (.error .enodev)⟩
  else if dev.devsel.bus ≠ rrDevselUnused ∧ dev.devsel.devfn.toNat ≠ pdev.devfn then
    ⟨dev, [], some (.error .enodev)⟩
  else
    match kernel.pciEnableDevice with
    | .error e => ⟨dev, [], some (.error e)⟩
    | .ok () =>
        let bound := { dev with
          pdev := some pdev
          areas := .probe pdev.resource kernel.ioremap }
        if 0 < pdev.irq then
          match kernel.requestIrq with
          | .error _ => ⟨bound, [], some (.ok 0)⟩
          | .ok () =>
              ⟨{ bound with flags := bound.flags ||| rrFlagIrqrequest },
                [.requestIrq pdev.irq], some (.ok 0)⟩
        else ⟨bound, [], some (.ok 0)⟩

/-- The enabling in `rr_pciremove`, which follows the pointer `dev->pdev`. -/
def rrReenable : Option (Reaction m) :=
  if dev.flags &&& rrFlagIrqdisable ≠ 0 then
    match dev.pdev with
    | .none => .none
    | some bound =>
        some ⟨{ dev with flags := dev.flags &&& ~~~rrFlagIrqdisable }, [.enableIrq bound.irq], .none⟩
  else some (Reaction.none dev)

def rrPciremove (pdev : PciDev) : Option (Reaction m) :=
  let unbound (r : Reaction m) : Reaction m :=
    { r with dev := { r.dev with pdev := .none, areas := .none } }
  if dev.flags &&& rrFlagIrqrequest ≠ 0 then do
    let r ← rrReenable { dev with flags := dev.flags &&& ~~~rrFlagIrqrequest }
    some (unbound { r with calls := .freeIrq pdev.irq :: r.calls })
  else some (unbound (Reaction.none dev))

/-- `RR_IRQWAIT` up to the sleep: an error, or the count to sleep with. -/
def rrIrqwait : Except Errno (BitVec m.longBits) :=
  if dev.flags &&& rrFlagIrqdisable ≠ 0 then .error .eagain else .ok dev.irqcount

/-- `RR_IRQWAIT` when the process is looked at again: what it returns, if it does. -/
def rrIrqwaitEnd (count : BitVec m.longBits) (signalPending : Bool) : Option (Except Errno ℤ) :=
  if signalPending then some (.error .erestartsys)
  else if count ≠ dev.irqcount then some (.ok 0)
  else .none

/-- The delay that `RR_IRQENA` returns: the sum is one of `long` and is stored in an `int`. -/
def irqDelay (tv tvirq : Timespec m) : ℤ :=
  let seconds := toLong m (tv.tvSec - tvirq.tvSec)
  if seconds > 1 then nsecPerSec
  else
    let ret := toInt (toLong m (toLong m (seconds * nsecPerSec) + tv.tvNsec - tvirq.tvNsec))
    if ret > nsecPerSec then nsecPerSec else ret

def rrIrqena (tv : Timespec m) : Option (Reaction m) :=
  if dev.flags &&& rrFlagIrqdisable = 0 then some ⟨dev, [], some (.error .eagain)⟩
  else
    match dev.pdev with
    | .none => .none
    | some bound =>
        some ⟨{ dev with flags := dev.flags &&& ~~~rrFlagIrqdisable }, [.enableIrq bound.irq],
          some (.ok (irqDelay tv dev.irqtime))⟩

end Functions

/-! ## The driver among the processes and the kernel -/

/-- The device, the interrupt lines, and the counts with which processes sleep. -/
structure IrqSystem (m : DataModel) where
  dev : RrDev m
  lines : ℕ → IrqLine
  waiting : ℕ → Option (BitVec m.longBits)

/-- What can happen.  A remove is that of the device to which the driver is bound. -/
inductive IrqEvent (m : DataModel) where
  | probe (pdev : PciDev) (kernel : ProbeCalls)
  | interrupt (irq : ℕ) (now : Timespec m)
  | irqwait (process : ℕ)
  | wake (process : ℕ) (signalPending : Bool)
  | irqena (tv : Timespec m)
  | remove

namespace IrqSystem

variable (s : IrqSystem m)

/-- The kernel calls the handler: it is registered, and the line is enabled. -/
def Handles (irq : ℕ) : Prop := 0 < (s.lines irq).handlers ∧ (s.lines irq).depth = 0

instance (irq : ℕ) : Decidable (s.Handles irq) := inferInstanceAs (Decidable (_ ∧ _))

/-- What an event makes the driver do; `none` where it follows a NULL pointer. -/
def reaction : IrqEvent m → Option (Reaction m)
  | .probe pdev kernel => some (rrPciprobe s.dev pdev kernel)
  | .interrupt irq now =>
      if s.Handles irq then some (rrInterrupt s.dev irq now) else some (Reaction.none s.dev)
  | .irqwait process =>
      match s.waiting process, rrIrqwait s.dev with
      | none, .error e => some ⟨s.dev, [], some (.error e)⟩
      | _, _ => some (Reaction.none s.dev)
  | .wake process signalPending =>
      match s.waiting process with
      | some count => some ⟨s.dev, [], rrIrqwaitEnd s.dev count signalPending⟩
      | none => some (Reaction.none s.dev)
  | .irqena tv => rrIrqena s.dev tv
  | .remove =>
      match s.dev.pdev with
      | some pdev => rrPciremove s.dev pdev
      | none => some (Reaction.none s.dev)

/-- The processes that sleep after an event. -/
def sleepers (ret : Option (Except Errno ℤ)) : IrqEvent m → ℕ → Option (BitVec m.longBits)
  | .irqwait process =>
      match s.waiting process, rrIrqwait s.dev with
      | none, .ok count => Function.update s.waiting process (some count)
      | _, _ => s.waiting
  | .wake process _ => if ret.isSome then Function.update s.waiting process none else s.waiting
  | _ => s.waiting

/-- One event. -/
def step (e : IrqEvent m) : IrqSystem m :=
  match s.reaction e with
  | some r => ⟨r.dev, r.calls.foldl IrqCall.apply s.lines, s.sleepers r.ret e⟩
  | none => s

end IrqSystem

/-! ## The flag bits -/

theorem or_irqdisable (flags : BitVec 32) :
    (flags ||| rrFlagIrqdisable) &&& rrFlagIrqdisable ≠ 0 := by
  have habsorb : (flags ||| rrFlagIrqdisable) &&& rrFlagIrqdisable = rrFlagIrqdisable := by
    ext i hi
    simp only [BitVec.getElem_and, BitVec.getElem_or]
    exact Bool.and_eq_right_iff_imp.mpr fun h => by rw [h, Bool.or_true]
  rw [habsorb]
  decide

theorem and_not_irqdisable (flags : BitVec 32) :
    (flags &&& ~~~rrFlagIrqdisable) &&& rrFlagIrqdisable = 0 := by
  ext i hi
  simp

end Rawrabbit

end Gn4124Core
