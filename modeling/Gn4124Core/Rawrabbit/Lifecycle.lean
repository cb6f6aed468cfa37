import Gn4124Core.Rawrabbit.Devsel
import Gn4124Core.Rawrabbit.Interrupts
import Mathlib.Data.Fintype.Basic

/-!
# The driver among modules, cards and users

`rr_init`, `rr_exit`, `rr_fill_table_and_probe`, the ioctl command `RR_DEVSEL`, and what the PCI
core makes of them: a driver that registers is probed with every card that has none and that its
table matches, a card that is plugged in later is offered to it as well, and a driver that
unregisters, or whose card is pulled out, is asked to remove it.  Here the kernel's side keeps
account of what the driver has registered, allocated and mapped.

A module can be removed with its interrupt handler still registered.  Then the kernel keeps the
handler (`Kernel.orphans`), and an interrupt calls code that is not there any more
(`Kernel.Strays`).
-/

namespace Gn4124Core

open CLang

deriving instance DecidableEq for Rawrabbit.Resource

namespace Rawrabbit

def rrFlagRegistered : BitVec 32 := 0x00000001#32

/-! ## The table of the PCI driver -/

/-- `PCI_ANY_ID`. -/
def pciAnyId : BitVec 32 := 0xffffffff#32

/-- The members of a `struct pci_device_id` that are not zero. -/
structure PciDeviceId where
  vendor : BitVec 32
  device : BitVec 32
  subvendor : BitVec 32
  subdevice : BitVec 32
deriving DecidableEq

def rrFillTable (devsel : RrDevsel) : PciDeviceId where
  subvendor :=
    if devsel.subvendor = rrDevselUnused then pciAnyId else devsel.subvendor.setWidth 32
  subdevice :=
    if devsel.subvendor = rrDevselUnused then pciAnyId else devsel.subdevice.setWidth 32
  vendor := devsel.vendor.setWidth 32
  device := devsel.device.setWidth 32

/-- An entry of the table stands for this number of a card. -/
def isId (entry : BitVec 32) (value : BitVec 16) : Bool :=
  decide (entry = pciAnyId) || decide (entry = value.setWidth 32)

/-- The PCI core offers the card to a driver with this table. -/
def PciDeviceId.matchesCard (id : PciDeviceId) (card : Card) : Bool :=
  isId id.vendor card.vendor && isId id.device card.device &&
    isId id.subvendor card.subsystemVendor && isId id.subdevice card.subsystemDevice

/-- A card, as the PCI core has it. -/
structure PciCard where
  card : Card
  irq : ℕ
  resource : Fin 3 → Option Resource
deriving DecidableEq

def PciCard.toPciDev (c : PciCard) : PciDev :=
  ⟨c.card.busNumber.toNat, c.card.devfn.toNat, c.irq, c.resource⟩

/-! ## The state -/

/-- The static data of the module.  `complete` counts the calls of `complete` not waited for. -/
structure RrModule (m : DataModel) where
  dev : RrDev m
  idTable : PciDeviceId
  usecount : ℕ
  complete : ℕ

/-- What the kernel knows of the driver.  `present` are the cards that no other driver has, `lines`
the interrupt lines with the handlers of the module that is loaded, and `orphans` counts the
handlers on each line that modules have left registered when they were removed. -/
structure Kernel where
  present : List PciCard
  bound : Option PciCard
  registered : Bool
  miscRegistered : Bool
  dmabufs : ℕ
  mappings : List Resource
  lines : ℕ → IrqLine
  orphans : ℕ → ℕ

/-- An interrupt on this line calls a handler whose code is gone. -/
def Kernel.Strays (k : Kernel) (irq : ℕ) : Prop := 0 < k.orphans irq ∧ (k.lines irq).depth = 0

instance (k : Kernel) (irq : ℕ) : Decidable (k.Strays irq) := inferInstanceAs (Decidable (_ ∧ _))

/-- The module while its code runs. -/
structure Loaded (m : DataModel) where
  rr : RrModule m
  kernel : Kernel

/-- The module may be loaded or not. -/
structure RrSystem (m : DataModel) where
  rr : Option (RrModule m)
  kernel : Kernel

/-- What the kernel answers to `pci_register_driver`, and to the probes that follow. -/
structure RegisterCalls where
  result : Except Errno Unit
  probe : PciCard → ProbeCalls

/-- What the kernel answers to `rr_init`. -/
structure InitCalls where
  vmalloc : Bool
  miscRegister : Except Errno Unit
  pciRegister : RegisterCalls

/-- The mappings that the driver holds. -/
def Areas.mappings (a : Areas) : List Resource :=
  (List.finRange 3).filterMap fun i => if a.remap i then a.area i else .none

variable {m : DataModel}

/-- A probe that returns 0 binds the driver. -/
def Reaction.accepted (r : Reaction m) : Bool :=
  match r.ret with
  | some (.ok _) => true
  | _ => false

namespace Loaded

variable (s : Loaded m)

/-- The PCI core offers a card to the driver. -/
def probe (calls : ProbeCalls) (c : PciCard) : Loaded m :=
  if s.rr.idTable.matchesCard c.card then
    let r := rrPciprobe s.rr.dev c.toPciDev calls
    { rr := { s.rr with
        dev := r.dev
        complete := if r.accepted then s.rr.complete + 1 else s.rr.complete }
      kernel := { s.kernel with
        bound := if r.accepted then some c else s.kernel.bound
        mappings :=
          if r.accepted then s.kernel.mappings ++ r.dev.areas.mappings else s.kernel.mappings
        lines := r.calls.foldl IrqCall.apply s.kernel.lines } }
  else s

/-- The PCI core takes the card from the driver. -/
def remove (c : PciCard) : Option (Loaded m) :=
  match rrPciremove s.rr.dev c.toPciDev with
  | some r =>
      some
        { rr := { s.rr with dev := r.dev }
          kernel := { s.kernel with
            bound := none
            mappings := s.kernel.mappings.diff s.rr.dev.areas.mappings
            lines := r.calls.foldl IrqCall.apply s.kernel.lines } }
  | none => none

def pciRegisterDriver (calls : RegisterCalls) : Loaded m × Except Errno Unit :=
  match calls.result with
  | .error e => (s, .error e)
  | .ok () =>
      (s.kernel.present.foldl (fun s c => s.probe (calls.probe c) c)
        { s with kernel.registered := true }, .ok ())

/-- The card that the driver has, if any, is taken from it. -/
def removeBound : Option (Loaded m) :=
  match s.kernel.bound with
  | some c => s.remove c
  | none => some s

/-- One call too many is only warned about. -/
def pciUnregisterDriver : Option (Loaded m) :=
  s.removeBound.map fun s => { s with kernel.registered := false }

/-- The first part of `rr_fill_table_and_probe`. -/
def unregisterOld : Option (Loaded m) :=
  if s.rr.dev.flags &&& rrFlagRegistered ≠ 0 then
    s.pciUnregisterDriver.map fun s =>
      { s with rr.dev.flags := s.rr.dev.flags &&& ~~~rrFlagRegistered }
  else some s

/-- `wait_for_completion_timeout`: whether there was something to wait for. -/
def waitForCompletion : Loaded m × Bool :=
  if 0 < s.rr.complete then ({ s with rr.complete := s.rr.complete - 1 }, true) else (s, false)

/-- The second part of `rr_fill_table_and_probe`, where it is not an error that is returned. -/
def probed : Loaded m × Except Errno Bool :=
  let r := waitForCompletion { s with rr.dev.flags := s.rr.dev.flags ||| rrFlagRegistered }
  (r.1, .ok r.2)

/-- The second part of `rr_fill_table_and_probe`, with the new table. -/
def registerNew (calls : RegisterCalls) : Loaded m × Except Errno Bool :=
  match pciRegisterDriver
      { s with rr.idTable := rrFillTable s.rr.dev.devsel, rr.complete := 0 } calls with
  | (s, .error e) => (s, .error e)
  | (s, .ok ()) => s.probed

def rrFillTableAndProbe (calls : RegisterCalls) : Option (Loaded m × Except Errno Bool) :=
  s.unregisterOld.map fun s => s.registerNew calls

/-- `RR_DEVSEL`. -/
def rrDevselIoctl (devsel : RrDevsel) (calls : RegisterCalls) :
    Option (Loaded m × Except Errno Unit) :=
  if 1 < s.rr.usecount then some (s, .error .ebusy)
  else
    (rrFillTableAndProbe { s with rr.dev.devsel := devsel } calls).map fun r =>
      (r.1,
        match r.2 with
        | .error e => .error e
        | .ok found => if found then .ok () else .error .enodev)

/-- `rr_exit`, and the end of the module: what it has not freed stays with the kernel. -/
def rrExit : Option (RrSystem m) :=
  s.pciUnregisterDriver.map fun s =>
    ⟨none, { s.kernel with
      miscRegistered := false
      dmabufs := s.kernel.dmabufs - 1
      lines := fun irq => ⟨0, (s.kernel.lines irq).depth⟩
      orphans := fun irq => s.kernel.orphans irq + (s.kernel.lines irq).handlers }⟩

end Loaded

theorem nsecPerSec_pos : 0 < nsecPerSec := by decide

/-- The static data of a module that has just been loaded, with the selector of `rr_init`. -/
def rrStatic (m : DataModel) (vendor device : BitVec 32) : RrModule m where
  dev :=
    { devsel := ⟨vendor.setWidth 16, device.setWidth 16, rrDevselUnused, 0, rrDevselUnused, 0⟩
      pdev := none
      irqtime := ⟨0, 0, Nat.two_pow_pos _, nsecPerSec_pos⟩
      irqcount := 0
      areas := .none
      flags := 0 }
  idTable := ⟨0, 0, 0, 0⟩
  usecount := 0
  complete := 0

/-- `rr_init`, after which the module is loaded or not. -/
def rrInit (m : DataModel) (vendor device : BitVec 32) (calls : InitCalls) (kernel : Kernel) :
    Option (RrSystem m) :=
  if calls.vmalloc then
    let kernel := { kernel with dmabufs := kernel.dmabufs + 1 }
    match calls.miscRegister with
    | .error _ => some ⟨none, kernel⟩
    | .ok () =>
        (Loaded.rrFillTableAndProbe
          ⟨rrStatic m vendor device, { kernel with miscRegistered := true }⟩
            calls.pciRegister).map fun r =>
          match r.2 with
          | .error _ => ⟨none, { r.1.kernel with miscRegistered := false }⟩
          | .ok _ => ⟨some r.1.rr, r.1.kernel⟩
  else some ⟨none, kernel⟩

/-! ## What can happen -/

inductive RrEvent (m : DataModel) where
  | insmod (vendor device : BitVec 32) (calls : InitCalls)
  | rmmod
  | rrOpen
  | rrRelease
  | rrDevsel (devsel : RrDevsel) (calls : RegisterCalls)
  | plug (c : PciCard) (calls : ProbeCalls)
  | unplug (c : PciCard)
  | interrupt (irq : ℕ) (now : Timespec m)
  | irqena (tv : Timespec m)

namespace RrSystem

/-- What an event does to a module that is loaded; `none` where it follows a NULL pointer, or calls
code that is gone. -/
def handleLoaded (s : Loaded m) : RrEvent m → Option (RrSystem m)
  | .insmod _ _ _ => some ⟨some s.rr, s.kernel⟩
  | .rmmod => s.rrExit
  | .rrOpen => some ⟨some { s.rr with usecount := s.rr.usecount + 1 }, s.kernel⟩
  | .rrRelease => some ⟨some { s.rr with usecount := s.rr.usecount - 1 }, s.kernel⟩
  | .rrDevsel devsel calls =>
      if s.rr.usecount = 0 then some ⟨some s.rr, s.kernel⟩
      else (s.rrDevselIoctl devsel calls).map fun r => ⟨some r.1.rr, r.1.kernel⟩
  | .plug c calls =>
      if c ∈ s.kernel.present then some ⟨some s.rr, s.kernel⟩
      else
        let s := { s with kernel.present := s.kernel.present ++ [c] }
        let s := if s.kernel.registered then s.probe calls c else s
        some ⟨some s.rr, s.kernel⟩
  | .unplug c =>
      let left := if s.kernel.bound = some c then s.remove c else some s
      left.map fun s => ⟨some s.rr, { s.kernel with present := s.kernel.present.erase c }⟩
  | .interrupt irq now =>
      if s.kernel.Strays irq then none
      else if 0 < (s.kernel.lines irq).handlers ∧ (s.kernel.lines irq).depth = 0 then
        let r := rrInterrupt s.rr.dev irq now
        some ⟨some { s.rr with dev := r.dev },
          { s.kernel with lines := r.calls.foldl IrqCall.apply s.kernel.lines }⟩
      else some ⟨some s.rr, s.kernel⟩
  | .irqena tv =>
      (rrIrqena s.rr.dev tv).map fun r =>
        ⟨some { s.rr with dev := r.dev },
          { s.kernel with lines := r.calls.foldl IrqCall.apply s.kernel.lines }⟩

/-- What an event does while the module is not loaded. -/
def handleUnloaded (kernel : Kernel) : RrEvent m → Option (RrSystem m)
  | .insmod vendor device calls => rrInit m vendor device calls kernel
  | .plug c _ =>
      some ⟨none, if c ∈ kernel.present then kernel
        else { kernel with present := kernel.present ++ [c] }⟩
  | .unplug c => some ⟨none, { kernel with present := kernel.present.erase c }⟩
  | .interrupt irq _ => if kernel.Strays irq then none else some ⟨none, kernel⟩
  | _ => some ⟨none, kernel⟩

variable (s : RrSystem m) (e : RrEvent m)

def handle : Option (RrSystem m) :=
  match s.rr with
  | some rr => handleLoaded ⟨rr, s.kernel⟩ e
  | none => handleUnloaded s.kernel e

/-- The event crashes the kernel: `RR_IRQENA` follows a NULL pointer, or an interrupt calls code
that is gone. -/
def Crashes : Prop :=
  match e with
  | .irqena _ => ∃ rr ∈ s.rr, rr.dev.flags &&& rrFlagIrqdisable ≠ 0 ∧ rr.dev.pdev = none
  | .interrupt irq _ => s.kernel.Strays irq
  | _ => False

/-- One event.  Behind a crash a run goes on as if the event had not been. -/
def step : RrSystem m := (s.handle e).getD s

end RrSystem

end Rawrabbit

end Gn4124Core
