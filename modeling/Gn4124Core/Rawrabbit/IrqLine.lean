import Gn4124Core.Clocked.Run
import Gn4124Core.Rawrabbit.Interrupts

/-!
# What the driver leaves on the interrupt line

Whether a handler is registered and whether the line is disabled are two facts, but the driver
keeps them in one bit: `RR_FLAG_IRQREQUEST` and `RR_FLAG_IRQDISABLE` have the same value.  As long
as the driver is in order, it is in one of five phases:

```text
              flag   handlers   depth
unbound        0        0         0
silent         0        0         0      bound, without an interrupt
fresh          1        1         0      probed, no interrupt so far
disabled       1        1         1      an interrupt was handled
enabled        0        1         0      RR_IRQENA has enabled the line again
```

From `fresh`, `RR_IRQENA` enables a line that is not disabled.  A remove from `disabled` leaves the
line disabled, and one from `enabled` leaves the handler registered.
-/

namespace Gn4124Core

open CLang Clocked

namespace Rawrabbit

variable {m : DataModel}

/-- The flag, by either of its names. -/
def flagged (dev : RrDev m) : Prop := dev.flags &&& rrFlagIrqdisable ≠ 0

namespace IrqSystem

/-! ## The phases -/

/-- No device is bound, and no line is touched. -/
structure Unbound (s : IrqSystem m) : Prop where
  pdev : s.dev.pdev = none
  flag : ¬ flagged s.dev
  lines : ∀ irq, s.lines irq = ⟨0, 0⟩

/-- A device is bound, and its line is the only one that is touched. -/
structure Bound (p : PciDev) (flag : Prop) (line : IrqLine) (s : IrqSystem m) : Prop where
  pdev : s.dev.pdev = some p
  flag : flagged s.dev ↔ flag
  line : s.lines p.irq = line
  others : ∀ irq, irq ≠ p.irq → s.lines irq = ⟨0, 0⟩

/-- The five phases. -/
inductive InOrder (s : IrqSystem m) : Prop where
  | unbound (h : Unbound s)
  | silent (p : PciDev) (h : Bound p False ⟨0, 0⟩ s)
  | fresh (p : PciDev) (h : Bound p True ⟨1, 0⟩ s)
  | disabled (p : PciDev) (h : Bound p True ⟨1, 1⟩ s)
  | enabled (p : PciDev) (h : Bound p False ⟨1, 0⟩ s)

/-! ## What is asked of an event -/

section Specification

variable (s : IrqSystem m)

/-- The calls of the driver in an event. -/
def calls (e : IrqEvent m) : List IrqCall :=
  match s.reaction e with
  | some r => r.calls
  | none => []

/-- The driver gives the line back as it found it. -/
structure GivesBack (e : IrqEvent m) : Prop where
  freed : e = .remove → ∀ p, s.dev.pdev = some p →
    (.freeIrq p.irq ∈ s.calls e ↔ 0 < (s.lines p.irq).handlers)
  enabled : ∀ irq, .enableIrq irq ∈ s.calls e → 0 < (s.lines irq).depth
  restored : e = .remove → ∀ irq, ((s.step e).lines irq).depth = 0
  bound : flagged s.dev → s.dev.pdev ≠ none

/-- The flag, where it is looked at, means what it is looked at for: `RR_IRQENA` that the line is
disabled, the remove that a handler is registered and that the line is not disabled. -/
def Orderly : IrqEvent m → Prop
  | .irqena _ => flagged s.dev → ∀ p, s.dev.pdev = some p → 0 < (s.lines p.irq).depth
  | .remove => ∀ p, s.dev.pdev = some p → 0 < (s.lines p.irq).handlers →
      flagged s.dev ∧ (s.lines p.irq).depth = 0
  | _ => True

end Specification

variable {s : IrqSystem m} {e : IrqEvent m} {p : PciDev} {flag : Prop} {line : IrqLine}

theorem step_of_reaction {r : Reaction m} (h : s.reaction e = some r) :
    s.step e = ⟨r.dev, r.calls.foldl IrqCall.apply s.lines, s.sleepers r.ret e⟩ := by
  rw [step, h]

theorem calls_of_reaction {r : Reaction m} (h : s.reaction e = some r) : s.calls e = r.calls := by
  rw [calls, h]

/-- The device and the lines stay what they were. -/
def Quiet (s : IrqSystem m) (e : IrqEvent m) : Prop :=
  ∃ ret, s.reaction e = some ⟨s.dev, [], ret⟩

theorem Quiet.calls_eq (h : Quiet s e) : s.calls e = [] := by
  obtain ⟨ret, hret⟩ := h
  exact calls_of_reaction hret

theorem Quiet.step_eq (h : Quiet s e) :
    ∃ waiting, s.step e = { s with waiting := waiting } := by
  obtain ⟨ret, hret⟩ := h
  exact ⟨_, step_of_reaction hret⟩

/-- The phases do not depend on who sleeps. -/
theorem InOrder.of_waiting (h : InOrder s) (waiting : ℕ → Option (BitVec m.longBits)) :
    InOrder { s with waiting := waiting } := by
  cases h with
  | unbound h => exact .unbound ⟨h.pdev, h.flag, h.lines⟩
  | silent p h => exact .silent p ⟨h.pdev, h.flag, h.line, h.others⟩
  | fresh p h => exact .fresh p ⟨h.pdev, h.flag, h.line, h.others⟩
  | disabled p h => exact .disabled p ⟨h.pdev, h.flag, h.line, h.others⟩
  | enabled p h => exact .enabled p ⟨h.pdev, h.flag, h.line, h.others⟩

theorem Quiet.inOrder (hquiet : Quiet s e) (h : InOrder s) : InOrder (s.step e) := by
  obtain ⟨waiting, hstep⟩ := hquiet.step_eq
  rw [hstep]
  exact h.of_waiting waiting

/-- In order, the flag is set before the first interrupt and while the line is disabled. -/
theorem InOrder.flagged_cases (h : InOrder s) (hflag : flagged s.dev) :
    ∃ p, Bound p True ⟨1, 0⟩ s ∨ Bound p True ⟨1, 1⟩ s := by
  cases h with
  | unbound h => exact absurd hflag h.flag
  | silent p h => exact (h.flag.mp hflag).elim
  | fresh p h => exact ⟨p, .inl h⟩
  | disabled p h => exact ⟨p, .inr h⟩
  | enabled p h => exact (h.flag.mp hflag).elim

theorem InOrder.bound (h : InOrder s) (hflag : flagged s.dev) : s.dev.pdev ≠ none := by
  obtain ⟨p, hfresh | hdisabled⟩ := h.flagged_cases hflag
  · rw [hfresh.pdev]
    exact Option.some_ne_none p
  · rw [hdisabled.pdev]
    exact Option.some_ne_none p

/-- What `Orderly` asks of a bound device. -/
theorem Bound.orderly_irqena_iff (h : Bound p flag line s) (tv : Timespec m) :
    s.Orderly (.irqena tv) ↔ (flag → 0 < line.depth) := by
  constructor
  · intro horderly hset
    have hdepth := horderly (h.flag.mpr hset) p h.pdev
    rwa [h.line] at hdepth
  · intro hdepth hset p' hp'
    rw [h.pdev] at hp'
    cases hp'
    rw [h.line]
    exact hdepth (h.flag.mp hset)

theorem Bound.orderly_remove_iff (h : Bound p flag line s) :
    s.Orderly .remove ↔ (0 < line.handlers → flag ∧ line.depth = 0) := by
  constructor
  · intro horderly hhandlers
    have hasked := horderly p h.pdev
    rw [h.line, h.flag] at hasked
    exact hasked hhandlers
  · intro hasked p' hp'
    rw [h.pdev] at hp'
    cases hp'
    rwa [h.line, h.flag]

/-- An event that is no remove and enables no line asks for nothing else. -/
theorem InOrder.givesBack (h : InOrder s) (hremove : e ≠ .remove)
    (hcalls : ∀ irq, .enableIrq irq ∉ s.calls e) : s.GivesBack e where
  freed := fun he => absurd he hremove
  enabled := fun irq hcall => absurd hcall (hcalls irq)
  restored := fun he => absurd he hremove
  bound := h.bound

theorem Quiet.givesBack (hquiet : Quiet s e) (h : InOrder s) (hremove : e ≠ .remove) :
    s.GivesBack e := by
  refine h.givesBack hremove fun irq => ?_
  rw [hquiet.calls_eq]
  exact List.not_mem_nil

/-! ## The events one by one -/

theorem quiet_irqwait (s : IrqSystem m) (process : ℕ) : Quiet s (.irqwait process) := by
  cases hwaiting : s.waiting process with
  | some count =>
      refine ⟨none, ?_⟩
      simp only [reaction, hwaiting, Reaction.none]
  | none =>
      cases hcheck : rrIrqwait s.dev with
      | error e =>
          refine ⟨some (.error e), ?_⟩
          simp only [reaction, hwaiting, hcheck]
      | ok count =>
          refine ⟨none, ?_⟩
          simp only [reaction, hwaiting, hcheck, Reaction.none]

theorem quiet_wake (s : IrqSystem m) (process : ℕ) (signalPending : Bool) :
    Quiet s (.wake process signalPending) := by
  cases hwaiting : s.waiting process with
  | some count =>
      refine ⟨rrIrqwaitEnd s.dev count signalPending, ?_⟩
      simp only [reaction, hwaiting]
  | none =>
      refine ⟨none, ?_⟩
      simp only [reaction, hwaiting, Reaction.none]

/-- One device only is managed. -/
theorem quiet_probe (hpdev : s.dev.pdev = some p) (pdev : PciDev) (kernel : ProbeCalls) :
    Quiet s (.probe pdev kernel) := by
  refine ⟨some (.error .ebusy), ?_⟩
  rw [reaction, rrPciprobe, hpdev]
  rfl

theorem quiet_interrupt {irq : ℕ} (now : Timespec m) (h : ¬ s.Handles irq) :
    Quiet s (.interrupt irq now) := by
  refine ⟨none, ?_⟩
  rw [reaction, if_neg h]
  rfl

theorem quiet_irqena (tv : Timespec m) (h : ¬ flagged s.dev) : Quiet s (.irqena tv) := by
  refine ⟨some (.error .eagain), ?_⟩
  rw [reaction, rrIrqena, if_pos (not_not.mp h)]

theorem quiet_remove (hpdev : s.dev.pdev = none) : Quiet s .remove := by
  refine ⟨none, ?_⟩
  rw [reaction, hpdev]
  rfl

/-- What becomes of a probe: an error, or the device is bound, with a handler or without. -/
theorem rrPciprobe_cases {dev : RrDev m} (hpdev : dev.pdev = none) (pdev : PciDev)
    (kernel : ProbeCalls) :
    (∃ ret, rrPciprobe dev pdev kernel = ⟨dev, [], ret⟩) ∨
      ∃ areas, rrPciprobe dev pdev kernel =
          ⟨{ dev with pdev := some pdev, areas := areas }, [], some (.ok 0)⟩ ∨
        rrPciprobe dev pdev kernel =
          ⟨{ dev with
              pdev := some pdev
              areas := areas
              flags := dev.flags ||| rrFlagIrqrequest }, [.requestIrq pdev.irq], some (.ok 0)⟩ := by
  unfold rrPciprobe
  rw [if_neg (by simp [hpdev])]
  split
  · exact .inl ⟨_, rfl⟩
  · split
    · exact .inl ⟨_, rfl⟩
    · cases kernel.pciEnableDevice with
      | error e => exact .inl ⟨_, rfl⟩
      | ok _ =>
          refine .inr ⟨.probe pdev.resource kernel.ioremap, ?_⟩
          by_cases hirq : 0 < pdev.irq
          · simp only [if_pos hirq]
            cases kernel.requestIrq with
            | error e => exact .inl rfl
            | ok _ => exact .inr rfl
          · simp only [if_neg hirq]
            exact .inl trivial

theorem Unbound.probe (h : Unbound s) (pdev : PciDev) (kernel : ProbeCalls) :
    (∃ ret, s.reaction (.probe pdev kernel) = some ⟨s.dev, [], ret⟩) ∨
      (Bound pdev False ⟨0, 0⟩ (s.step (.probe pdev kernel)) ∧
        s.calls (.probe pdev kernel) = []) ∨
      (Bound pdev True ⟨1, 0⟩ (s.step (.probe pdev kernel)) ∧
        s.calls (.probe pdev kernel) = [.requestIrq pdev.irq]) := by
  have hreaction : s.reaction (.probe pdev kernel) = some (rrPciprobe s.dev pdev kernel) := rfl
  rcases rrPciprobe_cases h.pdev pdev kernel with ⟨ret, heq⟩ | ⟨areas, heq | heq⟩
  · exact .inl ⟨ret, by rw [hreaction, heq]⟩
  · rw [heq] at hreaction
    right; left
    rw [step_of_reaction hreaction, calls_of_reaction hreaction]
    exact ⟨⟨rfl, iff_of_false h.flag id, h.lines _, fun irq _ => h.lines irq⟩, rfl⟩
  · rw [heq] at hreaction
    right; right
    rw [step_of_reaction hreaction, calls_of_reaction hreaction]
    refine ⟨⟨rfl, iff_of_true (or_irqdisable s.dev.flags) trivial, ?_, fun irq hne => ?_⟩, rfl⟩
    · simp [IrqCall.apply, h.lines]
    · simp [IrqCall.apply, Function.update_of_ne hne, h.lines]

theorem Bound.handles (h : Bound p flag ⟨1, 0⟩ s) : s.Handles p.irq := by
  unfold Handles
  rw [h.line]
  exact ⟨Nat.one_pos, rfl⟩

theorem reaction_interrupt {irq : ℕ} (now : Timespec m) (h : s.Handles irq) :
    s.reaction (.interrupt irq now) = some (rrInterrupt s.dev irq now) :=
  if_pos h

theorem Bound.interrupt (h : Bound p flag ⟨1, 0⟩ s) (now : Timespec m) :
    Bound p True ⟨1, 1⟩ (s.step (.interrupt p.irq now)) ∧
      s.calls (.interrupt p.irq now) = [.disableIrqNosync p.irq] := by
  have hreaction := reaction_interrupt now h.handles
  rw [step_of_reaction hreaction, calls_of_reaction hreaction]
  refine ⟨⟨h.pdev, iff_of_true (or_irqdisable s.dev.flags) trivial, ?_, fun irq hne => ?_⟩, rfl⟩
  · simp [rrInterrupt, IrqCall.apply, h.line]
  · simp [rrInterrupt, IrqCall.apply, Function.update_of_ne hne, h.others irq hne]

theorem Bound.reaction_irqena (h : Bound p flag line s) (hflag : flagged s.dev)
    (tv : Timespec m) :
    s.reaction (.irqena tv) = some
      ⟨{ s.dev with flags := s.dev.flags &&& ~~~rrFlagIrqdisable }, [.enableIrq p.irq],
        some (.ok (irqDelay tv s.dev.irqtime))⟩ := by
  have hset : ¬ s.dev.flags &&& rrFlagIrqdisable = 0 := hflag
  simp only [reaction, rrIrqena, if_neg hset, h.pdev]

theorem Bound.irqena (h : Bound p True line s) (tv : Timespec m) :
    Bound p False ⟨line.handlers, line.depth - 1⟩ (s.step (.irqena tv)) ∧
      s.calls (.irqena tv) = [.enableIrq p.irq] := by
  have hreaction := h.reaction_irqena (h.flag.mpr trivial) tv
  have hclear : ¬ flagged { s.dev with flags := s.dev.flags &&& ~~~rrFlagIrqdisable } :=
    fun hset => hset (and_not_irqdisable s.dev.flags)
  rw [step_of_reaction hreaction, calls_of_reaction hreaction]
  refine ⟨⟨h.pdev, iff_of_false hclear id, ?_, fun irq hne => ?_⟩, rfl⟩
  · simp [IrqCall.apply, h.line]
  · simp [IrqCall.apply, Function.update_of_ne hne, h.others irq hne]

theorem reaction_remove (hpdev : s.dev.pdev = some p) :
    s.reaction .remove = rrPciremove s.dev p := by
  simp only [reaction, hpdev]

/-- A remove with the flag set frees the handler; the flag is then no longer set, so that the line
stays as it is. -/
theorem Bound.remove_flagged (h : Bound p True line s) :
    (s.step .remove).dev.pdev = none ∧ ¬ flagged (s.step .remove).dev ∧
      (s.step .remove).lines p.irq = ⟨line.handlers - 1, line.depth⟩ ∧
      (∀ irq, irq ≠ p.irq → (s.step .remove).lines irq = ⟨0, 0⟩) ∧
      s.calls .remove = [.freeIrq p.irq] := by
  have hflag : s.dev.flags &&& rrFlagIrqrequest ≠ 0 := h.flag.mpr trivial
  have hclear := and_not_irqdisable s.dev.flags
  have hreenable : rrReenable { s.dev with flags := s.dev.flags &&& ~~~rrFlagIrqrequest } =
      some (Reaction.none { s.dev with flags := s.dev.flags &&& ~~~rrFlagIrqrequest }) :=
    if_neg (not_not.mpr hclear)
  have hreaction : s.reaction .remove = some
      ⟨{ s.dev with
          pdev := none
          areas := .none
          flags := s.dev.flags &&& ~~~rrFlagIrqrequest }, [.freeIrq p.irq], none⟩ := by
    rw [reaction_remove h.pdev, rrPciremove, if_pos hflag, hreenable]
    rfl
  rw [step_of_reaction hreaction, calls_of_reaction hreaction]
  refine ⟨rfl, fun hset => hset hclear, ?_, fun irq hne => ?_, rfl⟩
  · simp [IrqCall.apply, h.line]
  · simp [IrqCall.apply, Function.update_of_ne hne, h.others irq hne]

theorem Bound.remove_clear (h : Bound p False line s) :
    (s.step .remove).dev.pdev = none ∧ ¬ flagged (s.step .remove).dev ∧
      (s.step .remove).lines = s.lines ∧ s.calls .remove = [] := by
  have hflag : s.dev.flags &&& rrFlagIrqrequest = 0 := not_not.mp fun hset => h.flag.mp hset
  have hreaction : s.reaction .remove = some
      ⟨{ s.dev with pdev := none, areas := .none }, [], none⟩ := by
    rw [reaction_remove h.pdev, rrPciremove, if_neg (not_not.mpr hflag)]
    rfl
  rw [step_of_reaction hreaction, calls_of_reaction hreaction]
  exact ⟨rfl, fun hset => h.flag.mp hset, rfl, rfl⟩

/-! ## A run in order -/

theorem InOrder.pdev_cases (h : InOrder s) : Unbound s ∨ ∃ p, s.dev.pdev = some p := by
  cases h with
  | unbound h => exact .inl h
  | silent p h => exact .inr ⟨p, h.pdev⟩
  | fresh p h => exact .inr ⟨p, h.pdev⟩
  | disabled p h => exact .inr ⟨p, h.pdev⟩
  | enabled p h => exact .inr ⟨p, h.pdev⟩

/-- Only the line of the bound device has a handler to be called. -/
theorem Bound.eq_of_handles {irq : ℕ} (h : Bound p flag line s) (hhandles : s.Handles irq) :
    irq = p.irq ∧ 0 < line.handlers ∧ line.depth = 0 := by
  obtain ⟨hhandlers, hdepth⟩ := hhandles
  by_cases hirq : irq = p.irq
  · rw [hirq, h.line] at hhandlers hdepth
    exact ⟨hirq, hhandlers, hdepth⟩
  · rw [h.others irq hirq] at hhandlers
    cases hhandlers

theorem InOrder.handles_cases {irq : ℕ} (h : InOrder s) (hhandles : s.Handles irq) :
    ∃ p flag, irq = p.irq ∧ Bound p flag ⟨1, 0⟩ s := by
  cases h with
  | unbound h =>
      have hhandlers := hhandles.1
      rw [h.lines irq] at hhandlers
      cases hhandlers
  | silent p h =>
      obtain ⟨-, hhandlers, -⟩ := h.eq_of_handles hhandles
      cases hhandlers
  | fresh p h => exact ⟨p, True, (h.eq_of_handles hhandles).1, h⟩
  | disabled p h =>
      obtain ⟨-, -, hdepth⟩ := h.eq_of_handles hhandles
      cases hdepth
  | enabled p h => exact ⟨p, False, (h.eq_of_handles hhandles).1, h⟩

theorem InOrder.probe (h : InOrder s) (pdev : PciDev) (kernel : ProbeCalls) :
    InOrder (s.step (.probe pdev kernel)) := by
  rcases h.pdev_cases with hunbound | ⟨p, hpdev⟩
  · rcases hunbound.probe pdev kernel with hquiet | ⟨hsilent, -⟩ | ⟨hfresh, -⟩
    · exact Quiet.inOrder hquiet h
    · exact .silent pdev hsilent
    · exact .fresh pdev hfresh
  · exact (quiet_probe hpdev pdev kernel).inOrder h

theorem InOrder.interrupt (h : InOrder s) (irq : ℕ) (now : Timespec m) :
    InOrder (s.step (.interrupt irq now)) := by
  by_cases hhandles : s.Handles irq
  · obtain ⟨p, flag, rfl, hbound⟩ := h.handles_cases hhandles
    exact .disabled p (hbound.interrupt now).1
  · exact (quiet_interrupt now hhandles).inOrder h

theorem InOrder.irqena (h : InOrder s) (tv : Timespec m) (horderly : s.Orderly (.irqena tv)) :
    InOrder (s.step (.irqena tv)) := by
  by_cases hflag : flagged s.dev
  · obtain ⟨p, hfresh | hdisabled⟩ := h.flagged_cases hflag
    · have hdepth := (hfresh.orderly_irqena_iff tv).mp horderly trivial
      cases hdepth
    · exact .enabled p (hdisabled.irqena tv).1
  · exact (quiet_irqena tv hflag).inOrder h

theorem InOrder.remove (h : InOrder s) (horderly : s.Orderly .remove) :
    InOrder (s.step .remove) := by
  cases h with
  | unbound h => exact (quiet_remove h.pdev).inOrder (.unbound h)
  | silent p h =>
      obtain ⟨hpdev, hflag, hlines, -⟩ := h.remove_clear
      refine .unbound ⟨hpdev, hflag, fun irq => ?_⟩
      rw [hlines]
      by_cases hirq : irq = p.irq
      · rw [hirq, h.line]
      · exact h.others irq hirq
  | fresh p h =>
      obtain ⟨hpdev, hflag, hline, hothers, -⟩ := h.remove_flagged
      refine .unbound ⟨hpdev, hflag, fun irq => ?_⟩
      by_cases hirq : irq = p.irq
      · exact hirq ▸ hline
      · exact hothers irq hirq
  | disabled p h =>
      obtain ⟨-, hdepth⟩ := h.orderly_remove_iff.mp horderly Nat.one_pos
      cases hdepth
  | enabled p h => exact (h.orderly_remove_iff.mp horderly Nat.one_pos).1.elim

/-- **What one event preserves.** -/
theorem InOrder.step (h : InOrder s) (horderly : s.Orderly e) : InOrder (s.step e) := by
  cases e with
  | probe pdev kernel => exact h.probe pdev kernel
  | interrupt irq now => exact h.interrupt irq now
  | irqwait process => exact (quiet_irqwait s process).inOrder h
  | wake process signalPending => exact (quiet_wake s process signalPending).inOrder h
  | irqena tv => exact h.irqena tv horderly
  | remove => exact h.remove horderly

/-! ## What an event gives back -/

theorem InOrder.probe_givesBack (h : InOrder s) (pdev : PciDev) (kernel : ProbeCalls) :
    s.GivesBack (.probe pdev kernel) := by
  rcases h.pdev_cases with hunbound | ⟨p, hpdev⟩
  · rcases hunbound.probe pdev kernel with hquiet | ⟨-, hcalls⟩ | ⟨-, hcalls⟩
    · exact Quiet.givesBack hquiet h (by simp)
    · exact h.givesBack (by simp) fun irq => by simp [hcalls]
    · exact h.givesBack (by simp) fun irq => by simp [hcalls]
  · exact (quiet_probe hpdev pdev kernel).givesBack h (by simp)

theorem InOrder.interrupt_givesBack (h : InOrder s) (irq : ℕ) (now : Timespec m) :
    s.GivesBack (.interrupt irq now) := by
  by_cases hhandles : s.Handles irq
  · refine h.givesBack (by simp) fun irq' => ?_
    rw [calls_of_reaction (reaction_interrupt now hhandles)]
    simp [rrInterrupt]
  · exact (quiet_interrupt now hhandles).givesBack h (by simp)

/-- `RR_IRQENA` with the flag set enables the line of the device. -/
theorem Bound.irqena_givesBack_iff (h : Bound p True line s) (tv : Timespec m) :
    s.GivesBack (.irqena tv) ↔ s.Orderly (.irqena tv) := by
  have hcalls := (h.irqena tv).2
  rw [h.orderly_irqena_iff]
  constructor
  · intro hgives _
    have hdepth := hgives.enabled p.irq (by simp [hcalls])
    rwa [h.line] at hdepth
  · intro hdepth
    refine ⟨by simp, fun irq hcall => ?_, by simp, fun _ => by simp [h.pdev]⟩
    simp only [hcalls, List.mem_singleton, IrqCall.enableIrq.injEq] at hcall
    rw [hcall, h.line]
    exact hdepth trivial

theorem Bound.remove_flagged_givesBack_iff (h : Bound p True line s) (hline : 0 < line.handlers) :
    s.GivesBack .remove ↔ s.Orderly .remove := by
  obtain ⟨-, -, hafter, hothers, hcalls⟩ := h.remove_flagged
  rw [h.orderly_remove_iff]
  constructor
  · intro hgives _
    have hdepth := hgives.restored rfl p.irq
    rw [hafter] at hdepth
    exact ⟨trivial, hdepth⟩
  · intro hasked
    refine ⟨fun _ p' hp' => ?_, fun irq hcall => ?_, fun _ irq => ?_, fun _ => by simp [h.pdev]⟩
    · rw [h.pdev] at hp'
      cases hp'
      rw [hcalls, h.line]
      exact iff_of_true (List.mem_singleton_self _) hline
    · simp [hcalls] at hcall
    · by_cases hirq : irq = p.irq
      · rw [hirq, hafter]
        exact (hasked hline).2
      · rw [hothers irq hirq]

theorem Bound.remove_clear_givesBack_iff (h : Bound p False line s) (hline : line.depth = 0) :
    s.GivesBack .remove ↔ s.Orderly .remove := by
  obtain ⟨-, -, hafter, hcalls⟩ := h.remove_clear
  rw [h.orderly_remove_iff]
  constructor
  · intro hgives hhandlers
    have hfreed := hgives.freed rfl p h.pdev
    rw [hcalls, h.line] at hfreed
    cases hfreed.mpr hhandlers
  · intro hasked
    refine ⟨fun _ p' hp' => ?_, fun irq hcall => ?_, fun _ irq => ?_, fun _ => by simp [h.pdev]⟩
    · rw [h.pdev] at hp'
      cases hp'
      rw [hcalls, h.line]
      exact iff_of_false List.not_mem_nil fun hhandlers => (hasked hhandlers).1
    · rw [hcalls] at hcall
      cases hcall
    · rw [hafter]
      by_cases hirq : irq = p.irq
      · rw [hirq, h.line, hline]
      · rw [h.others irq hirq]

theorem Unbound.remove_givesBack (h : Unbound s) : s.GivesBack .remove := by
  have hquiet := quiet_remove h.pdev
  obtain ⟨waiting, hstep⟩ := hquiet.step_eq
  refine ⟨fun _ p hp => ?_, fun irq hcall => ?_, fun _ irq => ?_, fun hflag => absurd hflag h.flag⟩
  · rw [h.pdev] at hp
    cases hp
  · rw [hquiet.calls_eq] at hcall
    cases hcall
  · rw [hstep]
    show (s.lines irq).depth = 0
    rw [h.lines irq]

/-- In order, an event gives the line back exactly if it is orderly. -/
theorem InOrder.event_givesBack_iff (h : InOrder s) (e : IrqEvent m) :
    s.GivesBack e ↔ s.Orderly e := by
  cases e with
  | probe pdev kernel => exact iff_of_true (h.probe_givesBack pdev kernel) trivial
  | interrupt irq now => exact iff_of_true (h.interrupt_givesBack irq now) trivial
  | irqwait process =>
      exact iff_of_true ((quiet_irqwait s process).givesBack h (by simp)) trivial
  | wake process signalPending =>
      exact iff_of_true ((quiet_wake s process signalPending).givesBack h (by simp)) trivial
  | irqena tv =>
      by_cases hflag : flagged s.dev
      · obtain ⟨p, hfresh | hdisabled⟩ := h.flagged_cases hflag
        · exact hfresh.irqena_givesBack_iff tv
        · exact hdisabled.irqena_givesBack_iff tv
      · exact iff_of_true ((quiet_irqena tv hflag).givesBack h (by simp))
          fun hset => absurd hset hflag
  | remove =>
      cases h with
      | unbound h =>
          refine iff_of_true h.remove_givesBack fun p hp => ?_
          rw [h.pdev] at hp
          cases hp
      | silent p h => exact h.remove_clear_givesBack_iff rfl
      | fresh p h => exact h.remove_flagged_givesBack_iff Nat.one_pos
      | disabled p h => exact h.remove_flagged_givesBack_iff Nat.one_pos
      | enabled p h => exact h.remove_clear_givesBack_iff rfl

/-- **When the interrupt line is given back.**  Over a run from an unbound driver, every event
gives the line back as it found it if and only if every event is orderly: no `RR_IRQENA` before
the first interrupt after the probe, and no remove after it. -/
theorem line_given_back_iff (h : Unbound s) (es : List (IrqEvent m)) :
    Always IrqSystem.step GivesBack s es ↔ Always IrqSystem.step Orderly s es := by
  have hkeeps : ∀ (s : IrqSystem m) e, InOrder s → s.Orderly e → InOrder (s.step e) :=
    fun _ _ h horderly => h.step horderly
  exact always_iff_of_invariant hkeeps (fun _ e h => h.event_givesBack_iff e) (.unbound h)

/-! ## Three runs -/

section Runs

def midnight : Timespec .lp64 := ⟨0, 0, by decide, by decide⟩

/-- The driver after it has been loaded, before a device is found. -/
def loaded : IrqSystem .lp64 where
  dev :=
    { devsel := ⟨0x1a39#16, 0x0004#16, rrDevselUnused, 0#16, rrDevselUnused, 0#16⟩
      pdev := none
      irqtime := midnight
      irqcount := 0
      areas := .none
      flags := 0 }
  lines := fun _ => ⟨0, 0⟩
  waiting := fun _ => none

theorem loaded_unbound : Unbound loaded := ⟨rfl, fun hset => hset rfl, fun _ => rfl⟩

def card : PciDev := ⟨1, 0, 16, fun _ => none⟩

/-- A probe that succeeds, with the interrupt registered. -/
def probeCard : IrqEvent .lp64 := .probe card ⟨.ok (), .ok (), fun _ => true⟩

theorem probeCard_bound : Bound card True ⟨1, 0⟩ (loaded.step probeCard) := by
  rcases loaded_unbound.probe card ⟨.ok (), .ok (), fun _ => true⟩ with ⟨ret, hret⟩ | ⟨-, hcalls⟩ |
    ⟨hbound, -⟩
  · have hcalls := congrArg (Option.map Reaction.calls) hret
    cases hcalls
  · cases hcalls
  · exact hbound

/-- A probe and a remove with no interrupt between them. -/
theorem idle_card_given_back :
    Always IrqSystem.step GivesBack loaded [probeCard, .remove] := by
  refine (line_given_back_iff loaded_unbound [probeCard, .remove]).mpr ⟨trivial, ?_, trivial⟩
  exact probeCard_bound.orderly_remove_iff.mpr fun _ => ⟨trivial, rfl⟩

/-- `RR_IRQENA` right after the probe enables a line that is not disabled, and a remove after an
interrupt leaves the line disabled. -/
theorem line_not_given_back :
    ¬ Always IrqSystem.step GivesBack loaded [probeCard, .irqena midnight] ∧
      ¬ Always IrqSystem.step GivesBack loaded
        [probeCard, .interrupt card.irq midnight, .remove] := by
  constructor
  · rintro ⟨-, hgives, -⟩
    have horderly := (probeCard_bound.irqena_givesBack_iff midnight).mp hgives
    have hdepth := (probeCard_bound.orderly_irqena_iff midnight).mp horderly trivial
    cases hdepth
  · rintro ⟨-, -, hgives, -⟩
    have hdisabled := (probeCard_bound.interrupt midnight).1
    have horderly := (hdisabled.remove_flagged_givesBack_iff Nat.one_pos).mp hgives
    obtain ⟨-, hdepth⟩ := hdisabled.orderly_remove_iff.mp horderly Nat.one_pos
    cases hdepth

end Runs

end IrqSystem

end Rawrabbit

end Gn4124Core
