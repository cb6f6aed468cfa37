import Gn4124Core.Rawrabbit.IrqLine

/-!
# Waiting for the interrupt

The protocol of `RR_IRQWAIT` and `RR_IRQENA` asks whether an interrupt was handled since the last
successful `RR_IRQENA`, or since the probe.  The driver answers from its flag, and counts the
interrupts for the processes that sleep.  A book kept next to the driver records what has really
happened; the flag agrees with it as soon as one interrupt was handled, but not before, since the
probe leaves the flag set.

The book is a second observer of the same events (`note`), and says nothing to the driver.
`Agrees` is what its entries have to do with the registers of the device: the count, the time of
the last interrupt, the flag, and the counts with which processes sleep.  `Agrees.step` keeps it,
with one lemma for each kind of event.  While they agree, `Agrees.follows_iff` decides for every
event whether its answer is the one that the protocol asks for, and the run is a matter of
`Always`.  `irqDelay_eq` computes the delay in the integer types of the source.
-/

namespace Gn4124Core

open CLang Clocked

namespace Rawrabbit

variable {m : DataModel}

/-! ## The delay -/

theorem toLong_eq {m : DataModel} {x : ℤ} {n : ℕ} (hx : x = n) (hn : n < 2 ^ 31) :
    toLong m x = n := by
  have hbits : 2 ^ 31 ≤ 2 ^ (m.longBits - 1) := by cases m <;> decide
  rw [hx]
  exact toLong_natCast (by omega)

/-- The time since the interrupt, capped at a second; nothing on the way to it overflows. -/
theorem irqDelay_eq {tv tvirq : Timespec m} (hle : tvirq.ns ≤ tv.ns) :
    irqDelay tv tvirq = (min (tv.ns - tvirq.ns) nsecPerSec : ℕ) := by
  have hnsec := tv.tvNsec_lt
  have hnsec' := tvirq.tvNsec_lt
  have hsec := tv.tvSec_lt
  have hN : nsecPerSec < 2 ^ 30 := by decide
  unfold Timespec.ns at hle
  unfold irqDelay Timespec.ns
  generalize nsecPerSec = N at *
  have horder : tvirq.tvSec ≤ tv.tvSec := by
    by_contra hlt
    have hstep : (tv.tvSec + 1) * N ≤ tvirq.tvSec * N := Nat.mul_le_mul_right N (by omega)
    rw [Nat.add_mul] at hstep
    omega
  obtain ⟨seconds, hseconds⟩ := Nat.exists_eq_add_of_le horder
  have hdiff : (tv.tvSec - tvirq.tvSec : ℤ) = seconds := by omega
  have hlong : toLong m (tv.tvSec - tvirq.tvSec) = seconds := by
    rw [hdiff]
    exact toLong_natCast (by omega)
  rw [hseconds, Nat.add_mul] at hle
  rw [hlong, hseconds, Nat.add_mul]
  dsimp only
  by_cases hcap : (seconds : ℤ) > 1
  · have htwo : 2 * N ≤ seconds * N := Nat.mul_le_mul_right N (by omega)
    rw [if_pos hcap]
    omega
  · -- at most one second apart: the sum is the elapsed time, and fits an int
    have hproduct : seconds * N ≤ 1 * N := Nat.mul_le_mul_right N (by omega)
    have hmul : toLong m ((seconds : ℤ) * N) = (seconds * N : ℕ) :=
      toLong_eq (Nat.cast_mul seconds N).symm (by omega)
    obtain ⟨elapsed, helapsed⟩ :=
      Nat.exists_eq_add_of_le (show tvirq.tvNsec ≤ seconds * N + tv.tvNsec by omega)
    have hsum : toLong m ((seconds * N : ℕ) + tv.tvNsec - tvirq.tvNsec : ℤ) = elapsed :=
      toLong_eq (by omega) (by omega)
    rw [if_neg hcap, hmul, hsum, toInt_natCast (by omega)]
    split <;> omega

/-! ## The protocol -/

/-- What a process or the hardware does after the probe. -/
inductive Use (m : DataModel) where
  | interrupt (irq : ℕ) (now : Timespec m)
  | irqwait (process : ℕ)
  | wake (process : ℕ) (signalPending : Bool)
  | irqena (tv : Timespec m)

def Use.event : Use m → IrqEvent m
  | interrupt irq now => .interrupt irq now
  | irqwait process => .irqwait process
  | wake process signalPending => .wake process signalPending
  | irqena tv => .irqena tv

/-- What has happened since the probe: how many interrupts were handled and when the last one was,
whether this was after the last successful `RR_IRQENA`, and how many had been handled when a
process called `RR_IRQWAIT`. -/
structure Book (m : DataModel) where
  pending : Bool
  handled : ℕ
  last : Option (Timespec m)
  since : ℕ → ℕ

/-- The driver, and the book next to it. -/
structure Watched (m : DataModel) where
  sys : IrqSystem m
  book : Book m

namespace Watched

/-- The value that an event returns to a process. -/
def answer (w : Watched m) (u : Use m) : Option (Except Errno ℤ) :=
  match w.sys.reaction u.event with
  | some r => r.ret
  | none => none

/-- What is entered into the book. -/
def note (w : Watched m) : Use m → Book m
  | .interrupt irq now =>
      if w.sys.Handles irq then
        { w.book with pending := true, handled := w.book.handled + 1, last := some now }
      else w.book
  | .irqwait process =>
      if w.sys.waiting process = none then
        { w.book with since := Function.update w.book.since process w.book.handled }
      else w.book
  | .wake _ _ => w.book
  | .irqena tv =>
      match w.answer (.irqena tv) with
      | some (.ok _) => { w.book with pending := false }
      | _ => w.book

def step (w : Watched m) (u : Use m) : Watched m := ⟨w.sys.step u.event, w.note u⟩

/-- The book is opened. -/
def start (s : IrqSystem m) : Watched m := ⟨s, false, 0, none, fun _ => 0⟩

/-- The answers that the protocol asks for.  A process that sleeps makes no calls; the time of
`RR_IRQENA` is not before that of the last interrupt. -/
def Follows (w : Watched m) : Use m → Prop
  | .interrupt _ _ => True
  | .irqwait process => w.sys.waiting process = none →
      w.answer (.irqwait process) = if w.book.pending then some (.error .eagain) else none
  | .wake process signalPending =>
      w.answer (.wake process signalPending) ≠ some (.error .eagain) ∧
        ∀ n, w.answer (.wake process signalPending) = some (.ok n) →
          n = 0 ∧ w.book.since process < w.book.handled
  | .irqena tv => (∀ last, w.book.last = some last → last.ns ≤ tv.ns) →
      (w.answer (.irqena tv) = some (.error .eagain) ↔ w.book.pending = false) ∧
        (w.book.pending = true → ∃ last pdev, w.book.last = some last ∧
          w.sys.dev.pdev = some pdev ∧
          w.answer (.irqena tv) = some (.ok (min (tv.ns - last.ns) nsecPerSec : ℕ)) ∧
          w.sys.calls (.irqena tv) = [.enableIrq pdev.irq] ∧
          ((w.step (.irqena tv)).sys.lines pdev.irq).depth = 0)

/-- No process asks before the first interrupt was handled. -/
def Started (w : Watched m) : Use m → Prop
  | .irqwait process => w.sys.waiting process = none → 0 < w.book.handled
  | .irqena _ => 0 < w.book.handled
  | _ => True

/-! ## The book and the driver agree -/

/-- The flag is set while an interrupt is pending, and before the first one. -/
structure Agrees (p : PciDev) (c : BitVec m.longBits) (w : Watched m) : Prop where
  bound : IrqSystem.Bound p (w.book.pending = true ∨ w.book.handled = 0)
    ⟨1, w.book.pending.toNat⟩ w.sys
  pending : w.book.pending = true → 0 < w.book.handled
  last : 0 < w.book.handled → w.book.last = some w.sys.dev.irqtime
  fresh : w.book.handled = 0 → w.book.last = none
  count : w.sys.dev.irqcount = c + BitVec.ofNat m.longBits w.book.handled
  since : ∀ process count, w.sys.waiting process = some count →
    count = c + BitVec.ofNat m.longBits (w.book.since process) ∧
      w.book.since process ≤ w.book.handled

variable {w : Watched m} {p : PciDev} {c : BitVec m.longBits}

theorem answer_of_reaction {u : Use m} {r : Reaction m} (h : w.sys.reaction u.event = some r) :
    w.answer u = r.ret := by
  rw [answer, h]

theorem start_agrees {s : IrqSystem m} (h : IrqSystem.Bound p True ⟨1, 0⟩ s)
    (hwaiting : ∀ process, s.waiting process = none) :
    Agrees p s.dev.irqcount (start s) where
  bound := ⟨h.pdev, iff_of_true (h.flag.mpr trivial) (.inr rfl), h.line, h.others⟩
  pending := fun hpending => by cases hpending
  last := fun hpositive => by cases hpositive
  fresh := fun _ => rfl
  count := by simp [start]
  since := fun process count hcount => by
    rw [start, hwaiting] at hcount
    cases hcount

/-- What does not concern the interrupt changes only who sleeps, and since when. -/
theorem Agrees.frame (h : Agrees p c w) {waiting : ℕ → Option (BitVec m.longBits)} {since : ℕ → ℕ}
    (hsince : ∀ process count, waiting process = some count →
      count = c + BitVec.ofNat m.longBits (since process) ∧ since process ≤ w.book.handled) :
    Agrees p c ⟨{ w.sys with waiting := waiting }, { w.book with since := since }⟩ where
  bound := ⟨h.bound.pdev, h.bound.flag, h.bound.line, h.bound.others⟩
  pending := h.pending
  last := h.last
  fresh := h.fresh
  count := h.count
  since := hsince

theorem Agrees.quiet (h : Agrees p c w) {u : Use m} {ret : Option (Except Errno ℤ)}
    (hret : w.sys.reaction u.event = some ⟨w.sys.dev, [], ret⟩) {since : ℕ → ℕ}
    (hbook : w.note u = { w.book with since := since })
    (hsince : ∀ process count, w.sys.sleepers ret u.event process = some count →
      count = c + BitVec.ofNat m.longBits (since process) ∧ since process ≤ w.book.handled) :
    Agrees p c (w.step u) := by
  rw [step, hbook, IrqSystem.step_of_reaction hret]
  exact h.frame hsince

theorem note_interrupt {irq : ℕ} (now : Timespec m) (h : w.sys.Handles irq) :
    w.note (.interrupt irq now) =
      { w.book with pending := true, handled := w.book.handled + 1, last := some now } :=
  if_pos h

/-- An interrupt reaches the handler only while none is pending. -/
theorem Agrees.interrupt (h : Agrees p c w) (irq : ℕ) (now : Timespec m) :
    Agrees p c (w.step (.interrupt irq now)) := by
  by_cases hhandles : w.sys.Handles irq
  · obtain ⟨rfl, -, hdepth⟩ := h.bound.eq_of_handles hhandles
    have hbound : IrqSystem.Bound p (w.book.pending = true ∨ w.book.handled = 0) ⟨1, 0⟩ w.sys := by
      have hline := h.bound
      rwa [show w.book.pending.toNat = 0 from hdepth] at hline
    have hstep := IrqSystem.step_of_reaction (IrqSystem.reaction_interrupt now hhandles)
    have hsys : (w.step (.interrupt p.irq now)).sys = w.sys.step (.interrupt p.irq now) := rfl
    have hbook : (w.step (.interrupt p.irq now)).book =
        { w.book with pending := true, handled := w.book.handled + 1, last := some now } :=
      note_interrupt now hhandles
    have hafter := (hbound.interrupt now).1
    constructor
    · rw [hbook, hsys]
      exact ⟨hafter.pdev, iff_of_true (hafter.flag.mpr trivial) (.inl rfl), hafter.line,
        hafter.others⟩
    · rw [hbook]
      exact fun _ => Nat.succ_pos _
    · rw [hbook, hsys, hstep]
      exact fun _ => rfl
    · rw [hbook]
      exact fun hzero => absurd hzero (Nat.succ_ne_zero _)
    · rw [hbook, hsys, hstep]
      show w.sys.dev.irqcount + 1 = c + BitVec.ofNat m.longBits (w.book.handled + 1)
      rw [h.count, BitVec.ofNat_add, ← BitVec.add_assoc]
      rfl
    · rw [hbook, hsys, hstep]
      intro process count hcount
      obtain ⟨heq, hle⟩ := h.since process count hcount
      exact ⟨heq, hle.trans (Nat.le_succ _)⟩
  · have hbook : w.note (.interrupt irq now) = w.book := if_neg hhandles
    obtain ⟨ret, hret⟩ := IrqSystem.quiet_interrupt now hhandles
    exact h.quiet (u := .interrupt irq now) hret hbook h.since

/-- Who sleeps after `RR_IRQWAIT` slept before, or is the caller. -/
theorem sleepers_irqwait {s : IrqSystem m} {ret : Option (Except Errno ℤ)} {process q : ℕ}
    {count : BitVec m.longBits} (hq : s.sleepers ret (.irqwait process) q = some count) :
    s.waiting q = some count ∨
      q = process ∧ s.waiting process = none ∧ count = s.dev.irqcount := by
  cases hwaiting : s.waiting process with
  | some before =>
      simp only [IrqSystem.sleepers, hwaiting] at hq
      exact .inl hq
  | none =>
      cases hcheck : rrIrqwait s.dev with
      | error e =>
          simp only [IrqSystem.sleepers, hwaiting, hcheck] at hq
          exact .inl hq
      | ok read =>
          have hread : read = s.dev.irqcount := by
            unfold rrIrqwait at hcheck
            split at hcheck
            · cases hcheck
            · injection hcheck with hcheck
              exact hcheck.symm
          simp only [IrqSystem.sleepers, hwaiting, hcheck] at hq
          by_cases hprocess : q = process
          · rw [hprocess, Function.update_self, Option.some.injEq] at hq
            exact .inr ⟨hprocess, rfl, hq.symm.trans hread⟩
          · rw [Function.update_of_ne hprocess] at hq
            exact .inl hq

/-- The count with which a process goes to sleep is that of the interrupts handled so far. -/
theorem Agrees.irqwait (h : Agrees p c w) (process : ℕ) :
    Agrees p c (w.step (.irqwait process)) := by
  obtain ⟨ret, hret⟩ := IrqSystem.quiet_irqwait w.sys process
  cases hwaiting : w.sys.waiting process with
  | some count =>
      have hbook : w.note (.irqwait process) = w.book := if_neg (by simp [hwaiting])
      refine h.quiet (u := .irqwait process) hret hbook fun q count' hq => ?_
      rcases sleepers_irqwait hq with hbefore | ⟨-, hnone, -⟩
      · exact h.since q count' hbefore
      · rw [hwaiting] at hnone
        cases hnone
  | none =>
      have hbook : w.note (.irqwait process) = { w.book with
          since := Function.update w.book.since process w.book.handled } := if_pos hwaiting
      refine h.quiet (u := .irqwait process) hret hbook fun q count' hq => ?_
      rcases sleepers_irqwait hq with hbefore | ⟨rfl, -, rfl⟩
      · have hprocess : q ≠ process := by
          rintro rfl
          rw [hwaiting] at hbefore
          cases hbefore
        rw [Function.update_of_ne hprocess]
        exact h.since q count' hbefore
      · rw [Function.update_self]
        exact ⟨h.count, le_rfl⟩

theorem Agrees.wake (h : Agrees p c w) (process : ℕ) (signalPending : Bool) :
    Agrees p c (w.step (.wake process signalPending)) := by
  obtain ⟨ret, hret⟩ := IrqSystem.quiet_wake w.sys process signalPending
  refine h.quiet (u := .wake process signalPending) hret rfl fun q count hq => h.since q count ?_
  simp only [Use.event, IrqSystem.sleepers] at hq
  split at hq
  · by_cases hprocess : q = process
    · rw [hprocess, Function.update_self] at hq
      cases hq
    · rwa [Function.update_of_ne hprocess] at hq
  · exact hq

theorem Agrees.not_pending (h : Agrees p c w) (hzero : w.book.handled = 0) :
    w.book.pending = false := by
  rw [← Bool.not_eq_true]
  intro hset
  exact (h.pending hset).ne' hzero

/-- Once an interrupt was handled, the flag tells whether one is pending. -/
theorem Agrees.flagged_iff (h : Agrees p c w) (hpositive : 0 < w.book.handled) :
    flagged w.sys.dev ↔ w.book.pending = true := by
  rw [h.bound.flag]
  exact or_iff_left hpositive.ne'

theorem answer_irqena_clear (hflag : ¬ flagged w.sys.dev) (tv : Timespec m) :
    w.answer (.irqena tv) = some (.error .eagain) := by
  have hreaction : w.sys.reaction (.irqena tv) = some ⟨w.sys.dev, [], some (.error .eagain)⟩ := by
    show rrIrqena w.sys.dev tv = _
    exact if_pos (not_not.mp hflag)
  exact answer_of_reaction (u := .irqena tv) hreaction

theorem Agrees.answer_irqena (h : Agrees p c w) (hflag : flagged w.sys.dev) (tv : Timespec m) :
    w.answer (.irqena tv) = some (.ok (irqDelay tv w.sys.dev.irqtime)) :=
  answer_of_reaction (u := .irqena tv) (h.bound.reaction_irqena hflag tv)

/-- `RR_IRQENA` ends what is pending. -/
theorem Agrees.irqena (h : Agrees p c w) (tv : Timespec m) (hpositive : 0 < w.book.handled) :
    Agrees p c (w.step (.irqena tv)) := by
  have hsys : (w.step (.irqena tv)).sys = w.sys.step (.irqena tv) := rfl
  by_cases hflag : flagged w.sys.dev
  · have hpending := (h.flagged_iff hpositive).mp hflag
    have hbound : IrqSystem.Bound p True ⟨1, 1⟩ w.sys := by
      have hline := h.bound
      rw [hpending] at hline
      exact ⟨hline.pdev, iff_of_true hflag trivial, hline.line, hline.others⟩
    have hafter := (hbound.irqena tv).1
    have hstep := IrqSystem.step_of_reaction (h.bound.reaction_irqena hflag tv)
    have hbook : (w.step (.irqena tv)).book = { w.book with pending := false } := by
      show w.note (.irqena tv) = _
      rw [note, h.answer_irqena hflag tv]
    constructor
    · rw [hbook, hsys]
      refine ⟨hafter.pdev, ?_, hafter.line, hafter.others⟩
      refine iff_of_false (fun hset => hafter.flag.mp hset) ?_
      rintro (hpending' | hzero)
      · cases hpending'
      · exact hpositive.ne' hzero
    · rw [hbook]
      exact fun hpending' => by cases hpending'
    · rw [hbook, hsys, hstep]
      exact h.last
    · rw [hbook]
      exact h.fresh
    · rw [hbook, hsys, hstep]
      exact h.count
    · rw [hbook, hsys, hstep]
      exact h.since
  · have hbook : w.note (.irqena tv) = w.book := by
      rw [note, answer_irqena_clear hflag tv]
    obtain ⟨ret, hret⟩ := IrqSystem.quiet_irqena tv hflag
    exact h.quiet (u := .irqena tv) hret hbook h.since

/-- **What one event preserves.** -/
theorem Agrees.step (h : Agrees p c w) {u : Use m} (hstarted : w.Started u) :
    Agrees p c (w.step u) := by
  cases u with
  | interrupt irq now => exact h.interrupt irq now
  | irqwait process => exact h.irqwait process
  | wake process signalPending => exact h.wake process signalPending
  | irqena tv => exact h.irqena tv hstarted

/-! ## The answers -/

theorem answer_irqwait {process : ℕ} (hwaiting : w.sys.waiting process = none) :
    (flagged w.sys.dev → w.answer (.irqwait process) = some (.error .eagain)) ∧
      (¬ flagged w.sys.dev → w.answer (.irqwait process) = none) := by
  constructor
  · intro hflag
    have hcheck : rrIrqwait w.sys.dev = .error .eagain := if_pos hflag
    simp only [answer, Use.event, IrqSystem.reaction, hwaiting, hcheck]
  · intro hflag
    have hcheck : rrIrqwait w.sys.dev = .ok w.sys.dev.irqcount := if_neg hflag
    simp only [answer, Use.event, IrqSystem.reaction, hwaiting, hcheck, Reaction.none]

theorem Agrees.irqwait_follows_iff (h : Agrees p c w) (process : ℕ) :
    w.Follows (.irqwait process) ↔ w.Started (.irqwait process) := by
  constructor
  · intro hfollows hwaiting
    by_contra hzero
    have hhandled : w.book.handled = 0 := by omega
    have hpending := h.not_pending hhandled
    have hasked := hfollows hwaiting
    rw [(answer_irqwait hwaiting).1 (h.bound.flag.mpr (.inr hhandled)), hpending] at hasked
    cases hasked
  · intro hstarted hwaiting
    have hflag := h.flagged_iff (hstarted hwaiting)
    by_cases hset : flagged w.sys.dev
    · rw [(answer_irqwait hwaiting).1 hset, if_pos (hflag.mp hset)]
    · rw [(answer_irqwait hwaiting).2 hset, if_neg fun hpending => hset (hflag.mpr hpending)]

/-- A process that returns 0 has slept with a count that is not the present one. -/
theorem Agrees.wake_follows (h : Agrees p c w) (process : ℕ) (signalPending : Bool) :
    w.Follows (.wake process signalPending) := by
  cases hwaiting : w.sys.waiting process with
  | none =>
      have hanswer : w.answer (.wake process signalPending) = none := by
        simp only [answer, Use.event, IrqSystem.reaction, hwaiting, Reaction.none]
      refine ⟨?_, fun n hn => ?_⟩
      · rw [hanswer]
        simp
      · rw [hanswer] at hn
        cases hn
  | some count =>
      obtain ⟨hcount, hle⟩ := h.since process count hwaiting
      have hanswer : w.answer (.wake process signalPending) =
          rrIrqwaitEnd w.sys.dev count signalPending := by
        simp only [answer, Use.event, IrqSystem.reaction, hwaiting]
      simp only [Follows, hanswer]
      unfold rrIrqwaitEnd
      split
      · refine ⟨by simp, fun n hn => ?_⟩
        cases hn
      · split
        · next hne =>
            refine ⟨by simp, fun n hn => ?_⟩
            have hlater : w.book.since process ≠ w.book.handled := by
              intro heq
              rw [hcount, heq, h.count] at hne
              exact hne rfl
            cases hn
            exact ⟨rfl, by omega⟩
        · refine ⟨by simp, fun n hn => ?_⟩
          cases hn

theorem Agrees.irqena_follows_iff (h : Agrees p c w) (tv : Timespec m) :
    w.Follows (.irqena tv) ↔ w.Started (.irqena tv) := by
  constructor
  · intro hfollows
    show 0 < w.book.handled
    by_contra hzero
    have hhandled : w.book.handled = 0 := by omega
    have hpending := h.not_pending hhandled
    have hnone := h.fresh hhandled
    have hasked := (hfollows fun last hlast => by rw [hnone] at hlast; cases hlast).1.mpr hpending
    rw [h.answer_irqena (h.bound.flag.mpr (.inr hhandled)) tv] at hasked
    cases hasked
  · intro hpositive hclock
    have hflag := h.flagged_iff hpositive
    have hlast := h.last hpositive
    by_cases hset : flagged w.sys.dev
    · have hpending := hflag.mp hset
      have hanswer := h.answer_irqena hset tv
      have hcalls := IrqSystem.calls_of_reaction (h.bound.reaction_irqena hset tv)
      refine ⟨?_, fun _ => ⟨w.sys.dev.irqtime, p, hlast, h.bound.pdev, ?_, hcalls, ?_⟩⟩
      · rw [hanswer, hpending]
        simp
      · rw [hanswer, irqDelay_eq (hclock _ hlast)]
      · have hafter := (h.irqena tv hpositive).bound.line
        have hbook : (w.step (.irqena tv)).book.pending = false := by
          show (w.note (.irqena tv)).pending = false
          rw [note, hanswer]
        rw [hafter, hbook]
        rfl
    · have hpending : w.book.pending = false := by
        rw [← Bool.not_eq_true]
        exact fun htrue => hset (hflag.mpr htrue)
      refine ⟨iff_of_true (answer_irqena_clear hset tv) hpending, fun htrue => ?_⟩
      rw [hpending] at htrue
      cases htrue

/-- While book and driver agree, an answer is as the protocol asks exactly if the process does not
ask before the first interrupt. -/
theorem Agrees.follows_iff (h : Agrees p c w) (u : Use m) : w.Follows u ↔ w.Started u := by
  cases u with
  | interrupt irq now => exact Iff.rfl
  | irqwait process => exact h.irqwait_follows_iff process
  | wake process signalPending => exact iff_of_true (h.wake_follows process signalPending) trivial
  | irqena tv => exact h.irqena_follows_iff tv

/-- **When waiting and enabling follow the protocol.**  After a probe that has registered the
interrupt, every answer is as the protocol asks if and only if no process calls `RR_IRQWAIT` or
`RR_IRQENA` before the first interrupt was handled. -/
theorem irq_protocol_iff {s : IrqSystem m} (h : s.Unbound)
    (hwaiting : ∀ process, s.waiting process = none) (pdev : PciDev) (kernel : ProbeCalls)
    (hregistered : .requestIrq pdev.irq ∈ s.calls (.probe pdev kernel)) (us : List (Use m)) :
    Always Watched.step Follows (start (s.step (.probe pdev kernel))) us ↔
      Always Watched.step Started (start (s.step (.probe pdev kernel))) us := by
  have hfresh : IrqSystem.Bound pdev True ⟨1, 0⟩ (s.step (.probe pdev kernel)) := by
    rcases h.probe pdev kernel with ⟨ret, hret⟩ | ⟨-, hcalls⟩ | ⟨hbound, -⟩
    · rw [IrqSystem.calls_of_reaction hret] at hregistered
      cases hregistered
    · rw [hcalls] at hregistered
      cases hregistered
    · exact hbound
  have hnone : ∀ process, (s.step (.probe pdev kernel)).waiting process = none := fun process => by
    rw [IrqSystem.step_of_reaction (r := rrPciprobe s.dev pdev kernel) rfl]
    exact hwaiting process
  exact always_iff_of_invariant (fun _ _ h hstarted => h.step hstarted)
    (fun _ u h => h.follows_iff u) (start_agrees hfresh hnone)

/-- An interrupt, and the call that enables the line again. -/
theorem usual_order_follows :
    Always Watched.step Follows (start (IrqSystem.loaded.step IrqSystem.probeCard))
      [.interrupt IrqSystem.card.irq IrqSystem.midnight, .irqena IrqSystem.midnight] := by
  have hregistered : .requestIrq IrqSystem.card.irq ∈
      IrqSystem.loaded.calls IrqSystem.probeCard := List.mem_singleton_self _
  refine (irq_protocol_iff IrqSystem.loaded_unbound (fun _ => rfl) IrqSystem.card _ hregistered
    _).mpr ⟨trivial, ?_, trivial⟩
  have hbook := note_interrupt (w := start (IrqSystem.loaded.step IrqSystem.probeCard))
    IrqSystem.midnight IrqSystem.probeCard_bound.handles
  show 0 < ((start (IrqSystem.loaded.step IrqSystem.probeCard)).note
    (.interrupt IrqSystem.card.irq IrqSystem.midnight)).handled
  rw [hbook]
  exact Nat.succ_pos _

/-- Right after the probe, with no interrupt so far, a process is told that one has happened. -/
theorem wait_after_probe_not_follows :
    ¬ Always Watched.step Follows (start (IrqSystem.loaded.step IrqSystem.probeCard))
      [.irqwait 0] := by
  rintro ⟨hfollows, -⟩
  have hagrees := start_agrees IrqSystem.probeCard_bound fun _ => rfl
  have hstarted := (hagrees.irqwait_follows_iff 0).mp hfollows rfl
  cases hstarted

end Watched

end Rawrabbit

end Gn4124Core
