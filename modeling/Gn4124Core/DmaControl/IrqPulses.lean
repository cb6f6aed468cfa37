import Gn4124Core.Rtl.PulseSync

/-!
# No interrupt pulse is lost or doubled between the clocks

The interrupts of the DMA controller reach the clock of the registers through a
`pulse_synchronizer` each.  Nothing in it counts: a pulse is a toggle of one level, and up to
three pulses are under way in the chain that samples this level.  They are the neighbours in the
chain that differ, as long as two pulses never toggle the level back before an edge of
`clk_out_i` has sampled it.  Edges of the two clocks may come in any order and at the same time.

`underWay_step` conserves the pulses at an edge: those taken are those given and the change of
those under way.  `underWay_pulse` is the case of a pulse, whose toggle adds a change to the
chain only if the level was sampled before (`Settled`), and `underWay_out` that of an edge of
`clk_out_i`, which hands on the last change (`Clocked.ToggleChain` has the lemmas about chains).
What the rest of the edges promises, `Spaced` or `Sampled`, is consumed by the induction of
`underWay_run`.
-/

namespace Gn4124Core

open Clocked

namespace PulseSync

/-- Between any two pulses there is an edge of `clk_out_i`.  It may come at the same time as the
second one, since it then samples the level from before it. -/
def Spaced (ts : List PulseSyncTick) : Prop :=
  ∀ i j : Fin ts.length, i < j → ts[i].Pulse → ts[j].Pulse →
    ∃ k : Fin ts.length, i < k ∧ k ≤ j ∧ ts[k].clkOut = true

instance (ts : List PulseSyncTick) : Decidable (Spaced ts) := by
  unfold Spaced
  infer_instance

/-- Before the next pulse, or with it, comes an edge of `clk_out_i`. -/
def Sampled (ts : List PulseSyncTick) : Prop :=
  ∀ j : Fin ts.length, ts[j].Pulse → ∃ k : Fin ts.length, k ≤ j ∧ ts[k].clkOut = true

/-- The edges of `clk_in_i` that sample a pulse. -/
def taken (_ : PulseSync) (t : PulseSyncTick) : List Unit := if t.Pulse then [()] else []

/-- The edges of `clk_out_i` at which the output pulse is high. -/
def given (s : PulseSync) (t : PulseSyncTick) : List Unit :=
  if t.clkOut && s.pulseO then [()] else []

/-- The pulses under way. -/
def underWay (s : PulseSync) : ℕ := changes s.chain

/-- The level has been sampled since it last changed. -/
def Settled (s : PulseSync) : Prop := s.sInputToggle = s.sInputSync.getLsbD 0

instance (s : PulseSync) : Decidable s.Settled := inferInstanceAs (Decidable (_ = _))

variable {s : PulseSync} {t : PulseSyncTick} {ts : List PulseSyncTick}

/-! ## What the rest of a list of edges promises -/

theorem Spaced.tail (h : Spaced (t :: ts)) : Spaced ts := by
  intro i j hij hi hj
  obtain ⟨k, hik, hkj, hk⟩ := h i.succ j.succ (Fin.succ_lt_succ_iff.mpr hij) hi hj
  cases k using Fin.cases with
  | zero => exact absurd hik (Fin.not_lt_zero _)
  | succ k => exact ⟨k, Fin.succ_lt_succ_iff.mp hik, Fin.succ_le_succ_iff.mp hkj, hk⟩

theorem Spaced.sampled (h : Spaced (t :: ts)) (hpulse : t.Pulse) : Sampled ts := by
  intro j hj
  obtain ⟨k, hik, hkj, hk⟩ := h 0 j.succ (Fin.succ_pos j) hpulse hj
  cases k using Fin.cases with
  | zero => exact absurd hik (Fin.lt_irrefl _)
  | succ k => exact ⟨k, Fin.succ_le_succ_iff.mp hkj, hk⟩

theorem Sampled.head (h : Sampled (t :: ts)) (hpulse : t.Pulse) : t.clkOut = true := by
  obtain ⟨k, hk0, hk⟩ := h 0 hpulse
  obtain rfl : k = 0 := Fin.le_zero_iff.mp hk0
  exact hk

theorem Sampled.tail (h : Sampled (t :: ts)) (hout : t.clkOut = false) : Sampled ts := by
  intro j hj
  obtain ⟨k, hkj, hk⟩ := h j.succ hj
  cases k using Fin.cases with
  | zero => exact absurd (hk.symm.trans hout) (by decide)
  | succ k => exact ⟨k, Fin.succ_le_succ_iff.mp hkj, hk⟩

/-! ## One edge -/

/-- An edge of `clk_out_i` hands on the pulse at the end of the chain. -/
theorem underWay_out (s : PulseSync) (hin : ¬ t.Pulse) (hout : t.clkOut = true) :
    (step s t).underWay + s.pulseO.toNat = s.underWay := by
  simp only [underWay, chain, step, if_neg hin, hout, if_true, sync_zero, sync_one,
    sync_two]
  exact changes_shift s.sInputToggle [s.sInputSync[0]] _ _

/-- A pulse toggles a level that the chain has sampled, or samples at this very edge. -/
theorem underWay_pulse (hin : t.Pulse) (hsettled : s.Settled ∨ t.clkOut = true) :
    (step s t).underWay + (t.clkOut && s.pulseO).toNat = s.underWay + 1 := by
  cases hout : t.clkOut with
  | false =>
      have hfirst : s.sInputSync[0] = s.sInputToggle := by
        rcases hsettled with h | h
        · exact h.symm
        · exact absurd (h.symm.trans hout) (by decide)
      simp only [underWay, chain, step, if_pos hin, hout, Bool.false_eq_true, if_false, hfirst,
        Bool.false_and, Bool.toNat_false, Nat.add_zero]
      exact changes_toggle _ _
  | true =>
      -- the chain first takes the old level, and the new one differs from it
      have hshift := changes_shift s.sInputToggle [s.sInputSync[0]]
        (s.sInputSync[1]) (s.sInputSync[2])
      have htoggled := changes_toggle s.sInputToggle
        [s.sInputSync[0], s.sInputSync[1]]
      simp only [underWay, chain, step, if_pos hin, hout, if_true, sync_zero,
        sync_one, sync_two, Bool.true_and, pulseO, sOutputPulse]
      simp only [List.singleton_append] at hshift
      omega

theorem settled_out (s : PulseSync) (hin : ¬ t.Pulse) (hout : t.clkOut = true) :
    (step s t).Settled := by
  simp only [Settled, step, if_neg hin, hout, if_true]
  exact (sync_zero _ _).symm

theorem chain_idle (s : PulseSync) (hin : ¬ t.Pulse) (hout : t.clkOut = false) :
    (step s t).chain = s.chain := by
  simp only [chain, step, if_neg hin, hout, Bool.false_eq_true, if_false]

/-- An edge conserves the pulses. -/
theorem underWay_step (hpulse : t.Pulse → s.Settled ∨ t.clkOut = true) :
    (given s t).length + (step s t).underWay = (taken s t).length + s.underWay := by
  by_cases hin : t.Pulse
  · have hcount := underWay_pulse hin (hpulse hin)
    cases hgiven : t.clkOut && s.pulseO <;>
      simp only [given, taken, hgiven, hin, if_true, Bool.false_eq_true, if_false, Bool.toNat_true,
        Bool.toNat_false, List.length_singleton, List.length_nil] at hcount ⊢ <;>
      omega
  · cases hout : t.clkOut with
    | false => simp [given, taken, underWay, hin, hout, chain_idle s hin hout]
    | true =>
        have hcount := underWay_out s hin hout
        cases hgiven : s.pulseO <;>
          simp only [given, taken, hout, hgiven, hin, Bool.and_true, Bool.and_false, if_true,
            Bool.false_eq_true, if_false, Bool.toNat_true, Bool.toNat_false,
            List.length_singleton, List.length_nil] at hcount ⊢ <;>
          omega

/-- After an edge, too, the level is sampled before it changes again. -/
theorem settled_step (hspaced : Spaced (t :: ts)) (h : s.Settled ∨ Sampled (t :: ts)) :
    (step s t).Settled ∨ Sampled ts := by
  by_cases hin : t.Pulse
  · exact .inr (hspaced.sampled hin)
  · cases hout : t.clkOut with
    | true => exact .inl (settled_out s hin hout)
    | false =>
        rcases h with h | h
        · left
          have hchain := chain_idle s hin hout
          simp only [chain, List.cons.injEq] at hchain
          have hfirst : s.sInputSync[0] = (step s t).sInputSync[0] := hchain.2.1.symm
          exact hchain.1.trans (h.trans hfirst)
        · exact .inr (h.tail hout)

/-! ## A whole run -/

theorem underWay_run (hspaced : Spaced ts) (h : s.Settled ∨ Sampled ts) :
    (log step given s ts).length + (run step s ts).underWay =
      (log step taken s ts).length + s.underWay := by
  induction ts generalizing s with
  | nil => simp
  | cons t ts ih =>
      have hfirst : (given s t).length + (step s t).underWay = (taken s t).length + s.underWay := by
        apply underWay_step
        intro hin
        rcases h with h | h
        · exact .inl h
        · exact .inr (h.head hin)
      have hrest := ih hspaced.tail (settled_step hspaced h)
      rw [log_cons, log_cons, run_cons, List.length_append, List.length_append]
      omega

/-- **Every pulse comes out once.**  In every state that is reached from reset, the pulses that
were taken are those that were given and the neighbours in the chain that differ. -/
theorem pulses_conserved (ts : List PulseSyncTick) (hspaced : Spaced ts) :
    (log step taken reset ts).length =
      (log step given reset ts).length + changes (run step reset ts).chain := by
  have hrun := underWay_run hspaced (.inl (by decide : reset.Settled))
  have hreset : reset.underWay = 0 := by decide
  rw [hreset, Nat.add_zero] at hrun
  exact hrun.symm

/-- Three pulses as close as the clocks allow, the last two of them with an edge of both. -/
def closePulses : List PulseSyncTick :=
  [⟨some true, false⟩, ⟨some true, true⟩, ⟨some true, true⟩]

theorem closePulses_conserved :
    (log step taken reset closePulses).length =
      (log step given reset closePulses).length + changes (run step reset closePulses).chain :=
  pulses_conserved closePulses (by decide)

end PulseSync

end Gn4124Core
