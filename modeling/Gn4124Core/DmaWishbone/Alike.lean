import Gn4124Core.DmaWishbone.Exclusion

/-!
# Wishbone sides that do the same

Two Wishbone sides with the same requests in the FIFO and on the bus, and as many requests to be
acknowledged, do the same from then on.  The registers in which they may differ are read by
nothing before they are loaded again.

`Alike` names the registers that matter, with the conditions under which they do: the address and
the data on the lines only with the strobe, the output of the FIFO only when a word was popped.
`Alike.step` is kept by every edge.  A side with nothing to do (`Quiet`) stays so, and is like
any other one with nothing to do (`Quiet.alike`), whatever transfers it has served before.
-/

namespace Gn4124Core

open Clocked

namespace DmaWishbone

variable {α : Type*}

/-- The two do the same from now on. -/
structure Alike (a b : DmaWishbone α) : Prop where
  fifo : a.fifo.SameWords b.fifo
  q : a.wb.fifoValid = true → a.fifo.q = b.fifo.q
  fifoValid : a.wb.fifoValid = b.wb.fifoValid
  stb : a.wb.stb = b.wb.stb
  cyc : a.wb.cyc = b.wb.cyc
  lines : a.wb.stb = true → a.wb.request = b.wb.request ∧ a.wb.sel = b.wb.sel
  unacked : a.wb.unacked = b.wb.unacked

variable {a b : DmaWishbone α} {t : DmaWbTick DmaWbPorts α}

theorem Alike.pops (h : a.Alike b) : a.pops t = b.pops t := by
  unfold DmaWishbone.pops fifoRd
  rw [h.fifo.empty]

theorem Alike.lastAck (h : a.Alike b) (ack : Bool) : a.wb.lastAck ack = b.wb.lastAck ack := by
  rw [Bool.eq_iff_iff, DmaWbMaster.lastAck_iff, DmaWbMaster.lastAck_iff, h.unacked]

theorem Alike.step (h : a.Alike b) : (DmaWishbone.step a t).Alike (DmaWishbone.step b t) := by
  -- the FIFOs are read at the same edges, whatever words are in them
  have hpops : a.pops t = b.pops t := h.pops
  have hfifo : (DmaWishbone.step a t).fifo.SameWords (DmaWishbone.step b t).fifo := by
    show (a.fifo.tick _ _ (a.pops t) _).SameWords (b.fifo.tick _ _ (b.pops t) _)
    rw [← hpops]
    apply h.fifo.tick
    intro hwrite
    obtain ⟨w, hw⟩ := Option.isSome_iff_exists.mp hwrite
    rw [hw, Option.getD_some, Option.getD_some]
  cases hwb : t.wb with
  | none =>
      have ha : (DmaWishbone.step a t).wb = a.wb := by simp [DmaWishbone.step, stepWb, hwb]
      have hb : (DmaWishbone.step b t).wb = b.wb := by simp [DmaWishbone.step, stepWb, hwb]
      obtain ⟨-, hq, hvalid, hstb, hcyc, hlines, hunacked⟩ := h
      refine ⟨hfifo, ?_, by rw [ha, hb, hvalid], by rw [ha, hb, hstb], by rw [ha, hb, hcyc],
        by rw [ha, hb]; exact hlines, by rw [ha, hb, hunacked]⟩
      rw [ha]
      simpa [DmaWishbone.step, pops_of_none hwb] using hq
  | some p =>
      have hstep : ∀ s : DmaWishbone α, (DmaWishbone.step s t).wb =
          s.wb.step (s.fifoRd p) s.fifo.empty s.fifo.q p.ack := fun s => by
        simp [DmaWishbone.step, stepWb, hwb]
      have hvalid' : (DmaWishbone.step a t).wb.fifoValid = (DmaWishbone.step b t).wb.fifoValid := by
        rw [fifoValid_step hwb, fifoValid_step hwb, hpops]
      have hlast := h.lastAck p.ack
      obtain ⟨hwords, hq, hvalid, hstb, hcyc, hlines, hunacked⟩ := h
      refine ⟨hfifo, ?_, hvalid', ?_, ?_, ?_, ?_⟩
      · intro hpopped
        rw [fifoValid_step hwb] at hpopped
        show (a.fifo.tick _ _ (a.pops t) _).q = (b.fifo.tick _ _ (b.pops t) _).q
        rw [← hpops]
        exact hwords.q_tick (.inr ⟨hpopped, ready_of_pops hpopped⟩) _ _ _ _
      · rw [hstep, hstep]
        exact hvalid
      · rw [hstep, hstep]
        simp only [DmaWbMaster.step, hvalid, hlast, hcyc]
      · rw [hstep, hstep]
        intro hstrobed
        have hpopped : a.wb.fifoValid = true := hstrobed
        simp [DmaWbMaster.step, ← hvalid, hpopped, hq hpopped]
      · have ha := DmaWbMaster.unacked_step (s := a.wb) (a.fifoRd p) a.fifo.empty a.fifo.q p.ack
        have hb := DmaWbMaster.unacked_step (s := b.wb) (b.fifoRd p) b.fifo.empty b.fifo.q p.ack
        rw [← hstep] at ha hb
        rw [← hunacked, ← hvalid, ← hcyc, ← ha] at hb
        exact ((BitVec.add_left_inj _).mp hb).symm

/-! ## A Wishbone side with nothing to do -/

variable {s : DmaWishbone α}

/-- No request is in the FIFO or on its way to the bus, and none is to be acknowledged. -/
structure Quiet (s : DmaWishbone α) : Prop where
  fifo : s.fifo.contents = []
  fifoValid : s.wb.fifoValid = false
  stb : s.wb.stb = false
  cyc : s.wb.cyc = false
  unacked : s.wb.unacked = 0

theorem reset_quiet (request q : α) : (reset request q).Quiet := by
  constructor <;> simp [reset, DmaWbMaster.reset, AsyncFifo.contents, DmaWbMaster.unacked]

theorem Quiet.ready (h : s.Quiet) : s.fifo.ready = [] := (List.append_eq_nil_iff.mp h.fifo).1

theorem Quiet.crossing (h : s.Quiet) : s.fifo.crossing = [] := (List.append_eq_nil_iff.mp h.fifo).2

/-- Without a request to come it stays so, whatever the slave does. -/
theorem Quiet.step (h : s.Quiet) (hwrite : t.write = none) : (DmaWishbone.step s t).Quiet := by
  have hpops : s.pops t = false := by
    by_contra hpops
    exact ready_of_pops (by simpa using hpops) h.ready
  have hfifo : (DmaWishbone.step s t).fifo.contents = [] := by
    have hflow := fifo_conserves (s := s) (t := t)
    unfold Conserves popped written at hflow
    rw [h.fifo, hpops, hwrite] at hflow
    simpa using hflow
  cases hwb : t.wb with
  | none =>
      have hsame : (DmaWishbone.step s t).wb = s.wb := by simp [DmaWishbone.step, stepWb, hwb]
      refine ⟨hfifo, ?_, ?_, ?_, ?_⟩ <;> rw [hsame]
      · exact h.fifoValid
      · exact h.stb
      · exact h.cyc
      · exact h.unacked
  | some p =>
      have hstep : (DmaWishbone.step s t).wb = s.wb.step (s.fifoRd p) s.fifo.empty s.fifo.q p.ack := by
        simp [DmaWishbone.step, stepWb, hwb]
      have hnext := DmaWbMaster.unacked_step (s := s.wb) (s.fifoRd p) s.fifo.empty s.fifo.q p.ack
      refine ⟨hfifo, ?_, ?_, ?_, ?_⟩
      · rw [fifoValid_step hwb, hpops]
      · rw [hstep]
        exact h.fifoValid
      · rw [hstep]
        simp [DmaWbMaster.step, h.fifoValid, h.cyc]
      · rw [hstep]
        simpa [h.cyc, h.fifoValid, h.unacked] using hnext

/-- It does the same as any other one with nothing to do. -/
theorem Quiet.alike {r : DmaWishbone α} (h : s.Quiet) (hr : r.Quiet) : s.Alike r where
  fifo := ⟨h.ready.trans hr.ready.symm, h.crossing.trans hr.crossing.symm⟩
  q := fun hvalid => absurd (h.fifoValid.symm.trans hvalid) (by decide)
  fifoValid := h.fifoValid.trans hr.fifoValid.symm
  stb := h.stb.trans hr.stb.symm
  cyc := h.cyc.trans hr.cyc.symm
  lines := fun hstb => absurd (h.stb.symm.trans hstb) (by decide)
  unacked := h.unacked.trans hr.unacked.symm

/-- A closed cycle has nothing to be acknowledged. -/
def Closed (s : DmaWishbone α) : Prop := s.wb.cyc = false → s.wb.unacked = 0

theorem Closed.step (h : s.Closed) : (DmaWishbone.step s t).Closed := by
  cases hwb : t.wb with
  | none =>
      have hsame : (DmaWishbone.step s t).wb = s.wb := by simp [DmaWishbone.step, stepWb, hwb]
      unfold Closed
      rw [hsame]
      exact h
  | some p =>
      have hstep : (DmaWishbone.step s t).wb = s.wb.step (s.fifoRd p) s.fifo.empty s.fifo.q p.ack := by
        simp [DmaWishbone.step, stepWb, hwb]
      have hnext := DmaWbMaster.unacked_step (s := s.wb) (s.fifoRd p) s.fifo.empty s.fifo.q p.ack
      intro hclosed
      rw [hstep] at hclosed ⊢
      simp only [DmaWbMaster.step] at hclosed
      cases hvalid : s.wb.fifoValid with
      | true => simp [hvalid] at hclosed
      | false =>
          cases hcyc : s.wb.cyc with
          | false =>
              have hnone := h hcyc
              simpa [hvalid, hcyc, hnone] using hnext
          | true =>
              -- the last acknowledge closes the cycle
              have hlast : s.wb.lastAck p.ack = true := by
                by_contra hnot
                simp [hvalid, hcyc, hnot] at hclosed
              obtain ⟨hone, hack⟩ := (DmaWbMaster.lastAck_iff p.ack).mp hlast
              rw [hvalid, hcyc, hack, hone] at hnext
              rw [hack]
              simpa using hnext

end DmaWishbone

end Gn4124Core
