import Gn4124Core.DmaWishbone.Requests

/-!
# The two DMA masters on one Wishbone bus

The Wishbone sides of the two masters with the multiplexer between them and the bus.  A master
pops a request only while the cycle of the other is closed, but its own cycle opens two edges
later, and meanwhile the other can pop one too.

So the two cycles are never open together if and only if no request that has just been popped
meets another one, or a cycle of the other master that stays open (`masters_exclusive_iff`).  Then
the multiplexer hides no strobe, and each acknowledge is counted by the master whose request it
answers.  `pending` has the masters of the requests that the slave has accepted and not yet
acknowledged, in order.
-/

namespace Gn4124Core

open Clocked

/-! ## One master -/

namespace DmaWbMaster

variable {α : Type*} {s : DmaWbMaster α}

/-- The requests strobed and not acknowledged, as the two counters have them. -/
def unacked (s : DmaWbMaster α) : BitVec 32 := s.wbRequestCnt - s.wbAckCnt

/-- The cycle of a master is open as long as the slave owes it acknowledges: `pending` of them for
requests that it has accepted, and one more for a strobe on the bus. -/
structure Owed (s : DmaWbMaster α) (pending : ℕ) : Prop where
  cyc : s.stb = true → s.cyc = true
  pending : pending + s.stb.toNat ≤ s.unacked.toNat
  closed : s.cyc = false → s.unacked = 0

theorem reset_owed (request : α) : (reset request).Owed 0 := by
  constructor <;> simp [reset, unacked]

theorem Owed.cyc_of_pos {n : ℕ} (h : s.Owed n) (hpos : 0 < n) : s.cyc = true := by
  by_contra hcyc
  have hnone := h.closed (by simpa using hcyc)
  have hle := h.pending
  rw [hnone] at hle
  simp at hle
  omega

/-- The counters follow what is strobed and what is acknowledged. -/
theorem unacked_step (fifoRd fifoEmpty : Bool) (fifoDout : α) (ack : Bool) :
    (s.step fifoRd fifoEmpty fifoDout ack).unacked + (if ack && s.cyc then 1#32 else 0#32) =
      s.unacked + if s.fifoValid then 1#32 else 0#32 := by
  unfold unacked step
  cases s.fifoValid <;> cases ack <;> cases s.cyc <;> simp <;> bv_omega

/-- The last acknowledge is received when one request is left to acknowledge. -/
theorem lastAck_iff (ack : Bool) : s.lastAck ack = true ↔ s.unacked = 1 ∧ ack = true := by
  unfold lastAck unacked
  rw [Bool.and_eq_true, decide_eq_true_eq]
  refine and_congr_left fun _ => ⟨fun h => ?_, fun h => ?_⟩
  · rw [h]
    bv_omega
  · bv_omega

theorem Owed.step {n n' accepted : ℕ} {ack : Bool} (h : s.Owed n) (fifoRd fifoEmpty : Bool)
    (fifoDout : α) (haccepted : accepted ≤ s.stb.toNat)
    (hpending : n' + (ack && s.cyc).toNat = n + accepted) (hroom : s.unacked ≠ BitVec.allOnes 32) :
    (s.step fifoRd fifoEmpty fifoDout ack).Owed n' := by
  obtain ⟨hcyc, hunacked, hclosed⟩ := h
  have hnext := unacked_step (s := s) fifoRd fifoEmpty fifoDout ack
  have hstb : (s.step fifoRd fifoEmpty fifoDout ack).stb = s.fifoValid := rfl
  have hcycle : (s.step fifoRd fifoEmpty fifoDout ack).cyc =
      if s.fifoValid then true else if s.lastAck ack then false else s.cyc := rfl
  have hle : n + accepted ≤ s.unacked.toNat := by omega
  have hroom' : s.unacked.toNat + 1 < 2 ^ 32 := by
    have hne : s.unacked.toNat ≠ (BitVec.allOnes 32).toNat := fun heq => hroom (BitVec.eq_of_toNat_eq heq)
    have hlt := s.unacked.isLt
    simp at hne hlt ⊢
    omega
  refine ⟨fun hvalid => ?_, ?_, fun hnone => ?_⟩
  · rw [hcycle, ← hstb, hvalid, if_pos rfl]
  · rw [hstb]
    cases hvalid : s.fifoValid <;> cases hack : ack && s.cyc <;> rw [hvalid, hack] at hnext <;>
      rw [hack] at hpending <;> simp at hpending hnext ⊢
    · rw [hnext]
      omega
    · bv_omega
    · rw [hnext, BitVec.toNat_add_of_lt (by simpa using hroom')]
      simp
      omega
    · rw [hnext]
      omega
  · rw [hcycle] at hnone
    cases hvalid : s.fifoValid with
    | true => simp [hvalid] at hnone
    | false =>
        rw [hvalid] at hnext
        simp only [hvalid, Bool.false_eq_true, if_false] at hnone hnext
        split_ifs at hnone with hlast
        · -- the last acknowledge closes a cycle with one request to acknowledge
          obtain ⟨hone, hack⟩ := (lastAck_iff ack).mp hlast
          cases hopen : s.cyc with
          | false =>
              have hzero := hclosed hopen
              rw [hone] at hzero
              exact absurd hzero (by decide)
          | true =>
              rw [hopen, hack, hone] at hnext
              rw [hack]
              simpa using hnext
        · rw [hnone, Bool.and_false] at hnext
          simpa [hclosed hnone] using hnext

/-- A cycle stays open behind a request that was just popped, and else up to the last
acknowledge. -/
theorem cyc_step_iff (fifoRd fifoEmpty : Bool) (fifoDout : α) (ack : Bool) :
    (s.step fifoRd fifoEmpty fifoDout ack).cyc = true ↔
      s.fifoValid = true ∨ s.cyc = true ∧ s.lastAck ack = false := by
  unfold step
  cases s.fifoValid <;> cases s.lastAck ack <;> simp

end DmaWbMaster

/-! ## Both masters and the multiplexer -/

/-- The two masters of the DMA Wishbone bus. -/
inductive DmaMaster where
  | l2p
  | p2l
deriving DecidableEq

/-- What is sampled at an edge of the clock of the bus. -/
structure DmaBusPorts where
  dmaAck : Bool
  dmaStall : Bool
  dataFifoFull : Bool
deriving DecidableEq

/-- An edge of the clock of the bus, of `clk_i` with the words written into the two FIFOs, or of
both. -/
structure DmaBusTick where
  wb : Option DmaBusPorts
  addrFifoWrite : Option Word
  addrFifoArrive : ℕ
  toWbFifoWrite : Option ToWbWord
  toWbFifoArrive : ℕ
deriving DecidableEq

/-- The lines of the DMA Wishbone bus. -/
structure DmaBusLines where
  dmaAdr : Word
  dmaDat : Word
  dmaSel : BitVec 4
  dmaCyc : Bool
  dmaStb : Bool
  dmaWe : Bool
deriving DecidableEq

structure DmaBus where
  l2p : L2pDmaWishbone
  p2l : P2lDmaWishbone
  pending : List DmaMaster
deriving DecidableEq

namespace DmaBus

variable (s : DmaBus) (t : DmaBusTick)

/-- What the L2P DMA master samples: it sees the cycle of the other one. -/
def l2pTick : DmaWbTick DmaWbPorts Word where
  wb := t.wb.map fun p => (L2pDmaWbPorts.mk p.dmaAck p.dmaStall p.dataFifoFull s.p2l.wb.cyc).ports
  write := t.addrFifoWrite
  arrive := t.addrFifoArrive

def p2lTick : DmaWbTick DmaWbPorts ToWbWord where
  wb := t.wb.map fun p => (P2lDmaWbPorts.mk p.dmaAck p.dmaStall s.l2p.wb.cyc).ports
  write := t.toWbFifoWrite
  arrive := t.toWbFifoArrive

/-- The lines of the L2P DMA master. -/
def l2pLines : DmaBusLines := ⟨s.l2p.adr, 0, s.l2p.wb.sel, s.l2p.wb.cyc, s.l2p.wb.stb, false⟩

/-- The lines of the P2L DMA master. -/
def p2lLines : DmaBusLines := ⟨s.p2l.adr, s.p2l.dat, s.p2l.wb.sel, s.p2l.wb.cyc, s.p2l.wb.stb, true⟩

/-- `p_dma_wb_mux`. -/
def pDmaWbMux : DmaBusLines :=
  if s.l2p.wb.cyc then s.l2pLines
  else if s.p2l.wb.cyc then s.p2lLines
  else ⟨0, 0, 0, false, false, false⟩

/-- The master of the lines on the bus. -/
def onBus : DmaMaster := if s.l2p.wb.cyc then .l2p else .p2l

/-- The masters of the requests that the slave has to acknowledge, the one that it accepts at this
edge included. -/
def unanswered (p : DmaBusPorts) : List DmaMaster :=
  s.pending ++ if s.pDmaWbMux.dmaCyc && s.pDmaWbMux.dmaStb && !p.dmaStall then [s.onBus] else []

def step : DmaBus where
  l2p := DmaWishbone.step s.l2p (s.l2pTick t)
  p2l := DmaWishbone.step s.p2l (s.p2lTick t)
  pending :=
    match t.wb with
    | some p => if p.dmaAck then (s.unanswered p).tail else s.unanswered p
    | none => s.pending

def reset (addrFifoDout : Word) (toWbFifoDout : ToWbWord) : DmaBus :=
  ⟨.reset addrFifoDout, .reset toWbFifoDout, []⟩

def cyc : DmaMaster → Bool
  | .l2p => s.l2p.wb.cyc
  | .p2l => s.p2l.wb.cyc

/-- The masters do not own the bus together. -/
def Exclusive : Prop := ¬ (s.l2p.wb.cyc = true ∧ s.p2l.wb.cyc = true)

/-- A request that has just been popped meets neither another one nor a cycle of the other master
that stays open. -/
def NoCollision : Prop :=
  ∀ p ∈ t.wb, ¬ (s.l2p.wb.fifoValid = true ∧ s.p2l.wb.fifoValid = true) ∧
    (s.l2p.wb.fifoValid = true → s.p2l.wb.cyc = true → s.p2l.wb.lastAck p.dmaAck = true) ∧
    (s.p2l.wb.fifoValid = true → s.l2p.wb.cyc = true → s.l2p.wb.lastAck p.dmaAck = true)

/-- The slave acknowledges only what it has accepted, and the counters do not overrun. -/
def Served : Prop :=
  (∀ p ∈ t.wb, p.dmaAck = true → s.unanswered p ≠ []) ∧
    s.l2p.wb.unacked ≠ BitVec.allOnes 32 ∧ s.p2l.wb.unacked ≠ BitVec.allOnes 32

/-- The multiplexer forwards the strobe of either master, and an acknowledge is counted by the
master of the request that it answers and by no other. -/
def Forwards : Prop :=
  (s.l2p.wb.stb = true → s.pDmaWbMux = s.l2pLines) ∧
    (s.p2l.wb.stb = true → s.pDmaWbMux = s.p2lLines) ∧
    ∀ p ∈ t.wb, p.dmaAck = true → ∀ k ∈ (s.unanswered p).head?, ∀ m, s.cyc m = true ↔ m = k

instance : Decidable s.Exclusive := inferInstanceAs (Decidable (¬ _))

instance : Decidable (s.NoCollision t) :=
  match h : t.wb with
  | none => .isTrue (by simp [NoCollision, h])
  | some p => decidable_of_iff
      (¬ (s.l2p.wb.fifoValid = true ∧ s.p2l.wb.fifoValid = true) ∧
        (s.l2p.wb.fifoValid = true → s.p2l.wb.cyc = true → s.p2l.wb.lastAck p.dmaAck = true) ∧
        (s.p2l.wb.fifoValid = true → s.l2p.wb.cyc = true → s.l2p.wb.lastAck p.dmaAck = true))
      (by simp [NoCollision, h])

instance : Decidable (s.Served t) :=
  match h : t.wb with
  | none => decidable_of_iff
      (s.l2p.wb.unacked ≠ BitVec.allOnes 32 ∧ s.p2l.wb.unacked ≠ BitVec.allOnes 32)
      (by simp [Served, h])
  | some p => decidable_of_iff
      ((p.dmaAck = true → s.unanswered p ≠ []) ∧ s.l2p.wb.unacked ≠ BitVec.allOnes 32 ∧
        s.p2l.wb.unacked ≠ BitVec.allOnes 32)
      (by simp [Served, h])

variable {s t}

/-! ## One edge -/

theorem cyc_step_none (h : t.wb = none) :
    (s.step t).l2p.wb = s.l2p.wb ∧ (s.step t).p2l.wb = s.p2l.wb := by
  simp [step, DmaWishbone.step, DmaWishbone.stepWb, l2pTick, p2lTick, h]

theorem wb_step {p : DmaBusPorts} (h : t.wb = some p) :
    (∃ rd, (s.step t).l2p.wb = s.l2p.wb.step rd s.l2p.fifo.empty s.l2p.fifo.q p.dmaAck) ∧
      ∃ rd, (s.step t).p2l.wb = s.p2l.wb.step rd s.p2l.fifo.empty s.p2l.fifo.q p.dmaAck := by
  constructor
  · refine ⟨s.l2p.fifoRd (L2pDmaWbPorts.mk p.dmaAck p.dmaStall p.dataFifoFull s.p2l.wb.cyc).ports, ?_⟩
    simp [step, DmaWishbone.step, DmaWishbone.stepWb, l2pTick, h, L2pDmaWbPorts.ports]
  · refine ⟨s.p2l.fifoRd (P2lDmaWbPorts.mk p.dmaAck p.dmaStall s.l2p.wb.cyc).ports, ?_⟩
    simp [step, DmaWishbone.step, DmaWishbone.stepWb, p2lTick, h, P2lDmaWbPorts.ports]

/-- Exactly the edges without a collision keep the masters apart. -/
theorem Exclusive.step_iff (h : s.Exclusive) : (s.step t).Exclusive ↔ s.NoCollision t := by
  unfold Exclusive at h ⊢
  cases hwb : t.wb with
  | none =>
      obtain ⟨hl2p, hp2l⟩ := cyc_step_none (s := s) hwb
      rw [hl2p, hp2l]
      simpa [NoCollision, hwb] using h
  | some p =>
      obtain ⟨⟨rdL, hl2p⟩, ⟨rdP, hp2l⟩⟩ := wb_step (s := s) hwb
      rw [hl2p, hp2l, DmaWbMaster.cyc_step_iff, DmaWbMaster.cyc_step_iff]
      -- both cycle lines after the edge follow from the flags of the two masters
      simp only [NoCollision, hwb, Option.mem_def, Option.some.injEq, forall_eq']
      cases s.l2p.wb.fifoValid <;> cases s.p2l.wb.fifoValid <;> cases hl : s.l2p.wb.cyc <;>
        cases hp : s.p2l.wb.cyc <;> cases s.l2p.wb.lastAck p.dmaAck <;>
        cases s.p2l.wb.lastAck p.dmaAck <;> simp_all

/-- What holds in a run without a collision: the slave owes the acknowledges of the pending
requests to their masters. -/
structure Shared (s : DmaBus) : Prop where
  exclusive : s.Exclusive
  l2p : s.l2p.wb.Owed (s.pending.count .l2p)
  p2l : s.p2l.wb.Owed (s.pending.count .p2l)

theorem reset_shared (addrFifoDout : Word) (toWbFifoDout : ToWbWord) :
    (reset addrFifoDout toWbFifoDout).Shared :=
  ⟨fun h => absurd h.1 (by simp [reset, L2pDmaWishbone.reset, DmaWishbone.reset, DmaWbMaster.reset]),
    DmaWbMaster.reset_owed _, DmaWbMaster.reset_owed _⟩

variable {p : DmaBusPorts} {k m : DmaMaster}

/-- The request that the slave accepts is the strobe of its master. -/
theorem count_l2p_unanswered : ∃ accepted ≤ s.l2p.wb.stb.toNat,
    (s.unanswered p).count .l2p = s.pending.count .l2p + accepted := by
  unfold unanswered pDmaWbMux onBus
  cases hcyc : s.l2p.wb.cyc with
  | false =>
      refine ⟨0, Nat.zero_le _, ?_⟩
      simp only [List.count_append, Bool.false_eq_true, if_false, Nat.add_left_cancel_iff]
      split_ifs <;> simp
  | true =>
      cases hstb : s.l2p.wb.stb with
      | false => exact ⟨0, le_rfl, by simp [l2pLines, hcyc, hstb]⟩
      | true =>
          cases hstall : p.dmaStall with
          | true => exact ⟨0, by simp, by simp⟩
          | false => exact ⟨1, le_rfl, by simp [l2pLines, hcyc, hstb]⟩

theorem count_p2l_unanswered : ∃ accepted ≤ s.p2l.wb.stb.toNat,
    (s.unanswered p).count .p2l = s.pending.count .p2l + accepted := by
  unfold unanswered pDmaWbMux onBus
  cases hcyc : s.l2p.wb.cyc with
  | true =>
      -- the multiplexer hides the strobe behind the lines of the other master
      refine ⟨0, Nat.zero_le _, ?_⟩
      simp only [List.count_append, if_true, Nat.add_left_cancel_iff]
      split_ifs <;> simp
  | false =>
      cases hcycP : s.p2l.wb.cyc with
      | false => exact ⟨0, Nat.zero_le _, by simp⟩
      | true =>
          cases hstb : s.p2l.wb.stb with
          | false => exact ⟨0, le_rfl, by simp [p2lLines, hcycP, hstb]⟩
          | true =>
              cases hstall : p.dmaStall with
              | true => exact ⟨0, by simp, by simp⟩
              | false => exact ⟨1, le_rfl, by simp [p2lLines, hcycP, hstb]⟩

/-- Only the master that owns the bus waits for acknowledges. -/
theorem Shared.cyc_iff (h : s.Shared) (hk : k ∈ s.unanswered p) : s.cyc m = true ↔ m = k := by
  have hopen : s.cyc k = true := by
    have hpos : 0 < (s.unanswered p).count k := List.count_pos_iff.mpr hk
    cases k with
    | l2p =>
        obtain ⟨accepted, hle, hcount⟩ := count_l2p_unanswered (s := s) (p := p)
        rcases Nat.eq_zero_or_pos (s.pending.count .l2p) with hnone | hsome
        · apply h.l2p.cyc
          cases hstb : s.l2p.wb.stb with
          | true => rfl
          | false => simp [hstb] at hle; omega
        · exact h.l2p.cyc_of_pos hsome
    | p2l =>
        obtain ⟨accepted, hle, hcount⟩ := count_p2l_unanswered (s := s) (p := p)
        rcases Nat.eq_zero_or_pos (s.pending.count .p2l) with hnone | hsome
        · apply h.p2l.cyc
          cases hstb : s.p2l.wb.stb with
          | true => rfl
          | false => simp [hstb] at hle; omega
        · exact h.p2l.cyc_of_pos hsome
  -- and the other cycle is closed
  constructor
  · intro hm
    cases k <;> cases m
    · rfl
    · exact absurd ⟨hopen, hm⟩ h.exclusive
    · exact absurd ⟨hm, hopen⟩ h.exclusive
    · rfl
  · rintro rfl
    exact hopen

/-- An acknowledge goes to the master that owns the bus. -/
theorem Shared.count_step (h : s.Shared) (hwb : t.wb = some p) (hserved : s.Served t) (m : DmaMaster) :
    (s.step t).pending.count m + (p.dmaAck && s.cyc m).toNat = (s.unanswered p).count m := by
  have hpending : (s.step t).pending =
      if p.dmaAck then (s.unanswered p).tail else s.unanswered p := by
    simp only [step, hwb]
  rw [hpending]
  cases hack : p.dmaAck with
  | false => simp
  | true =>
      obtain ⟨k, rest, hcons⟩ := List.exists_cons_of_ne_nil (hserved.1 p hwb hack)
      have hiff := h.cyc_iff (p := p) (m := m) (k := k) (by simp [hcons])
      rw [hcons, if_pos rfl, List.tail_cons, Bool.true_and, List.count_cons]
      by_cases hm : m = k
      · simp [hm, hm ▸ hiff.mpr hm]
      · have hclosed : s.cyc m = false := by simpa using mt hiff.mp hm
        simp [hclosed, Ne.symm hm]

theorem Shared.step (h : s.Shared) (hno : s.NoCollision t) (hserved : s.Served t) :
    (DmaBus.step s t).Shared := by
  refine ⟨h.exclusive.step_iff.mpr hno, ?_, ?_⟩
  · cases hwb : t.wb with
    | none =>
        rw [(cyc_step_none hwb).1, show (DmaBus.step s t).pending = s.pending by simp [DmaBus.step, hwb]]
        exact h.l2p
    | some p =>
        obtain ⟨accepted, hle, hcount⟩ := count_l2p_unanswered (s := s) (p := p)
        obtain ⟨⟨rd, hstep⟩, -⟩ := wb_step (s := s) hwb
        rw [hstep]
        exact h.l2p.step rd _ _ hle ((h.count_step hwb hserved .l2p).trans hcount) hserved.2.1
  · cases hwb : t.wb with
    | none =>
        rw [(cyc_step_none hwb).2, show (DmaBus.step s t).pending = s.pending by simp [DmaBus.step, hwb]]
        exact h.p2l
    | some p =>
        obtain ⟨accepted, hle, hcount⟩ := count_p2l_unanswered (s := s) (p := p)
        obtain ⟨-, rd, hstep⟩ := wb_step (s := s) hwb
        rw [hstep]
        exact h.p2l.step rd _ _ hle ((h.count_step hwb hserved .p2l).trans hcount) hserved.2.2

/-- While the masters do not own the bus together, nothing is hidden and nothing miscounted. -/
theorem Shared.forwards (h : s.Shared) : s.Forwards t := by
  refine ⟨fun hstb => ?_, fun hstb => ?_, fun p _ _ k hk m => ?_⟩
  · rw [pDmaWbMux, if_pos (h.l2p.cyc hstb)]
  · have hcyc := h.p2l.cyc hstb
    have hother : s.l2p.wb.cyc = false := by
      by_contra hopen
      exact h.exclusive ⟨by simpa using hopen, hcyc⟩
    rw [pDmaWbMux, hother, hcyc]
    rfl
  · exact h.cyc_iff (List.mem_of_mem_head? hk)

/-! ## Runs -/

/-- **Exclusion.**  In every run from reset, under any contents of the FIFOs and any stalls and
acknowledges, the two masters never own the bus together if and only if no edge of the run has a
collision.  In a run without a collision, with a slave that acknowledges what it has accepted, the
multiplexer forwards every strobe and each acknowledge is counted by the master whose request it
answers. -/
theorem masters_exclusive_iff (addrFifoDout : Word) (toWbFifoDout : ToWbWord)
    (is : List DmaBusTick) :
    (Always step (fun s t => (s.step t).Exclusive) (reset addrFifoDout toWbFifoDout) is ↔
      Always step NoCollision (reset addrFifoDout toWbFifoDout) is) ∧
    (Always step (fun s t => s.NoCollision t ∧ s.Served t) (reset addrFifoDout toWbFifoDout) is →
      Always step (fun s t => s.Forwards t) (reset addrFifoDout toWbFifoDout) is) := by
  have hshared := reset_shared addrFifoDout toWbFifoDout
  refine ⟨always_after_iff (fun s t h => h.step_iff) hshared.exclusive, fun legal => ?_⟩
  have hkeeps := Always.of_invariant (fun s t h hlegal => Shared.step h hlegal.1 hlegal.2) legal hshared
  exact hkeeps.mono fun s t h => h.1.forwards

/-- An edge of the bus clock. -/
def busEdge (ack : Bool) : DmaBusTick := ⟨some ⟨ack, false, false⟩, none, 0, none, 0⟩

/-- A request in each FIFO, and no cycle open. -/
def bothTicks : List DmaBusTick :=
  [⟨none, some 0x10, 1, some ⟨0x20, 0xaa⟩, 1⟩, busEdge false, busEdge false]

/-- Both masters pop their request at the same edge.  Their cycles open together, the
multiplexer hides the write, and the acknowledge of the read is counted by both masters. -/
theorem masters_together :
    let s := run step (reset 0 ⟨0, 0⟩) bothTicks
    ¬ s.Exclusive ∧ s.p2l.wb.stb = true ∧ s.pDmaWbMux = s.l2pLines ∧ s.pDmaWbMux ≠ s.p2lLines ∧
      (s.step (busEdge true)).l2p.wb.wbAckCnt = 1 ∧ (s.step (busEdge true)).p2l.wb.wbAckCnt = 1 := by
  decide +kernel

/-- The same requests, the read one cycle after the write is acknowledged. -/
def oneByOneTicks : List DmaBusTick :=
  [⟨none, none, 0, some ⟨0x20, 0xaa⟩, 1⟩, busEdge false, busEdge false,
    { busEdge true with addrFifoWrite := some 0x10, addrFifoArrive := 1 }, busEdge false,
    busEdge false, busEdge false, busEdge true]

theorem masters_one_by_one :
    Always step (fun s t => s.Forwards t) (reset 0 ⟨0, 0⟩) oneByOneTicks ∧
      (run step (reset 0 ⟨0, 0⟩) oneByOneTicks).l2p.wb.wbAckCnt = 1 ∧
      (run step (reset 0 ⟨0, 0⟩) oneByOneTicks).p2l.wb.wbAckCnt = 1 :=
  ⟨(masters_exclusive_iff 0 ⟨0, 0⟩ oneByOneTicks).2 (by decide +kernel), by decide +kernel,
    by decide +kernel⟩

end DmaBus

end Gn4124Core
