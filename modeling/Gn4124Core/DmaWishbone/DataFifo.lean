import Gn4124Core.DmaWishbone.Exclusion

/-!
# Room for the words read

The Wishbone side of the L2P DMA master with its data FIFO of 512 words, and a slave that never
stalls and acknowledges every strobe after any number of cycles.  The master stops to pop addresses
when the data FIFO holds 500 words, and does not look at the reads that are in flight then.

A read is in flight from the pop of its address to its acknowledge.  The words in the FIFO and the
reads in flight together are the `load`, which only a pop makes larger (`load_step`).  As long as no
pop takes it over 512 the FIFO has room for every word; and behind a pop that does, the slave only
has to answer before the FIFO is drained (`no_word_dropped_iff`).
-/

namespace Gn4124Core

open Clocked

/-- `g_size` of `cmp_data_fifo`. -/
def cDataFifoSize : ℕ := 512

/-- `c_DATA_FIFO_FULL_THRES`. -/
def cDataFifoFullThres : ℕ := 500

/-- What the L2P DMA master samples from a slave that does not stall. -/
structure L2pReadPorts where
  l2pDmaAck : Bool
  l2pDmaDat : Word
  p2lDmaCyc : Bool
deriving DecidableEq

/-- An edge of the clock of the bus, of `clk_i` with an address written into the address FIFO and
with a read of the data FIFO, or of both. -/
structure L2pReadTick where
  wb : Option L2pReadPorts
  addrFifoWrite : Option Word
  addrFifoArrive : ℕ
  dataFifoRd : Bool
  dataFifoArrive : ℕ
deriving DecidableEq

/-- The Wishbone side, the data FIFO, and how many acknowledges the slave owes for strobes of
earlier cycles. -/
structure L2pReads where
  bus : L2pDmaWishbone
  dataFifo : AsyncFifo Word
  outstanding : ℕ
deriving DecidableEq

namespace L2pReads

variable (s : L2pReads) (t : L2pReadTick)

/-- The almost-full flag of the data FIFO. -/
def dataFifoFull : Bool := decide (cDataFifoFullThres ≤ s.dataFifo.contents.length)

def busTick : DmaWbTick DmaWbPorts Word where
  wb := t.wb.map fun p => (L2pDmaWbPorts.mk p.l2pDmaAck false s.dataFifoFull p.p2lDmaCyc).ports
  write := t.addrFifoWrite
  arrive := t.addrFifoArrive

def acks : Bool :=
  match t.wb with
  | some p => p.l2pDmaAck
  | none => false

/-- `data_fifo_wr`. -/
def dataFifoWr : Bool := acks t && s.bus.wb.cyc

/-- `data_fifo_din`. -/
def dataFifoDin : Word :=
  match t.wb with
  | some p => p.l2pDmaDat
  | none => 0

/-- A word leaves the data FIFO. -/
def drains : Bool := t.dataFifoRd && !s.dataFifo.empty

/-- An address is popped. -/
def pops : Bool := s.bus.pops (s.busTick t)

def step : L2pReads where
  bus := DmaWishbone.step s.bus (s.busTick t)
  dataFifo := s.dataFifo.tick (s.dataFifoWr t) (dataFifoDin t) (s.drains t) t.dataFifoArrive
  outstanding :=
    if t.wb.isSome then s.outstanding + s.bus.wb.stb.toNat - (acks t).toNat else s.outstanding

def reset (addrFifoDout dataFifoDout : Word) : L2pReads :=
  ⟨.reset addrFifoDout, ⟨[], [], dataFifoDout⟩, 0⟩

/-- The acknowledges that the slave owes. -/
def owed : ℕ := s.outstanding + s.bus.wb.stb.toNat

/-- The reads in flight: addresses popped and not acknowledged. -/
def inFlight : ℕ := s.owed + s.bus.wb.fifoValid.toNat

/-- The words in the data FIFO and the reads in flight. -/
def load : ℕ := s.dataFifo.contents.length + s.inFlight

/-- The slave acknowledges a strobe once, in the same cycle at the earliest. -/
def Legal : Prop := acks t = true → 0 < s.owed

/-- A pop leaves room in the data FIFO for the words of all reads in flight. -/
def HasRoom : Prop := s.pops t = true → s.load < cDataFifoSize + (s.drains t).toNat

/-- No word is written into a full data FIFO. -/
def NoOverflow : Prop := s.dataFifoWr t = true → s.dataFifo.contents.length < cDataFifoSize

/-- The slave acknowledges what it has been asked for, and nothing more is asked. -/
def Answers : Prop := s.Legal t ∧ s.pops t = false

instance : Decidable (s.Legal t) := inferInstanceAs (Decidable (_ → _))

instance : Decidable (s.HasRoom t) := inferInstanceAs (Decidable (_ → _))

instance : Decidable (s.NoOverflow t) := inferInstanceAs (Decidable (_ → _))

instance : Decidable (s.Answers t) := inferInstanceAs (Decidable (_ ∧ _))

variable {s t}

/-! ## One edge -/

theorem acks_of_none (h : t.wb = none) : acks t = false := by simp [acks, h]

theorem pops_of_none (h : t.wb = none) : s.pops t = false := by
  simp [pops, DmaWishbone.pops, busTick, h]

/-- The requests strobed and acknowledged, at one edge. -/
theorem owed_step (hlegal : s.Legal t) :
    (s.step t).owed + (acks t).toNat =
      if t.wb.isSome then s.owed + s.bus.wb.fifoValid.toNat else s.owed := by
  unfold Legal at hlegal
  cases hwb : t.wb with
  | none => simp [owed, step, DmaWishbone.step, DmaWishbone.stepWb, busTick, hwb, acks_of_none hwb]
  | some p =>
      have hstb : (s.step t).bus.wb.stb = s.bus.wb.fifoValid := by
        simp [step, DmaWishbone.step, DmaWishbone.stepWb, busTick, hwb, DmaWbMaster.step]
      have hout : (s.step t).outstanding = s.outstanding + s.bus.wb.stb.toNat - (acks t).toNat := by
        simp [step, hwb]
      unfold owed at hlegal ⊢
      rw [hstb, hout]
      cases hack : acks t with
      | false => simp
      | true =>
          have hpos := hlegal hack
          simp
          omega

theorem length_step : (s.drains t).toNat + (s.step t).dataFifo.contents.length =
    s.dataFifo.contents.length + (s.dataFifoWr t).toNat := by
  have hready : s.drains t = true → s.dataFifo.ready ≠ [] := by
    intro hdrains
    apply AsyncFifo.ready_ne_nil
    simp only [drains, Bool.and_eq_true, Bool.not_eq_true'] at hdrains
    exact hdrains.2
  have htick := congrArg List.length (AsyncFifo.contents_tick hready (s.dataFifoWr t)
    (dataFifoDin t) t.dataFifoArrive)
  rw [List.length_append, List.length_append] at htick
  have hdrained : (if s.drains t then [((s.step t).dataFifo).q] else []).length =
      (s.drains t).toNat := by cases s.drains t <;> rfl
  have hwritten : (if s.dataFifoWr t then [dataFifoDin t] else []).length =
      (s.dataFifoWr t).toNat := by cases s.dataFifoWr t <;> rfl
  rw [hwritten] at htick
  rw [← hdrained]
  exact htick

theorem fifoValid_step : (s.step t).bus.wb.fifoValid =
    if t.wb.isSome then s.pops t else s.bus.wb.fifoValid := by
  cases hwb : t.wb with
  | none => simp [step, DmaWishbone.step, DmaWishbone.stepWb, busTick, hwb]
  | some p =>
      have hbus : (s.busTick t).wb = some (L2pDmaWbPorts.mk p.l2pDmaAck false s.dataFifoFull
          p.p2lDmaCyc).ports := by simp [busTick, hwb]
      exact DmaWishbone.fifoValid_step hbus

/-- Only a pop makes the load larger. -/
theorem load_step (hlegal : s.Legal t) :
    (s.step t).load + (s.drains t).toNat + (acks t).toNat =
      s.load + (s.pops t).toNat + (s.dataFifoWr t).toNat := by
  have howed := owed_step hlegal
  have hlen := length_step (s := s) (t := t)
  unfold load inFlight
  rw [fifoValid_step]
  cases hwb : t.wb with
  | none =>
      rw [hwb] at howed
      simp [pops_of_none hwb] at howed ⊢
      omega
  | some p =>
      rw [hwb] at howed
      simp at howed ⊢
      omega

/-- An address is popped only while the data FIFO is not almost full. -/
theorem length_of_pops (h : s.pops t = true) :
    s.dataFifo.contents.length < cDataFifoFullThres := by
  cases hwb : t.wb with
  | none => rw [pops_of_none hwb] at h; exact absurd h (by decide)
  | some p =>
      simp [pops, DmaWishbone.pops, DmaWishbone.fifoRd, busTick, hwb, L2pDmaWbPorts.ports,
        dataFifoFull] at h
      exact h.2.1

/-- The counters of the master have exactly the acknowledges that the slave owes, and the cycle is
open as long as it owes one. -/
structure Exact (s : L2pReads) : Prop where
  unacked : s.bus.wb.unacked.toNat = s.owed
  cyc : s.bus.wb.cyc = decide (0 < s.owed)

theorem reset_exact (addrFifoDout dataFifoDout : Word) : (reset addrFifoDout dataFifoDout).Exact := by
  constructor <;>
    simp [reset, L2pDmaWishbone.reset, DmaWishbone.reset, DmaWbMaster.reset, DmaWbMaster.unacked, owed]

theorem Exact.wr_iff (h : s.Exact) (hlegal : s.Legal t) : s.dataFifoWr t = acks t := by
  unfold dataFifoWr
  cases hack : acks t with
  | false => rfl
  | true => simp [h.cyc, hlegal hack]

theorem Exact.step (h : s.Exact) (hlegal : s.Legal t) (hroom : s.owed + 1 < 2 ^ 32) :
    (L2pReads.step s t).Exact := by
  obtain ⟨hunacked, hcyc⟩ := h
  have howed := owed_step hlegal
  cases hwb : t.wb with
  | none =>
      have hsame : (L2pReads.step s t).bus.wb = s.bus.wb := by
        simp [L2pReads.step, DmaWishbone.step, DmaWishbone.stepWb, busTick, hwb]
      rw [hwb, acks_of_none hwb] at howed
      simp at howed
      exact ⟨by rw [hsame, howed, hunacked], by rw [hsame, howed, hcyc]⟩
  | some p =>
      have hack : acks t = p.l2pDmaAck := by simp [acks, hwb]
      obtain ⟨rd, hstep⟩ : ∃ rd, (L2pReads.step s t).bus.wb =
          s.bus.wb.step rd s.bus.fifo.empty s.bus.fifo.q p.l2pDmaAck := by
        refine ⟨s.bus.fifoRd (L2pDmaWbPorts.mk p.l2pDmaAck false s.dataFifoFull p.p2lDmaCyc).ports, ?_⟩
        simp [L2pReads.step, DmaWishbone.step, DmaWishbone.stepWb, busTick, hwb, L2pDmaWbPorts.ports]
      have hnext := DmaWbMaster.unacked_step (s := s.bus.wb) rd s.bus.fifo.empty s.bus.fifo.q
        p.l2pDmaAck
      have hopen := DmaWbMaster.cyc_step_iff (s := s.bus.wb) rd s.bus.fifo.empty s.bus.fifo.q
        p.l2pDmaAck
      rw [← hstep] at hnext hopen
      rw [hwb, hack] at howed
      simp only [Option.isSome_some, if_true] at howed
      have hcounts : (p.l2pDmaAck && s.bus.wb.cyc) = p.l2pDmaAck := by
        cases hp : p.l2pDmaAck with
        | false => rfl
        | true => simp [hcyc, hlegal (hack.trans hp)]
      rw [hcounts] at hnext
      -- a strobe and an acknowledge may come at the same edge
      constructor
      · have hlt := s.bus.wb.unacked.isLt
        cases hp : p.l2pDmaAck <;> cases hv : s.bus.wb.fifoValid <;> rw [hp, hv] at howed hnext <;>
          simp at howed hnext <;> bv_omega
      · have hlast : s.bus.wb.lastAck p.l2pDmaAck = true ↔ s.owed = 1 ∧ p.l2pDmaAck = true := by
          rw [DmaWbMaster.lastAck_iff, ← hunacked]
          refine and_congr_left fun _ => ⟨fun h => by rw [h]; rfl, fun h => ?_⟩
          exact BitVec.eq_of_toNat_eq h
        rw [Bool.eq_iff_iff, hopen, decide_eq_true_iff, hcyc, decide_eq_true_iff,
          ← Bool.not_eq_true, hlast]
        cases hp : p.l2pDmaAck <;> cases hv : s.bus.wb.fifoValid <;> rw [hp, hv] at howed <;>
          simp at howed ⊢ <;> grind

/-- There is room for all that is in flight. -/
structure Sound (s : L2pReads) : Prop where
  exact : s.Exact
  load : s.load ≤ cDataFifoSize

theorem owed_le_load : s.dataFifo.contents.length + s.owed ≤ s.load := by
  unfold load inFlight
  omega

theorem reset_sound (addrFifoDout dataFifoDout : Word) : (reset addrFifoDout dataFifoDout).Sound := by
  refine ⟨reset_exact addrFifoDout dataFifoDout, ?_⟩
  simp [reset, load, inFlight, owed, L2pDmaWishbone.reset, DmaWishbone.reset, DmaWbMaster.reset,
    AsyncFifo.contents]

theorem Sound.step (h : s.Sound) (hlegal : s.Legal t) (hroom : s.HasRoom t) :
    (L2pReads.step s t).Sound := by
  obtain ⟨hexact, hload⟩ := h
  have hle := owed_le_load (s := s)
  have hnext := load_step hlegal
  rw [hexact.wr_iff hlegal] at hnext
  unfold cDataFifoSize at hload
  refine ⟨hexact.step hlegal (by omega), ?_⟩
  unfold HasRoom at hroom
  unfold cDataFifoSize at hroom ⊢
  cases hpops : s.pops t with
  | false =>
      rw [hpops] at hnext
      simp at hnext
      omega
  | true =>
      have hlt := hroom hpops
      rw [hpops] at hnext
      simp at hnext
      omega

theorem Sound.noOverflow (h : s.Sound) (hlegal : s.Legal t) : s.NoOverflow t := by
  intro hwr
  have hpos := hlegal (h.exact.wr_iff hlegal ▸ hwr)
  have hle := owed_le_load (s := s)
  have hload := h.load
  omega

/-! ## An overflow behind a pop without room -/

/-- The slave acknowledges what it can, the data FIFO is not drained, and the cycle of the other
master keeps the address FIFO from being popped. -/
def answer (s : L2pReads) : L2pReadTick := ⟨some ⟨decide (0 < s.owed), 0, true⟩, none, 0, false, 0⟩

theorem answers_answer : s.Answers (answer s) := by
  constructor
  · intro hack
    simpa [acks, answer] using hack
  · simp [pops, DmaWishbone.pops, DmaWishbone.fifoRd, busTick, answer, L2pDmaWbPorts.ports]

/-- With more words in flight than there is room for, the slave only has to answer.  The measure
counts a read that has not been strobed yet once more. -/
theorem exists_overflow {m : ℕ} (hexact : s.Exact)
    (hlen : s.dataFifo.contents.length ≤ cDataFifoSize) (hload : cDataFifoSize < s.load)
    (hsmall : s.load + 1 < 2 ^ 32) (hm : 2 * s.inFlight + s.bus.wb.fifoValid.toNat ≤ m) :
    ∃ js, Always step Answers s js ∧ ¬ Always step NoOverflow s js := by
  induction m generalizing s with
  | zero =>
      unfold load at hload
      omega
  | succ m ih =>
      obtain ⟨hlegal, hpops⟩ := answers_answer (s := s)
      have hle := owed_le_load (s := s)
      have hwr := hexact.wr_iff hlegal
      have hnext := load_step hlegal
      have hlength := length_step (s := s) (t := answer s)
      have hdrains : s.drains (answer s) = false := rfl
      rw [hpops, hdrains, hwr] at hnext
      rw [hdrains, hwr] at hlength
      simp at hnext hlength
      by_cases hover : s.NoOverflow (answer s)
      · have hvalid : (s.step (answer s)).bus.wb.fifoValid = false := by
          rw [fifoValid_step]
          exact hpops
        have hlen' : (s.step (answer s)).dataFifo.contents.length ≤ cDataFifoSize := by
          cases hack : acks (answer s) with
          | false => rw [hlength, hack]; simpa using hlen
          | true =>
              have hlt := hover (hwr.trans hack)
              rw [hlength, hack]
              exact hlt
        have hless : 2 * (s.step (answer s)).inFlight + (s.step (answer s)).bus.wb.fifoValid.toNat ≤ m := by
          have hack : acks (answer s) = decide (0 < s.owed) := rfl
          unfold load at hnext hload
          rw [hvalid]
          by_cases howed : 0 < s.owed
          · rw [hack, decide_eq_true howed] at hlength
            simp at hlength ⊢
            omega
          · -- the read in flight is the one that has just been popped
            rw [hack, decide_eq_false howed] at hlength
            unfold inFlight at hm hload hnext ⊢
            simp at hlength ⊢
            omega
        obtain ⟨js, hanswers, hfails⟩ := ih (hexact.step hlegal (by omega)) hlen' (by omega) (by omega) hless
        exact ⟨answer s :: js, ⟨answers_answer, hanswers⟩, fun h => hfails h.2⟩
      · exact ⟨[answer s], ⟨answers_answer, trivial⟩, fun h => hover h.1⟩

/-- A pop without room leads to an overflow. -/
theorem Sound.exists_overflow (h : s.Sound) (hlegal : s.Legal t) (hpops : s.pops t = true)
    (hfull : ¬ s.load < cDataFifoSize + (s.drains t).toNat) :
    ∃ js, Always L2pReads.step Answers (s.step t) js ∧
      ¬ Always L2pReads.step NoOverflow (s.step t) js := by
  obtain ⟨hexact, hload⟩ := h
  have hle := owed_le_load (s := s)
  have hshort := length_of_pops hpops
  have hnext := load_step hlegal
  have hlength := length_step (s := s) (t := t)
  rw [hexact.wr_iff hlegal] at hnext hlength
  rw [hpops] at hnext
  unfold cDataFifoSize at hload hfull
  unfold cDataFifoFullThres at hshort
  have hacks := Bool.toNat_le (acks t)
  have hload' : (s.step t).load = 513 := by
    simp only [Bool.toNat_true] at hnext
    omega
  refine L2pReads.exists_overflow (hexact.step hlegal (by omega)) ?_ ?_ ?_ le_rfl
  · unfold cDataFifoSize
    omega
  · rw [hload']
    decide
  · rw [hload']
    decide

/-! ## Runs -/

variable {is : List L2pReadTick}

theorem sound_run (addrFifoDout dataFifoDout : Word)
    (legal : Always step (fun s t => s.Legal t ∧ s.HasRoom t) (reset addrFifoDout dataFifoDout) is) :
    (run step (reset addrFifoDout dataFifoDout) is).Sound :=
  invariant_run (fun _ _ h hlegal => h.step hlegal.1 hlegal.2) legal
    (reset_sound addrFifoDout dataFifoDout)

/-- **Room for the words.**  Take any run from reset with a slave that never stalls and acknowledges
its strobes after any number of cycles, and any schedule that drains the data FIFO.  Every pop of
the run leaves room for all that is in flight if and only if no word is written into a full data
FIFO, neither in the run nor in any continuation of a part of it that pops no further address. -/
theorem no_word_dropped_iff (addrFifoDout dataFifoDout : Word)
    (legal : Always step Legal (reset addrFifoDout dataFifoDout) is) :
    Always step HasRoom (reset addrFifoDout dataFifoDout) is ↔
      ∀ is', is' <+: is → ∀ js,
        Always step Answers (run step (reset addrFifoDout dataFifoDout) is') js →
        Always step NoOverflow (reset addrFifoDout dataFifoDout) (is' ++ js) := by
  constructor
  · -- a continuation that pops nothing needs no room
    rintro hroom is' ⟨rest, rfl⟩ js hanswers
    have hgood := (legal.and hroom)
    have hbefore := ((always_append _ _ is' rest).mp hgood).1
    have hmore : Always step (fun s t => s.Legal t ∧ s.HasRoom t) _ js := hanswers.mono fun s t h =>
      ⟨h.1, fun hpops => absurd (h.2.symm.trans hpops) (by decide)⟩
    have hall := (always_append _ _ is' js).mpr ⟨hbefore, hmore⟩
    have hsound := Always.of_invariant (fun _ _ h hlegal => Sound.step h hlegal.1 hlegal.2) hall
      (reset_sound addrFifoDout dataFifoDout)
    exact hsound.mono fun s t h => h.1.noOverflow h.2.1
  · -- the first pop without room, and a slave that then answers all that is in flight
    intro hnever
    induction is using List.reverseRecOn with
    | nil => trivial
    | append_singleton is t ih =>
        obtain ⟨hlegal, hlegalT⟩ := (always_concat _ _ is t).mp legal
        have hroom := ih hlegal fun is' hpre js => hnever is' (hpre.trans (List.prefix_append is [t])) js
        refine (always_concat _ _ is t).mpr ⟨hroom, fun hpops => ?_⟩
        have hsound := sound_run addrFifoDout dataFifoDout (hlegal.and hroom)
        by_contra hfull
        obtain ⟨js, hanswers, hfails⟩ := hsound.exists_overflow hlegalT hpops hfull
        have hrun := hnever (is ++ [t]) List.prefix_rfl js (by rwa [run_concat])
        have hjs := ((always_append _ _ (is ++ [t]) js).mp hrun).2
        rw [run_concat] at hjs
        exact hfails hjs

/-! ### Thirteen reads too many -/

/-- An address is written and another one popped, and the slave does not answer. -/
def popTick : L2pReadTick := ⟨some ⟨false, 0, false⟩, some 0, 1, false, 0⟩

/-- `k` strobes wait for their acknowledge, one is on the bus, and an address has been popped. -/
def popping (k : ℕ) : L2pReads where
  bus := ⟨⟨[0], [], 0⟩, ⟨true, 0, true, 0b1111#4, true, BitVec.ofNat 32 (k + 1), 0⟩⟩
  dataFifo := ⟨[], [], 0⟩
  outstanding := k

theorem popping_step (k : ℕ) : (popping k).step popTick = popping (k + 1) := by
  simp [popping, popTick, step, busTick, DmaWishbone.step, DmaWishbone.stepWb, DmaWishbone.pops,
    DmaWishbone.fifoRd, DmaWbMaster.step, L2pDmaWbPorts.ports, dataFifoFull, cDataFifoFullThres,
    AsyncFifo.tick, AsyncFifo.write, AsyncFifo.read, AsyncFifo.arrive, AsyncFifo.empty,
    AsyncFifo.contents, dataFifoWr, acks, drains, BitVec.ofNat_add]

theorem run_popping (n k : ℕ) :
    run step (popping k) (List.replicate n popTick) = popping (k + n) := by
  induction n generalizing k with
  | zero => rfl
  | succ n ih =>
      rw [List.replicate_succ, run_cons, popping_step, ih]
      congr 1
      omega

theorem load_popping (k : ℕ) : (popping k).load = k + 2 := by
  simp [load, inFlight, owed, popping, AsyncFifo.contents]

theorem popping_sound {k : ℕ} (hk : k + 2 ≤ cDataFifoSize) : (popping k).Sound := by
  refine ⟨⟨?_, by simp [popping, owed]⟩, by rwa [load_popping]⟩
  have hlt : k + 1 < 2 ^ 32 := by
    unfold cDataFifoSize at hk
    omega
  have hmod : (k + 1) % 2 ^ 32 = k + 1 := Nat.mod_eq_of_lt hlt
  simpa [popping, DmaWbMaster.unacked, owed] using hmod

theorem legal_popTick : s.Legal popTick := fun h => absurd h (by decide)

/-- With 513 reads in flight before the first acknowledge the data FIFO overflows. -/
theorem slow_slave_drops_word :
    ∃ js, Always step Legal (reset 0 0) (List.replicate 513 popTick ++ popTick :: js) ∧
      ¬ Always step NoOverflow (reset 0 0) (List.replicate 513 popTick ++ popTick :: js) := by
  have hrun : run step (reset 0 0) (List.replicate 513 popTick) = popping 510 := by
    rw [show List.replicate 513 popTick = List.replicate 3 popTick ++ List.replicate 510 popTick by
      rw [List.replicate_append_replicate], run_append,
      show run step (reset 0 0) (List.replicate 3 popTick) = popping 0 by decide +kernel, run_popping]
  have hlegal : ∀ n s, Always step Legal s (List.replicate n popTick) := by
    intro n
    induction n with
    | zero => exact fun _ => trivial
    | succ n ih => exact fun s => ⟨legal_popTick, ih _⟩
  have hsound : (popping 510).Sound := popping_sound (by decide)
  obtain ⟨js, hanswers, hfails⟩ := hsound.exists_overflow legal_popTick (by decide +kernel)
    (by rw [load_popping]; decide)
  refine ⟨js, (always_append _ _ _ _).mpr ⟨hlegal 513 _, legal_popTick, ?_⟩, fun h => hfails ?_⟩
  · rw [hrun]
    exact hanswers.mono fun _ _ h => h.1
  · have hafter := ((always_append _ _ _ _).mp h).2.2
    rwa [hrun] at hafter

/-- Two reads that are acknowledged in turn. -/
theorem two_reads_fit :
    let is := [popTick, popTick, popTick, ⟨some ⟨true, 0xaa, true⟩, none, 0, false, 1⟩,
      ⟨some ⟨true, 0xbb, true⟩, none, 0, true, 1⟩]
    ∀ is', is' <+: is → ∀ js, Always step Answers (run step (reset 0 0) is') js →
      Always step NoOverflow (reset 0 0) (is' ++ js) := by
  intro is
  exact (no_word_dropped_iff 0 0 (by decide +kernel)).mp (by decide +kernel)

end L2pReads

end Gn4124Core
