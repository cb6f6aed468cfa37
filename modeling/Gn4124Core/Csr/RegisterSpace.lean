import Gn4124Core.Csr.SpecGn4124Test

/-!
# The registers of the test design are a memory

Behind the bridge, the decoder and three slaves on two clocks, the host sees nothing but registers
(`registerSpace`): the completed accesses are the requests in their order, and a read gives what
was last written to the register, or the constant that it is.  The start bit of the DMA reads as
0.  What a read gives is left open where the slave shows something else or nothing: for the status
of the DMA and the DMA addresses without a register, for the first control register, and for the
status word of the PLL.

Each slave serves the accesses that it starts, one after the other: the registers of the DMA
(`DmaRegisters.Serving`), and the two generated slaves (`WbgenSlave.Serving.step`, with
`allows_statConstants` and `allows_ctrlRegisters` for what they show).  What the bus completes is
what the slaves have answered (`prefix_of_slave`), so it is right as soon as each slave is
(`Sequential.agrees_routed`).
-/

namespace Gn4124Core

open Clocked RegisterBus

/-! ## The register space -/

/-- An access to the registers of the DMA controller, as these see it. -/
def CsrAccess.dmaOp (a : CsrAccess) : DmaRegOp :=
  ⟨DmaReg.ofAddr (a.adr.extractLsb' 0 4), a.we, a.dat⟩

/-- The constants; the last register shows the PLL, which is left open. -/
def statConstants : Sequential Unit CsrAccess Word where
  next := fun _ _ => ()
  answer := fun _ a =>
    if a.we then none
    else
      match a.adr.extractLsb' 0 2 with
      | 0b00#2 => some 0xDEADBABE#32
      | 0b01#2 => some 0xBEEFFACE#32
      | 0b10#2 => some 0x12345678#32
      | _ => none

/-- The control registers; the first one is outside the slave and cannot be read. -/
def ctrlRegisters : Sequential (BitVec 2 → Word) CsrAccess Word where
  next := fun m a => if a.we then Function.update m (a.adr.extractLsb' 0 2) a.dat else m
  answer := fun m a =>
    if a.we || decide (a.adr.extractLsb' 0 2 = 0b00#2) then none
    else some (m (a.adr.extractLsb' 0 2))

namespace SpecCsr

/-- What a slave remembers of the accesses. -/
def Contents : ℕ → Type
  | 0 => DmaReg → Word
  | 2 => BitVec 2 → Word
  | _ => Unit

/-- The slaves; there are no others. -/
def slave : (k : ℕ) → Sequential (Contents k) CsrAccess Word
  | 0 => registerFile.comap CsrAccess.dmaOp
  | 1 => statConstants
  | 2 => ctrlRegisters
  | _ + 3 => ⟨fun _ _ => (), fun _ _ => none⟩

def zeros : (k : ℕ) → Contents k
  | 0 => fun _ => 0
  | 1 => ()
  | 2 => fun _ => 0
  | _ + 3 => ()

/-- The registers behind the bus.  Its answer to a read is `none` where it is left open. -/
def registerSpace : Sequential ((k : ℕ) → Contents k) CsrAccess Word :=
  Sequential.routed CsrAccess.slave slave

end SpecCsr

/-! ## The generated slaves -/

/-- A generated slave in a run, with the accesses that it has started and its answers. -/
structure WbgenSlave.Serving {σ : Type*} (obj : Sequential σ CsrAccess Word) (m : σ)
    (begun : List CsrAccess) (given : List Word) (d : WbgenSlave) : Prop where
  acks : d.Acks
  free : d.ackInProgress = false → obj.Serves m begun given []
  busy : d.ackInProgress = true → ∃ a, obj.Serves m begun given [a] ∧
    ∀ before, begun = before ++ [a] → Sequential.Allows (obj.answer (obj.after m before) a) d.rddataReg

namespace WbgenSlave

variable {σ : Type*} {obj : Sequential σ CsrAccess Word} {m : σ} {begun : List CsrAccess}
  {given : List Word} {d : WbgenSlave} {b : DummyBus} {reg : Word} {a : CsrAccess}

variable (obj m) in
theorem serving_reset : Serving obj m [] [] reset :=
  ⟨acks_reset, fun _ => obj.serves_nil m, fun hbusy => absurd hbusy Bool.false_ne_true⟩

/-- One edge, at which the register that is read shows what it should. -/
theorem Serving.step (h : Serving obj m begun given d)
    (hread : d.accepts b = true →
      Sequential.Allows (obj.answer (obj.after m begun) a) (d.step b reg).rddataReg) :
    Serving obj m (begun ++ if d.accepts b then [a] else [])
      (given ++ if d.wbAckO then [d.rddataReg] else []) (d.step b reg) := by
  have hnext := h.acks.ackInProgress_step (b := b) reg
  rw [h.acks.wbAckO]
  cases hbusy : d.ackInProgress with
  | true =>
      obtain ⟨a', hserves, hallows⟩ := h.busy hbusy
      have hnot : d.accepts b = false := by simp [accepts, hbusy]
      rw [hnot] at hnext ⊢
      rw [if_neg Bool.false_ne_true, List.append_nil, if_pos rfl]
      refine ⟨h.acks.step reg, fun _ => hserves.ends hallows, fun htrue => ?_⟩
      exact absurd (hnext.symm.trans htrue) Bool.false_ne_true
  | false =>
      have hserves := h.free hbusy
      rw [if_neg Bool.false_ne_true, List.append_nil]
      cases haccepts : d.accepts b with
      | false =>
          rw [haccepts] at hnext
          rw [if_neg Bool.false_ne_true, List.append_nil]
          exact ⟨h.acks.step reg, fun _ => hserves, fun htrue =>
            absurd (hnext.symm.trans htrue) Bool.false_ne_true⟩
      | true =>
          rw [haccepts] at hnext
          rw [if_pos rfl]
          refine ⟨h.acks.step reg, fun hfalse => ?_, fun _ => ⟨a, hserves.begins a, ?_⟩⟩
          · exact absurd (hfalse.symm.trans hnext) Bool.false_ne_true
          · rintro before hbefore
            obtain ⟨rfl, -⟩ := List.append_inj' hbefore rfl
            exact hread haccepts

theorem Serving.agrees_of_isPrefix (h : Serving obj m begun given d) {seen : List (CsrAccess × Word)}
    (hops : seen.map Prod.fst <+: begun) (hvs : seen.map Prod.snd <+: given) :
    obj.Agrees m seen := by
  cases hbusy : d.ackInProgress with
  | false => exact (h.free hbusy).agrees_of_isPrefix hops hvs
  | true =>
      obtain ⟨a, hserves, -⟩ := h.busy hbusy
      exact hserves.agrees_of_isPrefix hops hvs

end WbgenSlave

namespace DummyCtrlRegs

/-- The registers hold what was written. -/
structure Holds (m : BitVec 2 → Word) (d : DummyCtrlRegs) : Prop where
  dummyReg2 : d.dummyReg2 = m 0b01#2
  dummyReg3 : d.dummyReg3 = m 0b10#2
  dummyRegLed : d.dummyRegLed = m 0b11#2

variable {m : BitVec 2 → Word} {d : DummyCtrlRegs} {b : DummyBus} {unknown : Word}

theorem Holds.read (h : d.Holds m) {addr : BitVec 2} (hne : addr ≠ 0b00#2) :
    d.read unknown addr = m addr := by
  match addr with
  | 0b00#2 => exact absurd rfl hne
  | 0b01#2 => exact h.dummyReg2
  | 0b10#2 => exact h.dummyReg3
  | 0b11#2 => exact h.dummyRegLed

/-- One edge of the registers. -/
theorem Holds.step (h : d.Holds m) :
    (d.step b unknown).Holds
      (if d.bank.accepts b && b.wbWe then Function.update m b.wbAddr b.wbData else m) := by
  have hreg : ∀ (addr : BitVec 2) (old : Word), old = m addr →
      (if d.writes b addr then b.wbData else old) =
        (if d.bank.accepts b && b.wbWe then Function.update m b.wbAddr b.wbData else m) addr := by
    rintro addr old rfl
    rw [writes]
    cases d.bank.accepts b && b.wbWe with
    | false => rfl
    | true =>
        by_cases haddr : b.wbAddr = addr
        · subst haddr
          simp
        · simp [haddr, Function.update_of_ne (Ne.symm haddr)]
  exact ⟨hreg _ _ h.dummyReg2, hreg _ _ h.dummyReg3, hreg _ _ h.dummyRegLed⟩

end DummyCtrlRegs

namespace SpecCsr

/-! ## What each slave sees of the bus -/

/-- The accesses among these that go to the slave. -/
def accessesOf (k : ℕ) (as : List CsrAccess) : List CsrAccess := as.filter fun a => a.slave = k

/-- The answers among these that the slave has given. -/
def answersOf (k : ℕ) (rs : List (ℕ × Word)) : List Word :=
  (rs.filter fun r => r.1 = k).map Prod.snd

variable {s : SpecCsr} {i : SpecCsrIn} {t : SpecCsrTick} {as : List CsrAccess}
  {rs : List (ℕ × Word)}

/-- The access that is on the bus of the slave. -/
def onBus (s : SpecCsr) (j : Fin 3) : CsrAccess :=
  ⟨j, s.out.wbAdr, s.out.wbWe, s.out.wbDat⟩

theorem forall_slave {P : Fin 3 → Prop} (h0 : P 0) (h1 : P 1) (h2 : P 2) (j : Fin 3) : P j := by
  match j with
  | 0 => exact h0
  | 1 => exact h1
  | 2 => exact h2

theorem accessesOf_started (s : SpecCsr) (j : Fin 3) (inputs : CsrAccessesIn 3) :
    accessesOf j (s.accesses.started cBar0Aperture inputs) =
      if s.accesses.starts cBar0Aperture j then [s.onBus j] else [] := by
  have hall : List.finRange 3 = [0, 1, 2] := by decide
  have hout : s.accesses.out cBar0Aperture = s.out := rfl
  simp only [CsrAccesses.started, CsrAccesses.starting, hall, accessesOf, hout]
  revert j
  cases h0 : s.accesses.starts cBar0Aperture 0 <;> cases h1 : s.accesses.starts cBar0Aperture 1 <;>
    cases h2 : s.accesses.starts cBar0Aperture 2 <;>
    refine forall_slave ?_ ?_ ?_ <;>
    simp [h0, h1, h2, onBus]

/-- Each slave drives its own part of the data lines. -/
theorem wbDat_lines (s : SpecCsr) (i : SpecCsrIn) (j : Fin 3) :
    (s.lines i).wbDat.extractLsb' (32 * j) 32 = s.rddata j := by
  have hlow : ∀ (hi : BitVec 32) (w : Word), (hi ++ w).extractLsb' 0 32 = w := by
    intro hi w
    rw [BitVec.extractLsb'_append_eq_of_add_le (by decide)]
    exact BitVec.extractLsb'_eq_self
  match j with
  | 0 =>
      refine (BitVec.extractLsb'_append_eq_of_add_le (by decide)).trans ?_
      exact hlow _ _
  | 1 =>
      refine (BitVec.extractLsb'_append_eq_of_add_le (by decide)).trans ?_
      refine (BitVec.extractLsb'_append_eq_of_le (by decide)).trans ?_
      exact BitVec.extractLsb'_eq_self
  | 2 =>
      refine (BitVec.extractLsb'_append_eq_of_le (by decide)).trans ?_
      exact BitVec.extractLsb'_eq_self

theorem answersOf_answered (s : SpecCsr) (i : SpecCsrIn) (j : Fin 3) :
    answersOf j (s.accesses.answered (s.accessesIn i)) =
      if s.wbAck j then [s.rddata j] else [] := by
  have hall : List.finRange 3 = [0, 1, 2] := by decide
  simp only [CsrAccesses.answered, hall, answersOf, accessesIn, wbDat_lines, ← wbAck_eq]
  revert j
  cases h0 : s.wbAck 0 <;> cases h1 : s.wbAck 1 <;> cases h2 : s.wbAck 2 <;>
    refine forall_slave ?_ ?_ ?_ <;>
    simp [h0, h1, h2]

/-- The slaves in a run, with the accesses that the bus has seen start and the answers. -/
structure Slaves (as : List CsrAccess) (rs : List (ℕ × Word)) (s : SpecCsr) : Prop where
  dma : DmaRegisters.Serving ((accessesOf 0 as).map CsrAccess.dmaOp) (answersOf 0 rs) s.dma
  dummyStat : s.dummyStat.bank.Serving statConstants () (accessesOf 1 as) (answersOf 1 rs)
  dummyCtrl : s.dummyCtrl.bank.Serving ctrlRegisters (fun _ => 0) (accessesOf 2 as) (answersOf 2 rs)
  ctrl : s.dummyCtrl.Holds (ctrlRegisters.after (fun _ => 0) (accessesOf 2 as))

theorem slaves_reset (dout : WbRequest) : Slaves [] [] (reset dout) where
  dma := DmaRegisters.serving_reset
  dummyStat := WbgenSlave.serving_reset statConstants ()
  dummyCtrl := WbgenSlave.serving_reset ctrlRegisters fun _ => 0
  ctrl := ⟨rfl, rfl, rfl⟩

theorem Slaves.keeps (h : Slaves as rs s) : s.Keeps := by
  obtain ⟨-, stage, -, hat, -⟩ := h.dma
  exact ⟨⟨1, _, stage, hat⟩, h.dummyStat.acks, h.dummyCtrl.acks⟩

/-- A slave starts an access exactly when it accepts one. -/
theorem Slaves.starts (h : Slaves as rs s) :
    s.accesses.starts cBar0Aperture 0 = s.dma.slave.accepts s.dmaBus ∧
      s.accesses.starts cBar0Aperture 1 = s.dummyStat.bank.accepts (s.dummyBus 1) ∧
      s.accesses.starts cBar0Aperture 2 = s.dummyCtrl.bank.accepts (s.dummyBus 2) := by
  obtain ⟨⟨_, _, stage, hat⟩, hstat, hctrl⟩ := h.keeps
  refine ⟨?_, ?_, ?_⟩
  · show (_ && (ackWaits s.dma.slave.ackSreg).isNone) = _
    rw [(waits_dma hat s.dmaBus).2]
    exact Bool.and_comm _ _
  · show (_ && (ackWaits s.dummyStat.bank.ackSreg).isNone) = _
    rw [(waits_dummy hstat (s.dummyBus 1) 0).2]
    exact Bool.and_comm _ _
  · show (_ && (ackWaits s.dummyCtrl.bank.ackSreg).isNone) = _
    rw [(waits_dummy hctrl (s.dummyBus 2) 0).2]
    exact Bool.and_comm _ _

theorem accessesOf_append (k : ℕ) (as as' : List CsrAccess) :
    accessesOf k (as ++ as') = accessesOf k as ++ accessesOf k as' := List.filter_append ..

theorem answersOf_append (k : ℕ) (rs rs' : List (ℕ × Word)) :
    answersOf k (rs ++ rs') = answersOf k rs ++ answersOf k rs' := by
  rw [answersOf, List.filter_append, List.map_append]
  rfl

/-- The constants are what is read. -/
theorem allows_statConstants (h : s.dummyStat.bank.accepts (s.dummyBus 1) = true) :
    Sequential.Allows (statConstants.answer () (s.onBus 1))
      (s.dummyStat.step (s.dummyBus 1) (dummyStatIn i)).bank.rddataReg := by
  intro v hv
  have hread : s.out.wbWe = false := by
    by_contra hwe
    have htrue : (s.onBus 1).we = true := by simpa [onBus] using hwe
    simp [statConstants, htrue] at hv
  have hrddata : (s.dummyStat.step (s.dummyBus 1) (dummyStatIn i)).bank.rddataReg =
      (dummyStatIn i).read (s.out.wbAdr.extractLsb' 0 2) :=
    WbgenSlave.rddataReg_step_read h hread _
  rw [hrddata]
  simp only [statConstants, onBus, hread, Bool.false_eq_true, if_false] at hv
  generalize s.out.wbAdr.extractLsb' 0 2 = addr at hv ⊢
  match addr with
  | 0b00#2 | 0b01#2 | 0b10#2 => exact Option.mem_some.mp hv
  | 0b11#2 => simp at hv

/-- What was written is what is read. -/
theorem allows_ctrlRegisters {m : BitVec 2 → Word} (hm : s.dummyCtrl.Holds m)
    (h : s.dummyCtrl.bank.accepts (s.dummyBus 2) = true) :
    Sequential.Allows (ctrlRegisters.answer m (s.onBus 2))
      (s.dummyCtrl.step (s.dummyBus 2) i.unknown).bank.rddataReg := by
  intro v hv
  simp only [ctrlRegisters, onBus] at hv
  split at hv
  · simp at hv
  · next hread =>
      obtain ⟨hwe, haddr⟩ : s.out.wbWe = false ∧ s.out.wbAdr.extractLsb' 0 2 ≠ 0b00#2 := by
        simpa using hread
      have hrddata : (s.dummyCtrl.step (s.dummyBus 2) i.unknown).bank.rddataReg =
          s.dummyCtrl.read i.unknown (s.out.wbAdr.extractLsb' 0 2) :=
        WbgenSlave.rddataReg_step_read h hwe _
      rw [hrddata, hm.read haddr]
      exact Option.mem_some.mp hv

/-- An edge of the clock of the DMA controller alone. -/
theorem Slaves.step_clk (h : Slaves as rs s) (hpaced : DmaRegisters.Paced 1 s.dma (s.dmaTick t))
    (hitem : DmaRegisters.NoItem (s.dmaTick t)) (hcsr : t.csr = none) :
    Slaves as rs (s.step t) := by
  have hdma := h.dma.step_clk hpaced hitem (by rw [dmaTick, hcsr]; rfl)
  refine ⟨?_, ?_, ?_, ?_⟩
  · simpa only [step, hcsr] using hdma
  · simpa only [step, hcsr] using h.dummyStat
  · simpa only [step, hcsr] using h.dummyCtrl
  · simpa only [step, hcsr] using h.ctrl

/-- An edge of the clock of the bus. -/
theorem Slaves.step_csr (h : Slaves as rs s) (hpaced : DmaRegisters.Paced 1 s.dma (s.dmaTick t))
    (hitem : DmaRegisters.NoItem (s.dmaTick t)) (hcsr : t.csr = some i) :
    Slaves (as ++ s.accesses.started cBar0Aperture (s.accessesIn i))
      (rs ++ s.accesses.answered (s.accessesIn i)) (s.step t) := by
  obtain ⟨hstarts0, hstarts1, hstarts2⟩ := h.starts
  have hof : ∀ (k : ℕ) (j : Fin 3), k = j →
      accessesOf k (as ++ s.accesses.started cBar0Aperture (s.accessesIn i)) =
        accessesOf k as ++ if s.accesses.starts cBar0Aperture j then [s.onBus j] else [] := by
    rintro k j rfl
    rw [accessesOf_append, accessesOf_started]
  have hanswers : ∀ (k : ℕ) (j : Fin 3), k = j →
      answersOf k (rs ++ s.accesses.answered (s.accessesIn i)) =
        answersOf k rs ++ if s.wbAck j then [s.rddata j] else [] := by
    rintro k j rfl
    rw [answersOf_append, answersOf_answered]
  refine ⟨?_, ?_, ?_, ?_⟩
  · have hdma := h.dma.step hpaced hitem
    have hbegun : s.dma.begun (s.dmaTick t) =
        (if s.accesses.starts cBar0Aperture 0 then [s.onBus 0] else []).map CsrAccess.dmaOp := by
      rw [hstarts0, DmaRegisters.begun, dmaTick, hcsr]
      show (if s.dma.slave.accepts s.dmaBus then _ else _) = _
      split <;> rfl
    have hanswered : s.dma.answered (s.dmaTick t) = if s.wbAck 0 then [s.rddata 0] else [] := by
      rw [DmaRegisters.answered, dmaTick, hcsr]
      rfl
    rw [hbegun, hanswered, ← List.map_append] at hdma
    have hstep : (s.step t).dma = s.dma.step (s.dmaTick t) := by simp only [step, hcsr, csrEdge]
    rw [hstep, hof 0 0 rfl, hanswers 0 0 rfl]
    exact hdma
  · have hstat := h.dummyStat.step (a := s.onBus 1) (b := s.dummyBus 1) fun haccepts =>
      allows_statConstants (i := i) haccepts
    have hstep : (s.step t).dummyStat = s.dummyStat.step (s.dummyBus 1) (dummyStatIn i) := by
      simp only [step, hcsr, csrEdge]
    rw [hstep, hof 1 1 rfl, hanswers 1 1 rfl, hstarts1]
    exact hstat
  · have hctrl := h.dummyCtrl.step (a := s.onBus 2) (b := s.dummyBus 2) fun haccepts =>
      allows_ctrlRegisters (i := i) h.ctrl haccepts
    have hstep : (s.step t).dummyCtrl = s.dummyCtrl.step (s.dummyBus 2) i.unknown := by
      simp only [step, hcsr, csrEdge]
    rw [hstep, hof 2 2 rfl, hanswers 2 2 rfl, hstarts2]
    exact hctrl
  · have hstep : (s.step t).dummyCtrl = s.dummyCtrl.step (s.dummyBus 2) i.unknown := by
      simp only [step, hcsr, csrEdge]
    have hholds : (s.dummyCtrl.step (s.dummyBus 2) i.unknown).Holds _ :=
      h.ctrl.step (b := s.dummyBus 2)
    rw [hstep, hof 2 2 rfl, hstarts2]
    cases haccepts : s.dummyCtrl.bank.accepts (s.dummyBus 2) with
    | false =>
        rw [haccepts] at hholds
        rw [if_neg Bool.false_ne_true, List.append_nil]
        exact hholds
    | true =>
        rw [haccepts] at hholds
        rw [if_pos rfl, Sequential.after_concat]
        exact hholds

/-! ## Runs -/

/-- The requests that come. -/
def requested (_ : SpecCsr) (t : SpecCsrTick) : List WbRequest :=
  match t.csr with
  | some i => i.requests
  | none => []

/-- The accesses that the bus completes, with the data that it hands over. -/
def completed (s : SpecCsr) (t : SpecCsrTick) : List (CsrAccess × Word) :=
  match t.csr with
  | some i => s.accesses.completed cBar0Aperture (s.accessesIn i)
  | none => []

/-- The words pushed into `from_wb_fifo`. -/
def pushed (s : SpecCsr) (t : SpecCsrTick) : List Word :=
  match t.csr with
  | some i => s.accesses.pushed (s.accessesIn i)
  | none => []

/-- The clock of the DMA controller has an edge in every period of the clock of the bus, no chain
is fetched, and every request has a slave. -/
structure Legal (s : SpecCsr) (t : SpecCsrTick) : Prop where
  paced : DmaRegisters.Paced 1 s.dma (s.dmaTick t)
  noItem : DmaRegisters.NoItem (s.dmaTick t)
  mapped : ∀ r ∈ s.requested t, CsrAccesses.Mapped cCsrWbSlavesNb cBar0Aperture r

instance (s : SpecCsr) (t : SpecCsrTick) : Decidable (Legal s t) :=
  decidable_of_iff (DmaRegisters.Paced 1 s.dma (s.dmaTick t) ∧
      DmaRegisters.NoItem (s.dmaTick t) ∧
      ∀ r ∈ s.requested t, CsrAccesses.Mapped cCsrWbSlavesNb cBar0Aperture r)
    ⟨fun ⟨hpaced, hitem, hmapped⟩ => ⟨hpaced, hitem, hmapped⟩,
      fun ⟨hpaced, hitem, hmapped⟩ => ⟨hpaced, hitem, hmapped⟩⟩

/-- A run, as the bus and the slaves have seen it. -/
structure Followed (dout : WbRequest) (ts : List SpecCsrTick) (is : List (CsrAccessesIn 3))
    (stage : CsrStage 3) : Prop where
  reached : CsrAccesses.Reached cBar0Aperture style dout is stage
  accesses : (run step (reset dout) ts).accesses =
    run (CsrAccesses.step cBar0Aperture style) (CsrAccesses.reset dout) is
  requested : (CsrAccesses.books cBar0Aperture style (.reset dout) is).requested =
    log step requested (reset dout) ts
  completed : (CsrAccesses.books cBar0Aperture style (.reset dout) is).completed =
    log step completed (reset dout) ts
  pushed : (CsrAccesses.books cBar0Aperture style (.reset dout) is).pushed =
    log step pushed (reset dout) ts
  slaves : Slaves (CsrAccesses.books cBar0Aperture style (.reset dout) is).started
    (CsrAccesses.books cBar0Aperture style (.reset dout) is).answered (run step (reset dout) ts)

theorem accesses_reset (dout : WbRequest) : (reset dout).accesses = CsrAccesses.reset dout := by
  have hzero : ackWaits 0 = none := by decide
  have hslaves : (reset dout).accesses.slaves = fun _ => ⟨none⟩ := by
    funext j
    match j with
    | 0 | 1 | 2 => exact congrArg CsrSlave.mk hzero
  rw [CsrAccesses.reset, ← hslaves]
  rfl

theorem Followed.concat {dout : WbRequest} {ts : List SpecCsrTick} {is : List (CsrAccessesIn 3)}
    {stage : CsrStage 3} (h : Followed dout ts is stage)
    (legal : Legal (run step (reset dout) ts) t) :
    ∃ is' stage', Followed dout (ts ++ [t]) is' stage' := by
  obtain ⟨hreached, haccesses, hrequested, hcompleted, hpushed, hslaves⟩ := h
  cases hcsr : t.csr with
  | none =>
      refine ⟨is, stage, hreached, ?_, ?_, ?_, ?_, ?_⟩
      · rw [run_concat, ← haccesses]
        simp only [step, hcsr]
        refine congrArg (CsrAccesses.mk _ _ _) (funext (forall_slave ?_ rfl rfl))
        have hsame : ((run step (reset dout) ts).dma.step
            ((run step (reset dout) ts).dmaTick t)).slave.ackSreg =
              (run step (reset dout) ts).dma.slave.ackSreg := by
          simp [DmaRegisters.step, DmaControllerWbSlave.step, DmaRegisters.slaveTick, dmaTick, hcsr]
        exact congrArg (fun a => CsrSlave.mk (ackWaits a)) hsame
      · rw [log_concat, hrequested, SpecCsr.requested, hcsr, List.append_nil]
      · rw [log_concat, hcompleted, SpecCsr.completed, hcsr, List.append_nil]
      · rw [log_concat, hpushed, SpecCsr.pushed, hcsr, List.append_nil]
      · rw [run_concat]
        exact hslaves.step_clk legal.paced legal.noItem hcsr
  | some i =>
      have hmapped : ∀ r ∈ i.requests, CsrAccesses.Mapped cCsrWbSlavesNb cBar0Aperture r := by
        have hlegal := legal.mapped
        rwa [SpecCsr.requested, hcsr] at hlegal
      refine ⟨is ++ [(run step (reset dout) ts).accessesIn i], _,
        hreached.concat ((run step (reset dout) ts).accessesIn i) hmapped, ?_, ?_, ?_, ?_, ?_⟩
      · rw [run_concat, run_concat, ← haccesses]
        exact accesses_step hslaves.keeps hcsr
      · simp only [CsrAccesses.books, log_concat] at hrequested ⊢
        rw [hrequested, SpecCsr.requested, hcsr]
        rfl
      · simp only [CsrAccesses.books, log_concat] at hcompleted ⊢
        rw [hcompleted, ← haccesses, SpecCsr.completed, hcsr]
      · simp only [CsrAccesses.books, log_concat] at hpushed ⊢
        rw [hpushed, ← haccesses, SpecCsr.pushed, hcsr]
      · simp only [CsrAccesses.books, log_concat, run_concat] at hslaves ⊢
        rw [← haccesses]
        exact hslaves.step_csr legal.paced legal.noItem hcsr

theorem followed_run (dout : WbRequest) (ts : List SpecCsrTick)
    (legal : Always step Legal (reset dout) ts) : ∃ is stage, Followed dout ts is stage := by
  refine run_induction (motive := fun ts => ∃ is stage, Followed dout ts is stage) legal ?_ ?_
  · exact ⟨[], .idle, ⟨.reset dout, ⟨rfl, rfl, rfl, rfl⟩, Nat.zero_le _⟩, accesses_reset dout, rfl,
      rfl, rfl, slaves_reset dout⟩
  · rintro ts t - ht ⟨is, stage, hfollowed⟩
    exact hfollowed.concat ht

/-- What the bus has completed with a slave is the beginning of what the slave has served. -/
theorem prefix_of_slave {done : List (CsrAccess × Word)} (k : ℕ) (hops : done.map Prod.fst <+: as)
    (hvs : (done.map fun c => (c.1.slave, c.2)) <+: rs) :
    (done.filter fun c => c.1.slave = k).map Prod.fst <+: accessesOf k as ∧
      (done.filter fun c => c.1.slave = k).map Prod.snd <+: answersOf k rs := by
  constructor
  · have hfilter := hops.filter fun a => decide (a.slave = k)
    rwa [List.filter_map] at hfilter
  · have hfilter := (hvs.filter fun r => decide (r.1 = k)).map Prod.snd
    rwa [List.filter_map, List.map_map] at hfilter

/-- **The registers behind the CSR bus are a memory.**  In any run from reset in which the clock of
the DMA controller has an edge in every period of the clock of the bus, no chain is fetched and all
requests have a slave: what the bus has completed are the first of the requests, in their order;
each read among them gives what `registerSpace` says, the word last written to the register, with
the start bit of the DMA clear, or the constant there; and these words are pushed for the host.
Nothing is said of what a read of the DMA status, of a DMA address without a register, of the first
control register or of the last status word gives. -/
theorem registers_are_memory (dout : WbRequest) (ts : List SpecCsrTick)
    (legal : Always step Legal (reset dout) ts) :
    (log step completed (reset dout) ts).map Prod.fst <+:
        (log step requested (reset dout) ts).map (WbRequest.access cCsrWbSlavesNb cBar0Aperture) ∧
      registerSpace.Agrees zeros (log step completed (reset dout) ts) ∧
      log step pushed (reset dout) ts <+:
        CsrAccesses.readBack (log step completed (reset dout) ts) := by
  obtain ⟨is, stage, hreached, -, hrequested, hcompleted, hpushed, hslaves⟩ := followed_run dout ts legal
  obtain ⟨hstarted, hdone, hanswered, hread⟩ := hreached.balanced
  rw [hcompleted] at hdone hanswered hread
  have hops : (log step completed (reset dout) ts).map Prod.fst <+:
      (CsrAccesses.books cBar0Aperture style (.reset dout) is).started := ⟨_, hdone.symm⟩
  have hvs : ((log step completed (reset dout) ts).map fun c => (c.1.slave, c.2)) <+:
      (CsrAccesses.books cBar0Aperture style (.reset dout) is).answered := ⟨_, hanswered.symm⟩
  refine ⟨?_, Sequential.agrees_routed fun k => ?_, ?_⟩
  · rw [← hrequested]
    exact hops.trans ⟨_, hstarted.symm⟩
  · obtain ⟨hfst, hsnd⟩ := prefix_of_slave k hops hvs
    match k with
    | 0 =>
        obtain ⟨-, -, pending, -, hserves, -⟩ := hslaves.dma
        refine (Sequential.agrees_comap CsrAccess.dmaOp).mpr (hserves.agrees_of_isPrefix ?_ ?_)
        · have hmap := hfst.map CsrAccess.dmaOp
          rw [List.map_map] at hmap ⊢
          exact hmap
        · rw [List.map_map]
          exact hsnd
    | 1 => exact hslaves.dummyStat.agrees_of_isPrefix hfst hsnd
    | 2 => exact hslaves.dummyCtrl.agrees_of_isPrefix hfst hsnd
    | k + 3 =>
        have hopen : ∀ (m : Unit) (l : List (CsrAccess × Word)), (slave (k + 3)).Agrees m l := by
          intro m l
          induction l with
          | nil => trivial
          | cons c l ih => exact ⟨fun v hv => absurd hv (by simp [slave]), ih⟩
        exact hopen _ _
  · rw [← hpushed]
    exact ⟨_, hread.symm⟩

/-- The DMA length and a control register are written and read back, and a constant is read. -/
def mixedAccesses : List SpecCsrTick :=
  let requests : List WbRequest := [⟨true, 0x5#31, 0x80⟩, ⟨true, 0x20002#31, 0xCAFE⟩,
    ⟨false, 0x5#31, 0⟩, ⟨false, 0x20002#31, 0⟩, ⟨false, 0x10000#31, 0⟩]
  let tick requests : SpecCsrTick := ⟨some ⟨requests, true, 0⟩, some ⟨false, false, .reset, false⟩⟩
  tick requests :: List.replicate 50 (tick [])

theorem mixedAccesses_are_memory :
    (log step completed (reset ⟨false, 0, 0⟩) mixedAccesses).map Prod.fst <+:
        (log step requested (reset ⟨false, 0, 0⟩) mixedAccesses).map
          (WbRequest.access cCsrWbSlavesNb cBar0Aperture) ∧
      registerSpace.Agrees zeros (log step completed (reset ⟨false, 0, 0⟩) mixedAccesses) ∧
      log step pushed (reset ⟨false, 0, 0⟩) mixedAccesses <+:
        CsrAccesses.readBack (log step completed (reset ⟨false, 0, 0⟩) mixedAccesses) :=
  registers_are_memory ⟨false, 0, 0⟩ mixedAccesses (by decide +kernel)

example : log step pushed (reset ⟨false, 0, 0⟩) mixedAccesses = [0x80, 0xCAFE, 0xDEADBABE] := by
  decide +kernel

end SpecCsr

end Gn4124Core
