import Gn4124Core.Clocked.AsyncFifo
import Gn4124Core.Clocked.Flow
import Gn4124Core.DmaControl.RejectedStarts

/-!
# The addresses of an L2P transfer in carrier memory

`p_target_cnt` decides at one edge of `clk_i` that an address is written, and `addr_fifo` takes
it at the next one.  The address that is being written and those that are still to be counted are
what the generator holds (`held`): an edge gives the first of them to the FIFO and adds none, so
that the FIFO gets them all, in order (`addresses_enumerated`).

What is written is a flow over the run (`pushed_flow`), from `held_conserves` for one edge.  How
far it has come is a matter of the counter, which goes down with each edge at which the FIFO is
not almost full (`dmaLengthCnt_run`), so that all addresses are written one edge after there were
as many such edges as words.  That no word is written into a full FIFO is another invariant,
`Below`: the flag is one edge late, and at most one address is written since it was low
(`Below.hasRoom`).
-/

namespace Gn4124Core

open Clocked

/-- The L2P DMA master and its address FIFO. -/
structure AddrGenerator where
  ldm : L2pDmaMaster
  addrFifo : AsyncFifo Word
deriving DecidableEq

/-- An edge of `clk_i`, an edge of the Wishbone clock at which the FIFO is read, or both, and how
many words finish the crossing. -/
structure AddrGeneratorTick where
  clk : Option L2pDmaIn
  addrFifoRd : Bool
  arrive : ℕ
deriving DecidableEq

/-- The word addresses of `n` words from the byte address `c` on. -/
def carrierArea (c : Word) (n : ℕ) : List Word :=
  (List.range n).map fun k => BitVec.ofNat 32 ((c.toNat / 4 + k) % 2 ^ 30)

/-! ## The master -/

namespace TargetCnt

/-- The addresses that remain to be counted. -/
def remaining (r : TargetCnt) : List Word :=
  (List.range r.dmaLengthCnt.toNat).map fun k => 0b00#2 ++ (r.targetAddrCnt + BitVec.ofNat 30 k)

@[simp] theorem length_remaining (r : TargetCnt) : r.remaining.length = r.dmaLengthCnt.toNat := by
  simp [remaining]

/-- The first address is the counter's, and the others follow the next one. -/
theorem remaining_of_ne_zero {r : TargetCnt} (h : r.dmaLengthCnt ≠ 0) :
    r.remaining = (0b00#2 ++ r.targetAddrCnt) ::
      remaining { r with
        targetAddrCnt := r.targetAddrCnt + 1
        dmaLengthCnt := r.dmaLengthCnt - 1 } := by
  have hpos : r.dmaLengthCnt.toNat ≠ 0 := fun hzero => h (BitVec.eq_of_toNat_eq hzero)
  obtain ⟨m, hm⟩ := Nat.exists_eq_succ_of_ne_zero hpos
  have hless : (r.dmaLengthCnt - 1).toNat = m := by
    have hlt := r.dmaLengthCnt.isLt
    rw [BitVec.toNat_sub, hm, show (1 : BitVec 30).toNat = 1 from rfl]
    omega
  have hnext : ∀ k, r.targetAddrCnt + BitVec.ofNat 30 (k + 1) =
      r.targetAddrCnt + 1 + BitVec.ofNat 30 k := by
    intro k
    rw [Nat.add_comm, BitVec.ofNat_add, BitVec.add_assoc]
    rfl
  simp only [remaining, hm, hless, List.range_succ_eq_map, List.map_cons, List.map_map]
  congr 1
  · rw [BitVec.add_zero]
  · exact List.map_congr_left fun k _ => congrArg (0b00#2 ++ ·) (hnext k)

end TargetCnt

namespace L2pDmaMaster

variable (gByteSwap : Bool) {s : L2pDmaMaster} {i : L2pDmaIn}

/-- The address that is being written, and those that remain to be counted. -/
def held (s : L2pDmaMaster) : List Word := s.addresses ++ s.targetCnt.remaining

/-- What is counted without a start is held until it is written. -/
theorem held_step (hnone : i.ctrl.startL2p = false) :
    (s.step gByteSwap i).held = s.targetCnt.remaining := by
  have htarget : (s.step gByteSwap i).targetCnt = s.pTargetCnt i := rfl
  rw [held, addresses, htarget, pTargetCnt, hnone, if_neg Bool.false_ne_true]
  by_cases hmore : (s.targetCnt.dmaLengthCnt != 0 && !i.addrFifoFull) = true
  · have hne : s.targetCnt.dmaLengthCnt ≠ 0 := by simpa using (Bool.and_eq_true_iff.mp hmore).1
    rw [if_pos hmore, TargetCnt.remaining_of_ne_zero hne]
    rfl
  · rw [if_neg hmore]
    rfl

/-- An edge counts an address if the FIFO is not almost full. -/
theorem dmaLengthCnt_step (hnone : i.ctrl.startL2p = false) :
    (s.step gByteSwap i).targetCnt.dmaLengthCnt.toNat =
      s.targetCnt.dmaLengthCnt.toNat - (!i.addrFifoFull).toNat := by
  have htarget : (s.step gByteSwap i).targetCnt = s.pTargetCnt i := rfl
  rw [htarget, pTargetCnt, hnone, if_neg Bool.false_ne_true]
  cases hfull : i.addrFifoFull with
  | true => simp
  | false =>
      by_cases hzero : s.targetCnt.dmaLengthCnt = 0
      · simp [hzero]
      · have hcount := congrArg List.length (TargetCnt.remaining_of_ne_zero hzero)
        simp only [TargetCnt.length_remaining, List.length_cons] at hcount
        simp only [bne_iff_ne, ne_eq, hzero, not_false_iff, Bool.not_false, Bool.and_true, if_true,
          Bool.toNat_true, hcount]
        rfl

/-- An address is only written after an edge at which the FIFO was not almost full. -/
theorem addrFifoWr_step (hnone : i.ctrl.startL2p = false)
    (hwr : (s.step gByteSwap i).targetCnt.addrFifoWr = true) : i.addrFifoFull = false := by
  have htarget : (s.step gByteSwap i).targetCnt = s.pTargetCnt i := rfl
  rw [htarget, pTargetCnt, hnone, if_neg Bool.false_ne_true] at hwr
  cases hfull : i.addrFifoFull with
  | true => simp [hfull] at hwr
  | false => rfl

/-- What the master holds after an accepted start. -/
theorem held_start (h : s.AllWritten) (hidle : s.fsm.l2pDmaCurrentState = .idle)
    (hstart : i.ctrl.startL2p = true) :
    (s.step gByteSwap i).targetCnt.addrFifoWr = false ∧
      (s.step gByteSwap i).targetCnt.remaining =
        carrierArea i.ctrl.carrierAddr (i.ctrl.len.toNat / 4) := by
  have htarget : (s.step gByteSwap i).targetCnt =
      { s.targetCnt with
        targetAddrCnt := i.ctrl.carrierAddr.extractLsb' 2 30
        dmaLengthCnt := i.ctrl.len.extractLsb' 2 30
        dmaCtrlError := false } := by
    show s.pTargetCnt i = _
    rw [pTargetCnt, if_pos hstart, if_pos hidle]
  have hlen : (i.ctrl.len.extractLsb' 2 30).toNat = i.ctrl.len.toNat / 4 := by
    have hlt := i.ctrl.len.isLt
    rw [BitVec.extractLsb'_toNat, Nat.shiftRight_eq_div_pow]
    omega
  rw [htarget]
  refine ⟨h.noWrite, ?_⟩
  rw [TargetCnt.remaining, hlen, carrierArea]
  apply List.map_congr_left
  intro k _
  apply BitVec.eq_of_toNat_eq
  have hlt := i.ctrl.carrierAddr.isLt
  rw [BitVec.toNat_append, BitVec.toNat_add, BitVec.extractLsb'_toNat, BitVec.toNat_ofNat,
    BitVec.toNat_ofNat, BitVec.toNat_ofNat, Nat.shiftRight_eq_div_pow, Nat.zero_mod,
    Nat.zero_shiftLeft, Nat.zero_or]
  omega

end L2pDmaMaster

/-! ## The master with its FIFO -/

namespace AddrGenerator

variable (gByteSwap : Bool) (s : AddrGenerator) (t : AddrGeneratorTick)

/-- The master writes an address into the FIFO. -/
def writes : Bool := t.clk.isSome && s.ldm.targetCnt.addrFifoWr

/-- One edge of either clock or of both. -/
def step : AddrGenerator where
  ldm := t.clk.elim s.ldm (s.ldm.step gByteSwap)
  addrFifo := s.addrFifo.tick (s.writes t) s.ldm.targetCnt.addrFifoDin t.addrFifoRd t.arrive

/-- The address that the FIFO takes. -/
def pushed : List Word := if s.writes t then [s.ldm.targetCnt.addrFifoDin] else []

/-- No transfer is started. -/
def NoStart (_ : AddrGenerator) (t : AddrGeneratorTick) : Prop :=
  ∀ i ∈ t.clk, i.ctrl.startL2p = false

instance : Decidable (s.NoStart t) := inferInstanceAs (Decidable (∀ i ∈ t.clk, _))

/-- The flag is raised when the FIFO holds 500 words or more. -/
def Flagged (s : AddrGenerator) (t : AddrGeneratorTick) : Prop :=
  ∀ i ∈ t.clk, 500 ≤ s.addrFifo.contents.length → i.addrFifoFull = true

/-- No word is written into a full FIFO. -/
def HasRoom (s : AddrGenerator) (t : AddrGeneratorTick) : Prop :=
  s.writes t = true → s.addrFifo.contents.length < 512

/-- The flag is low at an edge of `clk_i`. -/
def grants (t : AddrGeneratorTick) : Bool := t.clk.any fun i => !i.addrFifoFull

variable {s t}

/-! ## One edge -/

theorem held_conserves (hnone : s.NoStart t) :
    Conserves [] (s.pushed t) s.ldm.held (s.step gByteSwap t).ldm.held := by
  unfold Conserves
  cases hclk : t.clk with
  | none => simp [pushed, writes, step, hclk]
  | some i =>
      have hstep : (s.step gByteSwap t).ldm = s.ldm.step gByteSwap i := by simp [step, hclk]
      have hpushed : s.pushed t = s.ldm.addresses := by
        simp [pushed, writes, L2pDmaMaster.addresses, hclk]
      rw [hstep, hpushed, L2pDmaMaster.held_step gByteSwap (hnone i hclk), List.append_nil]
      rfl

theorem dmaLengthCnt_step (hnone : s.NoStart t) :
    (s.step gByteSwap t).ldm.targetCnt.dmaLengthCnt.toNat =
      s.ldm.targetCnt.dmaLengthCnt.toNat - (grants t).toNat := by
  cases hclk : t.clk with
  | none => simp [step, grants, hclk]
  | some i =>
      have hstep : (s.step gByteSwap t).ldm = s.ldm.step gByteSwap i := by simp [step, hclk]
      rw [hstep, L2pDmaMaster.dmaLengthCnt_step gByteSwap (hnone i hclk)]
      simp [grants, hclk]

/-- The address that is being written was counted while the FIFO was not almost full, and at most
one was written since. -/
def Below (s : AddrGenerator) : Prop :=
  s.ldm.targetCnt.addrFifoWr = true → s.addrFifo.contents.length ≤ 500

theorem Below.step (h : s.Below) (hnone : s.NoStart t) (hflag : s.Flagged t) :
    (s.step gByteSwap t).Below := by
  intro hwr
  have hlen : (s.step gByteSwap t).addrFifo.contents.length ≤
      s.addrFifo.contents.length + (s.writes t).toNat :=
    AsyncFifo.length_contents_tick_le _ _ _ _ _
  cases hclk : t.clk with
  | none =>
      have hwrites : s.writes t = false := by simp [writes, hclk]
      have hbelow := h (by simpa [AddrGenerator.step, hclk] using hwr)
      rw [hwrites] at hlen
      exact hlen.trans hbelow
  | some i =>
      have hstep : (s.step gByteSwap t).ldm = s.ldm.step gByteSwap i := by
        simp [AddrGenerator.step, hclk]
      rw [hstep] at hwr
      have hlow := L2pDmaMaster.addrFifoWr_step gByteSwap (hnone i hclk) hwr
      have hfill : s.addrFifo.contents.length < 500 := by
        by_contra hfull
        have hraised := hflag i hclk (Nat.le_of_not_lt hfull)
        rw [hlow] at hraised
        exact Bool.false_ne_true hraised
      have hone := Bool.toNat_le (s.writes t)
      omega

theorem Below.hasRoom (h : s.Below) : s.HasRoom t := by
  intro hwrites
  have hwr : s.ldm.targetCnt.addrFifoWr = true := (Bool.and_eq_true_iff.mp hwrites).2
  have hbelow := h hwr
  omega

/-! ## Runs -/

variable {ts : List AddrGeneratorTick}

/-- The words pushed and those still held are those held at first. -/
theorem pushed_flow (legal : Always (step gByteSwap) NoStart s ts) :
    log (step gByteSwap) pushed s ts ++ (run (step gByteSwap) s ts).ldm.held = s.ldm.held := by
  have hnothing : log (step gByteSwap) (fun _ _ => ([] : List Word)) s ts = [] :=
    log_eq_nil (fun _ _ _ => rfl) legal
  have hkeeps : ∀ s t, True → NoStart s t → True := fun _ _ _ _ => trivial
  have hflow : _ = s.ldm.held ++ log (step gByteSwap) (fun _ _ => []) s ts :=
    flow_run hkeeps (fun _ _ _ hnone => held_conserves gByteSwap hnone) legal trivial
  rw [hflow, hnothing, List.append_nil]

theorem dmaLengthCnt_run (legal : Always (step gByteSwap) NoStart s ts) :
    (run (step gByteSwap) s ts).ldm.targetCnt.dmaLengthCnt.toNat =
      s.ldm.targetCnt.dmaLengthCnt.toNat - ts.countP grants := by
  refine run_induction (motive := fun ts =>
    (run (step gByteSwap) s ts).ldm.targetCnt.dmaLengthCnt.toNat =
      s.ldm.targetCnt.dmaLengthCnt.toNat - ts.countP grants) legal rfl fun js t _ hnone ih => ?_
  rw [run_concat, dmaLengthCnt_step gByteSwap hnone, ih, List.countP_append, List.countP_singleton]
  cases grants t <;> simp [Nat.sub_sub]

/-- What the address FIFO gets of a transfer of `n` words from `c` on, whose start is accepted at
`t`, in the run `ts` after it. -/
structure Enumerates (s : AddrGenerator) (t : AddrGeneratorTick) (ts : List AddrGeneratorTick)
    (c : Word) (n : ℕ) : Prop where
  inOrder : log (step gByteSwap) pushed s (t :: ts) <+: carrierArea c n
  /-- One word for each edge with a low flag before the last one, as long as there are any. -/
  counted : ∀ before last, ts = before ++ [last] → last.clk.isSome = true →
    log (step gByteSwap) pushed s (t :: ts) = (carrierArea c n).take (before.countP grants)
  complete : ∀ before last rest, ts = before ++ last :: rest → last.clk.isSome = true →
    n ≤ before.countP grants → log (step gByteSwap) pushed s (t :: ts) = carrierArea c n
  hasRoom : Always (step gByteSwap) Flagged (s.step gByteSwap t) ts →
    Always (step gByteSwap) HasRoom s (t :: ts)

/-- The words that are pushed up to an edge of `clk_i` are those that were counted before it. -/
theorem pushed_concat (hwr : s.ldm.targetCnt.addrFifoWr = false)
    (legal : Always (step gByteSwap) NoStart s (ts ++ [t])) (hclk : t.clk.isSome = true) :
    log (step gByteSwap) pushed s (ts ++ [t]) =
      s.ldm.targetCnt.remaining.take (ts.countP grants) := by
  have hbefore := ((always_append _ _ _ _).mp legal).1
  have hlast : pushed (run (step gByteSwap) s ts) t =
      (run (step gByteSwap) s ts).ldm.addresses := by
    simp [pushed, writes, L2pDmaMaster.addresses, hclk]
  have hheld : s.ldm.held = s.ldm.targetCnt.remaining := by
    simp [L2pDmaMaster.held, L2pDmaMaster.addresses, hwr]
  have hflow : log (step gByteSwap) pushed s (ts ++ [t]) ++
      (run (step gByteSwap) s ts).ldm.targetCnt.remaining = s.ldm.targetCnt.remaining := by
    rw [log_concat, hlast, List.append_assoc, ← hheld, ← pushed_flow gByteSwap hbefore]
    rfl
  have hcount := dmaLengthCnt_run gByteSwap hbefore
  have hlen := congrArg List.length hflow
  simp only [List.length_append, TargetCnt.length_remaining, hcount] at hlen
  -- what was counted is no more than what there was
  have hpushed : (log (step gByteSwap) pushed s (ts ++ [t])).length =
      min (ts.countP grants) s.ldm.targetCnt.remaining.length := by
    rw [TargetCnt.length_remaining]
    omega
  have htake := congrArg (List.take (log (step gByteSwap) pushed s (ts ++ [t])).length) hflow
  rwa [List.take_left, hpushed, ← List.take_take, List.take_length] at htake

/-- **The address generator enumerates the carrier area.**  Let a start be accepted in the state
`L2P_IDLE` when no address is left or being written, whatever the FIFO holds, and let no other
start follow.  The words that the address FIFO gets are a prefix of the area's, one for each edge
with a low flag, and all of them after as many such edges as there are words.  If the flag is
raised whenever the FIFO holds 500 words, none is written into a full FIFO. -/
theorem addresses_enumerated (gByteSwap : Bool) (s : AddrGenerator) (t : AddrGeneratorTick)
    (i : L2pDmaIn) (ts : List AddrGeneratorTick) (hclk : t.clk = some i)
    (hwritten : s.ldm.AllWritten) (hidle : s.ldm.fsm.l2pDmaCurrentState = .idle)
    (hstart : i.ctrl.startL2p = true)
    (legal : Always (step gByteSwap) NoStart (s.step gByteSwap t) ts) :
    s.Enumerates gByteSwap t ts i.ctrl.carrierAddr (i.ctrl.len.toNat / 4) := by
  have hstep : (s.step gByteSwap t).ldm = s.ldm.step gByteSwap i := by simp [step, hclk]
  obtain ⟨hwr, hremaining⟩ := L2pDmaMaster.held_start gByteSwap hwritten hidle hstart
  rw [← hstep] at hwr hremaining
  -- the start itself pushes nothing
  have hwrites : s.writes t = false := by simp [writes, hwritten.noWrite]
  have hlog : log (step gByteSwap) pushed s (t :: ts) =
      log (step gByteSwap) pushed (s.step gByteSwap t) ts := by
    simp [pushed, hwrites]
  have hheld : (s.step gByteSwap t).ldm.held =
      carrierArea i.ctrl.carrierAddr (i.ctrl.len.toNat / 4) := by
    simp [L2pDmaMaster.held, L2pDmaMaster.addresses, hwr, hremaining]
  have hpushed := pushed_flow gByteSwap legal
  rw [hheld] at hpushed
  refine ⟨?_, ?_, ?_, ?_⟩
  · rw [hlog]
    exact ⟨_, hpushed⟩
  · rintro before last rfl hlast
    rw [hlog, pushed_concat gByteSwap hwr legal hlast, hremaining]
  · rintro before last rest rfl hlast hcount
    have happend : before ++ last :: rest = (before ++ [last]) ++ rest := by simp
    rw [happend] at legal
    have hall := pushed_concat gByteSwap hwr ((always_append _ _ _ _).mp legal).1 hlast
    rw [hremaining, List.take_of_length_le (by simpa [carrierArea] using hcount)] at hall
    rw [hlog, happend, log_append, hall]
    rw [happend, log_append, hall, List.append_assoc, List.append_right_eq_self,
      List.append_eq_nil_iff] at hpushed
    rw [hpushed.1, List.append_nil]
  · intro hflagged
    have hbelow : (s.step gByteSwap t).Below := fun h =>
      absurd (hwr.symm.trans h) Bool.false_ne_true
    have hroom := Always.of_invariant
      (fun _ _ h hok => Below.step gByteSwap h hok.1 hok.2)
      (legal.and hflagged) hbelow
    refine ⟨fun h => absurd (hwrites.symm.trans h) Bool.false_ne_true, ?_⟩
    exact hroom.mono fun s t h => Below.hasRoom h.1

/-- Two words at the very end of the address space. -/
def lastWord : DmaCtrl :=
  { DmaCtrl.quiet with carrierAddr := 0xFFFFFFFC#32, len := 8, startL2p := true }

/-- An edge of `clk_i` with the orders `ctrl`, at which nothing is read. -/
def clkEdge (ctrl : DmaCtrl) (addrFifoFull : Bool) : AddrGeneratorTick :=
  ⟨some (readEdge ctrl addrFifoFull true), false, 0⟩

/-- Between the two words the flag is high. -/
def flagBetween : List AddrGeneratorTick :=
  [clkEdge .quiet false, clkEdge .quiet true, ⟨none, true, 1⟩, clkEdge .quiet false,
    clkEdge .quiet true, clkEdge .quiet false]

theorem addresses_enumerated_wrap :
    Enumerates false ⟨.reset 0 false, ⟨[], [], 0⟩⟩ (clkEdge lastWord false) flagBetween
        0xFFFFFFFC#32 2 ∧
      log (step false) pushed ⟨.reset 0 false, ⟨[], [], 0⟩⟩
        (clkEdge lastWord false :: flagBetween) = [0x3FFFFFFF#32, 0#32] :=
  ⟨addresses_enumerated false ⟨.reset 0 false, ⟨[], [], 0⟩⟩ (clkEdge lastWord false)
      (readEdge lastWord false true) flagBetween rfl ⟨rfl, rfl⟩ rfl rfl (by decide),
    by decide⟩

end AddrGenerator

end Gn4124Core
