import Gn4124Core.Clocked.AsyncFifo
import Gn4124Core.DmaControl.Errors
import Gn4124Core.DmaWishbone.Requests

/-!
# Byte swapping

Bits 3 to 2 of `DMACTRLR` order a swap of the bytes of each half-word and of the half-words.  Both
DMA masters store them when they accept a start, and apply them where they load a data word: the
L2P DMA master into the register to the arbiter, in `L2P_DATA` and in `L2P_LAST_DATA`, the P2L DMA
master into the word that it writes into `to_wb_fifo`.  The generic `g_BYTE_SWAP` of each master
says whether the swap is implemented, and is `false` by default.  `gn4124_core` leaves it there.

Every data word is followed here from where it is read to where it is sent.  Next to a word stands
what it comes from (`Moved`): the word that was read, and the setting at the start of the transfer.
With the generic `true` every word is swapped as the setting says, whatever happens in a run
(`bothSwapped_iff`).  In `gn4124_core` no word is.
-/

namespace Gn4124Core

open Clocked

/-! ## The swap of a word -/

/-- The two bytes of each half-word exchanged. -/
def swapBytes (w : Word) : Word :=
  w.extractLsb' 16 8 ++ w.extractLsb' 24 8 ++ w.extractLsb' 0 8 ++ w.extractLsb' 8 8

/-- The two half-words exchanged. -/
def swapHalves (w : Word) : Word := w.extractLsb' 0 16 ++ w.extractLsb' 16 16

/-- The `m`-swap: the bytes if bit 0 is set, the half-words if bit 1 is set. -/
def swapped (m : BitVec 2) (w : Word) : Word :=
  let w' := if m.getLsbD 0 then swapBytes w else w
  if m.getLsbD 1 then swapHalves w' else w'

theorem getLsbD_swapBytes (w : Word) {n : ℕ} (hn : n < 32) :
    (swapBytes w).getLsbD n = w.getLsbD (if n / 8 % 2 = 0 then n + 8 else n - 8) := by
  unfold swapBytes
  split_ifs <;> grind

theorem getLsbD_swapHalves (w : Word) {n : ℕ} (hn : n < 32) :
    (swapHalves w).getLsbD n = w.getLsbD ((n + 16) % 32) := by
  unfold swapHalves
  grind

@[simp] theorem swapBytes_swapBytes (w : Word) : swapBytes (swapBytes w) = w := by
  apply BitVec.eq_of_getLsbD_eq
  intro n hn
  rw [getLsbD_swapBytes _ hn, getLsbD_swapBytes _ (by split_ifs <;> omega)]
  congr 1
  split_ifs <;> omega

@[simp] theorem swapHalves_swapHalves (w : Word) : swapHalves (swapHalves w) = w := by
  apply BitVec.eq_of_getLsbD_eq
  intro n hn
  rw [getLsbD_swapHalves _ hn, getLsbD_swapHalves _ (by omega)]
  congr 1
  omega

theorem swapHalves_swapBytes (w : Word) : swapHalves (swapBytes w) = swapBytes (swapHalves w) := by
  apply BitVec.eq_of_getLsbD_eq
  intro n hn
  rw [getLsbD_swapHalves _ hn, getLsbD_swapBytes _ (by omega), getLsbD_swapBytes _ hn,
    getLsbD_swapHalves _ (by split_ifs <;> omega)]
  congr 1
  split_ifs <;> omega

/-- Swapped twice, a word is as it was. -/
@[simp] theorem swapped_swapped (m : BitVec 2) (w : Word) : swapped m (swapped m w) = w := by
  unfold swapped
  cases m.getLsbD 0 <;> cases m.getLsbD 1 <;> simp [swapHalves_swapBytes]

/-- Both exchanges together turn the bytes of a word round. -/
theorem reversed_eq (w : Word) : w.extractLsb' 0 8 ++ w.extractLsb' 8 8 ++ w.extractLsb' 16 8 ++
    w.extractLsb' 24 8 = swapHalves (swapBytes w) := by
  apply BitVec.eq_of_getLsbD_eq
  intro n hn
  rw [getLsbD_swapHalves _ hn, getLsbD_swapBytes _ (by omega)]
  split_ifs <;> grind

/-- `f_byte_swap` computes the swap, when it is enabled. -/
theorem fByteSwap_enabled (w : Word) (m : BitVec 2) : fByteSwap true w m = swapped m w := by
  match m with
  | 0b00#2 => rfl
  | 0b01#2 => rfl
  | 0b10#2 => rfl
  | 0b11#2 => exact reversed_eq w

/-- Enabled or not, `f_byte_swap` undoes itself. -/
theorem fByteSwap_fByteSwap (enable : Bool) (w : Word) (m : BitVec 2) :
    fByteSwap enable (fByteSwap enable w m) m = w := by
  cases enable with
  | false => rfl
  | true => rw [fByteSwap_enabled, fByteSwap_enabled, swapped_swapped]

/-! ## The DMA engine and its data -/

/-- What a data word comes from: the word that was read, and bits 3 to 2 of `DMACTRLR` at the start
of its transfer. -/
structure Moved where
  source : Word
  swap : BitVec 2
deriving DecidableEq

/-- The DMA engine with the FIFOs for its data.  `l2pSwap` and `p2lSwap` are the settings at the
last start of each direction; `ldmSource` is what the word in the register to the arbiter comes
from, if it is a data word, and `dinSource` what the word at the input of `to_wb_fifo` comes
from. -/
structure DmaDatapath where
  core : DmaCore
  dataFifo : AsyncFifo Word
  wishbone : DmaWishbone (ToWbWord × Moved)
  l2pSwap : BitVec 2
  p2lSwap : BitVec 2
  ldmSource : Option Moved
  dinSource : Moved
deriving DecidableEq

/-- The host's writes, the decoder's lines, the grants, and the ready lines of the GN4124. -/
structure DmaDatapathClk where
  loads : DmaLoads
  pd : PdPdm
  arbPdmGnt : Bool
  arbLdmGnt : Bool
  lWrRdy : BitVec 2
  l2pRdy : Bool
  addrFifoFull : Bool
deriving DecidableEq

/-- What the P2L DMA master samples on the bus, and the word that the L2P DMA master reads. -/
structure DmaDatapathBus where
  p2l : P2lDmaWbPorts
  read : Option Word
deriving DecidableEq

/-- An edge of `clk_i`, of the clock of the DMA Wishbone bus or of both, and the words that finish
their way through the FIFOs. -/
structure DmaDatapathTick where
  clk : Option DmaDatapathClk
  bus : Option DmaDatapathBus
  dataArrive : ℕ
  toWbArrive : ℕ
deriving DecidableEq

/-- `g_BYTE_SWAP` of both DMA masters, as `gn4124_core` for Spartan-6 has them: neither
`cmp_l2p_dma_master` nor `cmp_p2l_dma_master` has a generic map. -/
def gn4124CoreByteSwap : Bool := false

namespace DmaDatapath

variable (gByteSwap : Bool) (s : DmaDatapath) (t : DmaDatapathTick)

/-- What the engine samples at an edge of `clk_i`. -/
def coreIn (i : DmaDatapathClk) : DmaCoreIn where
  loads := i.loads
  pd := i.pd
  arbPdmGnt := i.arbPdmGnt
  arbLdmGnt := i.arbLdmGnt
  lWrRdy := i.lWrRdy
  l2pRdy := i.l2pRdy
  addrFifoFull := i.addrFifoFull
  dataFifoEmpty := s.dataFifo.empty
  dataFifoDout := s.dataFifo.q

/-- The lines of the controller. -/
def lines : DmaCtrl := s.core.controller.lines

/-- The L2P DMA master loads a data word into the register to the arbiter. -/
def loadsWord (i : DmaDatapathClk) : Bool :=
  match s.core.l2p.fsm.l2pDmaCurrentState with
  | .data => s.core.l2p.dataFifoValid
  | .lastData => i.l2pRdy
  | _ => false

/-- The register to the arbiter may keep a data word in this state. -/
def keepsWord : Bool :=
  match s.core.l2p.fsm.l2pDmaCurrentState with
  | .data | .waitRdy | .waitData | .lastData => true
  | _ => false

/-- The P2L DMA master stores a data word. -/
def storesWord (i : DmaDatapathClk) : Bool :=
  s.core.p2l.storesWord (s.core.engine.masterIn (s.core.engineIn (s.coreIn i)))

/-- The word that the L2P DMA master reads. -/
def read (t : DmaDatapathTick) : Option Word := t.bus.bind DmaDatapathBus.read

/-- The words that the L2P DMA master reads. -/
def wordsRead (_ : DmaDatapath) (t : DmaDatapathTick) : List Word := (read t).toList

/-- The words of completions that the P2L DMA master stores. -/
def completionWords : List Word :=
  match t.clk with
  | some i => if s.storesWord i then [i.pd.data] else []
  | none => []

/-- What waits at the input of `to_wb_fifo` for an edge of `clk_i`. -/
def pending : List (ToWbWord × Moved) :=
  if s.core.p2l.addrCnt.toWbFifoWr then [(s.core.p2l.addrCnt.toWbFifoDin, s.dinSource)] else []

def wbTick : DmaWbTick DmaWbPorts (ToWbWord × Moved) where
  wb := t.bus.map fun b => b.p2l.ports
  write := if t.clk.isSome then s.pending.head? else none
  arrive := t.toWbArrive

/-- What an edge of `clk_i` does to the engine and to what its words come from. -/
def stepClk (i : DmaDatapathClk) : DmaDatapath :=
  { s with
    core := s.core.step gByteSwap (s.coreIn i)
    l2pSwap :=
      if s.lines.startL2p && s.core.l2p.fsm.l2pDmaCurrentState = .idle then s.lines.byteSwap
      else s.l2pSwap
    p2lSwap :=
      if s.lines.startP2l && s.core.p2l.fsm.p2lDmaCurrentState = .idle then s.lines.byteSwap
      else s.p2lSwap
    ldmSource :=
      if s.loadsWord i then some ⟨s.dataFifo.q, s.l2pSwap⟩
      else if s.keepsWord then s.ldmSource
      else none
    dinSource := if s.storesWord i then ⟨i.pd.data, s.p2lSwap⟩ else s.dinSource }

def step : DmaDatapath :=
  let s' := t.clk.elim s (s.stepClk gByteSwap)
  { s' with
    dataFifo := s.dataFifo.tick (read t).isSome ((read t).getD 0) (t.clk.isSome && s.core.l2p.fsm.dataFifoRd)
      t.dataArrive
    wishbone := s.wishbone.step (s.wbTick t) }

/-- Reset, which leaves some registers open. -/
def reset (addrFifoDin : Word) (dataFifoValid : Bool) (dataFifoDout : Word) (toWbFifoDout : ToWbWord) :
    DmaDatapath where
  core := .reset addrFifoDin dataFifoValid
  dataFifo := ⟨[], [], dataFifoDout⟩
  wishbone := .reset (⟨0, 0⟩, ⟨0, 0⟩) (toWbFifoDout, ⟨0, 0⟩)
  l2pSwap := 0
  p2lSwap := 0
  ldmSource := none
  dinSource := ⟨0, 0⟩

/-- The data words that the L2P DMA master sends, each with what it comes from. -/
def sent : List (Word × Moved) :=
  if t.clk.isSome && s.core.l2p.fsm.ldmArbValid then
    s.ldmSource.toList.map fun o => (s.core.l2p.fsm.ldmArbData, o)
  else []

/-- The data words written on the DMA Wishbone bus, each with what it comes from. -/
def written : List (Word × Moved) := (s.wishbone.accepted (s.wbTick t)).map fun w => (w.1.data, w.2)

variable {gByteSwap s t} {i : DmaDatapathClk}

/-! ## One edge of the masters -/

theorem l2pByteSwap_step : (s.core.step gByteSwap (s.coreIn i)).l2p.pktGen.l2pByteSwap =
    if s.lines.startL2p && s.core.l2p.fsm.l2pDmaCurrentState = .idle then s.lines.byteSwap
    else s.core.l2p.pktGen.l2pByteSwap := by
  show (s.core.l2p.pPktGen (s.core.l2pIn (s.coreIn i))).l2pByteSwap = _
  have hline : (s.core.l2pIn (s.coreIn i)).ctrl = s.lines := rfl
  cases hstate : s.core.l2p.fsm.l2pDmaCurrentState with
  | idle =>
      simp only [L2pDmaMaster.pPktGen, hstate, hline]
      cases s.lines.startL2p <;> simp
  | waitData => simp [L2pDmaMaster.pPktGen, hstate]
  | header => simp [L2pDmaMaster.pPktGen, hstate]
  | addrH => simp [L2pDmaMaster.pPktGen, hstate]
  | addrL =>
      simp only [L2pDmaMaster.pPktGen, hstate]
      split_ifs <;> simp_all
  | data =>
      simp only [L2pDmaMaster.pPktGen, hstate]
      split_ifs <;> simp_all
  | lastData =>
      simp only [L2pDmaMaster.pPktGen, hstate]
      split_ifs <;> simp_all
  | waitRdy => simp [L2pDmaMaster.pPktGen, hstate]

theorem toWbFifoByteSwap_step :
    (s.core.step gByteSwap (s.coreIn i)).p2l.addrCnt.toWbFifoByteSwap =
      if s.lines.startP2l && s.core.p2l.fsm.p2lDmaCurrentState = .idle then s.lines.byteSwap
      else s.core.p2l.addrCnt.toWbFifoByteSwap := by
  show (s.core.p2l.pAddrCnt gByteSwap (s.core.engine.masterIn (s.core.engineIn (s.coreIn i)))).toWbFifoByteSwap = _
  have hline : (s.core.engine.masterIn (s.core.engineIn (s.coreIn i))).ctrl = s.lines := rfl
  unfold P2lDmaMaster.pAddrCnt
  rw [hline]
  cases hstart : s.lines.startP2l with
  | true =>
      by_cases hidle : s.core.p2l.fsm.p2lDmaCurrentState = .idle <;> simp [hidle]
  | false =>
      simp only [Bool.false_eq_true, if_false]
      split_ifs <;> simp_all

/-- A data word is loaded with its bytes swapped as ordered, wherever it is loaded. -/
theorem ldmArbData_of_loads (h : s.loadsWord i = true) :
    (s.core.step gByteSwap (s.coreIn i)).l2p.fsm.ldmArbData =
      fByteSwap gByteSwap s.dataFifo.q s.core.l2p.pktGen.l2pByteSwap := by
  show (s.core.l2p.pPktFsm gByteSwap (s.core.l2pIn (s.coreIn i))).ldmArbData = _
  have hword : s.core.l2p.dataWord gByteSwap (s.core.l2pIn (s.coreIn i)) =
      fByteSwap gByteSwap s.dataFifo.q s.core.l2p.pktGen.l2pByteSwap := rfl
  unfold loadsWord at h
  cases hstate : s.core.l2p.fsm.l2pDmaCurrentState with
  | data =>
      simp only [hstate] at h
      simp only [L2pDmaMaster.pPktFsm, hstate, h, if_true, hword]
      split_ifs <;> rfl
  | lastData =>
      simp only [hstate] at h
      have hrdy : (s.core.l2pIn (s.coreIn i)).l2pRdy = true := h
      simp only [L2pDmaMaster.pPktFsm, hstate, hrdy, if_true, hword]
  | idle | waitData | header | addrH | addrL | waitRdy => simp [hstate] at h

theorem ldmArbData_of_keeps (h : s.keepsWord = true) (hloads : s.loadsWord i = false) :
    (s.core.step gByteSwap (s.coreIn i)).l2p.fsm.ldmArbData = s.core.l2p.fsm.ldmArbData := by
  show (s.core.l2p.pPktFsm gByteSwap (s.core.l2pIn (s.coreIn i))).ldmArbData = _
  unfold keepsWord at h
  unfold loadsWord at hloads
  cases hstate : s.core.l2p.fsm.l2pDmaCurrentState with
  | data =>
      simp only [hstate] at hloads
      simp only [L2pDmaMaster.pPktFsm, hstate, hloads, Bool.false_eq_true, if_false]
      split_ifs <;> rfl
  | waitRdy =>
      simp only [L2pDmaMaster.pPktFsm, hstate]
      split_ifs <;> rfl
  | waitData =>
      simp only [L2pDmaMaster.pPktFsm, hstate]
      split_ifs <;> rfl
  | lastData =>
      simp only [hstate] at hloads
      have hrdy : (s.core.l2pIn (s.coreIn i)).l2pRdy = false := hloads
      simp [L2pDmaMaster.pPktFsm, hstate, hrdy]
  | idle | header | addrH | addrL => simp [hstate] at h

theorem toWbFifoDin_step : (s.core.step gByteSwap (s.coreIn i)).p2l.addrCnt.toWbFifoDin.data =
    if s.storesWord i then fByteSwap gByteSwap i.pd.data s.core.p2l.addrCnt.toWbFifoByteSwap
    else s.core.p2l.addrCnt.toWbFifoDin.data := by
  show (s.core.p2l.pAddrCnt gByteSwap (s.core.engine.masterIn (s.core.engineIn (s.coreIn i)))).toWbFifoDin.data = _
  unfold P2lDmaMaster.pAddrCnt storesWord
  split_ifs with hstart hidle hstores <;> simp_all [P2lDmaMaster.storesWord, DmaEngine.masterIn,
    DmaCore.engineIn, coreIn]

/-! ## What every word comes from -/

/-- The word has been swapped as the masters do it. -/
def FromSource (gByteSwap : Bool) (w : Word × Moved) : Prop :=
  w.1 = fByteSwap gByteSwap w.2.source w.2.swap

instance (gByteSwap : Bool) (w : Word × Moved) : Decidable (FromSource gByteSwap w) :=
  inferInstanceAs (Decidable (_ = _))

/-- The masters have stored the settings, and every data word comes from its source. -/
structure Following (gByteSwap : Bool) (s : DmaDatapath) : Prop where
  l2pSwap : s.core.l2p.pktGen.l2pByteSwap = s.l2pSwap
  p2lSwap : s.core.p2l.addrCnt.toWbFifoByteSwap = s.p2lSwap
  ldm : ∀ o ∈ s.ldmSource, FromSource gByteSwap (s.core.l2p.fsm.ldmArbData, o)
  din : FromSource gByteSwap (s.core.p2l.addrCnt.toWbFifoDin.data, s.dinSource)
  wb : ∀ w ∈ s.wishbone.inFlight ++ s.wishbone.fifo.contents, FromSource gByteSwap (w.1.data, w.2)

theorem reset_following (gByteSwap : Bool) (addrFifoDin : Word) (dataFifoValid : Bool)
    (dataFifoDout : Word) (toWbFifoDout : ToWbWord) :
    Following gByteSwap (reset addrFifoDin dataFifoValid dataFifoDout toWbFifoDout) := by
  refine ⟨rfl, rfl, fun o ho => ?_, ?_, fun w hw => ?_⟩
  · simp [reset] at ho
  · cases gByteSwap <;> rfl
  · have hnone : (reset addrFifoDin dataFifoValid dataFifoDout toWbFifoDout).wishbone.inFlight ++
        (reset addrFifoDin dataFifoValid dataFifoDout toWbFifoDout).wishbone.fifo.contents = [] := rfl
    rw [hnone] at hw
    simp at hw

theorem Following.pending (h : s.Following gByteSwap) :
    ∀ w ∈ s.pending, FromSource gByteSwap (w.1.data, w.2) := by
  intro w hw
  unfold DmaDatapath.pending at hw
  split_ifs at hw
  · rw [List.mem_singleton.mp hw]
    exact h.din
  · simp at hw

variable (gByteSwap s t) in
theorem wb_conserves : Conserves (s.wishbone.written (s.wbTick t)) (s.wishbone.strobed (s.wbTick t))
    (s.wishbone.inFlight ++ s.wishbone.fifo.contents)
    ((step gByteSwap s t).wishbone.inFlight ++ (step gByteSwap s t).wishbone.fifo.contents) :=
  DmaWishbone.inFlight_conserves.comp DmaWishbone.fifo_conserves

/-- What enters the FIFO has been waiting at its input. -/
theorem mem_pending_of_written {w : ToWbWord × Moved}
    (hw : w ∈ s.wishbone.written (s.wbTick t)) : w ∈ s.pending := by
  unfold DmaWishbone.written wbTick at hw
  cases hclk : t.clk with
  | none => simp [hclk] at hw
  | some i =>
      simp only [hclk, Option.isSome_some, if_true, Option.mem_toList] at hw
      exact List.mem_of_mem_head? hw

/-- The edge of `clk_i`. -/
theorem Following.stepClk (h : s.Following gByteSwap) :
    (DmaDatapath.stepClk gByteSwap s i).Following gByteSwap := by
  obtain ⟨hl2p, hp2l, hldm, hdin, hwb⟩ := h
  refine ⟨?_, ?_, ?_, ?_, hwb⟩
  · show (s.core.step gByteSwap (s.coreIn i)).l2p.pktGen.l2pByteSwap = _
    rw [l2pByteSwap_step, hl2p]
    rfl
  · show (s.core.step gByteSwap (s.coreIn i)).p2l.addrCnt.toWbFifoByteSwap = _
    rw [toWbFifoByteSwap_step, hp2l]
    rfl
  · intro o ho
    show (s.core.step gByteSwap (s.coreIn i)).l2p.fsm.ldmArbData = fByteSwap gByteSwap o.source o.swap
    simp only [DmaDatapath.stepClk] at ho
    cases hloads : s.loadsWord i with
    | true =>
        rw [hloads, if_pos rfl, Option.mem_some_iff] at ho
        rw [ldmArbData_of_loads hloads, hl2p, ← ho]
    | false =>
        cases hkeeps : s.keepsWord with
        | true =>
            simp only [hloads, hkeeps, Bool.false_eq_true, if_false, if_true] at ho
            rw [ldmArbData_of_keeps hkeeps hloads]
            exact hldm o ho
        | false => simp [hloads, hkeeps] at ho
  · show (s.core.step gByteSwap (s.coreIn i)).p2l.addrCnt.toWbFifoDin.data =
      fByteSwap gByteSwap (DmaDatapath.stepClk gByteSwap s i).dinSource.source
        (DmaDatapath.stepClk gByteSwap s i).dinSource.swap
    rw [toWbFifoDin_step, hp2l]
    simp only [DmaDatapath.stepClk]
    split_ifs
    · rfl
    · exact hdin

theorem Following.step (h : s.Following gByteSwap) :
    (DmaDatapath.step gByteSwap s t).Following gByteSwap := by
  have hwb := (wb_conserves gByteSwap s t).forall_mem
    (P := fun w => FromSource gByteSwap (w.1.data, w.2)) h.wb
    fun w hw => h.pending w (mem_pending_of_written hw)
  cases hclk : t.clk with
  | none =>
      obtain ⟨hl2p, hp2l, hldm, hdin, -⟩ := h
      refine ⟨?_, ?_, ?_, ?_, hwb.2⟩ <;> simpa only [DmaDatapath.step, hclk, Option.elim_none]
  | some i =>
      obtain ⟨hl2p, hp2l, hldm, hdin, -⟩ := h.stepClk (i := i)
      refine ⟨?_, ?_, ?_, ?_, hwb.2⟩ <;> simpa only [DmaDatapath.step, hclk, Option.elim_some]

theorem Following.sent (h : s.Following gByteSwap) :
    ∀ w ∈ DmaDatapath.sent s t, FromSource gByteSwap w := by
  intro w hw
  unfold DmaDatapath.sent at hw
  split_ifs at hw
  · obtain ⟨o, ho, rfl⟩ := List.mem_map.mp hw
    exact h.ldm o (Option.mem_toList.mp ho)
  · simp at hw

theorem Following.written (h : s.Following gByteSwap) :
    ∀ w ∈ DmaDatapath.written s t, FromSource gByteSwap w := by
  intro w hw
  obtain ⟨x, hx, rfl⟩ := List.mem_map.mp hw
  have hstrobed := (wb_conserves gByteSwap s t).forall_mem
    (P := fun w => FromSource gByteSwap (w.1.data, w.2)) h.wb
    fun w hw => h.pending w (mem_pending_of_written hw)
  exact hstrobed.1 x (DmaWishbone.strobed_of_accepted hx)

/-! ## The sources are words that were read -/

/-- Nothing has been taken out of the data FIFO yet, and the packet FSM does before it sends
data. -/
def Unread (s : DmaDatapath) : Prop := s.core.l2p.Unread (s.dataFifo.ready ≠ [])

/-- The data FIFO is read. -/
def reads (s : DmaDatapath) (t : DmaDatapathTick) : Bool :=
  t.clk.isSome && s.core.l2p.fsm.dataFifoRd && !s.dataFifo.empty

variable (gByteSwap) in
theorem dataFifo_step : (step gByteSwap s t).dataFifo =
    s.dataFifo.tick (read t).isSome ((read t).getD 0) (s.reads t) t.dataArrive := by
  have htick := AsyncFifo.tick_rd s.dataFifo (read t).isSome ((read t).getD 0)
    (t.clk.isSome && s.core.l2p.fsm.dataFifoRd) t.dataArrive
  exact htick

theorem ready_of_reads (h : s.reads t = true) : s.dataFifo.ready ≠ [] := by
  apply AsyncFifo.ready_ne_nil
  simp only [reads, Bool.and_eq_true, Bool.not_eq_true'] at h
  exact h.2

theorem Unread.step (h : s.Unread) (hreads : s.reads t = false) :
    (DmaDatapath.step gByteSwap s t).Unread := by
  have hready : s.dataFifo.ready ≠ [] → (DmaDatapath.step gByteSwap s t).dataFifo.ready ≠ [] := by
    intro hne
    rw [dataFifo_step gByteSwap, hreads]
    exact AsyncFifo.tick_false_ready_ne_nil hne _ _ _
  unfold Unread at h ⊢
  cases hclk : t.clk with
  | none =>
      have hcore : (DmaDatapath.step gByteSwap s t).core = s.core := by simp [DmaDatapath.step, hclk]
      rw [hcore]
      exact h.mono hready
  | some i =>
      have hl2p : (DmaDatapath.step gByteSwap s t).core.l2p =
          s.core.l2p.step gByteSwap (s.core.l2pIn (s.coreIn i)) := by
        simp [DmaDatapath.step, DmaDatapath.stepClk, DmaCore.step, hclk]
      rw [hl2p]
      refine h.step AsyncFifo.empty_eq_false ?_ hready
      rintro ⟨hrd, hne⟩
      simp [reads, hclk, hrd, AsyncFifo.empty_eq_false.mpr hne] at hreads

/-- Every source is a word that was read, on the bus or in a completion. -/
structure Sourced (reads completions : List Word) (s : DmaDatapath) : Prop where
  fifo : ∀ w ∈ s.dataFifo.contents, w ∈ reads
  shown : s.dataFifo.q ∈ reads ∨ s.Unread
  ldm : ∀ o ∈ s.ldmSource, o.source ∈ reads
  pending : ∀ w ∈ s.pending, w.2.source ∈ completions
  wb : ∀ w ∈ s.wishbone.inFlight ++ s.wishbone.fifo.contents, w.2.source ∈ completions

theorem reset_sourced (addrFifoDin : Word) (dataFifoValid : Bool) (dataFifoDout : Word)
    (toWbFifoDout : ToWbWord) :
    Sourced [] [] (reset addrFifoDin dataFifoValid dataFifoDout toWbFifoDout) := by
  refine ⟨fun w hw => ?_, .inr trivial, fun o ho => ?_, fun w hw => ?_, fun w hw => ?_⟩
  · simp [reset, AsyncFifo.contents] at hw
  · simp [reset] at ho
  · simp [reset, DmaDatapath.pending, DmaCore.p2l, DmaCore.reset, DmaEngine.reset,
      P2lDmaMaster.reset] at hw
  · simp [reset, DmaWishbone.inFlight, DmaWishbone.reset, DmaWbMaster.reset, AsyncFifo.contents] at hw

variable {rs cs : List Word}

/-- What the data FIFO shows and holds has been read on the bus. -/
theorem Sourced.fifo_step (h : s.Sourced rs cs) :
    (∀ w ∈ (step gByteSwap s t).dataFifo.contents, w ∈ rs ++ s.wordsRead t) ∧
      ((step gByteSwap s t).dataFifo.q ∈ rs ++ s.wordsRead t ∨ (step gByteSwap s t).Unread) := by
  have hflow := AsyncFifo.contents_tick (f := s.dataFifo) (ready_of_reads (t := t))
    (read t).isSome ((read t).getD 0) t.dataArrive
  rw [← dataFifo_step gByteSwap] at hflow
  have hwords : (if (read t).isSome then [(read t).getD 0] else []) = s.wordsRead t := by
    unfold wordsRead
    cases read t <;> rfl
  rw [hwords] at hflow
  have hknown : ∀ w ∈ s.dataFifo.contents ++ s.wordsRead t, w ∈ rs ++ s.wordsRead t := by
    intro w hw
    rcases List.mem_append.mp hw with hold | hnew
    · exact List.mem_append_left _ (h.fifo w hold)
    · exact List.mem_append_right _ hnew
  rw [← hflow, List.forall_mem_append] at hknown
  refine ⟨hknown.2, ?_⟩
  cases hreads : s.reads t with
  | true =>
      left
      rw [hreads, if_pos rfl] at hknown
      exact hknown.1 _ (List.mem_singleton.mpr rfl)
  | false =>
      rcases h.shown with hshown | hunread
      · left
        rw [dataFifo_step gByteSwap, hreads, AsyncFifo.tick_false_q]
        exact List.mem_append_left _ hshown
      · exact .inr (hunread.step hreads)

/-- A data word is loaded from a FIFO that has been read. -/
theorem Sourced.q_of_loads (h : s.Sourced rs cs) (hloads : s.loadsWord i = true) :
    s.dataFifo.q ∈ rs := by
  rcases h.shown with hshown | hunread
  · exact hshown
  · unfold Unread L2pDmaMaster.Unread at hunread
    unfold loadsWord at hloads
    cases hstate : s.core.l2p.fsm.l2pDmaCurrentState <;> simp_all

theorem Sourced.ldm_step (h : s.Sourced rs cs) :
    ∀ o ∈ (step gByteSwap s t).ldmSource, o.source ∈ rs ++ s.wordsRead t := by
  intro o ho
  apply List.mem_append_left
  cases hclk : t.clk with
  | none =>
      simp only [step, hclk, Option.elim_none] at ho
      exact h.ldm o ho
  | some i =>
      simp only [step, stepClk, hclk, Option.elim_some] at ho
      cases hloads : s.loadsWord i with
      | true =>
          rw [hloads, if_pos rfl, Option.mem_some_iff] at ho
          rw [← ho]
          exact h.q_of_loads hloads
      | false =>
          rw [hloads] at ho
          cases hkeeps : s.keepsWord with
          | true => exact h.ldm o (by simpa [hkeeps] using ho)
          | false => simp [hkeeps] at ho

theorem Sourced.pending_step (h : s.Sourced rs cs) :
    ∀ w ∈ (step gByteSwap s t).pending, w.2.source ∈ cs ++ s.completionWords t := by
  intro w hw
  cases hclk : t.clk with
  | none =>
      have hsame : (step gByteSwap s t).pending = s.pending := by
        simp [step, hclk, DmaDatapath.pending]
      rw [hsame] at hw
      exact List.mem_append_left _ (h.pending w hw)
  | some i =>
      have hp2l : (step gByteSwap s t).core.p2l =
          s.core.p2l.step gByteSwap (s.core.engine.masterIn (s.core.engineIn (s.coreIn i))) := by
        simp [step, stepClk, hclk, DmaCore.step, DmaCore.p2l, DmaEngine.step]
      have hsource : (step gByteSwap s t).dinSource =
          if s.storesWord i then ⟨i.pd.data, s.p2lSwap⟩ else s.dinSource := by
        simp [step, stepClk, hclk]
      unfold DmaDatapath.pending at hw
      split_ifs at hw with hwr
      · rw [List.mem_singleton.mp hw]
        simp only [hsource]
        rw [hp2l] at hwr
        cases hstart : (s.core.engine.masterIn (s.core.engineIn (s.coreIn i))).ctrl.startP2l with
        | true =>
            -- a start order leaves the strobe as it is, and stores nothing
            rw [P2lDmaMaster.toWbFifoWr_start gByteSwap hstart] at hwr
            have hstores : s.storesWord i = false := by
              simp [storesWord, P2lDmaMaster.storesWord, hstart]
            have hold : (s.core.p2l.addrCnt.toWbFifoDin, s.dinSource) ∈ s.pending := by
              simp [DmaDatapath.pending, hwr]
            rw [hstores]
            exact List.mem_append_left _ (h.pending _ hold)
        | false =>
            rw [P2lDmaMaster.toWbFifoWr_step gByteSwap hstart] at hwr
            have hstores : s.storesWord i = true := hwr
            have hword : s.completionWords t = [i.pd.data] := by simp [completionWords, hclk, hstores]
            rw [hstores, if_pos rfl, hword]
            exact List.mem_append_right _ (List.mem_singleton.mpr rfl)
      · simp at hw

variable (gByteSwap) in
theorem Sourced.wb_step (h : s.Sourced rs cs) :
    (∀ w ∈ s.wishbone.strobed (s.wbTick t), w.2.source ∈ cs) ∧
      ∀ w ∈ (step gByteSwap s t).wishbone.inFlight ++ (step gByteSwap s t).wishbone.fifo.contents,
        w.2.source ∈ cs :=
  (wb_conserves gByteSwap s t).forall_mem (P := fun w => w.2.source ∈ cs) h.wb
    fun w hw => h.pending w (mem_pending_of_written hw)

theorem Sourced.step (h : s.Sourced rs cs) :
    (DmaDatapath.step gByteSwap s t).Sourced (rs ++ s.wordsRead t) (cs ++ s.completionWords t) where
  fifo := h.fifo_step.1
  shown := h.fifo_step.2
  ldm := h.ldm_step
  pending := h.pending_step
  wb := fun w hw => List.mem_append_left _ ((h.wb_step gByteSwap).2 w hw)

theorem Sourced.sent (h : s.Sourced rs cs) : ∀ w ∈ DmaDatapath.sent s t, w.2.source ∈ rs := by
  intro w hw
  unfold DmaDatapath.sent at hw
  split_ifs at hw
  · obtain ⟨o, ho, rfl⟩ := List.mem_map.mp hw
    exact h.ldm o (Option.mem_toList.mp ho)
  · simp at hw

theorem Sourced.written (h : s.Sourced rs cs) : ∀ w ∈ DmaDatapath.written s t, w.2.source ∈ cs := by
  intro w hw
  obtain ⟨x, hx, rfl⟩ := List.mem_map.mp hw
  exact (h.wb_step false).1 x (DmaWishbone.strobed_of_accepted hx)

/-! ## Runs -/

section Runs

variable {s₀ : DmaDatapath} {is : List DmaDatapathTick}

theorem following_run (h : s₀.Following gByteSwap) :
    Always (step gByteSwap) (fun s _ => s.Following gByteSwap) s₀ is :=
  always_stable (fun _ _ h => h.step) h is

variable (gByteSwap is) in
/-- Every word sent and every word written has a source that was read before. -/
theorem sourced_run (h : s₀.Sourced [] []) :
    (run (step gByteSwap) s₀ is).Sourced (log (step gByteSwap) wordsRead s₀ is)
        (log (step gByteSwap) completionWords s₀ is) ∧
      (∀ w ∈ log (step gByteSwap) sent s₀ is,
        w.2.source ∈ log (step gByteSwap) wordsRead s₀ is) ∧
      ∀ w ∈ log (step gByteSwap) written s₀ is,
        w.2.source ∈ log (step gByteSwap) completionWords s₀ is := by
  induction is using List.reverseRecOn with
  | nil => exact ⟨h, fun w hw => by simp at hw, fun w hw => by simp at hw⟩
  | append_singleton is t ih =>
      obtain ⟨hsourced, hsent, hwritten⟩ := ih
      simp only [run_concat, log_concat]
      refine ⟨hsourced.step, fun w hw => ?_, fun w hw => ?_⟩
      · rcases List.mem_append.mp hw with hold | hnew
        · exact List.mem_append_left _ (hsent w hold)
        · exact List.mem_append_left _ (hsourced.sent w hnew)
      · rcases List.mem_append.mp hw with hold | hnew
        · exact List.mem_append_left _ (hwritten w hold)
        · exact List.mem_append_left _ (hsourced.written w hnew)

/-- Each data word is swapped as the setting at the start of its transfer says, in both
directions. -/
def BothSwapped (gByteSwap : Bool) (s₀ : DmaDatapath) (is : List DmaDatapathTick) : Prop :=
  (∀ w ∈ log (step gByteSwap) sent s₀ is, w.1 = swapped w.2.swap w.2.source) ∧
    ∀ w ∈ log (step gByteSwap) written s₀ is, w.1 = swapped w.2.swap w.2.source

/-- The swap that is ordered leaves each of the words as it is. -/
def NothingToSwap (gByteSwap : Bool) (s₀ : DmaDatapath) (is : List DmaDatapathTick) : Prop :=
  (∀ w ∈ log (step gByteSwap) sent s₀ is, swapped w.2.swap w.2.source = w.2.source) ∧
    ∀ w ∈ log (step gByteSwap) written s₀ is, swapped w.2.swap w.2.source = w.2.source

/-- A word that is written, read again and sent with the same setting is the word of the
completion. -/
def RoundTrips (gByteSwap : Bool) (s₀ : DmaDatapath) (is : List DmaDatapathTick) : Prop :=
  ∀ v ∈ log (step gByteSwap) written s₀ is, ∀ w ∈ log (step gByteSwap) sent s₀ is,
    w.2 = ⟨v.1, v.2.swap⟩ → w.1 = v.2.source

instance : Decidable (BothSwapped gByteSwap s₀ is) := inferInstanceAs (Decidable (_ ∧ _))

variable (is) in
theorem moved_run (h : s₀.Following gByteSwap) :
    (∀ w ∈ log (step gByteSwap) sent s₀ is, FromSource gByteSwap w) ∧
      ∀ w ∈ log (step gByteSwap) written s₀ is, FromSource gByteSwap w := by
  rw [forall_mem_log, forall_mem_log]
  exact ⟨(following_run h).mono fun _ _ h => h.sent, (following_run h).mono fun _ _ h => h.written⟩

variable (is) in
/-- The words are swapped with the generic `true`, and without it where there is nothing to swap. -/
theorem bothSwapped_iff (h : s₀.Following gByteSwap) :
    BothSwapped gByteSwap s₀ is ↔ gByteSwap = true ∨ NothingToSwap gByteSwap s₀ is := by
  obtain ⟨hsent, hwritten⟩ := moved_run is h
  unfold BothSwapped NothingToSwap
  cases gByteSwap with
  | true =>
      have hswap : ∀ w : Word × Moved, FromSource true w → w.1 = swapped w.2.swap w.2.source :=
        fun w hw => hw.trans (fByteSwap_enabled _ _)
      exact iff_of_true ⟨fun w hw => hswap w (hsent w hw), fun w hw => hswap w (hwritten w hw)⟩ (.inl rfl)
  | false =>
      have hsame : ∀ w : Word × Moved, FromSource false w →
          (w.1 = swapped w.2.swap w.2.source ↔ swapped w.2.swap w.2.source = w.2.source) := by
        intro w hw
        have hplain : w.1 = w.2.source := hw
        rw [hplain, eq_comm]
      simp only [Bool.false_eq_true, false_or]
      exact and_congr (forall₂_congr fun w hw => hsame w (hsent w hw))
        (forall₂_congr fun w hw => hsame w (hwritten w hw))

theorem roundTrips (h : s₀.Following gByteSwap) : RoundTrips gByteSwap s₀ is := by
  obtain ⟨hsent, hwritten⟩ := moved_run is h
  intro v hv w hw hback
  calc w.1 = fByteSwap gByteSwap w.2.source w.2.swap := hsent w hw
    _ = fByteSwap gByteSwap v.1 v.2.swap := by rw [hback]
    _ = fByteSwap gByteSwap (fByteSwap gByteSwap v.2.source v.2.swap) v.2.swap := by rw [hwritten v hv]
    _ = v.2.source := fByteSwap_fByteSwap _ _ _

end Runs

/-- **Byte swapping in `gn4124_core`.**  In every run from reset, with any interleaving of the two
clocks: every data word that the L2P DMA master sends comes from a word that it has read on the DMA
Wishbone bus, and every word that the slave accepts from the P2L DMA master from a word of a
completion.  All of them are swapped as `DMACTRLR` says if and only if the swap leaves each of them
as it is.  A word that makes its way to the carrier and back with the same setting is unchanged. -/
theorem byte_swap_iff (addrFifoDin : Word) (dataFifoValid : Bool) (dataFifoDout : Word)
    (toWbFifoDout : ToWbWord) (is : List DmaDatapathTick) :
    let core := step gn4124CoreByteSwap
    let s₀ := reset addrFifoDin dataFifoValid dataFifoDout toWbFifoDout
    (∀ w ∈ log core sent s₀ is, w.2.source ∈ log core wordsRead s₀ is) ∧
      (∀ w ∈ log core written s₀ is, w.2.source ∈ log core completionWords s₀ is) ∧
      (BothSwapped gn4124CoreByteSwap s₀ is ↔ NothingToSwap gn4124CoreByteSwap s₀ is) ∧
      RoundTrips gn4124CoreByteSwap s₀ is := by
  intro core s₀
  have hfollowing := reset_following gn4124CoreByteSwap addrFifoDin dataFifoValid dataFifoDout
    toWbFifoDout
  have hsourced := reset_sourced addrFifoDin dataFifoValid dataFifoDout toWbFifoDout
  obtain ⟨-, hsent, hwritten⟩ := sourced_run gn4124CoreByteSwap is hsourced
  have hiff := bothSwapped_iff is hfollowing
  refine ⟨hsent, hwritten, ?_, roundTrips hfollowing⟩
  exact hiff.trans (or_iff_right Bool.false_ne_true)

/-! ### One word in each direction -/

/-- An edge of `clk_i`, with everything ready. -/
def clkEdge (loads : DmaLoads) (pd : PdPdm) : DmaDatapathTick :=
  ⟨some ⟨loads, pd, true, true, 0b11#2, true, false⟩, none, 0, 1⟩

/-- The host orders a transfer of one word, with the bytes of each half-word to be exchanged. -/
def orderEdge (attrib : Word) : DmaDatapathTick :=
  clkEdge { DmaLoads.none with dmaCtrl := some 5, dmaLen := some 4, dmaAttrib := some attrib } .quiet

/-- An edge of the clock of the bus, with a word that is read. -/
def readEdge (w : Word) : DmaDatapathTick := ⟨none, some ⟨⟨false, false, false⟩, some w⟩, 1, 0⟩

/-- An edge of the clock of the bus. -/
def busEdge : DmaDatapathTick := ⟨none, some ⟨⟨false, false, false⟩, none⟩, 0, 0⟩

/-- The word `A1 B2 C3 D4` from the carrier to the host, and from the host to the carrier. -/
def l2pTicks : List DmaDatapathTick :=
  orderEdge 0 :: List.replicate 3 (clkEdge .none .quiet) ++ readEdge 0xa1b2c3d4 ::
    List.replicate 5 (clkEdge .none .quiet)

def p2lTicks : List DmaDatapathTick :=
  orderEdge 2 :: List.replicate 5 (clkEdge .none .quiet) ++
    clkEdge .none ⟨true, false, true, true, 0xa1b2c3d4⟩ :: clkEdge .none .quiet :: List.replicate 3 busEdge

/-- Neither of them is swapped. -/
theorem words_not_swapped :
    let s₀ := reset 0 false 0 ⟨0, 0⟩
    log (step gn4124CoreByteSwap) sent s₀ l2pTicks = [(0xa1b2c3d4, ⟨0xa1b2c3d4, 1⟩)] ∧
      log (step gn4124CoreByteSwap) written s₀ p2lTicks = [(0xa1b2c3d4, ⟨0xa1b2c3d4, 1⟩)] ∧
      swapped 1 0xa1b2c3d4 = 0xb2a1d4c3 ∧
      ¬ BothSwapped gn4124CoreByteSwap s₀ l2pTicks ∧ ¬ BothSwapped gn4124CoreByteSwap s₀ p2lTicks := by
  decide +kernel

end DmaDatapath

end Gn4124Core
