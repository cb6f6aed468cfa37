import Gn4124Core.DmaChain.Host
import Gn4124Core.Memory.Blocks
import Gn4124Core.P2lDma.Coordination
import Gn4124Core.P2lDma.Storing

/-!
# Orders of the P2L DMA engine

The P2L DMA engine with a host that answers each read request from a memory that does not change,
word by word and in order.  It also holds the items of DMA chains there, so the orders of a run
are those in the registers and those that the engine fetches by itself.

`stores` is what an order makes of the memory of the host, word for word.  The master sends the
same address with each of its requests of 1024 words, so only an order of at most 1024 words
copies (`foldl_stores`).  `Copying` follows the engine through the orders: it is at rest, fetches
an item, or stores the words of an order, of which the host then owes exactly those that are
missing.

`Serving` names what is assumed of the surroundings in a cycle.  Under it

* an edge at rest starts a transfer or a fetch, or nothing (`AtRest.copying_step`), and stores
  nothing (`stored_eq_nil`);
* an edge of a transfer stores at most one word, and this is the next one of the order
  (`Reading.next_word`), since the words that the host owes are those the master still counts;
* so every edge keeps `Copying` (`Copying.step`), with the orders and the words of the edge
  behind those before it.

What is stored is then always the beginning of what is ordered (`Copying.isPrefix`), and all of
it unless the controller waits for the end of a transfer (`Copying.eq_of_state`).
-/

namespace Gn4124Core

open Clocked Blocks

/-! ## Carrier memory -/

/-- The memory of the carrier, by words. -/
abbrev CarrierWords := BitVec 30 → Word

def carrierWrite (carrier : CarrierWords) (w : ToWbWord) : CarrierWords :=
  store carrier w.target [w.data]

/-- Words under consecutive addresses. -/
theorem foldl_fifoWords (gByteSwap : Bool) (base : BitVec 30) (byteSwap : BitVec 2) {ws : List Word}
    (hlen : ws.length ≤ 2 ^ 30) (carrier : CarrierWords) :
    (P2lPath.fifoWords gByteSwap base byteSwap ws).foldl carrierWrite carrier =
      store carrier base (ws.map fun w => fByteSwap gByteSwap w byteSwap) := by
  have hwords : (P2lPath.fifoWords gByteSwap base byteSwap ws).flatMap (fun w => [w.data]) =
      ws.map fun w => fByteSwap gByteSwap w byteSwap := by
    rw [P2lPath.fifoWords, ← List.map_eq_flatMap]
    apply List.ext_getElem <;> simp
  rw [← hwords]
  refine foldl_store (n := 1) ?_ (fun _ _ _ _ => rfl) (by rwa [hwords, List.length_map])
  intro k w hw mem
  rw [P2lPath.fifoWords, List.getElem?_mapIdx, Option.map_eq_some_iff] at hw
  obtain ⟨d, -, rfl⟩ := hw
  rw [Nat.one_mul]
  rfl

/-! ## What an order stores -/

namespace DmaCtrl

variable (gByteSwap : Bool) (host : BitVec 64 → Word) (c : DmaCtrl)

/-- The words that the completions of a P2L transfer bring. -/
def completionWords : List Word :=
  (List.range c.transfer.len).map fun j =>
    host (c.transfer.address + BitVec.ofNat 64 (4 * (j % 1024)))

/-- The writes of a P2L transfer. -/
def stores : List ToWbWord :=
  P2lPath.fifoWords gByteSwap (c.carrierAddr.extractLsb' 2 30) c.byteSwap (c.completionWords host)

/-- The words of host memory that an order asks for. -/
def hostArea : List Word :=
  (List.range (c.len.toNat / 4)).map fun j =>
    fByteSwap gByteSwap (host (c.hostAddrH ++ c.hostAddrL + BitVec.ofNat 64 (4 * j))) c.byteSwap

/-- Carrier memory when the first `n` words of an order are copied. -/
def copyInFirst (n : ℕ) (carrier : CarrierWords) (c : DmaCtrl) : CarrierWords :=
  store carrier (c.carrierAddr.extractLsb' 2 30) ((c.hostArea gByteSwap host).take n)

/-- Carrier memory when an order is carried out. -/
def copyIn (carrier : CarrierWords) (c : DmaCtrl) : CarrierWords :=
  copyInFirst gByteSwap host (c.len.toNat / 4) carrier c

variable {gByteSwap host c}

theorem len_transfer : c.transfer.len = c.len.toNat / 4 := c.toNat_words

/-- Up to 1024 words the words are those of a copy. -/
theorem completionWords_of_short (hshort : c.len.toNat ≤ 4096) :
    (c.completionWords host).map (fun w => fByteSwap gByteSwap w c.byteSwap) =
      c.hostArea gByteSwap host := by
  rw [completionWords, hostArea, len_transfer, List.map_map]
  apply List.map_congr_left
  intro j hj
  have hlt : j < c.len.toNat / 4 := List.mem_range.mp hj
  rw [Function.comp_apply, Nat.mod_eq_of_lt (by omega)]
  rfl

theorem length_completionWords : (c.completionWords host).length = c.len.toNat / 4 := by
  rw [completionWords, List.length_map, List.length_range, len_transfer]

/-- What the first writes of an order leave in carrier memory. -/
theorem foldl_fifoWords_isPrefix {ws : List Word} (hws : ws <+: c.completionWords host)
    (hshort : c.len.toNat ≤ 4096) (carrier : CarrierWords) :
    (P2lPath.fifoWords gByteSwap (c.carrierAddr.extractLsb' 2 30) c.byteSwap ws).foldl carrierWrite
        carrier = copyInFirst gByteSwap host ws.length carrier c := by
  have hlen := hws.length_le
  rw [length_completionWords] at hlen
  rw [foldl_fifoWords _ _ _ (by omega), copyInFirst, ← completionWords_of_short hshort, ← List.map_take,
    ← List.prefix_iff_eq_take.mp hws]

/-- What all of them leave. -/
theorem foldl_stores (hshort : c.len.toNat ≤ 4096) (carrier : CarrierWords) :
    (c.stores gByteSwap host).foldl carrierWrite carrier = copyIn gByteSwap host carrier c := by
  rw [stores, foldl_fifoWords_isPrefix List.prefix_rfl hshort, length_completionWords]
  rfl

end DmaCtrl

/-! ## The controller -/

namespace DmaController

/-- Every order to the P2L DMA master is for one word or more. -/
def HasWords (c : DmaController) : Prop :=
  (c.lines.startP2l || c.lines.startNext) = true → 1 ≤ c.lines.transfer.len

variable {c : DmaController} {i : DmaControllerIn}

theorem hasWords_step (hpulses : c.PulsesInState) : (c.step i).HasWords := by
  intro hstart
  rw [DmaCtrl.len_transfer]
  change ((c.pFsm i).dmaCtrlStartP2l || (c.pFsm i).dmaCtrlStartNext) = true at hstart
  change 1 ≤ (c.pFsm i).dmaCtrlLen.toNat / 4
  have hlow : c.fsm.dmaCtrlCurrentState ≠ .transfer → c.fsm.dmaCtrlCurrentState ≠ .chain →
      c.fsm.dmaCtrlStartP2l = false ∧ c.fsm.dmaCtrlStartNext = false := by
    intro htransfer hchain
    exact ⟨Bool.eq_false_iff.mpr fun hp2l => htransfer (hpulses.startP2l hp2l),
      Bool.eq_false_iff.mpr fun hnext => hchain (hpulses.startNext hnext)⟩
  cases hstate : c.fsm.dmaCtrlCurrentState with
  | idle | error | abort =>
      obtain ⟨hp2l, hnext⟩ := hlow (by simp [hstate]) (by simp [hstate])
      simp [pFsm, hstate, hp2l, hnext] at hstart
  | startTransfer =>
      obtain ⟨hp2l, hnext⟩ := hlow (by simp [hstate]) (by simp [hstate])
      by_cases hwords : c.regs.item.words = 0
      · simp [pFsm, hstate, hwords, hp2l, hnext] at hstart
      · simp only [pFsm, hstate, if_neg hwords]
        have hpos : c.regs.item.words.toNat ≠ 0 := fun hzero => hwords (BitVec.eq_of_toNat_eq hzero)
        have hlen : c.regs.item.words.toNat = c.regs.item.len.toNat / 4 :=
          DmaCtrl.toNat_words { DmaCtrl.quiet with len := c.regs.item.len }
        omega
  | transfer =>
      have hnext := hpulses.startNext_of_transfer hstate
      simp only [pFsm, hstate] at hstart
      split_ifs at hstart <;> simp [hnext] at hstart
  | startChain =>
      simp only [pFsm, hstate]
      decide
  | chain =>
      obtain ⟨-, hp2l⟩ := hpulses.transfer_lines_of_chain hstate
      simp only [pFsm, hstate] at hstart
      split_ifs at hstart <;> simp [hp2l] at hstart

end DmaController

/-! ## The engine in the midst of its orders -/

namespace ReadTransfer

variable {t : ReadTransfer} {k k' : ℕ} {s : Asking P2lDmaMaster} {words words' : List (Bool × Word)}

/-- While the master waits, its registers tell how many requests are sent. -/
theorem Stage.unique (h : t.Stage k s words) (h' : t.Stage k' s words')
    (hwait : s.client.fsm.p2lDmaCurrentState = .waitReadCompletion) : k = k' := by
  have hneeded := h.needed
  have hneeded' := h'.needed
  have hat := h.atState
  have hat' := h'.atState
  simp only [AtState, hwait] at hat hat'
  obtain ⟨-, -, hlast, hcnt⟩ := hat
  obtain ⟨-, -, hlast', hcnt'⟩ := hat'
  have hsame : decide (t.len ≤ 1024 * k) = decide (t.len ≤ 1024 * k') := hlast.symm.trans hlast'
  by_cases hmore : 1024 * k < t.len
  · have hmore' : 1024 * k' < t.len := by
      by_contra hend
      rw [decide_eq_true (show t.len ≤ 1024 * k' by omega)] at hsame
      have := of_decide_eq_true hsame
      omega
    have := hcnt hmore
    have := hcnt' hmore'
    omega
  · have hend : t.len ≤ 1024 * k := by omega
    rw [decide_eq_true hend] at hsame
    have := of_decide_eq_true hsame.symm
    omega

end ReadTransfer

namespace ServedEngine

variable (gByteSwap : Bool) (host : BitVec 64 → Word) (s : ServedEngine) (i : DmaEngineIn)

/-- The master, and how many words the host owes it. -/
def answered : AnsweredMaster := ⟨s.asking, s.openRequest, s.owed.length⟩

/-- The word that the master stores, and its address. -/
def stored : List ToWbWord :=
  if s.master.storesWord (s.engine.masterIn i) then [(step gByteSwap s i).master.addrCnt.toWbFifoDin]
  else []

/-- The P2L orders that the controller starts. -/
def orders : List DmaCtrl :=
  if s.controller.fsm.dmaCtrlStartP2l then [s.controller.lines] else []

/-- The engine in the midst of the orders `cs`, of which it has stored the words `ws`. -/
inductive Copying (s : ServedEngine) : List ToWbWord → List DmaCtrl → Prop
  | resting {cs} (atRest : s.AtRest) : Copying s (cs.flatMap (DmaCtrl.stores gByteSwap host)) cs
  | fetching {cs t k} (reading : Reading t k s) (isNext : s.master.readReq.isNextItem = true) :
      Copying s (cs.flatMap (DmaCtrl.stores gByteSwap host)) cs
  /-- The first words of the last order are stored. -/
  | storing {cs c k k' ws} (reading : Reading c.transfer k s)
      (storing : AnsweredMaster.Storing c.transfer (c.carrierAddr.extractLsb' 2 30) c.byteSwap k' ws
        s.answered)
      (received : ws <+: c.completionWords host) :
      Copying s (cs.flatMap (DmaCtrl.stores gByteSwap host) ++
        P2lPath.fifoWords gByteSwap (c.carrierAddr.extractLsb' 2 30) c.byteSwap ws) (cs ++ [c])

variable {gByteSwap host s i} {mem : HostMemory} {ws : List ToWbWord} {cs : List DmaCtrl}

theorem length_requestedAddresses (packet : List Word) :
    (requestedAddresses packet).length = requestedWords packet := by
  unfold requestedAddresses requestedWords
  cases HostRead.parse packet with
  | none => rfl
  | some r => exact r.length_addresses

variable (gByteSwap) in
theorem answered_step :
    (step gByteSwap s i).answered = s.answered.step gByteSwap (s.engine.masterIn i) := by
  have howed : (step gByteSwap s i).owed.length =
      (s.answered.step gByteSwap (s.engine.masterIn i)).owed := by
    have hrequests : (s.answered.requests gByteSwap (s.engine.masterIn i)) = s.requests gByteSwap i := rfl
    have hword : (s.engine.masterIn i).pd = i.pd := rfl
    rw [AnsweredMaster.step, hrequests, hword, step, List.length_append, List.length_flatMap,
      List.map_congr_left fun p _ => length_requestedAddresses p]
    cases i.pd.completionWord <;> simp [answered]
  rw [answered, howed]
  rfl

/-- An edge on which the registers are loaded is for the master like one on which they are not. -/
theorem Reading.of_quiet {t : ReadTransfer} {k : ℕ} {i : DmaEngineIn}
    (h : Reading t k (ServedEngine.step gByteSwap s { i with loads := .none })) :
    Reading t k (ServedEngine.step gByteSwap s i) :=
  ⟨h.stage, h.busy, h.owed⟩

theorem AtRest.of_quiet {i : DmaEngineIn}
    (h : (ServedEngine.step gByteSwap s { i with loads := .none }).AtRest) :
    (ServedEngine.step gByteSwap s i).AtRest :=
  ⟨h.ready, h.noRequest, h.noneOwed⟩

/-! ## One edge -/

/-- What is assumed of the inputs in one cycle: neither an abort nor an error, the words that the
host owes and no completion without data, and grants only for what was asked for in the cycle
before. -/
structure Serving (host : BitVec 64 → Word) (s : ServedEngine) (i : DmaEngineIn) : Prop where
  errorFree : s.engine.ErrorFree s.l2pBusy i
  noCpln : i.pd.masterCpln = false
  lastValid : i.pd.dataLast = true → i.pd.dataValid = true
  granted : i.arbPdmGnt = true → s.master.fsm.pdmArbReq = true → s.asked = true
  answers : s.Answers (fun a => some (host a)) i
  /-- While the master waits, nobody writes to the registers behind the decoder. -/
  noForeign : s.master.fsm.p2lDmaCurrentState = .waitReadCompletion → i.pd.dataValid = true →
    i.pd.masterCpld = true

instance : Decidable (s.Serving host i) :=
  decidable_of_iff
    (s.engine.ErrorFree s.l2pBusy i ∧ i.pd.masterCpln = false ∧
      (i.pd.dataLast = true → i.pd.dataValid = true) ∧
      (i.arbPdmGnt = true → s.master.fsm.pdmArbReq = true → s.asked = true) ∧
      s.Answers (fun a => some (host a)) i ∧
      (s.master.fsm.p2lDmaCurrentState = .waitReadCompletion → i.pd.dataValid = true →
        i.pd.masterCpld = true))
    ⟨fun ⟨h₁, h₂, h₃, h₄, h₅, h₆⟩ => ⟨h₁, h₂, h₃, h₄, h₅, h₆⟩,
      fun ⟨h₁, h₂, h₃, h₄, h₅, h₆⟩ => ⟨h₁, h₂, h₃, h₄, h₅, h₆⟩⟩

/-- A master at work has no flag up, and the controller waits for it. -/
theorem busy_spec (hcoordinated : s.engine.Coordinated s.l2pBusy) (hserving : s.Serving host i)
    (hbusy : s.master.fsm.p2lDmaCurrentState ≠ .idle) :
    Pulses s.master false false false ∧ NoOrder s.controller ∧
      (s.master.readReq.isNextItem = false → s.controller.fsm.dmaCtrlCurrentState = .transfer) := by
  obtain ⟨hpulses, -, habort, p, hphase, hexpected⟩ := hcoordinated
  have hnoError : s.engine.master.addrCnt.dmaBusyError = false := by
    have hline := hserving.errorFree.noError
    simp only [DmaEngine.controllerIn, P2lDmaMaster.dmaCtrlError, Bool.or_eq_false_iff] at hline
    exact hline.2.1
  cases p with
  | quiet | doneT | done | fetched => exact absurd hphase.1 hbusy
  | running =>
      obtain ⟨-, -, hflags⟩ := hphase
      obtain ⟨hstate, -, hp2l, -⟩ := hexpected
      exact ⟨⟨hflags.doneT, hflags.done, hflags.item, hflags.failed, hnoError⟩,
        ⟨hp2l, hpulses.startNext_of_transfer hstate, habort⟩, fun _ => hstate⟩
  | fetching =>
      obtain ⟨-, hitem, -, hflags⟩ := hphase
      obtain ⟨hstate, hnext, -⟩ := hexpected
      exact ⟨⟨hflags.doneT, hflags.done, hflags.item, hflags.failed, hnoError⟩,
        ⟨(hpulses.transfer_lines_of_chain hstate).2, hnext, habort⟩,
        fun hnot => absurd (hitem.symm.trans hnot) (by decide)⟩
  | failed => exact absurd hphase hserving.errorFree.not_failed

/-- The next word is the one at the address of the next word of the transfer. -/
theorem Reading.next_word {c : DmaCtrl} {k k' : ℕ} {ws : List Word} (h : Reading c.transfer k s)
    (hstoring : AnsweredMaster.Storing c.transfer (c.carrierAddr.extractLsb' 2 30) c.byteSwap k' ws
      s.answered) (hserving : s.Serving host i)
    (hwait : s.master.fsm.p2lDmaCurrentState = .waitReadCompletion)
    (hword : i.pd.completionWord = true) : (c.completionWords host)[ws.length]? = some i.pd.data := by
  obtain ⟨⟨words, hstage, -⟩, -, howed⟩ := h
  obtain ⟨⟨words', hstage', -⟩, hcount, -⟩ := hstoring
  obtain rfl : k = k' := hstage.unique hstage' hwait
  have hneeded := hstage.needed
  rw [if_pos hwait] at howed
  rw [if_pos (show s.answered.master.fsm.p2lDmaCurrentState = .waitReadCompletion from hwait)] at hcount
  obtain ⟨hk, hpos, hle, howed⟩ := howed
  obtain ⟨-, hcnt, hsum⟩ := hcount
  have hsame : s.answered.master.p2lDataCnt = s.master.p2lDataCnt := rfl
  rw [hcnt, hsame] at hsum
  obtain ⟨a, ha, hdata, -⟩ := hserving.answers hword
  have hchunk : c.transfer.chunk (k - 1) = min 1024 (c.transfer.len - 1024 * (k - 1)) := rfl
  -- how far the transfer is in the request under way
  have hlt : c.transfer.chunk (k - 1) - s.master.p2lDataCnt.toNat < c.transfer.chunk (k - 1) := by omega
  have hoffset : ws.length % 1024 = c.transfer.chunk (k - 1) - s.master.p2lDataCnt.toNat := by omega
  have hmore : ws.length < c.transfer.len := by omega
  have haddress : a = c.transfer.address + BitVec.ofNat 64 (4 * (ws.length % 1024)) := by
    rw [howed, Option.mem_def, List.head?_drop, ReadTransfer.addresses, HostRead.addresses,
      List.getElem?_map, List.getElem?_range hlt] at ha
    rw [hoffset]
    simpa using ha.symm
  rw [DmaCtrl.completionWords, List.getElem?_map, List.getElem?_range hmore, Option.map_some,
    ← haddress, hdata _ rfl]

theorem Serving.quiet (h : s.Serving host i) :
    s.Legal (fun a => some (host a)) { i with loads := .none } where
  noLoad := rfl
  noError := by
    have hline := h.errorFree.noError
    simp only [DmaEngine.controllerIn, Bool.or_eq_false_iff] at hline
    exact hline.1
  l2pDone := h.errorFree.l2pDone
  noCpln := h.noCpln
  lastValid := h.lastValid
  granted := h.granted
  answers := h.answers
  noForeign := fun hwait _ hvalid => h.noForeign hwait hvalid

theorem Serving.legal (h : s.Serving host i) (horder : NoOrder s.controller) :
    s.answered.Legal (s.engine.masterIn i) where
  granted := h.granted
  noAbort := horder.noAbort
  noCpln := h.noCpln
  noP2l := horder.noP2l
  noNext := horder.noNext
  answers := by
    intro hwait
    refine ⟨h.lastValid, fun hvalid => ?_⟩
    have hcpld := h.noForeign hwait hvalid
    have hword : i.pd.completionWord = true := by
      have hvalid' : i.pd.dataValid = true := hvalid
      simp [PdPdm.completionWord, hvalid', hcpld]
    obtain ⟨a, ha, -, hlast⟩ := h.answers hword
    refine ⟨hcpld, ?_, hlast⟩
    cases howed : s.owed with
    | nil => simp [howed] at ha
    | cons b more => simp [answered, howed]

/-- A master that does not store writes nothing. -/
theorem stored_eq_nil (h : s.master.storesWord (s.engine.masterIn i) = false) :
    s.stored gByteSwap i = [] := by
  rw [stored, h, if_neg Bool.false_ne_true]

/-- An edge at rest: the controller orders a transfer or a fetch, or nothing. -/
theorem AtRest.copying_step (h : s.AtRest) (hcoordinated : s.engine.Coordinated s.l2pBusy)
    (hwords : s.controller.HasWords) :
    Copying gByteSwap host (ServedEngine.step gByteSwap s i)
      (cs.flatMap (DmaCtrl.stores gByteSwap host) ++ s.stored gByteSwap i) (cs ++ s.orders) := by
  have hidle := h.ready.idle
  have hnone : s.stored gByteSwap i = [] :=
    stored_eq_nil (P2lDmaMaster.storesWord_of_idle hidle)
  obtain ⟨-, -, -, hexclusive⟩ := hcoordinated.pulses.exclusive
  rw [hnone, List.append_nil]
  cases hp2l : s.controller.fsm.dmaCtrlStartP2l with
  | true =>
      have hnext : s.controller.fsm.dmaCtrlStartNext = false :=
        Bool.eq_false_iff.mpr fun hnext => hexclusive ⟨hp2l, hnext⟩
      have hstart : (s.controller.lines.startP2l || s.controller.lines.startNext) = true := by
        have hline : s.controller.lines.startP2l = true := hp2l
        rw [hline, Bool.true_or]
      have hreading := (h.start gByteSwap (i := i) hstart (hwords hstart)).1
      have hrest : s.answered = AnsweredMaster.resting s.asking := by
        rw [answered, h.noRequest, h.noneOwed]
        rfl
      have hready : s.asking.client.Ready := h.ready
      have hstoring := (AnsweredMaster.start_storing gByteSwap (i := s.engine.masterIn i) hready hp2l
        hnext (hwords hstart)).1
      rw [← hrest, ← answered_step gByteSwap] at hstoring
      rw [orders, hp2l, if_pos rfl, ← List.append_nil (cs.flatMap _)]
      exact .storing hreading hstoring List.nil_prefix
  | false =>
      rw [orders, hp2l, if_neg Bool.false_ne_true, List.append_nil]
      cases hnext : s.controller.fsm.dmaCtrlStartNext with
      | true =>
          have hstart : (s.controller.lines.startP2l || s.controller.lines.startNext) = true := by
            have hline : s.controller.lines.startNext = true := hnext
            rw [hline, Bool.or_true]
          obtain ⟨hreading, -, hitem⟩ := h.start gByteSwap (i := i) hstart (hwords hstart)
          exact .fetching hreading (hitem.trans hnext)
      | false => exact .resting (h.step gByteSwap hp2l hnext)

/-- **An edge**, whatever the engine does. -/
theorem Copying.step (h : Copying gByteSwap host s ws cs) (hcoordinated : s.engine.Coordinated s.l2pBusy)
    (hwords : s.controller.HasWords) (hserving : s.Serving host i) :
    Copying gByteSwap host (ServedEngine.step gByteSwap s i) (ws ++ s.stored gByteSwap i)
      (cs ++ s.orders) := by
  cases h with
  | resting atRest => exact atRest.copying_step hcoordinated hwords
  | fetching reading isNext =>
      obtain ⟨hpulses, horder, -⟩ := busy_spec hcoordinated hserving reading.busy
      have hnone : s.stored gByteSwap i = [] :=
        stored_eq_nil (P2lDmaMaster.storesWord_of_item isNext)
      have horders : s.orders = [] := by rw [orders, horder.noP2l, if_neg Bool.false_ne_true]
      have hitem := P2lDmaMaster.isNextItem_step gByteSwap (s := s.master) (i := s.engine.masterIn i)
        (.inl reading.busy)
      rw [hnone, horders, List.append_nil, List.append_nil]
      obtain ⟨k', hreading, -⟩ | ⟨⟨hrest, -⟩, -⟩ := reading.step gByteSwap hpulses horder hserving.quiet
      · exact .fetching hreading.of_quiet (hitem.trans isNext)
      · exact .resting hrest.of_quiet
  | @storing cs c k k' ws reading storing received =>
      obtain ⟨hpulses, horder, -⟩ := busy_spec hcoordinated hserving reading.busy
      have hlegal := hserving.legal horder
      have horders : s.orders = [] := by rw [orders, horder.noP2l, if_neg Bool.false_ne_true]
      obtain ⟨j, hcounted⟩ := storing.counted gByteSwap hlegal
      have hstoring := storing.step hlegal hcounted
      obtain ⟨-, -, hpush⟩ := AnsweredMaster.addrCnt_of_received gByteSwap storing.target
        storing.byteSwap storing.transfer hlegal
      have hstored : s.stored gByteSwap i =
          (s.answered.step gByteSwap (s.engine.masterIn i)).pushes := by
        have hwr := P2lDmaMaster.toWbFifoWr_step gByteSwap (s := s.master) (i := s.engine.masterIn i)
          horder.noP2l
        rw [stored, ← hwr]
        rfl
      have hreceived : ws ++ s.answered.received (s.engine.masterIn i) <+: c.completionWords host := by
        unfold AnsweredMaster.received
        split
        · next hword =>
            have hdata := reading.next_word storing hserving hword.1 hword.2
            obtain ⟨rest, hrest⟩ := received
            cases rest with
            | nil => simp [← hrest] at hdata
            | cons w rest =>
                obtain rfl : w = i.pd.data := by simpa [← hrest] using hdata
                exact ⟨rest, by rw [← hrest, List.append_assoc]; rfl⟩
        · rwa [List.append_nil]
      rw [hstored, horders, List.append_nil, List.append_assoc, hpush]
      obtain ⟨k'', hreading, -⟩ | ⟨⟨hrest, -⟩, -⟩ := reading.step gByteSwap hpulses horder hserving.quiet
      · rw [← answered_step gByteSwap] at hstoring
        exact .storing hreading.of_quiet hstoring hreceived
      · -- the last word is received
        have hall := (hstoring.idle_iff.2).mp hrest.ready.idle
        have hwhole : ws ++ s.answered.received (s.engine.masterIn i) = c.completionWords host :=
          hreceived.eq_of_length (by rw [hall]; simp [DmaCtrl.completionWords])
        have hflat : cs.flatMap (DmaCtrl.stores gByteSwap host) ++
            P2lPath.fifoWords gByteSwap (c.carrierAddr.extractLsb' 2 30) c.byteSwap
              (c.completionWords host) = (cs ++ [c]).flatMap (DmaCtrl.stores gByteSwap host) := by
          rw [List.flatMap_append, List.flatMap_singleton]
          rfl
        rw [hwhole, hflat]
        exact .resting hrest.of_quiet

/-! ## What is stored -/

/-- What is stored is the beginning of what is ordered. -/
theorem Copying.isPrefix (h : Copying gByteSwap host s ws cs) :
    ws <+: cs.flatMap (DmaCtrl.stores gByteSwap host) := by
  cases h with
  | resting | fetching => exact List.prefix_rfl
  | @storing cs c k k' ws _ _ received =>
      obtain ⟨rest, hrest⟩ := received
      rw [List.flatMap_append, List.flatMap_singleton, List.prefix_append_right_inj]
      rw [DmaCtrl.stores, ← hrest, P2lPath.fifoWords, P2lPath.fifoWords, List.mapIdx_append]
      exact List.prefix_append ..

/-- Unless the controller waits for the end of a transfer, all of it is stored. -/
theorem Copying.eq_of_state (h : Copying gByteSwap host s ws cs)
    (hcoordinated : s.engine.Coordinated s.l2pBusy) (hnot : s.master.fsm.completionError = false)
    (hstate : s.controller.fsm.dmaCtrlCurrentState ≠ .transfer) :
    ws = cs.flatMap (DmaCtrl.stores gByteSwap host) := by
  cases h with
  | resting | fetching => rfl
  | storing reading storing =>
      obtain ⟨-, -, -, p, hphase, hexpected⟩ := hcoordinated
      cases p with
      | quiet | doneT | done | fetched => exact absurd hphase.1 reading.busy
      | running => exact absurd hexpected.1 hstate
      | fetching => exact absurd (hphase.2.1.symm.trans storing.transfer) (by decide)
      | failed => exact absurd (hnot.symm.trans hphase) (by decide)

variable (gByteSwap) in
/-- Only a completion without data is an error. -/
theorem completionError_step (h : s.master.fsm.completionError = false)
    (hcpln : i.pd.masterCpln = false) :
    (step gByteSwap s i).master.fsm.completionError = false := by
  show (s.master.pReadReqFsm (s.engine.masterIn i)).completionError = false
  have hline : (s.engine.masterIn i).pd.masterCpln = false := hcpln
  cases hstate : s.master.fsm.p2lDmaCurrentState with
  | idle => simp [P2lDmaMaster.pReadReqFsm, hstate]
  | header =>
      simp only [P2lDmaMaster.pReadReqFsm, hstate]
      split_ifs <;> exact h
  | addrH | addrL => simpa only [P2lDmaMaster.pReadReqFsm, hstate] using h
  | waitReadCompletion =>
      simp only [P2lDmaMaster.pReadReqFsm, hstate, hline, Bool.false_eq_true, if_false]
      split_ifs <;> exact h

end ServedEngine

end Gn4124Core
