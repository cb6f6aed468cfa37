import Gn4124Core.Rtl.P2lDecode32

/-!
# Packets on the deserialized P2L bus

`Stream ps cs` says that the bus cycles `cs` carry the packets `ps`, in order.  A packet
is a header word on which `dframe` rises, an address word unless header bit 26 is set, and
data words; `dframe` falls on its last valid word.  Between two words of a packet there
may be cycles without `valid`, and between two packets idle cycles.

The header word raises `dframe`, so it is never the last word: a packet without address
word carries data (`Packet.framed`).
-/

namespace Gn4124Core

/-- A packet.  The address is not sent when header bit 26 is set. -/
structure Packet where
  header : Word
  address : Word
  data : List Word
  framed : header.getLsbD 26 = true → data ≠ []

namespace Packet

variable (p : Packet)

/-- The words that follow the header. -/
def body : List Word := if p.header.getLsbD 26 then p.data else p.address :: p.data

def type : TypeDecode := .ofHeader p.header

variable {p}

/-- Neither type of target request has header bit 26 set. -/
theorem target_of_completion (hbit : p.header.getLsbD 26 = true) :
    p.type.targetMrd = false ∧ p.type.targetMwr = false := by
  have htype : (p.header.extractLsb' 24 4)[2] = true := by
    rw [BitVec.getElem_extractLsb', BitVec.getLsbD_eq_getElem (by omega)]
    exact hbit
  constructor <;>
  · simp only [type, TypeDecode.ofHeader, beq_eq_false_iff_ne]
    intro heq
    rw [heq] at htype
    simp at htype

/-- The four type codes exclude one another. -/
theorem masterCpln_eq_false (h : p.type.masterCpld = true ∨ p.type.targetMwr = true) :
    p.type.masterCpln = false := by
  simp only [type, TypeDecode.ofHeader, beq_iff_eq] at h
  simp only [type, TypeDecode.ofHeader, beq_eq_false_iff_ne]
  rcases h with h | h <;>
  · rw [h]
    decide

end Packet

/-- The cycles that carry the words of a packet after its header. -/
inductive BodyCycles : List Word → List DesP2l → Prop
  | last (w : Word) : BodyCycles [w] [⟨true, false, w⟩]
  | word (w : Word) {ws : List Word} {cs : List DesP2l} :
      BodyCycles ws cs → BodyCycles (w :: ws) (⟨true, true, w⟩ :: cs)
  | wait (d : Word) {ws : List Word} {cs : List DesP2l} :
      BodyCycles ws cs → BodyCycles ws (⟨false, true, d⟩ :: cs)

/-- The bus cycles that carry a sequence of packets. -/
inductive Stream : List Packet → List DesP2l → Prop
  | nil : Stream [] []
  | idle (d : Word) {ps : List Packet} {cs : List DesP2l} :
      Stream ps cs → Stream ps (⟨false, false, d⟩ :: cs)
  | packet (p : Packet) {ps : List Packet} {bs cs : List DesP2l} :
      BodyCycles p.body bs → Stream ps cs →
        Stream (p :: ps) (⟨true, true, p.header⟩ :: (bs ++ cs))

theorem BodyCycles.isEmpty {ws : List Word} {cs : List DesP2l} (h : BodyCycles ws cs) :
    ws.isEmpty = false := by
  induction h with
  | last w => rfl
  | word w _ _ => rfl
  | wait d _ ih => exact ih

/-- The cycles of a packet's body without wait states. -/
def bodyCycles : List Word → List DesP2l
  | [] => []
  | [w] => [⟨true, false, w⟩]
  | w :: w' :: ws => ⟨true, true, w⟩ :: bodyCycles (w' :: ws)

/-- The cycles of a packet without wait states, or one idle cycle. -/
def slotCycles : Option Packet → List DesP2l
  | none => [⟨false, false, 0⟩]
  | some p => ⟨true, true, p.header⟩ :: bodyCycles p.body

theorem Packet.body_ne_nil (p : Packet) : p.body ≠ [] := by
  unfold body
  split
  · exact p.framed ‹_›
  · simp

theorem bodyCycles_of_ne_nil {ws : List Word} (h : ws ≠ []) : BodyCycles ws (bodyCycles ws) := by
  induction ws with
  | nil => exact absurd rfl h
  | cons w ws ih =>
      cases ws with
      | nil => exact .last w
      | cons w' ws => exact .word w (ih (by simp))

/-- Packets sent back to back and with idle cycles between them. -/
theorem stream_of_slots (slots : List (Option Packet)) :
    Stream (slots.filterMap id) (slots.flatMap slotCycles) := by
  induction slots with
  | nil => exact .nil
  | cons slot slots ih =>
      cases slot with
      | none => exact .idle 0 ih
      | some p => exact .packet p (bodyCycles_of_ne_nil p.body_ne_nil) ih

/-! ## What the decoder has to deliver -/

/-- What the decoder's strobes announce. -/
inductive DecoderEvent where
  | header (length : BitVec 10) (cid : BitVec 2) (type : TypeDecode)
  | address (addr : Word) (type : TypeDecode)
  | data (word : Word) (last : Bool) (type : TypeDecode) (addr : Option Word)
deriving DecidableEq

/-- The word of a data strobe, under the type flags that come with it. -/
def DecoderEvent.word? : DecoderEvent → Option (TypeDecode × Word)
  | .data w _ type _ => some (type, w)
  | _ => none

/-- The strobes of one cycle.  The address bus accompanies the data of a target write. -/
def P2lDecode32.events (s : P2lDecode32) : List DecoderEvent :=
  (if s.header.p2lHdrStrobe then
    [.header s.header.p2lHdrLength s.header.p2lHdrCid s.type] else []) ++
  (if s.addr.p2lAddrStart then [.address s.addr.p2lAddr s.type] else []) ++
  (if s.data.p2lDValid then
    [.data s.data.p2lD s.data.p2lDLast s.type
      (if s.type.targetMwr then some s.addr.p2lAddr else none)] else [])

/-- Byte address `a` advanced by `i` words: bits 31 downto 2 wrap, bits 1 downto 0 hold. -/
def wordAddr (a : Word) (i : ℕ) : Word := (a.extractLsb' 2 30 + BitVec.ofNat 30 i) ++ a.extractLsb' 0 2

namespace Packet

variable (p : Packet)

/-- The strobes owed for the data words `ws`, the first of which is data word `i`. -/
def dataEvents (p : Packet) : ℕ → List Word → List DecoderEvent
  | _, [] => []
  | i, w :: ws =>
      .data w ws.isEmpty p.type (if p.type.targetMwr then some (wordAddr p.address i) else none) ::
        p.dataEvents (i + 1) ws

/-- The strobes owed for a packet: one for the header, one for the address of a target
read or write, and one for each data word. -/
def events : List DecoderEvent :=
  .header (p.header.extractLsb' 0 10) (p.header.extractLsb' 10 2) p.type ::
    ((if p.type.targetMrd || p.type.targetMwr then [.address p.address p.type] else []) ++
      p.dataEvents 0 p.data)

/-- The data words, under the packet's type. -/
def words : List (TypeDecode × Word) := p.data.map fun w => (p.type, w)

theorem word?_events : p.events.filterMap DecoderEvent.word? = p.words := by
  have hdata : ∀ i ws, (p.dataEvents i ws).filterMap DecoderEvent.word? =
      ws.map fun w => (p.type, w) := by
    intro i ws
    induction ws generalizing i with
    | nil => rfl
    | cons w ws ih => simp [dataEvents, DecoderEvent.word?, ih]
  unfold events
  split <;> simp [List.filterMap_cons, DecoderEvent.word?, hdata, words]

end Packet

@[simp] theorem wordAddr_zero (a : Word) : wordAddr a 0 = a := by
  unfold wordAddr
  ext i hi
  simp only [BitVec.add_zero, BitVec.getElem_append, BitVec.getElem_extractLsb']
  split
  · rw [Nat.zero_add, BitVec.getLsbD_eq_getElem hi]
  · rw [show 2 + (i - 2) = i by omega, BitVec.getLsbD_eq_getElem hi]

theorem addrIncrement_wordAddr (a : Word) (i : ℕ) :
    addrIncrement (wordAddr a i) = wordAddr a (i + 1) := by
  have hhigh : (wordAddr a i).extractLsb' 2 30 = a.extractLsb' 2 30 + BitVec.ofNat 30 i :=
    BitVec.extractLsb'_append_eq_left
  have hlow : (wordAddr a i).extractLsb' 0 2 = a.extractLsb' 0 2 :=
    BitVec.extractLsb'_append_eq_right
  rw [addrIncrement, hhigh, hlow, wordAddr, BitVec.add_assoc, BitVec.ofNat_add]
  rfl

end Gn4124Core
