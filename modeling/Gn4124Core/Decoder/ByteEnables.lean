import Gn4124Core.Decoder.Delivery

/-!
# Byte enables and wait states

`p2l_be_o` accompanies the data words of a target write: the first word has the first byte
enables of the header, the last of several words the last byte enables, and a word between
them all four.  `p_be_decode` does not look at `valid`, so the register keeps the first byte
enables for a single cycle, the one after the address strobe.  If the first data word is not
sent right behind the address word, the word is shown with what follows them.

A transmission is a packet with the cycles that carry it, so that its wait states can be
spoken of (`Prompt`).
-/

namespace Gn4124Core

open Clocked

namespace Packet

variable (p : Packet)

/-- The header's first byte enables. -/
def fbe : BitVec 4 := p.header.extractLsb' 16 4

/-- The header's last byte enables. -/
def lbe : BitVec 4 := p.header.extractLsb' 20 4

/-- The byte enables owed to data word `i`. -/
def byteEnable (i : ℕ) : BitVec 4 :=
  if i = 0 then p.fbe else if i + 1 = p.data.length then p.lbe else 0b1111#4

/-- The data words of a target write, under the byte enables owed to them. -/
def enables : List (Word × BitVec 4) :=
  if p.type.targetMwr then p.data.mapIdx fun i w => (w, p.byteEnable i) else []

/-- The data words `ws`, all but the last with every byte enabled. -/
def laterEnables (p : Packet) : List Word → List (Word × BitVec 4)
  | [] => []
  | [w] => [(w, p.lbe)]
  | w :: w' :: ws => (w, 0b1111#4) :: laterEnables p (w' :: ws)

end Packet

/-- An idle cycle, or a packet with the cycles that carry the words after its header. -/
inductive Transmission where
  | idle (d : Word)
  | packet (p : Packet) (body : List DesP2l) (carries : BodyCycles p.body body)

/-- The cycles behind the first word. -/
def behindFirst (body : List DesP2l) : List DesP2l := (body.dropWhile fun c => !c.valid).tail

/-- The second word comes right behind the first. -/
def Prompt (body : List DesP2l) : Prop := ∀ c ∈ (behindFirst body).head?, c.valid = true

namespace Transmission

def cycles : Transmission → List DesP2l
  | idle d => [⟨false, false, d⟩]
  | packet p body _ => ⟨true, true, p.header⟩ :: body

def packets : Transmission → List Packet
  | idle _ => []
  | packet p _ _ => [p]

/-- What the byte enables of a target write have to be. -/
def enables : Transmission → List (Word × BitVec 4)
  | idle _ => []
  | packet p _ _ => p.enables

/-- The first data word of a target write comes right behind the address, or the enables that
follow are the same as the first ones. -/
def Aligned : Transmission → Prop
  | idle _ => True
  | packet p body _ =>
      p.type.targetMwr = true → Prompt body ∨
        p.data.length = 1 ∧ p.fbe = p.lbe ∨ 2 ≤ p.data.length ∧ p.fbe = 0b1111#4

end Transmission

/-- The streams of packets are those of transmissions. -/
theorem exists_transmissions {ps : List Packet} {cs : List DesP2l} (h : Stream ps cs) :
    ∃ ts : List Transmission, ts.flatMap Transmission.packets = ps ∧
      ts.flatMap Transmission.cycles = cs := by
  induction h with
  | nil => exact ⟨[], rfl, rfl⟩
  | idle d _ ih =>
      obtain ⟨ts, rfl, rfl⟩ := ih
      exact ⟨.idle d :: ts, rfl, rfl⟩
  | packet p hbody _ ih =>
      obtain ⟨ts, rfl, rfl⟩ := ih
      exact ⟨.packet p _ hbody :: ts, rfl, rfl⟩

theorem stream_of_transmissions (ts : List Transmission) :
    Stream (ts.flatMap Transmission.packets) (ts.flatMap Transmission.cycles) := by
  induction ts with
  | nil => exact .nil
  | cons t ts ih =>
      cases t with
      | idle d => exact .idle d ih
      | packet p body hbody => exact .packet p hbody ih

namespace P2lDecode32

/-- The data strobe of a target write: the word, under the byte enables that come with it. -/
def writeStrobe (s : P2lDecode32) : List (Word × BitVec 4) :=
  if s.data.p2lDValid && s.type.targetMwr then [(s.data.p2lD, s.p2lBe)] else []

/-! ## One bus cycle -/

section Cycle

variable {s : P2lDecode32} {p : Packet} {i : ℕ}

/-- The byte enables of the packet's header are registered. -/
structure HoldsEnables (p : Packet) (s : P2lDecode32) : Prop where
  fbe : s.header.p2lHdrFbe = p.fbe
  lbe : s.header.p2lHdrLbe = p.lbe

/-- Within a packet the registered byte enables stay. -/
theorem HoldsEnables.step (h : HoldsEnables p s) (hframe : s.frame.desP2lDframeD = true)
    (c : DesP2l) : HoldsEnables p (s.step c) := by
  constructor
  · simp [P2lDecode32.step, pHeaderDecode, p2lPacketStart, hframe, h.fbe]
  · simp [P2lDecode32.step, pHeaderDecode, p2lPacketStart, hframe, h.lbe]

theorem Between.header_enables (h : s.Between) (hbit : p.header.getLsbD 26 = false) :
    HoldsEnables p (s.step ⟨true, true, p.header⟩) := by
  have hbit26 : p.header[26] = false := hbit
  constructor <;>
    simp [P2lDecode32.step, pHeaderDecode, p2lPacketStart, h.dframeD, hbit26, Packet.fbe,
      Packet.lbe]

theorem InData.writeStrobe_word (h : s.InData p i) (hmwr : p.type.targetMwr = true) (w : Word)
    (dframe : Bool) :
    (s.step ⟨true, dframe, w⟩).writeStrobe = [(w, s.pBeDecode ⟨true, dframe, w⟩)] := by
  simp [writeStrobe, P2lDecode32.step, pTypeDecode, pDataDecode, p2lPacketStart, p2lPacketEnd,
    h.dframeD, h.type, h.dataCycle, hmwr]

theorem writeStrobe_wait (dframe : Bool) (d : Word) :
    (s.step ⟨false, dframe, d⟩).writeStrobe = [] := by
  simp [writeStrobe, P2lDecode32.step, pDataDecode]

/-- Outside the data words nothing is strobed. -/
theorem writeStrobe_of_noData (hcycle : s.data.p2lDataCycle = false) (c : DesP2l) :
    (s.step c).writeStrobe = [] := by
  simp [writeStrobe, P2lDecode32.step, pDataDecode, hcycle]

/-- The address strobe comes right behind the address word, and for one cycle. -/
theorem addrStart_step (hcycle : s.addr.p2lAddrCycle = false) (c : DesP2l) :
    (s.step c).addr.p2lAddrStart = false := by
  simp [P2lDecode32.step, pAddrDecode, hcycle]

theorem InAddress.addrStart (h : s.InAddress p) (hmwr : p.type.targetMwr = true) (dframe : Bool) :
    (s.step ⟨true, dframe, p.address⟩).addr.p2lAddrStart = true := by
  simp [P2lDecode32.step, pAddrDecode, h.type, h.addrCycle, hmwr]

end Cycle

/-! ## The parts of a target write -/

section Parts

variable {s : P2lDecode32} {p : Packet} {i : ℕ} {ws : List Word} {cs : List DesP2l}

/-- Away from the address strobe, wait states do no harm. -/
theorem InData.laterEnables (hbody : BodyCycles ws cs) (h : s.InData p i)
    (henables : HoldsEnables p s) (hmwr : p.type.targetMwr = true)
    (hstart : s.addr.p2lAddrStart = false) :
    log step (after step writeStrobe) s cs = p.laterEnables ws := by
  induction hbody generalizing s i with
  | last w =>
      have hbe : s.pBeDecode ⟨true, false, w⟩ = p.lbe := by
        simp [pBeDecode, hstart, h.dataCycle, henables.lbe]
      rw [log_cons, log_nil, after, h.writeStrobe_word hmwr, hbe]
      rfl
  | @word w ws cs hws ih =>
      have hbe : s.pBeDecode ⟨true, true, w⟩ = 0b1111#4 := by
        simp [pBeDecode, hstart, h.dataCycle]
      have hrest := ih (h.word_inData w) (henables.step h.dframeD _) (addrStart_step h.addrCycle _)
      rw [log_cons, after, h.writeStrobe_word hmwr, hbe, hrest]
      cases ws with
      | nil => exact absurd hws.isEmpty (by simp)
      | cons w' ws => rw [List.singleton_append, Packet.laterEnables]
  | wait d hws ih =>
      -- what a wait state loads is overwritten in the cycle of the next word
      rw [log_cons, after, writeStrobe_wait]
      exact ih (h.wait d).2.2 (henables.step h.dframeD _) (addrStart_step h.addrCycle _)

/-- The data words behind the address word, with the first byte enables for the next cycle. -/
def shownEnables (p : Packet) (ws : List Word) : List DesP2l → List (Word × BitVec 4)
  | [] => []
  | c :: _ => if c.valid then
      match ws with
      | [] => []
      | w :: ws => (w, p.fbe) :: p.laterEnables ws
    else p.laterEnables ws

theorem InData.shownEnables (hbody : BodyCycles ws cs) (h : s.InData p i)
    (henables : HoldsEnables p s) (hmwr : p.type.targetMwr = true)
    (hstart : s.addr.p2lAddrStart = true) :
    log step (after step writeStrobe) s cs = P2lDecode32.shownEnables p ws cs := by
  -- `p_be_decode` loads the first byte enables now, whether or not a word is there
  have hbe : ∀ c, s.pBeDecode c = p.fbe := by
    intro c
    rw [pBeDecode, if_pos hstart, henables.fbe]
  cases hbody with
  | last w =>
      rw [log_cons, log_nil, after, h.writeStrobe_word hmwr, hbe]
      rfl
  | word w hws =>
      rw [log_cons, after, h.writeStrobe_word hmwr, hbe,
        (h.word_inData w).laterEnables hws (henables.step h.dframeD _) hmwr
          (addrStart_step h.addrCycle _)]
      rfl
  | wait d hws =>
      rw [log_cons, after, writeStrobe_wait,
        (h.wait d).2.2.laterEnables hws (henables.step h.dframeD _) hmwr
          (addrStart_step h.addrCycle _)]
      rfl

theorem InAddress.shownEnables (hbody : BodyCycles (p.address :: p.data) cs) (h : s.InAddress p)
    (henables : HoldsEnables p s) (hmwr : p.type.targetMwr = true) :
    log step (after step writeStrobe) s cs =
      P2lDecode32.shownEnables p p.data (behindFirst cs) := by
  generalize hws : p.address :: p.data = ws at hbody
  induction hbody generalizing s with
  | last w =>
      rw [log_cons, log_nil, after, writeStrobe_of_noData h.dataCycle]
      rfl
  | word w hrest ih =>
      obtain ⟨rfl, rfl⟩ := List.cons.inj hws
      rw [log_cons, after, writeStrobe_of_noData h.dataCycle]
      exact h.address_inData.shownEnables hrest (henables.step h.dframeD _) hmwr (h.addrStart hmwr _)
  | wait d hrest ih =>
      rw [log_cons, after, writeStrobe_of_noData h.dataCycle]
      exact ih (h.wait d).2.2 (henables.step h.dframeD _) hws

end Parts

/-! ## The packets -/

theorem carries_behindFirst {w : Word} {ws : List Word} {cs : List DesP2l}
    (h : BodyCycles (w :: ws) cs) :
    (ws = [] → behindFirst cs = []) ∧ (ws ≠ [] → BodyCycles ws (behindFirst cs)) := by
  generalize hall : w :: ws = all at h
  induction h with
  | last w' =>
      obtain ⟨-, rfl⟩ := List.cons.inj hall
      exact ⟨fun _ => rfl, fun h => absurd rfl h⟩
  | word w' hrest _ =>
      obtain ⟨-, rfl⟩ := List.cons.inj hall
      refine ⟨fun hnil => ?_, fun _ => hrest⟩
      rw [hnil] at hrest
      exact absurd hrest.isEmpty (by simp)
  | wait d _ ih => exact ih hall

theorem laterEnables_eq (p : Packet) {i : ℕ} {ws : List Word} (hi : 0 < i)
    (hlen : i + ws.length = p.data.length) :
    p.laterEnables ws = ws.mapIdx fun j w => (w, p.byteEnable (i + j)) := by
  induction ws generalizing i with
  | nil => rfl
  | cons w ws ih =>
      rw [List.length_cons] at hlen
      have hshift : (fun j (w : Word) => (w, p.byteEnable (i + 1 + j))) =
          fun j w => (w, p.byteEnable (i + (j + 1))) := by
        funext j w
        rw [Nat.add_assoc, Nat.add_comm 1 j]
      have hrest := ih (Nat.succ_pos i) (by omega)
      rw [hshift] at hrest
      rw [List.mapIdx_cons, Nat.add_zero, ← hrest]
      cases ws with
      | nil =>
          have hbe : p.byteEnable i = p.lbe := by
            rw [Packet.byteEnable, if_neg (by omega), if_pos (by simpa using hlen)]
          rw [hbe]
          rfl
      | cons w' ws =>
          have hbe : p.byteEnable i = 0b1111#4 := by
            rw [List.length_cons] at hlen
            rw [Packet.byteEnable, if_neg (by omega), if_neg (by omega)]
          rw [hbe, Packet.laterEnables]

/-- What is owed is the first word with the first byte enables, and the later ones. -/
theorem enables_of_cons {p : Packet} {w : Word} {ws : List Word} (hmwr : p.type.targetMwr = true)
    (hdata : p.data = w :: ws) : p.enables = (w, p.fbe) :: p.laterEnables ws := by
  have hlen : 1 + ws.length = p.data.length := by
    rw [hdata, List.length_cons, Nat.add_comm]
  have hshift : (fun j (w : Word) => (w, p.byteEnable (1 + j))) =
      fun j w => (w, p.byteEnable (j + 1)) := by
    funext j w
    rw [Nat.add_comm]
  rw [Packet.enables, if_pos hmwr, hdata, List.mapIdx_cons, laterEnables_eq p Nat.one_pos hlen,
    hshift]
  rfl

/-- The enables of a target write are right exactly if its first data word is prompt or cannot
tell the difference. -/
theorem shownEnables_iff {p : Packet} {body : List DesP2l} (hmwr : p.type.targetMwr = true)
    (hbody : BodyCycles (p.address :: p.data) body) :
    shownEnables p p.data (behindFirst body) = p.enables ↔
      Prompt body ∨ p.data.length = 1 ∧ p.fbe = p.lbe ∨ 2 ≤ p.data.length ∧ p.fbe = 0b1111#4 := by
  obtain ⟨hnil, hcons⟩ := carries_behindFirst hbody
  cases hdata : p.data with
  | nil =>
      have hprompt : Prompt body := by
        intro c hc
        simp [hnil hdata] at hc
      rw [hnil hdata, Packet.enables, if_pos hmwr, hdata]
      exact ⟨fun _ => .inl hprompt, fun _ => rfl⟩
  | cons w ws =>
      rw [enables_of_cons hmwr hdata]
      have hrest : BodyCycles (w :: ws) (behindFirst body) := by
        rw [← hdata]
        exact hcons (by simp [hdata])
      cases hcs : behindFirst body with
      | nil =>
          rw [hcs] at hrest
          cases hrest
      | cons c cs =>
          have hprompt : Prompt body ↔ c.valid = true := by simp [Prompt, hcs]
          rw [hprompt, shownEnables]
          cases hvalid : c.valid with
          | true => simp
          | false =>
              -- the first word has come too late, and has the enables of a later one
              cases ws with
              | nil => simp [Packet.laterEnables, eq_comm]
              | cons w' ws => simp [Packet.laterEnables, eq_comm]

theorem length_laterEnables (p : Packet) (ws : List Word) :
    (p.laterEnables ws).length = ws.length := by
  induction ws with
  | nil => rfl
  | cons w ws ih =>
      cases ws with
      | nil => rfl
      | cons w' ws => simpa [Packet.laterEnables] using ih

end P2lDecode32

namespace Transmission

open P2lDecode32

/-- The byte enables that the decoder shows. -/
def shown : Transmission → List (Word × BitVec 4)
  | idle _ => []
  | packet p body _ =>
      if p.type.targetMwr then shownEnables p p.data (behindFirst body) else []

theorem address_of_mwr {p : Packet} (hmwr : p.type.targetMwr = true) :
    p.header.getLsbD 26 = false := by
  by_contra hbit
  rw [Bool.not_eq_false] at hbit
  rw [(Packet.target_of_completion hbit).2] at hmwr
  exact Bool.false_ne_true hmwr

theorem carries_address {p : Packet} {body : List DesP2l} (hbody : BodyCycles p.body body)
    (hmwr : p.type.targetMwr = true) : BodyCycles (p.address :: p.data) body := by
  rwa [Packet.body, address_of_mwr hmwr] at hbody

theorem length_shown (t : Transmission) : t.shown.length = t.enables.length := by
  cases t with
  | idle d => rfl
  | packet p body hbody =>
      cases hmwr : p.type.targetMwr with
      | false => simp [shown, enables, Packet.enables, hmwr]
      | true =>
          obtain ⟨hnil, hcons⟩ := carries_behindFirst (carries_address hbody hmwr)
          simp only [shown, enables, Packet.enables, hmwr, if_true, List.length_mapIdx]
          cases hdata : p.data with
          | nil =>
              rw [hnil hdata]
              rfl
          | cons w ws =>
              have hrest : BodyCycles (w :: ws) (behindFirst body) := by
                rw [← hdata]
                exact hcons (by simp [hdata])
              cases hcs : behindFirst body with
              | nil =>
                  rw [hcs] at hrest
                  cases hrest
              | cons c cs =>
                  rw [shownEnables]
                  cases c.valid <;> simp [length_laterEnables]

theorem shown_iff (t : Transmission) : t.shown = t.enables ↔ t.Aligned := by
  cases t with
  | idle d => simp [shown, enables, Aligned]
  | packet p body hbody =>
      cases hmwr : p.type.targetMwr with
      | false => simp [shown, enables, Aligned, Packet.enables, hmwr]
      | true =>
          have hshown := shownEnables_iff hmwr (carries_address hbody hmwr)
          simpa [shown, enables, Aligned, hmwr] using hshown

/-- One transmission, received between packets. -/
theorem writeStrobes {s : P2lDecode32} (h : s.Between) (t : Transmission) :
    log step (after step writeStrobe) s t.cycles = t.shown ∧ (run step s t.cycles).Between := by
  cases t with
  | idle d =>
      refine ⟨?_, (h.idle d).2.2⟩
      rw [cycles, log_cons, log_nil, after, writeStrobe_wait]
      rfl
  | packet p body hbody =>
      refine ⟨?_, (h.delivers_packet hbody).next⟩
      rw [cycles, log_cons, after, writeStrobe_of_noData h.dataCycle, List.nil_append]
      have htype : (s.step ⟨true, true, p.header⟩).type = p.type := h.header.2.2.1
      cases hmwr : p.type.targetMwr with
      | false =>
          have hstay := (types_of_body (P := fun type => type.targetMwr = false)
            (s := s.step ⟨true, true, p.header⟩) hbody rfl (by rwa [htype])).1
          have hnone : ∀ (s : P2lDecode32) (c : DesP2l), (s.step c).type.targetMwr = false →
              after step writeStrobe s c = [] := fun s c hc => by simp [after, writeStrobe, hc]
          have hquiet := log_eq_nil hnone hstay
          rw [hquiet, shown, hmwr]
          rfl
      | true =>
          have hbit := address_of_mwr hmwr
          rw [shown, if_pos hmwr]
          exact (h.header_inAddress hbit).shownEnables (carries_address hbody hmwr)
            (h.header_enables hbit) hmwr

theorem writeStrobes_stream {s : P2lDecode32} (h : s.Between) (ts : List Transmission) :
    log step (after step writeStrobe) s (ts.flatMap cycles) = ts.flatMap shown := by
  induction ts generalizing s with
  | nil => rfl
  | cons t ts ih =>
      obtain ⟨hfirst, hnext⟩ := writeStrobes h t
      rw [List.flatMap_cons, List.flatMap_cons, log_append, hfirst, ih hnext]

end Transmission

namespace P2lDecode32

/-- **Byte enables follow the address by one cycle.**  From reset, for every sequence of packets
and wait states, every data word of every target write is shown with the byte enables owed to it
exactly if in each target write the first data word comes right behind the address word, or
cannot tell its byte enables from those that follow. -/
theorem byteEnables_iff (ts : List Transmission) :
    log step (after step writeStrobe) reset (ts.flatMap Transmission.cycles) =
        ts.flatMap Transmission.enables ↔
      ∀ t ∈ ts, t.Aligned := by
  rw [Transmission.writeStrobes_stream between_reset]
  induction ts with
  | nil => simp
  | cons t ts ih =>
      have hlen := Transmission.length_shown t
      rw [List.flatMap_cons, List.flatMap_cons, List.forall_mem_cons, ← ih,
        ← Transmission.shown_iff t]
      constructor
      · intro heq
        exact List.append_inj heq hlen
      · rintro ⟨hfirst, hrest⟩
        rw [hfirst, hrest]

/-- A write of two words, with two bytes of the first one enabled. -/
def partialWrite : Packet := ⟨0x02f30002, 0x00001004, [0xa, 0xb], by decide⟩

/-- The write with a wait state behind its address. -/
def delayedWrite : Transmission :=
  .packet partialWrite
    [⟨true, true, 0x1004⟩, ⟨false, true, 0⟩, ⟨true, true, 0xa⟩, ⟨true, false, 0xb⟩] (by
      have hbody : partialWrite.body = [0x1004, 0xa, 0xb] := by decide
      rw [hbody]
      exact .word _ (.wait _ (.word _ (.last _))))

/-- The first word is shown with all bytes enabled. -/
theorem delayed_word_loses_enables :
    log step (after step writeStrobe) reset delayedWrite.cycles ≠ delayedWrite.enables := by
  decide +kernel

end P2lDecode32

end Gn4124Core
