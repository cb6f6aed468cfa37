import Gn4124Core.Decoder.Stream

/-!
# The decoder delivers every packet

The proof follows the grammar of `Stream`.  Between two packets the decoder is in a state
`Between`, with no cycle flag set; a header takes it to `InAddress` or `InData`, and the
last word of the packet back to `Between`.  The strobe of a word appears with the very
edge that samples the word, so that wait states and back-to-back packets need no case of
their own: the only register that runs behind is the address bus, which counts one edge
after each data strobe (`nextAddr`).

`Delivers` says of a part of the stream which strobes are seen and to which state it leads, and
parts are put together with `Delivers.append`.  A cycle has a lemma for each state that it can meet
(`Between.idle` to `InData.word_inData`).  The body of a packet is received by induction on its
derivation (`InData.delivers`, `InAddress.delivers`), with the wait states as a case that shows
nothing, and the stream by induction on the packets (`Between.delivers`).
-/

namespace Gn4124Core

open Clocked

namespace P2lDecode32

/-- No packet is under way. -/
structure Between (s : P2lDecode32) : Prop where
  dframeD : s.frame.desP2lDframeD = false
  addrCycle : s.addr.p2lAddrCycle = false
  dataCycle : s.data.p2lDataCycle = false

/-- The header of a packet with an address word has been received. -/
structure InAddress (p : Packet) (s : P2lDecode32) : Prop where
  dframeD : s.frame.desP2lDframeD = true
  type : s.type = p.type
  addrCycle : s.addr.p2lAddrCycle = true
  dataCycle : s.data.p2lDataCycle = false

/-- The address bus at the next data strobe. -/
def nextAddr (s : P2lDecode32) : Word :=
  if s.data.p2lDValid then addrIncrement s.addr.p2lAddr else s.addr.p2lAddr

/-- The next data word of the packet is number `i`. -/
structure InData (p : Packet) (i : ℕ) (s : P2lDecode32) : Prop where
  dframeD : s.frame.desP2lDframeD = true
  type : s.type = p.type
  addrCycle : s.addr.p2lAddrCycle = false
  dataCycle : s.data.p2lDataCycle = true
  nextAddr : p.type.targetMwr = true → s.nextAddr = wordAddr p.address i

/-- The last-word flag comes with a data strobe only. -/
def LastValid (s : P2lDecode32) : Prop := s.data.p2lDLast = true → s.data.p2lDValid = true

/-- What is shown of the cycles of one part of a stream: the strobes, the last-word flag
and the state they lead to. -/
structure Delivers (s : P2lDecode32) (cs : List DesP2l) (events : List DecoderEvent)
    (next : P2lDecode32 → Prop) : Prop where
  log : log step (after step P2lDecode32.events) s cs = events
  last : Always step (fun s des => (s.step des).LastValid) s cs
  next : next (run step s cs)

theorem between_reset : reset.Between := ⟨rfl, rfl, rfl⟩

theorem Delivers.nil {s : P2lDecode32} {next : P2lDecode32 → Prop} (h : next s) :
    s.Delivers [] [] next :=
  ⟨rfl, trivial, h⟩

/-- The first cycle of a part, and the rest of it. -/
theorem Delivers.cons {s : P2lDecode32} {c : DesP2l} {cs : List DesP2l}
    {es es' : List DecoderEvent} {next : P2lDecode32 → Prop} (hevents : (s.step c).events = es)
    (hlast : (s.step c).LastValid) (hrest : (s.step c).Delivers cs es' next) :
    s.Delivers (c :: cs) (es ++ es') next :=
  ⟨by rw [log_cons, after, hevents, hrest.log], ⟨hlast, hrest.last⟩, hrest.next⟩

theorem Delivers.cons_quiet {s : P2lDecode32} {c : DesP2l} {cs : List DesP2l}
    {es : List DecoderEvent} {next : P2lDecode32 → Prop} (hevents : (s.step c).events = [])
    (hlast : (s.step c).LastValid) (hrest : (s.step c).Delivers cs es next) :
    s.Delivers (c :: cs) es next :=
  .cons hevents hlast hrest

theorem Delivers.append {s : P2lDecode32} {cs cs' : List DesP2l} {es es' : List DecoderEvent}
    {mid next : P2lDecode32 → Prop} (h : s.Delivers cs es mid)
    (h' : ∀ s', mid s' → s'.Delivers cs' es' next) : s.Delivers (cs ++ cs') (es ++ es') next := by
  have htail := h' _ h.next
  refine ⟨?_, ?_, ?_⟩
  · rw [log_append, h.log, htail.log]
  · exact (always_append ..).mpr ⟨h.last, htail.last⟩
  · rw [run_append]
    exact htail.next

/-! ## One bus cycle -/

section Cycle

variable {s : P2lDecode32} {p : Packet} {i : ℕ} (w : Word)

theorem Between.idle (h : s.Between) :
    (s.step ⟨false, false, w⟩).events = [] ∧ (s.step ⟨false, false, w⟩).LastValid ∧
      (s.step ⟨false, false, w⟩).Between := by
  refine ⟨?_, ?_, rfl, ?_, ?_⟩ <;>
    simp [step, events, LastValid, pHeaderDecode, pAddrDecode, pDataDecode, p2lPacketStart,
      h.addrCycle, h.dataCycle]

/-- The header cycle raises the header strobe with the packet's own type. -/
theorem Between.header (h : s.Between) :
    (s.step ⟨true, true, p.header⟩).events =
        [.header (p.header.extractLsb' 0 10) (p.header.extractLsb' 10 2) p.type] ∧
      (s.step ⟨true, true, p.header⟩).LastValid ∧
      (s.step ⟨true, true, p.header⟩).type = p.type ∧
      (s.step ⟨true, true, p.header⟩).data.p2lDValid = false := by
  refine ⟨?_, ?_, ?_, ?_⟩
  · simp [step, events, pHeaderDecode, pAddrDecode, pDataDecode, pTypeDecode, p2lPacketStart,
      h.dframeD, h.addrCycle, h.dataCycle, Packet.type]
  · simp [step, LastValid, pDataDecode, h.dataCycle]
  · simp [step, pTypeDecode, p2lPacketStart, h.dframeD, Packet.type]
  · simp [step, pDataDecode, h.dataCycle]

theorem Between.header_inAddress (h : s.Between) (hbit : p.header.getLsbD 26 = false) :
    (s.step ⟨true, true, p.header⟩).InAddress p where
  dframeD := rfl
  type := h.header.2.2.1
  addrCycle := by
    simp [step, pAddrDecode, p2lPacketStart, h.dframeD, show p.header[26] = false from hbit]
  dataCycle := by
    simp [step, pDataDecode, h.addrCycle, h.dataCycle, show p.header[26] = false from hbit]

theorem Between.header_inData (h : s.Between) (hbit : p.header.getLsbD 26 = true) :
    (s.step ⟨true, true, p.header⟩).InData p 0 where
  dframeD := rfl
  type := h.header.2.2.1
  addrCycle := by simp [step, pAddrDecode, h.addrCycle, show p.header[26] = true from hbit]
  dataCycle := by
    simp [step, pDataDecode, p2lPacketStart, h.dframeD, show p.header[26] = true from hbit]
  nextAddr := fun hmwr => by simp [(Packet.target_of_completion hbit).2] at hmwr

theorem InAddress.wait (h : s.InAddress p) :
    (s.step ⟨false, true, w⟩).events = [] ∧ (s.step ⟨false, true, w⟩).LastValid ∧
      (s.step ⟨false, true, w⟩).InAddress p := by
  refine ⟨?_, ?_, rfl, ?_, ?_, ?_⟩ <;>
    simp [step, events, LastValid, pTypeDecode, pHeaderDecode, pAddrDecode, pDataDecode,
      p2lPacketStart, p2lPacketEnd, h.dframeD, h.type, h.addrCycle, h.dataCycle]

/-- The address cycle raises the address strobe for target reads and writes only. -/
theorem InAddress.address (h : s.InAddress p) (dframe : Bool) :
    (s.step ⟨true, dframe, p.address⟩).events =
        (if p.type.targetMrd || p.type.targetMwr then [.address p.address p.type] else []) ∧
      (s.step ⟨true, dframe, p.address⟩).LastValid ∧
      (s.step ⟨true, dframe, p.address⟩).addr.p2lAddrCycle = false ∧
      (s.step ⟨true, dframe, p.address⟩).data.p2lDataCycle = dframe := by
  refine ⟨?_, ?_, ?_, ?_⟩
  · cases hmrd : p.type.targetMrd <;> cases hmwr : p.type.targetMwr <;>
      simp [step, events, pTypeDecode, pHeaderDecode, pAddrDecode, pDataDecode, p2lPacketStart,
        p2lPacketEnd, h.dframeD, h.type, h.addrCycle, h.dataCycle, hmrd, hmwr]
  · simp [step, LastValid, pDataDecode, h.dataCycle]
  · simp [step, pAddrDecode, p2lPacketStart, h.dframeD, h.addrCycle]
  · cases dframe <;> simp [step, pDataDecode, h.addrCycle, h.dataCycle]

theorem InAddress.address_inData (h : s.InAddress p) :
    (s.step ⟨true, true, p.address⟩).InData p 0 where
  dframeD := rfl
  type := by simp [step, pTypeDecode, p2lPacketStart, p2lPacketEnd, h.dframeD, h.type]
  addrCycle := (h.address true).2.2.1
  dataCycle := (h.address true).2.2.2
  nextAddr := fun hmwr => by
    simp [step, P2lDecode32.nextAddr, pAddrDecode, pDataDecode, h.addrCycle, h.dataCycle, h.type,
      hmwr]

theorem InData.wait (h : s.InData p i) :
    (s.step ⟨false, true, w⟩).events = [] ∧ (s.step ⟨false, true, w⟩).LastValid ∧
      (s.step ⟨false, true, w⟩).InData p i := by
  have htype : (s.step ⟨false, true, w⟩).type = p.type := by
    simp [step, pTypeDecode, p2lPacketStart, p2lPacketEnd, h.dframeD, h.type]
  refine ⟨?_, ?_, rfl, htype, ?_, ?_, fun hmwr => ?_⟩
  · simp [step, events, pHeaderDecode, pAddrDecode, pDataDecode, p2lPacketStart, h.dframeD,
      h.addrCycle]
  · simp [step, LastValid, pDataDecode]
  · simp [step, pAddrDecode, p2lPacketStart, h.dframeD, h.addrCycle]
  · simp [step, pDataDecode, h.addrCycle, h.dataCycle, p2lPacketStart, h.dframeD]
  · rw [← h.nextAddr hmwr]
    simp [step, P2lDecode32.nextAddr, pAddrDecode, pDataDecode, h.type, hmwr]

/-- A data cycle raises the data strobe, with the address of the word on the address bus. -/
theorem InData.word (h : s.InData p i) (dframe : Bool) :
    (s.step ⟨true, dframe, w⟩).events =
        [.data w (!dframe) p.type
          (if p.type.targetMwr then some (wordAddr p.address i) else none)] ∧
      (s.step ⟨true, dframe, w⟩).LastValid ∧
      (s.step ⟨true, dframe, w⟩).addr.p2lAddrCycle = false ∧
      (s.step ⟨true, dframe, w⟩).data.p2lDataCycle = dframe := by
  have htype : (s.step ⟨true, dframe, w⟩).type = p.type := by
    simp [step, pTypeDecode, p2lPacketStart, p2lPacketEnd, h.dframeD, h.type]
  have haddr : p.type.targetMwr = true →
      (s.step ⟨true, dframe, w⟩).addr.p2lAddr = wordAddr p.address i := fun hmwr => by
    rw [← h.nextAddr hmwr]
    simp [step, P2lDecode32.nextAddr, pAddrDecode, h.addrCycle, h.type, hmwr]
  refine ⟨?_, ?_, ?_, ?_⟩
  · have hstrobe : (s.step ⟨true, dframe, w⟩).header.p2lHdrStrobe = false := by
      simp [step, pHeaderDecode, p2lPacketStart, h.dframeD]
    have hstart : (s.step ⟨true, dframe, w⟩).addr.p2lAddrStart = false := by
      simp [step, pAddrDecode, h.addrCycle]
    have hdata : (s.step ⟨true, dframe, w⟩).data.p2lDValid = true ∧
        (s.step ⟨true, dframe, w⟩).data.p2lD = w ∧
        (s.step ⟨true, dframe, w⟩).data.p2lDLast = !dframe := by
      simp [step, pDataDecode, h.dataCycle]
    cases hmwr : p.type.targetMwr with
    | false => simp [events, hstrobe, hstart, hdata, htype, hmwr]
    | true => simp [events, hstrobe, hstart, hdata, htype, hmwr, haddr hmwr]
  · simp [step, LastValid, pDataDecode, h.dataCycle]
  · simp [step, pAddrDecode, p2lPacketStart, h.dframeD, h.addrCycle]
  · cases dframe <;> simp [step, pDataDecode, h.addrCycle, h.dataCycle, p2lPacketStart, h.dframeD]

theorem InData.word_inData (h : s.InData p i) :
    (s.step ⟨true, true, w⟩).InData p (i + 1) where
  dframeD := rfl
  type := by simp [step, pTypeDecode, p2lPacketStart, p2lPacketEnd, h.dframeD, h.type]
  addrCycle := (h.word w true).2.2.1
  dataCycle := (h.word w true).2.2.2
  nextAddr := fun hmwr => by
    rw [← addrIncrement_wordAddr, ← h.nextAddr hmwr]
    simp [step, P2lDecode32.nextAddr, pAddrDecode, pDataDecode, h.addrCycle, h.dataCycle, h.type,
      hmwr]

end Cycle

/-! ## The parts of a packet -/

theorem InData.delivers {s : P2lDecode32} {p : Packet} {i : ℕ} {ws : List Word}
    {cs : List DesP2l} (hbody : BodyCycles ws cs) (h : s.InData p i) :
    s.Delivers cs (p.dataEvents i ws) Between := by
  induction hbody generalizing s i with
  | last w =>
      obtain ⟨hevents, hlast, haddr, hdata⟩ := h.word w false
      exact .cons hevents hlast (.nil ⟨rfl, haddr, hdata⟩)
  | word w hws ih =>
      obtain ⟨hevents, hlast, -, -⟩ := h.word w true
      rw [Packet.dataEvents, hws.isEmpty]
      exact .cons hevents hlast (ih (h.word_inData w))
  | wait d hws ih =>
      obtain ⟨hevents, hlast, hnext⟩ := h.wait d
      exact .cons_quiet hevents hlast (ih hnext)

theorem InAddress.delivers {s : P2lDecode32} {p : Packet} {cs : List DesP2l}
    (hbody : BodyCycles (p.address :: p.data) cs) (h : s.InAddress p) :
    s.Delivers cs
      ((if p.type.targetMrd || p.type.targetMwr then [.address p.address p.type] else []) ++
        p.dataEvents 0 p.data) Between := by
  generalize hws : p.address :: p.data = ws at hbody
  induction hbody generalizing s with
  | last w =>
      obtain ⟨rfl, hdata⟩ := List.cons.inj hws
      obtain ⟨hevents, hlast, haddr, hcycle⟩ := h.address false
      rw [hdata]
      exact .cons hevents hlast (.nil ⟨rfl, haddr, hcycle⟩)
  | word w hrest ih =>
      obtain ⟨rfl, rfl⟩ := List.cons.inj hws
      obtain ⟨hevents, hlast, -, -⟩ := h.address true
      exact .cons hevents hlast (h.address_inData.delivers hrest)
  | wait d hrest ih =>
      obtain ⟨hevents, hlast, hnext⟩ := h.wait d
      exact .cons_quiet hevents hlast (ih hnext hws)

theorem Between.delivers_packet {s : P2lDecode32} {p : Packet} {cs : List DesP2l}
    (hbody : BodyCycles p.body cs) (h : s.Between) :
    s.Delivers (⟨true, true, p.header⟩ :: cs) p.events Between := by
  obtain ⟨hevents, hlast, -, -⟩ := h.header (p := p)
  refine .cons hevents hlast ?_
  cases hbit : p.header.getLsbD 26 with
  | false =>
      rw [Packet.body, hbit] at hbody
      exact (h.header_inAddress hbit).delivers hbody
  | true =>
      -- a completion has no address word, and its type is neither of the target types
      rw [Packet.body, hbit] at hbody
      rw [(Packet.target_of_completion hbit).1, (Packet.target_of_completion hbit).2]
      exact (h.header_inData hbit).delivers hbody

/-- A stream of packets, received between packets, yields the strobes of every packet. -/
theorem Between.delivers {s : P2lDecode32} {ps : List Packet} {cs : List DesP2l}
    (hstream : Stream ps cs) (h : s.Between) :
    s.Delivers cs (ps.flatMap Packet.events) Between := by
  induction hstream generalizing s with
  | nil => exact .nil h
  | idle d _ ih =>
      obtain ⟨hevents, hlast, hnext⟩ := h.idle d
      exact .cons_quiet hevents hlast (ih hnext)
  | packet p hbody _ ih => exact (h.delivers_packet hbody).append fun s' h' => ih h'

/-- **The packet decoder delivers every packet exactly.**  From reset, the strobes of
`p2l_decode32` are those owed for the packets on the bus, in order and nothing else, and
the last-word flag is never raised without a data strobe. -/
theorem decoder_delivers {ps : List Packet} {cs : List DesP2l} (hstream : Stream ps cs) :
    log step (after step P2lDecode32.events) reset cs = ps.flatMap Packet.events ∧
      Always step (fun s des => (s.step des).LastValid) reset cs :=
  ⟨(between_reset.delivers hstream).log, (between_reset.delivers hstream).last⟩

/-- A target write of two words, a completion right behind it, and an idle cycle. -/
theorem decoder_delivers_write_completion :
    let write : Packet := ⟨0x020f0002, 0x00001004, [0xa, 0xb], by decide⟩
    let completion : Packet := ⟨0x05000401, 0, [0xc], by decide⟩
    log step (after step P2lDecode32.events) reset
        ([some write, some completion, none].flatMap slotCycles) =
      [.header 2 0 write.type, .address 0x1004 write.type,
        .data 0xa false write.type (some 0x1004), .data 0xb true write.type (some 0x1008),
        .header 1 1 completion.type, .data 0xc true completion.type none] := by
  have hdelivers := decoder_delivers (stream_of_slots
    [some ⟨0x020f0002, 0x00001004, [0xa, 0xb], by decide⟩, some ⟨0x05000401, 0, [0xc], by decide⟩,
      none])
  exact hdelivers.1.trans (by decide +kernel)

/-! ## The data words and the packet types of a stream -/

/-- The data strobe of one cycle: the word, under the type flags of its packet. -/
def dataStrobe (s : P2lDecode32) : List (TypeDecode × Word) :=
  if s.data.p2lDValid then [(s.type, s.data.p2lD)] else []

theorem dataStrobe_eq (s : P2lDecode32) :
    s.dataStrobe = s.events.filterMap DecoderEvent.word? := by
  unfold dataStrobe events
  split_ifs <;> rfl

/-- The data words seen over a whole stream.  The last word is seen one cycle after the
decoder has sampled it. -/
theorem Between.dataStrobes {s : P2lDecode32} {ps : List Packet} {cs : List DesP2l}
    (hstream : Stream ps cs) (h : s.Between) (hfirst : s.data.p2lDValid = false)
    (hlast : (run step s cs).data.p2lDValid = false) :
    log step (fun s _ => s.dataStrobe) s cs = ps.flatMap Packet.words := by
  have hview : log step (fun s _ => s.dataStrobe) s cs ++ (run step s cs).dataStrobe =
      s.dataStrobe ++ log step (after step dataStrobe) s cs := log_view dataStrobe s cs
  have hbefore : s.dataStrobe = [] := by simp [dataStrobe, hfirst]
  have hafter : (run step s cs).dataStrobe = [] := by simp [dataStrobe, hlast]
  rw [hbefore, hafter, List.append_nil, List.nil_append] at hview
  have hevents : after step dataStrobe =
      fun s c => (after step events s c).filterMap DecoderEvent.word? := by
    funext s c
    exact dataStrobe_eq _
  rw [hview, hevents, log_filterMap, (h.delivers hstream).log, List.filterMap_flatMap]
  exact List.flatMap_congr fun p _ => p.word?_events

/-- The type flags stay while the body of a packet is received. -/
theorem types_of_body {P : TypeDecode → Prop} {s : P2lDecode32} {ws : List Word}
    {cs : List DesP2l} (hbody : BodyCycles ws cs) (hframe : s.frame.desP2lDframeD = true)
    (htype : P s.type) :
    Always step (fun s c => P (s.step c).type) s cs ∧ P (run step s cs).type := by
  have hkeep : ∀ c, (s.step c).type = s.type := fun c => by
    simp [step, pTypeDecode, p2lPacketStart, p2lPacketEnd, hframe]
  induction hbody generalizing s with
  | last w =>
      have hnext := htype
      rw [← hkeep ⟨true, false, w⟩] at hnext
      exact ⟨⟨hnext, trivial⟩, hnext⟩
  | word w _ ih =>
      have hnext := htype
      rw [← hkeep ⟨true, true, w⟩] at hnext
      obtain ⟨halways, hlast⟩ := ih (s := s.step ⟨true, true, w⟩) rfl hnext fun c => by
        simp [step, pTypeDecode, p2lPacketStart, p2lPacketEnd]
      exact ⟨⟨hnext, halways⟩, hlast⟩
  | wait d _ ih =>
      have hnext := htype
      rw [← hkeep ⟨false, true, d⟩] at hnext
      obtain ⟨halways, hlast⟩ := ih (s := s.step ⟨false, true, d⟩) rfl hnext fun c => by
        simp [step, pTypeDecode, p2lPacketStart, p2lPacketEnd]
      exact ⟨⟨hnext, halways⟩, hlast⟩

/-- What holds of the types of all the packets holds of the type flags all the time. -/
theorem Between.types {P : TypeDecode → Prop} {s : P2lDecode32} {ps : List Packet}
    {cs : List DesP2l} (hstream : Stream ps cs) (h : s.Between) (hnone : P .none)
    (hps : ∀ p ∈ ps, P p.type) (htype : P s.type) :
    Always step (fun s c => P (s.step c).type) s cs := by
  induction hstream generalizing s with
  | nil => trivial
  | idle d _ ih =>
      have hnext : P (s.step ⟨false, false, d⟩).type := by
        simp only [step, pTypeDecode, p2lPacketStart, Bool.false_and, Bool.false_eq_true, if_false]
        split <;> assumption
      exact ⟨hnext, ih (h.idle d).2.2 hps hnext⟩
  | packet p hbody _ ih =>
      have hheader : (s.step ⟨true, true, p.header⟩).type = p.type := h.header.2.2.1
      have hnext : P (s.step ⟨true, true, p.header⟩).type := by
        rw [hheader]
        exact hps p (List.mem_cons_self ..)
      obtain ⟨halways, hlast⟩ := types_of_body hbody rfl hnext
      refine ⟨hnext, (always_append ..).mpr ⟨halways, ?_⟩⟩
      have hbetween := (h.delivers_packet hbody).next
      exact ih hbetween (fun q hq => hps q (List.mem_cons_of_mem p hq)) hlast

end P2lDecode32

end Gn4124Core
