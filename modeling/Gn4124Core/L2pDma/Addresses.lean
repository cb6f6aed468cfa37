import Gn4124Core.L2pDma.Headers

/-!
# The host addresses of an L2P transfer

The registers `l2p_address_h` and `l2p_address_l` hold the address of the packet under way.  Only
the low one moves on, so the packets wrap around at a boundary of 4 GB (`packets_walk_iff`), and
it moves on in every cycle of `L2P_LAST_DATA`, also in those in which the last word of a packet
is held back (`low_words_steady`).

Both theorems read the header words of the packets off the invariant `Front` of `L2pDma/Headers`.

* For the first one `carries_iff` says which address a packet with such a head carries, and the
  rest is arithmetic of halves: `low_add` and `high_add_iff` say that the low half moves on
  modulo 4 GB and that the high half would have to move only if it overflows.  One direction is
  `Front.walks`, the other `Front.fits_of_walks`, which looks at the last packet.
* For the second one no packet may be held back with its last word, and `Front.addressWords`
  compares the headers and address words sent with all those of the transfer.
-/

namespace Gn4124Core

open Clocked

/-- A packet with the address `a`: as one word if the high half is zero, else as two. -/
def Carries : List Word → BitVec 64 → Prop
  | [], _ => False
  | header :: rest, a =>
      if a.extractLsb' 32 32 = 0#32 then
        header.extractLsb' 24 4 = 0b0010#4 ∧ rest.take 1 = [a.extractLsb' 0 32]
      else
        header.extractLsb' 24 4 = 0b0011#4 ∧
          rest.take 2 = [a.extractLsb' 32 32, a.extractLsb' 0 32]

instance : ∀ (p : List Word) (a : BitVec 64), Decidable (Carries p a)
  | [], _ => inferInstanceAs (Decidable False)
  | header :: rest, a =>
      inferInstanceAs (Decidable
        (if a.extractLsb' 32 32 = 0#32 then
          header.extractLsb' 24 4 = 0b0010#4 ∧ rest.take 1 = [a.extractLsb' 0 32]
        else
          header.extractLsb' 24 4 = 0b0011#4 ∧
            rest.take 2 = [a.extractLsb' 32 32, a.extractLsb' 0 32]))

/-! ## Addresses of two words -/

section Halves

variable (h l : Word) (d : ℕ)

theorem toNat_halves : (h ++ l).toNat = h.toNat * 2 ^ 32 + l.toNat := by
  rw [BitVec.toNat_append, ← Nat.shiftLeft_add_eq_or_of_lt l.isLt, Nat.shiftLeft_eq]

/-- The low half moves on modulo 4 GB. -/
theorem low_add : (h ++ l + BitVec.ofNat 64 d).extractLsb' 0 32 = l + BitVec.ofNat 32 d := by
  apply BitVec.eq_of_toNat_eq
  rw [BitVec.extractLsb'_toNat, BitVec.toNat_add, BitVec.toNat_add, toNat_halves,
    BitVec.toNat_ofNat, BitVec.toNat_ofNat, Nat.shiftRight_zero]
  omega

/-- The high half stays exactly if the low one does not overflow. -/
theorem high_add_iff {d : ℕ} (hd : d < 2 ^ 32) :
    (h ++ l + BitVec.ofNat 64 d).extractLsb' 32 32 = h ↔ l.toNat + d < 2 ^ 32 := by
  have hh := h.isLt
  have hl := l.isLt
  rw [BitVec.toNat_eq, BitVec.extractLsb'_toNat, BitVec.toNat_add, toNat_halves,
    BitVec.toNat_ofNat, Nat.shiftRight_eq_div_pow]
  omega

end Halves

namespace WriteTransfer

open L2pDmaPath

variable {gByteSwap : Bool} {t : WriteTransfer} {k : ℕ}

/-- The low address word of packet `k` of a transfer to `a`. -/
def lowWord (a : Word) (k : ℕ) : Word := a + BitVec.ofNat 32 (128 * k)

theorem nextLow_lowWord (a : Word) (k : ℕ) : nextLow (lowWord a k) = lowWord a (k + 1) := by
  have hmax : cL2pMaxPayload.setWidth 32 * 4 = BitVec.ofNat 32 128 := by decide
  rw [nextLow, lowWord, lowWord, hmax, BitVec.add_assoc, ← BitVec.ofNat_add, Nat.mul_succ]

/-- A packet with the head of packet `k` has the address that its two registers hold. -/
theorem carries_iff {p : List Word} {low : Word} (hp : t.head k low <+: p) (a : BitVec 64)
    (hlow : a.extractLsb' 0 32 = low) : Carries p a ↔ a.extractLsb' 32 32 = t.addrH := by
  obtain ⟨rest, rfl⟩ := hp
  have htype := writeHeader_type (t.addrH != 0) (BitVec.ofNat 10 (t.chunk k))
  rw [head, List.cons_append, Carries, htype, hlow]
  -- a packet of the wrong width has a header of the wrong type
  by_cases hwide : t.addrH = 0#32
  · have hb : (t.addrH != 0) = false := by simpa using hwide
    rw [hb, hwide]
    by_cases hhigh : a.extractLsb' 32 32 = 0#32 <;> simp [hhigh]
  · have hb : (t.addrH != 0) = true := by simpa using hwide
    rw [hb]
    by_cases hhigh : a.extractLsb' 32 32 = 0#32
    · simp [hhigh, Ne.symm hwide]
    · simp [hhigh, eq_comm]

/-! ## Packets that walk through a buffer -/

/-- The packets carry the addresses `a`, `a + 128` and so on. -/
def Walks (ps : List (List Word)) (a : BitVec 64) : Prop :=
  ∀ k p, ps[k]? = some p → Carries p (a + BitVec.ofNat 64 (128 * k))

variable {aL : Word} {s : L2pDmaPath} {words : List (Bool × Word)}

/-- A packet has the right address exactly if the low word has not wrapped around before it. -/
theorem Headed.carries_iff {p : List Word} (h : t.Headed (fun k w => w = lowWord aL k) k p)
    (hk : k < t.packetCount) (hlen : t.len < 2 ^ 30) :
    Carries p (t.addrH ++ aL + BitVec.ofNat 64 (128 * k)) ↔ aL.toNat + 128 * k < 2 ^ 32 := by
  obtain ⟨low, rfl, hp⟩ := h
  unfold packetCount at hk
  rw [WriteTransfer.carries_iff hp _ (low_add _ _ _), high_add_iff _ _ (by omega)]

theorem Front.packet_lt {Low : ℕ → Word → Prop} {m : ℕ} {p : List Word} (h : t.Front Low k s words)
    (hp : (packets words)[m]? = some p) : m < t.packetCount := by
  obtain ⟨hlt, -⟩ := List.getElem?_eq_some_iff.mp hp
  have hcount := h.count
  have hbound := h.bound
  omega

/-- The packets walk through the buffer if it ends below a boundary of 4 GB. -/
theorem Front.walks (h : t.Front (fun k w => w = lowWord aL k) k s words) (hlen : t.len < 2 ^ 30)
    (hfits : aL.toNat + 128 * (t.packetCount - 1) < 2 ^ 32) :
    Walks (packets words) (t.addrH ++ aL) := by
  intro m p hp
  have hlt := h.packet_lt hp
  rw [(h.headed m p hp).carries_iff hlt hlen]
  omega

theorem Front.fits_of_walks (h : t.Front (fun k w => w = lowWord aL k) k s words)
    (hpos : 0 < t.len) (hlen : t.len < 2 ^ 30) (hdone : s.ldm.fsm.dmaCtrlDone = true)
    (hwalks : Walks (packets words) (t.addrH ++ aL)) :
    aL.toNat + 128 * (t.packetCount - 1) < 2 ^ 32 := by
  have hcount := h.count.trans (h.count_of_done hdone)
  have hsome : 0 < t.packetCount := by
    unfold packetCount
    omega
  -- the last packet decides
  have hlast := List.getElem?_eq_getElem (l := packets words) (i := t.packetCount - 1) (by omega)
  rw [← (h.headed _ _ hlast).carries_iff (by omega) hlen]
  exact hwalks _ _ hlast

end WriteTransfer

namespace L2pDmaPath

open WriteTransfer

/-- **The addresses of an L2P transfer.**  Take an order of `n` words in any idle state that can
be reached from reset without an abort, with the data FIFO empty, and any run up to its end
with no abort, no other order and no stall.  The packets carry the addresses from the host
address on, 128 bytes apart, if the last of them starts below the boundary of 4 GB; and a
transfer that is complete has carried them only then. -/
theorem packets_walk_iff (gByteSwap : Bool) (addrFifoDin : Word) (dataFifoValid : Bool) (q : Word)
    (ws : List Word) (hs : List L2pDmaPathIn) (i : L2pDmaPathIn) (is : List L2pDmaPathIn) :
    let s := run (step gByteSwap) (reset addrFifoDin dataFifoValid q ws) hs
    let n := (i.ctrl.len.extractLsb' 2 30).toNat
    let s' := run (step gByteSwap) (step gByteSwap s i) is
    let sent := packets (emitted gByteSwap (step gByteSwap s i) is)
    let fits := i.ctrl.hostAddrL.toNat + 128 * ((n + 31) / 32 - 1) < 2 ^ 32
    Always (step gByteSwap) (fun _ i => i.ctrl.abort = false)
      (reset addrFifoDin dataFifoValid q ws) hs →
    s.ldm.fsm.l2pDmaCurrentState = .idle → s.dataFifo.ready = [] →
    i.ctrl.startL2p = true → 1 ≤ n →
    Always (step gByteSwap) (fun s i => Ongoing s i ∧ i.l2pRdy = true) (step gByteSwap s i) is →
    (fits → Walks sent (i.ctrl.hostAddrH ++ i.ctrl.hostAddrL)) ∧
      (s'.ldm.fsm.dmaCtrlDone = true →
        (Walks sent (i.ctrl.hostAddrH ++ i.ctrl.hostAddrL) ↔ fits)) := by
  intro s n s' sent fits hquiet hidle hempty hstart hpos hrun
  have hsettled : s.Settled :=
    invariant_run (fun _ _ h habort => h.step habort) hquiet
      (reset_settled addrFifoDin dataFifoValid q ws)
  -- addresses do not depend on the payload
  let t := i.ctrl.writeTransfer (List.replicate n 0)
  have hlen : t.len = n := List.length_replicate
  have hlt : n < 2 ^ 30 := (i.ctrl.len.extractLsb' 2 30).isLt
  have hcount : t.packetCount = (n + 31) / 32 := by rw [packetCount, hlen]
  have hfront : t.Front (fun k w => w = lowWord i.ctrl.hostAddrL k) 0 (step gByteSwap s i) [] :=
    hsettled.front hidle hempty hstart hlen (by rw [List.length_replicate]; exact hpos)
      (BitVec.add_zero _).symm
  have hgo : Always (step gByteSwap) Ongoing (step gByteSwap s i) is := hrun.mono fun _ _ h => h.1
  have hsteady : Always (step gByteSwap) Steady (step gByteSwap s i) is :=
    hrun.mono fun _ _ h _ _ _ => h.2
  obtain ⟨k, hk⟩ := hfront.run (fun k w h => h ▸ nextLow_lowWord _ k) hgo (.inl hsteady)
  have hwalks : fits → Walks sent (i.ctrl.hostAddrH ++ i.ctrl.hostAddrL) := fun hfits =>
    hk.walks (by omega) (by rw [hcount]; exact hfits)
  refine ⟨hwalks, fun hdone => ⟨fun h => ?_, hwalks⟩⟩
  have hfits := hk.fits_of_walks (by omega) (by omega) hdone h
  rwa [hcount] at hfits

/-- Two packets, the first of which ends at the boundary of 4 GB. -/
theorem second_packet_wraps :
    let i := orderEdge 0xFFFFFF80 132
    let s := step false (reset 0 false 0 (List.replicate 33 7)) i
    let is := (List.replicate 40 true).map dataEdge
    Always (step false) (fun s i => Ongoing s i ∧ i.l2pRdy = true) s is ∧
      (run (step false) s is).ldm.fsm.dmaCtrlDone = true ∧
      ((packets (emitted false s is)).map (List.take 2)) =
        [[writeHeader false 32, 0xFFFFFF80], [writeHeader false 1, 0]] ∧
      ¬ Walks (packets (emitted false s is)) (i.ctrl.hostAddrH ++ i.ctrl.hostAddrL) := by
  refine ⟨by decide +kernel, by decide +kernel, by decide +kernel, fun h => ?_⟩
  have hsecond := h 1 [writeHeader false 1, 0, 7] (by decide +kernel)
  revert hsecond
  decide +kernel

/-- Two packets in the middle of a region of 4 GB. -/
theorem packets_walk_two :
    let i := orderEdge 0x1000 132
    let s := step false (reset 0 false 0 (List.replicate 33 7)) i
    let is := (List.replicate 40 true).map dataEdge
    Walks (packets (emitted false s is)) (i.ctrl.hostAddrH ++ i.ctrl.hostAddrL) :=
  (packets_walk_iff false 0 false 0 (List.replicate 33 7) [] (orderEdge 0x1000 132)
    ((List.replicate 40 true).map dataEdge) trivial rfl rfl rfl (by decide)
    (by decide +kernel)).1 (by decide)

end L2pDmaPath

/-! ## Addresses under back-pressure -/

/-- The header and the address word of every packet, in the order in which they are sent, for
packets with one address word. -/
def addressWords (words : List (Bool × Word)) : List Word :=
  (packets words ++ [openPacket words]).flatMap (List.take 2)

namespace WriteTransfer

variable {t : WriteTransfer} {k : ℕ} {aL : Word} {s : L2pDmaPath} {words : List (Bool × Word)}

variable (t aL) in
/-- All the headers and address words of a transfer to `aL`. -/
def allAddressWords : List Word :=
  (List.range t.packetCount).flatMap fun k => [t.header k, lowWord aL k]

theorem Headed.take_two {p : List Word} (h : t.Headed (fun k w => w = lowWord aL k) k p)
    (hnarrow : t.addrH = 0) : p.take 2 = [t.header k, lowWord aL k] := by
  obtain ⟨low, rfl, rest, rfl⟩ := h
  have hb : (t.addrH != 0) = false := by simpa using hnarrow
  rw [head_eq, hb]
  rfl

theorem Front.openPacket_take_two (h : t.Front (fun k w => w = lowWord aL k) k s words)
    (hnarrow : t.addrH = 0) :
    openPacket words = [] ∨
      32 * k < t.len ∧ (openPacket words).take 2 <+: [t.header k, lowWord aL k] := by
  have hb : (t.addrH != 0) = false := by simpa using hnarrow
  have hat := h.atFront
  cases hstate : s.ldm.fsm.l2pDmaCurrentState with
  | idle | header =>
      simp only [AtFront, hstate] at hat
      exact .inl hat.1
  | addrH =>
      simp only [AtFront, hstate, hb] at hat
      exact absurd hat.2.1 (by decide)
  | addrL =>
      simp only [AtFront, hstate, hb] at hat
      refine .inr ⟨hat.2.1.more, ?_⟩
      rw [hat.1]
      exact ⟨[lowWord aL k], rfl⟩
  | data | waitData | waitRdy | lastData =>
      simp only [AtFront, hstate] at hat
      refine .inr ⟨hat.1.more, ?_⟩
      rw [hat.1.headed.take_two hnarrow]

/-- The headers and address words so far are the first ones of the transfer, and all of them at
its end. -/
theorem Front.addressWords (h : t.Front (fun k w => w = lowWord aL k) k s words)
    (hnarrow : t.addrH = 0) :
    Gn4124Core.addressWords words <+: t.allAddressWords aL ∧
      (s.ldm.fsm.dmaCtrlDone = true → Gn4124Core.addressWords words = t.allAddressWords aL) := by
  have hsent : (packets words).flatMap (List.take 2) =
      (List.range k).flatMap fun k => [t.header k, lowWord aL k] := by
    rw [← h.count, List.flatMap_def, List.flatMap_def]
    exact congrArg _ (map_packets fun j p hp => (h.headed j p hp).take_two hnarrow)
  have hfirst : ∀ m ≤ t.packetCount,
      ((List.range m).flatMap fun k => [t.header k, lowWord aL k]) <+: t.allAddressWords aL := by
    intro m hm
    obtain ⟨d, hd⟩ := Nat.exists_eq_add_of_le hm
    rw [allAddressWords, hd, List.range_add, List.flatMap_append]
    exact List.prefix_append _ _
  rw [Gn4124Core.addressWords, List.flatMap_append, hsent, List.flatMap_singleton]
  refine ⟨?_, fun hdone => ?_⟩
  · rcases h.openPacket_take_two hnarrow with hnone | ⟨hmore, hopen⟩
    · rw [hnone, List.take_nil, List.append_nil]
      exact hfirst k h.bound
    · -- of the packet under way the first words may be there
      have hcount : k + 1 ≤ t.packetCount := by
        unfold packetCount
        omega
      have hnext := hfirst (k + 1) hcount
      rw [List.range_succ, List.flatMap_append, List.flatMap_singleton] at hnext
      exact ((List.prefix_append_right_inj _).mpr hopen).trans hnext
  · rw [(h.done hdone).2, h.count_of_done hdone, List.take_nil, List.append_nil, allAddressWords]

end WriteTransfer

namespace L2pDmaPath

open WriteTransfer

/-- **Addresses under back-pressure.**  Take an order of `n` words to an address `a` below 4 GB,
in any idle state that can be reached from reset without an abort, with the data FIFO empty,
and any run up to its end with no abort and no other order, in which the last word of a packet
is not held back while more than one packet is to follow.  Packet `k` has the low address word
`a + 128 * k`, and the headers and address words that are sent depend on nothing but the
order: those of any two such runs agree as far as both have come. -/
theorem low_words_steady (gByteSwap : Bool) (addrFifoDin : Word) (dataFifoValid : Bool) (q : Word)
    (ws : List Word) (hs : List L2pDmaPathIn) (i : L2pDmaPathIn) (is : List L2pDmaPathIn) :
    let s := run (step gByteSwap) (reset addrFifoDin dataFifoValid q ws) hs
    let n := (i.ctrl.len.extractLsb' 2 30).toNat
    let a := i.ctrl.hostAddrL.toNat
    let s' := run (step gByteSwap) (step gByteSwap s i) is
    let words := emitted gByteSwap (step gByteSwap s i) is
    let ordered := (List.range ((n + 31) / 32)).flatMap fun k =>
      [writeHeader false (BitVec.ofNat 10 (min 32 (n - 32 * k))), BitVec.ofNat 32 (a + 128 * k)]
    Always (step gByteSwap) (fun _ i => i.ctrl.abort = false)
      (reset addrFifoDin dataFifoValid q ws) hs →
    s.ldm.fsm.l2pDmaCurrentState = .idle → s.dataFifo.ready = [] →
    i.ctrl.startL2p = true → i.ctrl.hostAddrH = 0 → 1 ≤ n → a + 4 * n ≤ 2 ^ 32 →
    Always (step gByteSwap) (fun s i => Ongoing s i ∧ Steady s i) (step gByteSwap s i) is →
    (∀ k p, (packets words)[k]? = some p → p[1]?.map BitVec.toNat = some (a + 128 * k)) ∧
      addressWords words <+: ordered ∧
      (s'.ldm.fsm.dmaCtrlDone = true → addressWords words = ordered) := by
  intro s n a s' words ordered hquiet hidle hempty hstart hnarrow hpos hfits hrun
  have hsettled : s.Settled :=
    invariant_run (fun _ _ h habort => h.step habort) hquiet
      (reset_settled addrFifoDin dataFifoValid q ws)
  let t := i.ctrl.writeTransfer (List.replicate n 0)
  have hlen : t.len = n := List.length_replicate
  have hcount : t.packetCount = (n + 31) / 32 := by rw [packetCount, hlen]
  have hnarrow' : t.addrH = 0 := hnarrow
  have hfront : t.Front (fun k w => w = lowWord i.ctrl.hostAddrL k) 0 (step gByteSwap s i) [] :=
    hsettled.front hidle hempty hstart hlen (by rw [List.length_replicate]; exact hpos)
      (BitVec.add_zero _).symm
  have hgo : Always (step gByteSwap) Ongoing (step gByteSwap s i) is := hrun.mono fun _ _ h => h.1
  have hsteady : Always (step gByteSwap) Steady (step gByteSwap s i) is :=
    hrun.mono fun _ _ h => h.2
  obtain ⟨k, hk⟩ := hfront.run (fun k w h => h ▸ nextLow_lowWord _ k) hgo (.inl hsteady)
  have hlow : ∀ k, lowWord i.ctrl.hostAddrL k = BitVec.ofNat 32 (a + 128 * k) := by
    intro k
    rw [lowWord, BitVec.ofNat_add, BitVec.ofNat_toNat, BitVec.setWidth_eq]
  have hall : t.allAddressWords i.ctrl.hostAddrL = ordered := by
    have hb : (t.addrH != 0) = false := by simpa using hnarrow'
    simp only [allAddressWords, header, chunk, hb, hlow, hlen, hcount, ordered]
  have hsent := hk.addressWords hnarrow'
  rw [hall] at hsent
  refine ⟨fun k p hp => ?_, hsent⟩
  have hlt := hk.packet_lt hp
  have htwo := (hk.headed k p hp).take_two hnarrow'
  have hsecond : p[1]? = some (lowWord i.ctrl.hostAddrL k) := by
    have hget := congrArg (fun l => l[1]?) htwo
    simpa using hget
  -- the buffer ends below 4 GB, so no address of it wraps around
  rw [hsecond, Option.map_some, hlow, BitVec.toNat_ofNat, Nat.mod_eq_of_lt (by omega)]

/-- Three packets, and a stall of one cycle when the first is about to send its last word: the
second packet goes to the place of the third, and the third to one behind the buffer. -/
theorem stall_moves_packets :
    let i := orderEdge 0x1000 260
    let s := step false (reset 0 false 0 (List.replicate 65 7)) i
    let is := (List.replicate 36 true ++ [false] ++ List.replicate 38 true).map dataEdge
    Always (step false) Ongoing s is ∧
      (run (step false) s is).ldm.fsm.dmaCtrlDone = true ∧
      addressWords (emitted false s is) =
        [writeHeader false 32, 0x1000, writeHeader false 32, 0x1100, writeHeader false 1, 0x1180] ∧
      ¬ ∀ k p, (packets (emitted false s is))[k]? = some p →
        p[1]?.map BitVec.toNat = some (0x1000 + 128 * k) := by
  refine ⟨by decide +kernel, by decide +kernel, by decide +kernel, fun h => ?_⟩
  have hsecond := h 1 ([writeHeader false 32, 0x1100] ++ List.replicate 32 7) (by decide +kernel)
  revert hsecond
  decide +kernel

/-- Three packets, with a stall while a word is at the output of the FIFO, and one before the last
word of the second packet. -/
theorem low_words_steady_three :
    let s := step false (reset 0 false 0 (List.replicate 65 7)) (orderEdge 0x1000 260)
    let is := (List.replicate 10 true ++ [false] ++ List.replicate 61 true ++ [false] ++
      List.replicate 4 true).map dataEdge
    addressWords (emitted false s is) =
      [writeHeader false 32, 0x1000, writeHeader false 32, 0x1080, writeHeader false 1, 0x1100] :=
  (low_words_steady false 0 false 0 (List.replicate 65 7) [] (orderEdge 0x1000 260)
    ((List.replicate 10 true ++ [false] ++ List.replicate 61 true ++ [false] ++
      List.replicate 4 true).map dataEdge) trivial rfl rfl rfl rfl (by decide) (by decide)
    (by decide +kernel)).2.2 (by decide +kernel)

end L2pDmaPath

end Gn4124Core
