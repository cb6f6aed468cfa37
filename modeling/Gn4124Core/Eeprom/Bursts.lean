import Gn4124Core.Eeprom.Transactions
import Mathlib.Data.List.Infix
import Mathlib.Tactic.Ring

/-!
# The bursts of a write

The EEPROM has pages of 8 bytes, and the FIFO has room for 6 bytes of data.  `cuts` says how many
bytes each burst has, and `play` what becomes of the bursts under the statuses that are read:
without registers and with the two counters of the source only.  `i2c_write` does exactly this
(`i2cWrite_eq`), and what follows about bursts is about `play`.

The source has two loops, one inside the other, and they are taken apart in this order:

* the inner loop fills the FIFO, byte by byte, up to the end of the page or of the room.  `fill`
  is how much it writes, `fillFifo_eq` says so by induction on the room, and `fillFifo_short` is
  the exception that ends it when the data do;
* a round of the outer loop fills the FIFO, starts the transaction and polls for its end
  (`writeBursts_succ`, `writeBursts_short`).  `burstTrace` and `seenEnd` are its register
  accesses, and `observe_burstTrace` what they are seen as on the two-wire bus;
* `writeBursts_eq` is the whole loop, by induction on the bytes that are left: each burst is at
  least one byte (`burstSize_pos`), so that the loop ends.

For the page boundaries no register matters any more: `inPage_bursts` shows by the recursion of
`cuts` that each burst has one to six bytes of one page, and `data_bursts` that they are the
data, one behind the other.  `write_cut_at_pages` is both, for the transactions of `i2c_write`.
-/

namespace Gn4124Core

open PyLang RegisterBus

namespace Eeprom

/-! ## What the bursts are -/

/-- How many bytes a burst takes at this offset, of `length` that are left: no more than the FIFO
has room for, and none behind the end of the page. -/
def burstSize (offset : ℤ) (length : ℕ) : ℕ := min length (min 6 (8 - offset % 8).toNat)

theorem burstSize_le (offset : ℤ) (length : ℕ) : burstSize offset length ≤ length :=
  min_le_left _ _

theorem burstSize_pos (offset : ℤ) {length : ℕ} (h : 0 < length) : 0 < burstSize offset length := by
  have hmod : offset % 8 < 8 := Int.emod_lt_of_pos offset (by decide)
  unfold burstSize
  omega

/-- The numbers of data bytes of the bursts. -/
def cuts (offset : ℤ) (length : ℕ) : List ℕ :=
  if length = 0 then []
  else
    burstSize offset length ::
      cuts (offset + burstSize offset length) (length - burstSize offset length)
termination_by length
decreasing_by
  have hpos := burstSize_pos offset (Nat.pos_of_ne_zero ‹length ≠ 0›)
  omega

theorem cuts_zero (offset : ℤ) : cuts offset 0 = [] := by rw [cuts, if_pos rfl]

theorem cuts_of_pos (offset : ℤ) {length : ℕ} (h : 0 < length) :
    cuts offset length = burstSize offset length ::
      cuts (offset + burstSize offset length) (length - burstSize offset length) := by
  rw [cuts, if_neg h.ne']

theorem sum_cuts (offset : ℤ) (length : ℕ) : (cuts offset length).sum = length := by
  induction offset, length using cuts.induct with
  | case1 offset => rw [cuts_zero, List.sum_nil]
  | case2 offset length hne ih =>
      have hle := burstSize_le offset length
      rw [cuts_of_pos offset (Nat.pos_of_ne_zero hne), List.sum_cons, ih]
      omega

theorem cuts_pos (offset : ℤ) (length : ℕ) : ∀ n ∈ cuts offset length, 0 < n := by
  induction offset, length using cuts.induct with
  | case1 offset => simp [cuts_zero]
  | case2 offset length hne ih =>
      have hpos := Nat.pos_of_ne_zero hne
      rw [cuts_of_pos offset hpos, List.forall_mem_cons]
      exact ⟨burstSize_pos offset hpos, ih⟩

/-- One poll for the end of a burst. -/
def pollStatus (statuses : ℕ → Word) (pos : ℕ) : Poll × List Word :=
  pollOf completed nackOrTimeout statuses pollLimit pos

/-- A burst with these data and statuses. -/
def burstOf (offset : ℤ) (data : List ℤ) (statuses : List Word) : Transaction :=
  ⟨lowByte offset :: data.map lowByte, statuses, []⟩

/-- The bursts of `sizes` bytes, of the data behind the first `total`, where the next status is the
one at `pos`: what is returned or raised, and the transactions. -/
def play (statuses : ℕ → Word) (data : List ℤ) :
    List ℕ → ℕ → ℤ → ℕ → Except PyError ℕ × List Transaction
  | [], _, _, total => (.ok total, [])
  | n :: sizes, pos, offset, total =>
      if data.length < total + n then (.error .indexError, [])
      else
        let p := pollStatus statuses pos
        let burst := burstOf offset ((data.drop total).take n) p.2
        if p.1 = .failed then (.ok (total + n), [burst])
        else
          let rest := play statuses data sizes (pos + p.2.length) (offset + n) (total + n)
          (rest.1, burst :: rest.2)

section Play

variable {statuses : ℕ → Word} {data : List ℤ} {n pos total : ℕ} {sizes : List ℕ} {offset : ℤ}

theorem play_of_short (h : data.length < total + n) :
    play statuses data (n :: sizes) pos offset total = (.error .indexError, []) := by
  rw [play, if_pos h]

theorem play_of_failed (h : total + n ≤ data.length) (hp : (pollStatus statuses pos).1 = .failed) :
    play statuses data (n :: sizes) pos offset total =
      (.ok (total + n),
        [burstOf offset ((data.drop total).take n) (pollStatus statuses pos).2]) := by
  rw [play, if_neg (not_lt.mpr h)]
  exact if_pos hp

theorem play_of_next (h : total + n ≤ data.length) (hp : (pollStatus statuses pos).1 ≠ .failed) :
    play statuses data (n :: sizes) pos offset total =
      let rest := play statuses data sizes (pos + (pollStatus statuses pos).2.length) (offset + n)
        (total + n)
      (rest.1, burstOf offset ((data.drop total).take n) (pollStatus statuses pos).2 :: rest.2) := by
  rw [play, if_neg (not_lt.mpr h)]
  exact if_neg hp

end Play

/-! ## The loops -/

section Loops

variable {writeData : List ℤ}

theorem land_seven (x : ℤ) : x.land 7 = x % 8 := land_low_bits x 3

/-- How much the inner loop writes, with room for `i` bytes in the FIFO. -/
def fill (i : ℕ) (c : Counters) : ℕ := min c.length.toNat (min i (8 - c.offset % 8).toNat)

/-- The counters after `n` bytes. -/
def Counters.advance (c : Counters) (n : ℕ) : Counters :=
  ⟨c.offset + n, c.length - n, c.totalTransfer + n⟩

theorem Counters.advance_zero (c : Counters) : c.advance 0 = c := by simp [advance]

theorem Counters.advance_advance (c : Counters) (a b : ℕ) :
    (c.advance a).advance b = c.advance (a + b) := by
  simp [advance, Int.add_assoc, Int.sub_sub, Nat.add_assoc]

theorem fill_of_nonpos {i : ℕ} {c : Counters} (h : ¬ 0 < c.length) : fill i c = 0 := by
  have hzero : c.length.toNat = 0 := Int.toNat_of_nonpos (by omega)
  rw [fill, hzero, Nat.zero_min]

/-- The page ends behind this byte, or the loop goes on. -/
theorem fill_succ {i : ℕ} {c : Counters} (h : 0 < c.length) :
    fill (i + 1) c = if (c.offset + 1) % 8 = 0 then 1 else 1 + fill i (c.advance 1) := by
  simp only [fill, Counters.advance]
  split_ifs <;> omega

theorem fillFifo_succ {i : ℕ} {c : Counters} {d : ℤ} (h : 0 < c.length)
    (hd : writeData[c.totalTransfer]? = some d) (t : TwiTrace) :
    fillFifo writeData (i + 1) c t =
      if (c.offset + 1) % 8 = 0 then (.ok (c.advance 1), writes .twiData (lowByte d) t)
      else fillFifo writeData i (c.advance 1) (writes .twiData (lowByte d) t) := by
  rw [fillFifo, if_pos h, hd]
  simp only [land_seven]
  rfl

/-- The data behind the first `total` begin with this byte. -/
theorem take_succ_of_getElem {total n : ℕ} {d : ℤ} (hd : writeData[total]? = some d) :
    (writeData.drop total).take (1 + n) = d :: (writeData.drop (total + 1)).take n := by
  obtain ⟨hlt, rfl⟩ := List.getElem?_eq_some_iff.mp hd
  rw [List.drop_eq_getElem_cons hlt, Nat.add_comm, List.take_succ_cons]

theorem fillFifo_eq (i : ℕ) (c : Counters) (t : TwiTrace)
    (hdata : c.totalTransfer + fill i c ≤ writeData.length) :
    fillFifo writeData i c t = (.ok (c.advance (fill i c)),
      t ++ (((writeData.drop c.totalTransfer).take (fill i c)).map lowByte).map
        (.write .twiData)) := by
  induction i generalizing c t with
  | zero =>
      have hzero : fill 0 c = 0 := by simp [fill]
      simp [fillFifo, hzero, Counters.advance_zero]
  | succ i ih =>
      by_cases hpos : 0 < c.length
      · have hlt : c.totalTransfer < writeData.length := by
          rw [fill_succ hpos] at hdata
          split_ifs at hdata <;> omega
        have hd := List.getElem?_eq_getElem hlt
        rw [fill_succ hpos] at hdata ⊢
        rw [fillFifo_succ hpos hd]
        split_ifs at hdata ⊢ with hpage
        · rw [take_succ_of_getElem (n := 0) hd]
          rfl
        · have hrest : (c.advance 1).totalTransfer + fill i (c.advance 1) ≤ writeData.length :=
            (Nat.add_assoc _ _ _).trans_le hdata
          rw [ih _ _ hrest, Counters.advance_advance, take_succ_of_getElem hd]
          simp [writes, Counters.advance]
      · simp [fillFifo, hpos, fill_of_nonpos hpos, Counters.advance_zero]

/-- With too few data the inner loop ends with an exception. -/
theorem fillFifo_short (i : ℕ) (c : Counters) (t : TwiTrace)
    (hle : c.totalTransfer ≤ writeData.length)
    (hdata : writeData.length < c.totalTransfer + fill i c) :
    (fillFifo writeData i c t).1 = .error .indexError := by
  induction i generalizing c t with
  | zero => simp [fill] at hdata; omega
  | succ i ih =>
      have hpos : 0 < c.length := by
        by_contra hnot
        rw [fill_of_nonpos hnot] at hdata
        omega
      rcases Nat.lt_or_ge c.totalTransfer writeData.length with hlt | hge
      · have hd := List.getElem?_eq_getElem hlt
        rw [fill_succ hpos] at hdata
        rw [fillFifo_succ hpos hd]
        split_ifs at hdata ⊢ with hpage
        · omega
        · exact ih _ _ hlt (hdata.trans_eq (Nat.add_assoc _ _ _).symm)
      · rw [fillFifo, if_pos hpos, List.getElem?_eq_none hge]

/-- The accesses up to the statuses of a burst. -/
def burstTrace (i2cAddr offset : ℤ) (data : List ℤ) (statuses : List Word) (t : TwiTrace) :
    TwiTrace :=
  writes .twiAddress (deviceAddress i2cAddr)
    (writes .twiData (lowByte offset) t ++ (data.map lowByte).map (.write .twiData)) ++
    statuses.map (.read .twiIrtStatus)

theorem observe_burstTrace {t : TwiTrace} (hpending : (observe t).pending = []) (i2cAddr offset : ℤ)
    (data : List ℤ) (statuses : List Word) :
    observe (burstTrace i2cAddr offset data statuses t) =
      ⟨burstOf offset data statuses :: (observe t).newest, []⟩ := by
  rw [burstTrace, observe_statuses, observe_writes, observe_fifo, observe_writes]
  simp [Observed.step, Observed.addStatuses, hpending, burstOf]

theorem readCount_burstTrace (t : TwiTrace) (i2cAddr offset : ℤ) (data : List ℤ)
    (statuses : List Word) :
    readCount .twiIrtStatus (burstTrace i2cAddr offset data statuses t) =
      readCount .twiIrtStatus t + statuses.length := by
  rw [burstTrace, readCount_append_same, readCount_writes, readCount_append_writes,
    readCount_writes]

variable (card : Card) (i2cAddr : ℤ)

/-- The accesses behind a poll: the transfer size is read if it has seen the end of the burst. -/
def seenEnd (o : Poll) (t : TwiTrace) : TwiTrace :=
  if o = .exhausted then t else reads card .twiTrSize t

theorem observe_seenEnd (o : Poll) (t : TwiTrace) : observe (seenEnd card o t) = observe t := by
  unfold seenEnd
  split_ifs
  · rfl
  · rw [observe_reads]
    rfl

theorem readCount_seenEnd (o : Poll) (t : TwiTrace) :
    readCount .twiIrtStatus (seenEnd card o t) = readCount .twiIrtStatus t := by
  unfold seenEnd
  split_ifs
  · rfl
  · exact readCount_reads (by decide)

/-- One round of the outer loop, with enough data. -/
theorem writeBursts_succ {rounds : ℕ} {c : Counters} (t : TwiTrace) (hpos : 0 < c.length)
    (hdata : c.totalTransfer + fill 6 c ≤ writeData.length) :
    writeBursts card i2cAddr writeData (rounds + 1) c t =
      let p := pollStatus (card .twiIrtStatus) (readCount .twiIrtStatus t)
      let t := seenEnd card p.1 (burstTrace i2cAddr c.offset
        ((writeData.drop c.totalTransfer).take (fill 6 c)) p.2 t)
      if p.1 = .failed then some ⟨.ok (c.totalTransfer + fill 6 c), t⟩
      else writeBursts card i2cAddr writeData rounds (c.advance (fill 6 c)) t := by
  rw [writeBursts, if_pos hpos, fillFifo_eq 6 c _ hdata]
  have hcount := readCount_burstTrace t i2cAddr c.offset
    ((writeData.drop c.totalTransfer).take (fill 6 c)) []
  simp only [burstTrace, List.map_nil, List.append_nil, List.length_nil, Nat.add_zero] at hcount
  simp only [poll_eq, hcount]
  cases hpoll : (pollStatus (card .twiIrtStatus) (readCount .twiIrtStatus t)).1 <;>
    rw [pollStatus] at hpoll <;> simp only [hpoll] <;> rfl

/-- With too few data the round ends with an exception. -/
theorem writeBursts_short {rounds : ℕ} {c : Counters} (t : TwiTrace) (hpos : 0 < c.length)
    (hle : c.totalTransfer ≤ writeData.length)
    (hshort : writeData.length < c.totalTransfer + fill 6 c) :
    ∃ u, writeBursts card i2cAddr writeData (rounds + 1) c t = some ⟨.error .indexError, u⟩ := by
  have herror := fillFifo_short 6 c (writes .twiData (lowByte c.offset) t) hle hshort
  obtain ⟨u, hu⟩ : ∃ u, fillFifo writeData 6 c (writes .twiData (lowByte c.offset) t) =
      (.error .indexError, u) := ⟨_, Prod.ext herror rfl⟩
  refine ⟨u, ?_⟩
  rw [writeBursts, if_pos hpos, hu]

/-- What `play` does is what has ended so, after the transactions `before`. -/
def Plays (played : Except PyError ℕ × List Transaction) (before : List Transaction)
    (ended : Option (Ended ℕ)) : Prop :=
  ∃ t, ended = some ⟨played.1, t⟩ ∧
    ∀ r, played.1 = .ok r → (observe t).newest = played.2.reverse ++ before

theorem Plays.cons {played : Except PyError ℕ × List Transaction} {before : List Transaction}
    {burst : Transaction} {ended : Option (Ended ℕ)} (h : Plays played (burst :: before) ended) :
    Plays (played.1, burst :: played.2) before ended := by
  obtain ⟨t, hended, hseen⟩ := h
  refine ⟨t, hended, fun r hr => ?_⟩
  rw [hseen r hr, List.reverse_cons, List.append_assoc, List.singleton_append]

/-- The loop does what `play` does. -/
theorem writeBursts_eq (rounds : ℕ) (c : Counters) (t : TwiTrace)
    (hrounds : c.length.toNat ≤ rounds) (hle : c.totalTransfer ≤ writeData.length)
    (hpending : (observe t).pending = []) :
    Plays (play (card .twiIrtStatus) writeData (cuts c.offset c.length.toNat)
        (readCount .twiIrtStatus t) c.offset c.totalTransfer) (observe t).newest
      (writeBursts card i2cAddr writeData rounds c t) := by
  induction rounds generalizing c t with
  | zero =>
      have hzero : c.length.toNat = 0 := Nat.le_zero.mp hrounds
      have hnot : ¬ 0 < c.length := by omega
      rw [hzero, cuts_zero, writeBursts, if_neg hnot]
      exact ⟨t, rfl, fun _ _ => rfl⟩
  | succ rounds ih =>
      by_cases hpos : 0 < c.length
      · have hlength : 0 < c.length.toNat := Int.lt_toNat.mpr hpos
        have hsize : burstSize c.offset c.length.toNat = fill 6 c := rfl
        have hsome : 0 < fill 6 c := burstSize_pos c.offset hlength
        rw [cuts_of_pos c.offset hlength, hsize]
        rcases Nat.lt_or_ge writeData.length (c.totalTransfer + fill 6 c) with hshort | hdata
        · obtain ⟨u, hu⟩ := writeBursts_short card i2cAddr t hpos hle hshort
          rw [play_of_short hshort, hu]
          exact ⟨u, rfl, fun r hr => by cases hr⟩
        · set p := pollStatus (card .twiIrtStatus) (readCount .twiIrtStatus t) with hp
          set u := seenEnd card p.1 (burstTrace i2cAddr c.offset
            ((writeData.drop c.totalTransfer).take (fill 6 c)) p.2 t) with hu
          have hseen : observe u = ⟨burstOf c.offset
              ((writeData.drop c.totalTransfer).take (fill 6 c)) p.2 :: (observe t).newest, []⟩ := by
            rw [hu, observe_seenEnd, observe_burstTrace hpending]
          have hread : readCount .twiIrtStatus u = readCount .twiIrtStatus t + p.2.length := by
            rw [hu, readCount_seenEnd, readCount_burstTrace]
          rw [writeBursts_succ card i2cAddr t hpos hdata]
          by_cases hfailed : p.1 = .failed
          · rw [play_of_failed hdata hfailed]
            simp only [← hp, hfailed, if_true]
            exact ⟨_, rfl, fun r _ => by rw [← hfailed, ← hu, hseen]; rfl⟩
          · have hless : (c.advance (fill 6 c)).length.toNat = c.length.toNat - fill 6 c := by
              simp only [Counters.advance]
              omega
            have hrest := ih (c.advance (fill 6 c)) u (by omega) hdata (by rw [hseen])
            rw [hless, hseen, hread] at hrest
            rw [play_of_next hdata hfailed]
            simp only [← hp, hfailed, if_false]
            exact hrest.cons
      · have hzero : c.length.toNat = 0 := by omega
        rw [hzero, cuts_zero, writeBursts, if_neg hpos]
        exact ⟨t, rfl, fun _ _ => rfl⟩

variable (writeData) in
/-- `i2c_write` does what `play` does from the second status on; the first one is read to clear
the register. -/
theorem i2cWrite_eq (offset length : ℤ) :
    Plays (play (card .twiIrtStatus) writeData (cuts offset length.toNat) 1 offset 0) []
      (i2cWrite card i2cAddr offset length writeData) := by
  set t := waitIdle card (reads card .twiCtrl (writes .twiCtrl 0x384E (reads card .twiStatus
    (reads card .twiIrtStatus (shutOffInit card []))))) with ht
  have hseen : observe t = ⟨[], []⟩ := by
    rw [ht, waitIdle_observe, observe_reads, observe_writes, observe_reads, observe_reads,
      shutOffInit_observe]
    rfl
  have hcount : readCount .twiIrtStatus t = 1 := by
    rw [ht, waitIdle_readCount (by decide), readCount_reads (by decide), readCount_writes,
      readCount_reads (by decide), readCount_reads_same, shutOffInit_readCount (by decide)]
    rfl
  have hloop := writeBursts_eq card i2cAddr length.toNat ⟨offset, length, 0⟩ t le_rfl
    (Nat.zero_le writeData.length) (by rw [hseen])
  rw [hcount, hseen] at hloop
  exact hloop

end Loops

/-! ## Bursts that do not fail -/

namespace Transaction

variable (x : Transaction)

/-- The bytes behind the word offset. -/
def data : List Word := x.sent.tail

/-- The completion bit was seen. -/
def Completed : Prop := ∃ v ∈ x.statuses, completed v = true

/-- No status reports an error. -/
def NoError : Prop := ∀ v ∈ x.statuses, completed v = true ∨ nackOrTimeout v = false

/-- A burst with the word offset `offset + before` and 1 to 6 bytes of data in one page. -/
structure InPage (offset : ℤ) (before : ℕ) : Prop where
  wordOffset : x.sent.head? = some (BitVec.ofInt 32 ((offset + before) % 256))
  pos : 1 ≤ x.data.length
  le : x.data.length ≤ 6
  onePage : ∀ j < x.data.length, (offset + before + j) / 8 = (offset + before) / 8

end Transaction

/-- The bursts of `sizes` bytes if none fails. -/
def bursts (statuses : ℕ → Word) (data : List ℤ) : List ℕ → ℕ → ℤ → ℕ → List Transaction
  | [], _, _, _ => []
  | n :: sizes, pos, offset, total =>
      burstOf offset ((data.drop total).take n) (pollStatus statuses pos).2 ::
        bursts statuses data sizes (pos + (pollStatus statuses pos).2.length) (offset + n)
          (total + n)

section Bursts

variable {statuses : ℕ → Word} {data : List ℤ} {offset : ℤ}

theorem lowByte_eq (x : ℤ) : lowByte x = BitVec.ofInt 32 (x % 256) :=
  congrArg (BitVec.ofInt 32) (land_low_bits x 8)

variable (statuses) in
/-- With enough data there is no exception. -/
theorem play_ok (sizes : List ℕ) (pos : ℕ) (offset : ℤ) (total : ℕ)
    (hdata : total + sizes.sum ≤ data.length) :
    ∃ r, (play statuses data sizes pos offset total).1 = .ok r := by
  induction sizes generalizing pos offset total with
  | nil => exact ⟨total, rfl⟩
  | cons n sizes ih =>
      rw [List.sum_cons] at hdata
      have hn : total + n ≤ data.length := by omega
      by_cases hp : (pollStatus statuses pos).1 = .failed
      · exact ⟨total + n, by rw [play_of_failed hn hp]⟩
      · rw [play_of_next hn hp]
        exact ih _ _ _ (by omega)

/-- Bursts that report no error are played to the end. -/
theorem play_of_noError (sizes : List ℕ) (pos : ℕ) (offset : ℤ) (total : ℕ)
    (hdata : total + sizes.sum ≤ data.length)
    (hnone : ∀ x ∈ (play statuses data sizes pos offset total).2, x.NoError) :
    play statuses data sizes pos offset total =
      (.ok (total + sizes.sum), bursts statuses data sizes pos offset total) := by
  induction sizes generalizing pos offset total with
  | nil => rfl
  | cons n sizes ih =>
      rw [List.sum_cons] at hdata
      have hn : total + n ≤ data.length := by omega
      by_cases hp : (pollStatus statuses pos).1 = .failed
      · rw [play_of_failed hn hp] at hnone
        obtain ⟨v, hv, hdone, hfailed⟩ := (pollOf_failed_iff _ _).mp hp
        rcases hnone _ (List.mem_cons_self ..) v hv with h | h
        · exact absurd (hdone.symm.trans h) Bool.false_ne_true
        · exact absurd (h.symm.trans hfailed) Bool.false_ne_true
      · rw [play_of_next hn hp] at hnone ⊢
        have hrest := ih (pos + (pollStatus statuses pos).2.length) (offset + n) (total + n)
          (by omega) fun x hx => hnone x (List.mem_cons_of_mem _ hx)
        rw [hrest, List.sum_cons, bursts, Nat.add_assoc]

/-- The data of all bursts, one behind the other. -/
theorem data_bursts (sizes : List ℕ) (pos : ℕ) (offset : ℤ) (total : ℕ) :
    (bursts statuses data sizes pos offset total).flatMap Transaction.data =
      ((data.drop total).take sizes.sum).map lowByte := by
  induction sizes generalizing pos offset total with
  | nil => simp [bursts]
  | cons n sizes ih =>
      rw [bursts, List.flatMap_cons, ih, List.sum_cons, List.take_add, List.drop_drop,
        List.map_append]
      rfl

theorem Transaction.InPage.shift {x : Transaction} {n before : ℕ}
    (h : x.InPage (offset + n) before) : x.InPage offset (n + before) := by
  have hsum : offset + n + before = offset + (n + before : ℕ) := by push_cast; ring
  obtain ⟨hword, hpos, hle, hpage⟩ := h
  rw [hsum] at hword hpage
  exact ⟨hword, hpos, hle, hpage⟩

variable (offset) in
theorem length_data_burstOf {n total : ℕ} (hdata : total + n ≤ data.length) (vs : List Word) :
    (burstOf offset ((data.drop total).take n) vs).data.length = n := by
  show (List.map lowByte _).length = _
  rw [List.length_map, List.length_take, List.length_drop]
  omega

/-- A burst of the size that fits. -/
theorem inPage_burstOf {length total : ℕ} (hlength : 0 < length)
    (hdata : total + length ≤ data.length) (vs : List Word) :
    (burstOf offset ((data.drop total).take (burstSize offset length)) vs).InPage offset 0 := by
  have hpos := burstSize_pos offset hlength
  have hle := burstSize_le offset length
  have hcount := length_data_burstOf offset
    (Nat.le_trans (Nat.add_le_add_left hle total) hdata) vs
  have hroom : burstSize offset length ≤ 6 ∧ burstSize offset length ≤ (8 - offset % 8).toNat := by
    unfold burstSize
    omega
  refine ⟨?_, by omega, by omega, fun j hj => ?_⟩
  · rw [Nat.cast_zero, Int.add_zero, ← lowByte_eq]
    rfl
  · rw [hcount] at hj
    omega

theorem inPage_bursts (length : ℕ) (offset : ℤ) (pos total : ℕ)
    (hdata : total + length ≤ data.length) (k : ℕ) (x : Transaction)
    (hx : (bursts statuses data (cuts offset length) pos offset total)[k]? = some x) :
    x.InPage offset (((bursts statuses data (cuts offset length) pos offset total).take k).flatMap
      Transaction.data).length := by
  induction offset, length using cuts.induct generalizing pos total k with
  | case1 offset => simp [cuts_zero, bursts] at hx
  | case2 offset length hne ih =>
      have hpos := Nat.pos_of_ne_zero hne
      have hle := burstSize_le offset length
      rw [cuts_of_pos offset hpos, bursts] at hx ⊢
      cases k with
      | zero =>
          injection hx with hx
          rw [← hx]
          exact inPage_burstOf hpos hdata _
      | succ k =>
          have hrest := ih _ (total + burstSize offset length) (by omega) k hx
          have hcount := length_data_burstOf offset
            (Nat.le_trans (Nat.add_le_add_left hle total) hdata) (pollStatus statuses pos).2
          rw [List.take_succ_cons, List.flatMap_cons, List.length_append, hcount]
          exact hrest.shift

end Bursts

/-- **EEPROM writes are cut at page boundaries.**  With enough data `i2c_write` ends, at whatever
offset and whatever the controller answers.  If no burst reports an error, it returns the length,
the bursts carry the data modulo 256 in order, and each of them has the right word offset and 1 to
6 bytes within one page. -/
theorem write_cut_at_pages (card : Card) (i2cAddr offset length : ℤ) (writeData : List ℤ)
    (hdata : length ≤ writeData.length) :
    ∃ ended, i2cWrite card i2cAddr offset length writeData = some ended ∧
      ((∀ x ∈ transactions ended.trace, x.NoError) →
        (∃ r : ℕ, ended.result = .ok r ∧ (r : ℤ) = max 0 length) ∧
        (transactions ended.trace).flatMap Transaction.data =
          (writeData.take length.toNat).map (fun d => BitVec.ofInt 32 (d % 256)) ∧
        ∀ k (x : Transaction), (transactions ended.trace)[k]? = some x →
          x.InPage offset (((transactions ended.trace).take k).flatMap Transaction.data).length) := by
  obtain ⟨t, hended, hseen⟩ := i2cWrite_eq writeData card i2cAddr offset length
  have hfits : 0 + (cuts offset length.toNat).sum ≤ writeData.length := by
    rw [sum_cuts]
    omega
  obtain ⟨r, hr⟩ := play_ok (card .twiIrtStatus) _ 1 offset 0 hfits
  have htransactions := congrArg List.reverse (hseen r hr)
  rw [List.append_nil, List.reverse_reverse] at htransactions
  change transactions t = _ at htransactions
  refine ⟨_, hended, fun hnone => ?_⟩
  simp only at hnone ⊢
  rw [htransactions] at hnone ⊢
  rw [play_of_noError _ _ _ _ hfits hnone, sum_cuts]
  refine ⟨⟨_, rfl, by omega⟩, ?_, fun k x hx => ?_⟩
  · rw [data_bursts, sum_cuts, List.drop_zero]
    exact List.map_congr_left fun d _ => lowByte_eq d
  · exact inPage_bursts _ _ _ _ (by omega) k x hx

/-- A card that completes every burst. -/
def readyCard : Card := fun _ _ => 1

def nineBytes : List ℤ := [0, 1, 2, 3, 4, 5, 6, 7, 256]

/-- Nine bytes from offset 5 on: three up to the end of the page, and six in the next one. -/
theorem nine_bytes_cut_at_pages :
    ∃ ended, i2cWrite readyCard 0x56 5 9 nineBytes = some ended ∧ ended.result = .ok 9 ∧
      (transactions ended.trace).map Transaction.sent = [[5, 0, 1, 2], [8, 3, 4, 5, 6, 7, 0]] ∧
      (transactions ended.trace).flatMap Transaction.data = [0, 1, 2, 3, 4, 5, 6, 7, 0] := by
  obtain ⟨ended, hended, h⟩ := write_cut_at_pages readyCard 0x56 5 9 nineBytes (by decide)
  have hseen : (i2cWrite readyCard 0x56 5 9 nineBytes).map (fun e => transactions e.trace) =
      some [⟨[5, 0, 1, 2], [1], []⟩, ⟨[8, 3, 4, 5, 6, 7, 0], [1], []⟩] := by decide +kernel
  rw [hended, Option.map_some, Option.some.injEq] at hseen
  rw [hseen] at h
  obtain ⟨⟨r, hr, hlength⟩, hdata, -⟩ := h (by simp [Transaction.NoError, completed])
  have hnine : r = 9 := by omega
  refine ⟨ended, hended, by rw [hr, hnine], by rw [hseen]; rfl, ?_⟩
  rw [hseen, hdata]
  rfl

end Eeprom

end Gn4124Core
