import Gn4124Core.Eeprom.Bursts

/-!
# The parts of a read

The FIFO has room for 8 bytes.  `playParts` says which parts a read has under the statuses that
are seen: a poll that runs out is noticed behind the part only, when its bytes are already taken
from the FIFO.  `i2c_read` does this if the EEPROM takes the word offset (`i2cRead_of_done`), and
it leaves with an exception otherwise (`i2cRead_eq`).

The proof goes from the inside to the outside, as for the bursts of a write.  `readFifo_eq` is
the loop over the bytes of a part, `readParts_succ` one round of the loop over the parts, whose
accesses are `partTrace`, and `readParts_eq` the loop, by induction on the bytes that are left.
`Takes` is the invariant: the transactions so far, and that the bytes returned are those they
have received.
-/

namespace Gn4124Core

open PyLang RegisterBus

namespace Eeprom

/-! ## What the parts are -/

/-- The numbers of bytes of the parts. -/
def parts (length : ℕ) : List ℕ :=
  if length = 0 then [] else min 8 length :: parts (length - 8)

theorem parts_zero : parts 0 = [] := by rw [parts, if_pos rfl]

theorem parts_of_pos {length : ℕ} (h : 0 < length) :
    parts length = min 8 length :: parts (length - 8) := by
  rw [parts, if_neg h.ne']

theorem sum_parts (length : ℕ) : (parts length).sum = length := by
  induction length using parts.induct with
  | case1 => rw [parts_zero, List.sum_nil]
  | case2 length hne ih =>
      rw [parts_of_pos (Nat.pos_of_ne_zero hne), List.sum_cons, ih]
      omega

theorem parts_pos (length : ℕ) : ∀ n ∈ parts length, 0 < n := by
  induction length using parts.induct with
  | case1 => simp [parts_zero]
  | case2 length hne ih =>
      rw [parts_of_pos (Nat.pos_of_ne_zero hne), List.forall_mem_cons]
      exact ⟨by omega, ih⟩

/-- One poll for the end of a part: errors are not looked at. -/
def pollPart (statuses : ℕ → Word) (pos : ℕ) : Poll × List Word :=
  pollOf completed (fun _ => false) statuses pollLimit pos

/-- The bytes that the FIFO gives from its read `pos` on. -/
def fifoBytes (fifo : ℕ → Word) (pos n : ℕ) : List Word :=
  (List.range n).map fun k => fifo (pos + k)

/-- The parts of `sizes` bytes, where the next status is the one at `pos` and the next byte the
one at `fifoPos`: a poll without completion is the last one. -/
def playParts (statuses fifo : ℕ → Word) : List ℕ → ℕ → ℕ → List Transaction
  | [], _, _ => []
  | n :: sizes, pos, fifoPos =>
      let p := pollPart statuses pos
      ⟨[], p.2, fifoBytes fifo fifoPos n⟩ ::
        if p.1 = .exhausted then []
        else playParts statuses fifo sizes (pos + p.2.length) (fifoPos + n)

/-! ## The loops -/

section Loops

variable (card : Card) (i2cAddr : ℤ)

theorem readFifo_eq (n : ℕ) (readData : List Byte) (t : TwiTrace) :
    readFifo card n readData t =
      (readData ++ (fifoBytes (card .twiData) (readCount .twiData t) n).map (BitVec.setWidth 8),
        t ++ (fifoBytes (card .twiData) (readCount .twiData t) n).map (.read .twiData)) := by
  induction n generalizing readData t with
  | zero => simp [readFifo, fifoBytes]
  | succ n ih =>
      have hshift : ∀ k, readCount .twiData t + 1 + k = readCount .twiData t + (k + 1) :=
        fun k => by omega
      rw [readFifo, ih, readCount_reads_same]
      simp [fifoBytes, List.range_succ_eq_map, Function.comp_def, hshift, reads, answer]

/-- The accesses of a part. -/
def partTrace (n : Word) (statuses bytes : List Word) (t : TwiTrace) : TwiTrace :=
  writes .twiAddress (deviceAddress i2cAddr) (writes .twiTrSize n t) ++
    statuses.map (.read .twiIrtStatus) ++ bytes.map (.read .twiData)

theorem observe_partTrace {t : TwiTrace} (hpending : (observe t).pending = []) (n : Word)
    (statuses bytes : List Word) :
    observe (partTrace i2cAddr n statuses bytes t) =
      ⟨⟨[], statuses, bytes⟩ :: (observe t).newest, []⟩ := by
  rw [partTrace, observe_received, observe_statuses, observe_writes, observe_writes]
  simp [Observed.step, Observed.addStatuses, Observed.addReceived, hpending]

theorem readCount_partTrace (n : Word) (statuses bytes : List Word) (t : TwiTrace) :
    readCount .twiIrtStatus (partTrace i2cAddr n statuses bytes t) =
        readCount .twiIrtStatus t + statuses.length ∧
      readCount .twiData (partTrace i2cAddr n statuses bytes t) =
        readCount .twiData t + bytes.length := by
  constructor
  · rw [partTrace, readCount_append (by decide), readCount_append_same, readCount_writes,
      readCount_writes]
  · rw [partTrace, readCount_append_same, readCount_append (by decide), readCount_writes,
      readCount_writes]

theorem readParts_of_error (rounds : ℕ) (length : ℤ) (total : ℕ) (readData : List Byte)
    (t : TwiTrace) :
    readParts card i2cAddr rounds length true total readData t =
      some ⟨.ok (total, readData), t⟩ := by
  cases rounds <;> simp [readParts]

/-- One round of the outer loop. -/
theorem readParts_succ {length : ℤ} (hpos : 0 < length) (rounds total : ℕ) (readData : List Byte)
    (t : TwiTrace) :
    ∃ n, readParts card i2cAddr (rounds + 1) length false total readData t =
      let p := pollPart (card .twiIrtStatus) (readCount .twiIrtStatus t)
      let bytes := fifoBytes (card .twiData) (readCount .twiData t) (min 8 length.toNat)
      readParts card i2cAddr rounds (if length > 8 then length - 8 else 0) (p.1 = .exhausted)
        (total + min 8 length.toNat) (readData ++ bytes.map (BitVec.setWidth 8))
        (partTrace i2cAddr n p.2 bytes t) := by
  have hlen : (if length > 8 then 8 else length).toNat = min 8 length.toNat := by
    split_ifs <;> omega
  refine ⟨BitVec.ofInt 32 (if length > 8 then 8 else length), ?_⟩
  rw [readParts, if_pos ⟨hpos, rfl⟩]
  simp only [poll_eq, readFifo_eq, readCount_append (show
    Register.twiIrtStatus ≠ .twiData by decide), readCount_writes, hlen]
  rfl

/-- The transactions `xs` were made, after the transactions `before`, and their bytes taken. -/
def Takes (xs before : List Transaction) (total : ℕ) (readData : List Byte)
    (ended : Option (Ended (ℕ × List Byte))) : Prop :=
  ∃ t, ended = some ⟨.ok (total + (xs.flatMap Transaction.received).length,
      readData ++ (xs.flatMap Transaction.received).map (BitVec.setWidth 8)), t⟩ ∧
    (observe t).newest = xs.reverse ++ before

theorem Takes.cons {x : Transaction} {xs before : List Transaction} {total : ℕ}
    {readData : List Byte} {ended : Option (Ended (ℕ × List Byte))}
    (h : Takes xs (x :: before) (total + x.received.length)
      (readData ++ x.received.map (BitVec.setWidth 8)) ended) :
    Takes (x :: xs) before total readData ended := by
  obtain ⟨t, hended, hseen⟩ := h
  refine ⟨t, ?_, ?_⟩
  · simp only [List.flatMap_cons, List.length_append, List.map_append, ← Nat.add_assoc,
      ← List.append_assoc]
    exact hended
  · rw [hseen, List.reverse_cons, List.append_assoc, List.singleton_append]

@[simp] theorem length_fifoBytes (fifo : ℕ → Word) (pos n : ℕ) :
    (fifoBytes fifo pos n).length = n := by
  simp [fifoBytes]

/-- The loop does what `playParts` does. -/
theorem readParts_eq (rounds : ℕ) (length : ℤ) (total : ℕ) (readData : List Byte) (t : TwiTrace)
    (hrounds : length.toNat ≤ rounds) (hpending : (observe t).pending = []) :
    Takes (playParts (card .twiIrtStatus) (card .twiData) (parts length.toNat)
        (readCount .twiIrtStatus t) (readCount .twiData t)) (observe t).newest total readData
      (readParts card i2cAddr rounds length false total readData t) := by
  induction rounds generalizing length total readData t with
  | zero =>
      have hzero : length.toNat = 0 := Nat.le_zero.mp hrounds
      have hnot : ¬ 0 < length := by omega
      rw [hzero, parts_zero, readParts, if_neg fun h => hnot h.1]
      exact ⟨t, by simp [playParts], rfl⟩
  | succ rounds ih =>
      by_cases hpos : 0 < length
      · obtain ⟨n, hround⟩ := readParts_succ card i2cAddr hpos rounds total readData t
        rw [hround, parts_of_pos (Int.lt_toNat.mpr hpos), playParts]
        set p := pollPart (card .twiIrtStatus) (readCount .twiIrtStatus t)
        set bytes := fifoBytes (card .twiData) (readCount .twiData t) (min 8 length.toNat)
        have hcount : bytes.length = min 8 length.toNat := length_fifoBytes _ _ _
        have hseen := observe_partTrace i2cAddr hpending n p.2 bytes
        obtain ⟨hstatus, hfifo⟩ := readCount_partTrace i2cAddr n p.2 bytes t
        apply Takes.cons
        by_cases hexhausted : p.1 = .exhausted
        · simp only [hexhausted, decide_true, if_true, readParts_of_error, hcount]
          exact ⟨_, by simp only [List.flatMap_nil, List.length_nil, List.map_nil, Nat.add_zero,
            List.append_nil], congrArg Observed.newest hseen⟩
        · have hless : (if length > 8 then length - 8 else 0).toNat = length.toNat - 8 := by
            split_ifs <;> omega
          have hrest := ih (if length > 8 then length - 8 else 0) (total + min 8 length.toNat)
            (readData ++ bytes.map (BitVec.setWidth 8)) (partTrace i2cAddr n p.2 bytes t)
            (by rw [hless]; omega) (by rw [hseen])
          rw [hless, hseen, hstatus, hfifo, hcount] at hrest
          simp only [hexhausted, decide_false, if_false, hcount]
          exact hrest
      · have hzero : length.toNat = 0 := by omega
        rw [hzero, parts_zero, readParts, if_neg fun h => hpos h.1]
        exact ⟨t, by simp [playParts], rfl⟩

/-- The accesses until the status of the word offset is polled. -/
def selectTrace (offset : ℤ) : TwiTrace :=
  writes .twiAddress (deviceAddress i2cAddr) (writes .twiData (lowByte offset)
    (reads card .twiIrtStatus (waitIdle card (reads card .twiCtrl (writes .twiCtrl 0x384E
      (shutOffInit card []))))))

theorem observe_selectTrace (offset : ℤ) :
    observe (selectTrace card i2cAddr offset) = ⟨[⟨[lowByte offset], [], []⟩], []⟩ := by
  rw [selectTrace, observe_writes, observe_writes, observe_reads, waitIdle_observe, observe_reads,
    observe_writes, shutOffInit_observe]
  rfl

theorem readCount_selectTrace (offset : ℤ) :
    readCount .twiIrtStatus (selectTrace card i2cAddr offset) = 1 ∧
      readCount .twiData (selectTrace card i2cAddr offset) = 0 := by
  constructor
  · rw [selectTrace, readCount_writes, readCount_writes, readCount_reads_same,
      waitIdle_readCount (by decide), readCount_reads (by decide), readCount_writes,
      shutOffInit_readCount (by decide)]
    rfl
  · rw [selectTrace, readCount_writes, readCount_writes, readCount_reads (by decide),
      waitIdle_readCount (by decide), readCount_reads (by decide), readCount_writes,
      shutOffInit_readCount (by decide)]
    rfl

variable {length : ℤ} {readData : List Byte}

/-- The word offset is polled first, from the second status on. -/
theorem i2cRead_eq (offset : ℤ) :
    i2cRead card i2cAddr offset length readData =
      let p := pollStatus (card .twiIrtStatus) 1
      let t := selectTrace card i2cAddr offset ++ p.2.map (.read .twiIrtStatus)
      if p.1 = .done then
        readParts card i2cAddr length.toNat length false 0 readData (writes .twiCtrl 0x384F t)
      else some ⟨.error .systemExit, t⟩ := by
  have hpoll : poll completed nackOrTimeout card .twiIrtStatus pollLimit
      (selectTrace card i2cAddr offset) = _ := poll_eq pollLimit _
  rw [(readCount_selectTrace card i2cAddr offset).1, ← pollStatus] at hpoll
  unfold selectTrace at hpoll ⊢
  unfold i2cRead
  simp only [hpoll]
  cases (pollStatus (card .twiIrtStatus) 1).1 <;> rfl

/-- The transactions of a read, without the one for the word offset. -/
def readTransactions (length : ℤ) : List Transaction :=
  playParts (card .twiIrtStatus) (card .twiData) (parts length.toNat)
    (1 + (pollStatus (card .twiIrtStatus) 1).2.length) 0

/-- The transaction for the word offset. -/
def selectTransaction (offset : ℤ) : Transaction :=
  ⟨[lowByte offset], (pollStatus (card .twiIrtStatus) 1).2, []⟩

/-- If the EEPROM takes the word offset, `i2c_read` returns what the transactions have received. -/
theorem i2cRead_of_done (offset length : ℤ) (readData : List Byte)
    (h : (pollStatus (card .twiIrtStatus) 1).1 = .done) :
    ∃ t, i2cRead card i2cAddr offset length readData = some ⟨.ok
        (((readTransactions card length).flatMap Transaction.received).length,
          readData ++ ((readTransactions card length).flatMap Transaction.received).map
            (BitVec.setWidth 8)), t⟩ ∧
      transactions t = selectTransaction card offset :: readTransactions card length := by
  set t := writes .twiCtrl 0x384F (selectTrace card i2cAddr offset ++
    (pollStatus (card .twiIrtStatus) 1).2.map (.read .twiIrtStatus)) with ht
  obtain ⟨hstatus, hfifo⟩ := readCount_selectTrace card i2cAddr offset
  have hseen : observe t = ⟨[selectTransaction card offset], []⟩ := by
    rw [ht, observe_writes, observe_statuses, observe_selectTrace]
    rfl
  have hloop := readParts_eq card i2cAddr length.toNat length 0 readData t le_rfl (by rw [hseen])
  rw [hseen, ht, readCount_writes, readCount_writes, readCount_append_same,
    readCount_append (by decide), hstatus, hfifo, ← readTransactions] at hloop
  obtain ⟨u, hended, htransactions⟩ := hloop
  rw [Nat.zero_add] at hended
  rw [i2cRead_eq, if_pos h]
  refine ⟨u, hended, ?_⟩
  rw [transactions, htransactions, List.reverse_append, List.reverse_reverse]
  rfl

end Loops

end Eeprom

end Gn4124Core
