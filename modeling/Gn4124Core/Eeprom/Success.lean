import Gn4124Core.Eeprom.DumpFile
import Gn4124Core.Eeprom.Parts

/-!
# What success of an EEPROM transfer means

`i2c_write` and `i2c_read` return the number of bytes, and `file_dump_to_eeprom` compares it with
the length.  The bytes of a burst are counted before its status is known, so that a NACK at the
last burst leaves the whole length; a poll whose counter runs out is taken for a completion by
`i2c_write`, and for an error by `i2c_read`, after the bytes have been taken; and the word offset
has 8 bits only, so that more than 256 bytes overwrite each other.  In all other cases success is
what it says (`eeprom_success_iff`).

Each of the three equivalences is proved on the statuses alone, since `i2cWrite_eq` and
`i2cRead_of_done` have removed the registers.

* A write returns the length exactly if no burst but the last fails (`play_complete_iff`), and
  then all bursts were there (`transactions_of_length`).  That they were completed is a matter of
  their polls (`completed_bursts_iff`), and that they went to different cells of their number
  (`nodup_cellsFrom_iff`).
* A read returns the length exactly if no poll but the last runs out (`playParts_complete_iff`).
* The message about the file depends on what the write returns (`report_written_iff`), so its
  condition is that of the write, for the bytes of the file.
-/

namespace Gn4124Core

open PyLang RegisterBus

namespace Eeprom

/-- How `n` successive polls end, from the status `pos` on. -/
def polls (isFailed : Word → Bool) (statuses : ℕ → Word) : ℕ → ℕ → List Poll
  | 0, _ => []
  | n + 1, pos =>
      let p := pollOf completed isFailed statuses pollLimit pos
      p.1 :: polls isFailed statuses n (pos + p.2.length)

theorem polls_eq_nil_iff {isFailed : Word → Bool} {statuses : ℕ → Word} {n pos : ℕ} :
    polls isFailed statuses n pos = [] ↔ n = 0 := by
  cases n <;> simp [polls]

theorem not_mem_dropLast_cons {α : Type*} {a b : α} (h : b ≠ a) (l : List α) :
    a ∉ (b :: l).dropLast ↔ a ∉ l.dropLast := by
  cases l with
  | nil => simp
  | cons c l => simp [List.dropLast_cons_cons, h.symm]

theorem not_mem_dropLast_cons_self {α : Type*} {a : α} (l : List α) :
    a ∉ (a :: l).dropLast ↔ l = [] := by
  cases l <;> simp [List.dropLast_cons_cons]

theorem sum_eq_zero_iff {sizes : List ℕ} (hpos : ∀ n ∈ sizes, 0 < n) :
    sizes.sum = 0 ↔ sizes = [] := by
  cases sizes with
  | nil => simp
  | cons n sizes =>
      have hn := hpos n List.mem_cons_self
      rw [List.sum_cons]
      exact iff_of_false (by omega) (List.cons_ne_nil _ _)

/-! ## Writing -/

section Write

variable {statuses : ℕ → Word} {data : List ℤ}

/-- All bytes are counted if there are enough data, and none of the bursts fails but the last. -/
theorem play_complete_iff (sizes : List ℕ) (pos : ℕ) (offset : ℤ) (total : ℕ)
    (hpos : ∀ n ∈ sizes, 0 < n) (hle : total ≤ data.length) :
    (play statuses data sizes pos offset total).1 = .ok (total + sizes.sum) ↔
      total + sizes.sum ≤ data.length ∧
        Poll.failed ∉ (polls nackOrTimeout statuses sizes.length pos).dropLast := by
  induction sizes generalizing pos offset total with
  | nil => simp [play, polls, hle]
  | cons n sizes ih =>
      rw [List.forall_mem_cons] at hpos
      rw [List.sum_cons, List.length_cons, polls]
      rcases Nat.lt_or_ge data.length (total + n) with hshort | hn
      · rw [play_of_short hshort]
        constructor
        · intro h
          cases h
        · rintro ⟨h, -⟩
          omega
      · by_cases hp : (pollStatus statuses pos).1 = .failed
        · rw [play_of_failed hn hp, show (pollOf _ _ _ _ _).1 = _ from hp,
            not_mem_dropLast_cons_self, polls_eq_nil_iff, List.length_eq_zero_iff,
            ← sum_eq_zero_iff hpos.2]
          constructor
          · intro h
            injection h with h
            omega
          · rintro ⟨-, hzero⟩
            rw [hzero, Nat.add_zero]
        · rw [play_of_next hn hp, ← Nat.add_assoc]
          exact (ih _ _ _ hpos.2 hn).trans
            (and_congr_right fun _ => (not_mem_dropLast_cons hp _).symm)

/-- Then all bursts were there. -/
theorem play_of_complete (sizes : List ℕ) (pos : ℕ) (offset : ℤ) (total : ℕ)
    (hpos : ∀ n ∈ sizes, 0 < n)
    (h : (play statuses data sizes pos offset total).1 = .ok (total + sizes.sum)) :
    (play statuses data sizes pos offset total).2 =
      bursts statuses data sizes pos offset total := by
  induction sizes generalizing pos offset total with
  | nil => rfl
  | cons n sizes ih =>
      rw [List.forall_mem_cons] at hpos
      rw [List.sum_cons] at h
      rcases Nat.lt_or_ge data.length (total + n) with hshort | hn
      · rw [play_of_short hshort] at h
        cases h
      · by_cases hp : (pollStatus statuses pos).1 = .failed
        · rw [play_of_failed hn hp] at h ⊢
          injection h with h
          rw [(sum_eq_zero_iff hpos.2).mp (by omega), bursts, bursts]
        · rw [play_of_next hn hp, ← Nat.add_assoc] at h
          rw [play_of_next hn hp, bursts]
          exact congrArg (List.cons _) (ih _ _ _ hpos.2 h)

theorem completed_bursts_iff (sizes : List ℕ) (pos : ℕ) (offset : ℤ) (total : ℕ) :
    (∀ x ∈ bursts statuses data sizes pos offset total, x.Completed) ↔
      ∀ o ∈ polls nackOrTimeout statuses sizes.length pos, o = .done := by
  induction sizes generalizing pos offset total with
  | nil => simp [bursts, polls]
  | cons n sizes ih =>
      rw [bursts, List.length_cons, polls, List.forall_mem_cons, List.forall_mem_cons]
      exact and_congr (pollOf_done_iff _ _).symm (ih _ _ _)

/-- The cells of the EEPROM that the data of a transaction are sent to. -/
def Transaction.cells (x : Transaction) : List Byte :=
  (List.range x.data.length).map fun j => (x.sent.headD 0).setWidth 8 + BitVec.ofNat 8 j

/-- `n` cells from the offset on. -/
def cellsFrom (offset : ℤ) (n : ℕ) : List Byte :=
  (List.range n).map fun j : ℕ => BitVec.ofInt 8 (offset + j)

theorem toNat_cell (x : ℤ) : (BitVec.ofInt 8 x).toNat = (x % 256).toNat := BitVec.toNat_ofInt x

theorem cells_burstOf {n total : ℕ} (offset : ℤ) (hdata : total + n ≤ data.length)
    (vs : List Word) :
    (burstOf offset ((data.drop total).take n) vs).cells = cellsFrom offset n := by
  rw [Transaction.cells, length_data_burstOf offset hdata, cellsFrom]
  apply List.map_congr_left
  intro j _
  apply BitVec.eq_of_toNat_eq
  show ((lowByte offset).setWidth 8 + BitVec.ofNat 8 j).toNat = _
  rw [toNat_cell, lowByte_eq, BitVec.toNat_add, BitVec.toNat_setWidth, BitVec.toNat_ofInt,
    BitVec.toNat_ofNat]
  omega

theorem cellsFrom_add (offset : ℤ) (a b : ℕ) :
    cellsFrom offset (a + b) = cellsFrom offset a ++ cellsFrom (offset + a) b := by
  rw [cellsFrom, List.range_add, List.map_append, List.map_map]
  refine congrArg (_ ++ ·) (List.map_congr_left fun j _ => ?_)
  simp only [Function.comp_apply, Nat.cast_add, Int.add_assoc]

/-- One after the other, all bursts together. -/
theorem cells_bursts (sizes : List ℕ) (pos : ℕ) (offset : ℤ) (total : ℕ)
    (hdata : total + sizes.sum ≤ data.length) :
    (bursts statuses data sizes pos offset total).flatMap Transaction.cells =
      cellsFrom offset sizes.sum := by
  induction sizes generalizing pos offset total with
  | nil => rfl
  | cons n sizes ih =>
      rw [List.sum_cons] at hdata ⊢
      rw [bursts, List.flatMap_cons, ih _ _ _ (by omega), cells_burstOf offset (by omega),
        cellsFrom_add]

/-- There are 256 cells. -/
theorem nodup_cellsFrom_iff (offset : ℤ) (n : ℕ) : (cellsFrom offset n).Nodup ↔ n ≤ 256 := by
  rw [cellsFrom, List.nodup_map_iff_inj_on List.nodup_range]
  simp only [List.mem_range]
  constructor
  · intro h
    by_contra hlt
    have hsame : BitVec.ofInt 8 (offset + (0 : ℕ)) = BitVec.ofInt 8 (offset + (256 : ℕ)) := by
      apply BitVec.eq_of_toNat_eq
      rw [toNat_cell, toNat_cell]
      omega
    exact absurd (h 0 (by omega) 256 (by omega) hsame) (by decide)
  · intro hle i hi j hj hsame
    have hnat := congrArg BitVec.toNat hsame
    rw [toNat_cell, toNat_cell] at hnat
    omega

variable (card : Card) (i2cAddr offset length : ℤ) (writeData : List ℤ)

/-- If `i2c_write` returns the length, every burst was seen to be completed, and no two bytes were
sent to the same cell. -/
def WriteHonest : Prop :=
  ∀ ended r, i2cWrite card i2cAddr offset length writeData = some ended → ended.result = .ok r →
    (r : ℤ) = length →
    (∀ x ∈ transactions ended.trace, x.Completed) ∧
      ((transactions ended.trace).flatMap Transaction.cells).Nodup

/-- How the polls of all bursts of a write end. -/
def writePolls (statuses : ℕ → Word) (offset length : ℤ) : List Poll :=
  polls nackOrTimeout statuses (cuts offset length.toNat).length 1

/-- With enough data, and without an error before the last burst, there are at most 256 bytes and
every poll ends with a completion. -/
def WriteCondition (statuses : ℕ → Word) : Prop :=
  length ≤ writeData.length → Poll.failed ∉ (writePolls statuses offset length).dropLast →
    length ≤ 256 ∧ ∀ o ∈ writePolls statuses offset length, o = .done

variable {card i2cAddr offset length writeData}

/-- The transactions of a write that returns the length. -/
theorem transactions_of_length {ended : Ended ℕ} {r : ℕ}
    (hended : i2cWrite card i2cAddr offset length writeData = some ended)
    (hr : ended.result = .ok r) (hlength : (r : ℤ) = length) :
    length ≤ writeData.length ∧
      Poll.failed ∉ (writePolls (card .twiIrtStatus) offset length).dropLast ∧
      transactions ended.trace =
        bursts (card .twiIrtStatus) writeData (cuts offset length.toNat) 1 offset 0 := by
  obtain ⟨t, hplayed, hseen⟩ := i2cWrite_eq writeData card i2cAddr offset length
  rw [hended] at hplayed
  injection hplayed with hplayed
  rw [hplayed] at hr ⊢
  have hall : r = 0 + (cuts offset length.toNat).sum := by
    rw [sum_cuts]
    omega
  have hpos := cuts_pos offset length.toNat
  have hcomplete := (play_complete_iff _ 1 offset 0 hpos (Nat.zero_le _)).mp (hall ▸ hr)
  have hseen' := congrArg List.reverse (hseen r hr)
  rw [List.append_nil, List.reverse_reverse, play_of_complete _ 1 offset 0 hpos (hall ▸ hr)]
    at hseen'
  rw [← hall] at hcomplete
  exact ⟨by omega, hcomplete.2, hseen'⟩

/-- What is to be seen of them then. -/
theorem bursts_complete_iff {statuses : ℕ → Word} (hdata : length ≤ writeData.length) :
    ((∀ x ∈ bursts statuses writeData (cuts offset length.toNat) 1 offset 0, x.Completed) ∧
        ((bursts statuses writeData (cuts offset length.toNat) 1 offset 0).flatMap
          Transaction.cells).Nodup) ↔
      length ≤ 256 ∧ ∀ o ∈ writePolls statuses offset length, o = .done := by
  have hfits : 0 + (cuts offset length.toNat).sum ≤ writeData.length := by
    rw [sum_cuts]
    omega
  rw [completed_bursts_iff, cells_bursts _ _ _ _ hfits, nodup_cellsFrom_iff, sum_cuts, and_comm]
  exact and_congr_left fun _ => by omega

variable (i2cAddr) in
/-- Without an error before the last burst the length is returned. -/
theorem length_of_condition (hlength : 0 ≤ length) (hdata : length ≤ writeData.length)
    (hfailed : Poll.failed ∉ (writePolls (card .twiIrtStatus) offset length).dropLast) :
    ∃ ended r, i2cWrite card i2cAddr offset length writeData = some ended ∧
      ended.result = .ok r ∧ (r : ℤ) = length := by
  obtain ⟨t, hended, -⟩ := i2cWrite_eq writeData card i2cAddr offset length
  have hresult : (play (card .twiIrtStatus) writeData (cuts offset length.toNat) 1 offset 0).1 =
      .ok (0 + (cuts offset length.toNat).sum) := by
    rw [play_complete_iff _ 1 offset 0 (cuts_pos offset length.toNat) (Nat.zero_le _)]
    refine ⟨?_, hfailed⟩
    rw [sum_cuts]
    omega
  refine ⟨_, _, hended, hresult, ?_⟩
  rw [sum_cuts]
  omega

theorem writeHonest_iff :
    WriteHonest card i2cAddr offset length writeData ↔
      WriteCondition offset length writeData (card .twiIrtStatus) := by
  constructor
  · intro honest hdata hfailed
    rcases Int.lt_or_le length 0 with hneg | hlength
    · have hzero : length.toNat = 0 := Int.toNat_of_nonpos hneg.le
      refine ⟨by omega, ?_⟩
      simp [writePolls, hzero, cuts_zero, polls]
    · obtain ⟨ended, r, hended, hr, hreturned⟩ :=
        length_of_condition i2cAddr hlength hdata hfailed
      have hgood := honest ended r hended hr hreturned
      rw [(transactions_of_length hended hr hreturned).2.2] at hgood
      exact (bursts_complete_iff hdata).mp hgood
  · intro hcondition ended r hended hr hreturned
    obtain ⟨hdata, hfailed, htransactions⟩ := transactions_of_length hended hr hreturned
    rw [htransactions]
    exact (bursts_complete_iff hdata).mpr (hcondition hdata hfailed)

end Write

/-! ## Reading -/

variable {statuses fifo : ℕ → Word}

/-- How the polls of all parts of a read end. -/
def partPolls (statuses : ℕ → Word) (n pos : ℕ) : List Poll :=
  polls (fun _ => false) statuses n pos

theorem partPolls_succ (n pos : ℕ) :
    partPolls statuses (n + 1) pos = (pollPart statuses pos).1 ::
      partPolls statuses n (pos + (pollPart statuses pos).2.length) := rfl

variable (statuses fifo)

/-- All bytes are counted if no poll runs out but the last. -/
theorem playParts_complete_iff (sizes : List ℕ) (pos fifoPos : ℕ) (hpos : ∀ n ∈ sizes, 0 < n) :
    ((playParts statuses fifo sizes pos fifoPos).flatMap Transaction.received).length =
        sizes.sum ↔
      Poll.exhausted ∉ (partPolls statuses sizes.length pos).dropLast := by
  induction sizes generalizing pos fifoPos with
  | nil => simp [playParts, partPolls, polls]
  | cons n sizes ih =>
      rw [List.forall_mem_cons] at hpos
      rw [playParts, List.flatMap_cons, List.length_append, length_fifoBytes, List.sum_cons,
        List.length_cons, partPolls_succ, Nat.add_left_cancel_iff]
      by_cases hp : (pollPart statuses pos).1 = .exhausted
      · rw [if_pos hp, hp, not_mem_dropLast_cons_self, partPolls, polls_eq_nil_iff,
          List.length_eq_zero_iff, ← sum_eq_zero_iff hpos.2]
        exact eq_comm
      · rw [if_neg hp, ih _ _ hpos.2]
        exact (not_mem_dropLast_cons hp _).symm

/-- All parts are seen to be completed if all polls end with that. -/
theorem completed_playParts_iff (sizes : List ℕ) (pos fifoPos : ℕ) :
    (∀ x ∈ playParts statuses fifo sizes pos fifoPos, x.Completed) ↔
      ∀ o ∈ partPolls statuses sizes.length pos, o = .done := by
  induction sizes generalizing pos fifoPos with
  | nil => simp [playParts, partPolls, polls]
  | cons n sizes ih =>
      rw [playParts, List.length_cons, partPolls_succ, List.forall_mem_cons, List.forall_mem_cons]
      have hfirst : (∃ v ∈ (pollPart statuses pos).2, completed v = true) ↔
          (pollPart statuses pos).1 = .done := (pollOf_done_iff _ _).symm
      by_cases hp : (pollPart statuses pos).1 = .exhausted
      · have hnot : (pollPart statuses pos).1 ≠ .done := by rw [hp]; decide
        exact iff_of_false (fun h => hnot (hfirst.mp h.1)) fun h => hnot h.1
      · rw [if_neg hp]
        exact and_congr hfirst (ih _ _)

theorem received_ne_nil (sizes : List ℕ) (pos fifoPos : ℕ) (hpos : ∀ n ∈ sizes, 0 < n) :
    ∀ x ∈ playParts statuses fifo sizes pos fifoPos, x.received ≠ [] := by
  induction sizes generalizing pos fifoPos with
  | nil => simp [playParts]
  | cons n sizes ih =>
      rw [List.forall_mem_cons] at hpos
      rw [playParts, List.forall_mem_cons]
      refine ⟨?_, ?_⟩
      · rw [← List.length_pos_iff_ne_nil, length_fifoBytes]
        exact hpos.1
      · split_ifs
        · simp
        · exact ih _ _ hpos.2

section Read

variable (card : Card) (i2cAddr offset length : ℤ) (readData : List Byte)

/-- If `i2c_read` returns the length, every transaction whose bytes were appended to the data was
seen to be completed. -/
def ReadHonest : Prop :=
  ∀ ended r bytes, i2cRead card i2cAddr offset length readData = some ended →
    ended.result = .ok (r, bytes) → (r : ℤ) = length →
    bytes = readData ++ ((transactions ended.trace).flatMap Transaction.received).map
      (BitVec.setWidth 8) ∧
    ∀ x ∈ transactions ended.trace, x.received ≠ [] → x.Completed

/-- How the polls of all parts of a read end. -/
def readPolls (statuses : ℕ → Word) (length : ℤ) : List Poll :=
  partPolls statuses (parts length.toNat).length (1 + (pollStatus statuses 1).2.length)

/-- If the EEPROM takes the word offset, and no poll runs out before the last one, then the last
one does not either. -/
def ReadCondition (statuses : ℕ → Word) : Prop :=
  (pollStatus statuses 1).1 = .done → Poll.exhausted ∉ (readPolls statuses length).dropLast →
    ∀ o ∈ readPolls statuses length, o = .done

variable {card i2cAddr offset length readData}

/-- The transactions of a read that returns. -/
theorem transactions_of_ok {ended : Ended (ℕ × List Byte)} {r : ℕ} {bytes : List Byte}
    (hended : i2cRead card i2cAddr offset length readData = some ended)
    (hr : ended.result = .ok (r, bytes)) :
    (pollStatus (card .twiIrtStatus) 1).1 = .done ∧
      r = ((readTransactions card length).flatMap Transaction.received).length ∧
      bytes = readData ++ ((readTransactions card length).flatMap Transaction.received).map
        (BitVec.setWidth 8) ∧
      transactions ended.trace = selectTransaction card offset :: readTransactions card length := by
  by_cases hdone : (pollStatus (card .twiIrtStatus) 1).1 = .done
  · obtain ⟨t, hread, htransactions⟩ := i2cRead_of_done card i2cAddr offset length readData hdone
    rw [hread] at hended
    injection hended with hended
    rw [← hended] at hr ⊢
    injection hr with hr
    injection hr with hr hbytes
    exact ⟨hdone, hr.symm, hbytes.symm, htransactions⟩
  · rw [i2cRead_eq, if_neg hdone] at hended
    injection hended with hended
    rw [← hended] at hr
    cases hr

theorem received_eq_length_iff :
    ((readTransactions card length).flatMap Transaction.received).length = length.toNat ↔
      Poll.exhausted ∉ (readPolls (card .twiIrtStatus) length).dropLast := by
  have hcomplete := playParts_complete_iff (card .twiIrtStatus) (card .twiData) (parts length.toNat)
    (1 + (pollStatus (card .twiIrtStatus) 1).2.length) 0 (parts_pos _)
  rwa [sum_parts] at hcomplete

/-- What is to be seen of a read is seen of its parts. -/
theorem completed_readTransactions_iff :
    (∀ x ∈ selectTransaction card offset :: readTransactions card length,
        x.received ≠ [] → x.Completed) ↔
      ∀ o ∈ readPolls (card .twiIrtStatus) length, o = .done := by
  have hreceived : ∀ x ∈ readTransactions card length, x.received ≠ [] :=
    received_ne_nil _ _ _ _ _ (parts_pos _)
  have hcompleted : (∀ x ∈ readTransactions card length, x.Completed) ↔ _ :=
    completed_playParts_iff _ _ _ _ _
  rw [readPolls, ← hcompleted, List.forall_mem_cons]
  constructor
  · rintro ⟨-, h⟩ x hx
    exact h x hx (hreceived x hx)
  · intro h
    exact ⟨fun hne => absurd rfl hne, fun x hx _ => h x hx⟩

theorem readHonest_iff :
    ReadHonest card i2cAddr offset length readData ↔
      ReadCondition length (card .twiIrtStatus) := by
  constructor
  · intro honest hdone hexhausted
    rcases Int.lt_or_le length 0 with hneg | hlength
    · have hzero : length.toNat = 0 := Int.toNat_of_nonpos hneg.le
      simp [readPolls, hzero, parts_zero, partPolls, polls]
    · obtain ⟨t, hended, htransactions⟩ :=
        i2cRead_of_done card i2cAddr offset length readData hdone
      have hreturned := received_eq_length_iff.mpr hexhausted
      obtain ⟨-, hall⟩ := honest _ _ _ hended rfl (by rw [hreturned]; omega)
      rw [htransactions] at hall
      exact completed_readTransactions_iff.mp hall
  · intro hcondition ended r bytes hended hr hreturned
    obtain ⟨hdone, hcount, hbytes, htransactions⟩ := transactions_of_ok hended hr
    have hall : ((readTransactions card length).flatMap Transaction.received).length =
        length.toNat := by omega
    have hexhausted := received_eq_length_iff.mp hall
    rw [htransactions]
    exact ⟨hbytes, completed_readTransactions_iff.mpr (hcondition hdone hexhausted)⟩

end Read

/-! ## The file -/

section File

variable {card : Card} {text : List Char} {confirm : String}

variable (card text confirm) in
/-- If `file_dump_to_eeprom` tells that the EEPROM is written, then all bytes of the file were sent,
every burst was seen to be completed, and no two bytes were sent to the same cell. -/
def FileHonest : Prop :=
  ∀ ended, fileDumpToEeprom card text confirm = some ended → ended.result = .ok (some .written) →
    ∃ data, fileData text = .ok data ∧
      (transactions ended.trace).flatMap Transaction.data = data.map lowByte ∧
      (∀ x ∈ transactions ended.trace, x.Completed) ∧
      ((transactions ended.trace).flatMap Transaction.cells).Nodup

variable (text confirm) in
/-- The condition for the write of the file, if there is one. -/
def FileCondition (statuses : ℕ → Word) : Prop :=
  ∀ data, fileData text = .ok data → confirm = "Yes" →
    WriteCondition 0 data.length data statuses

theorem report_written_iff (length written : ℕ) :
    report length written = .written ↔ written = length := by
  rw [report]
  split_ifs <;> simp_all

/-- A confirmed write ends with a report about what `i2c_write` returns. -/
theorem fileDumpToEeprom_of_write {data : List ℤ} {write : Ended ℕ}
    (hdata : fileData text = .ok data)
    (hwrite : i2cWrite card 0x56 0 data.length data = some write) :
    fileDumpToEeprom card text "Yes" =
      some ⟨write.result.map fun written => some (report data.length written), write.trace⟩ := by
  simp only [fileDumpToEeprom, hdata, hwrite]
  rfl

/-- The message is printed only if all bytes are counted. -/
theorem write_of_written {ended : Ended (Option Report)}
    (hended : fileDumpToEeprom card text confirm = some ended)
    (hr : ended.result = .ok (some .written)) :
    ∃ data write, fileData text = .ok data ∧ confirm = "Yes" ∧
      i2cWrite card 0x56 0 data.length data = some write ∧
      write.result = .ok data.length ∧ write.trace = ended.trace := by
  rw [fileDumpToEeprom] at hended
  cases hdata : fileData text with
  | error e =>
      rw [hdata] at hended
      injection hended with hended
      rw [← hended] at hr
      cases hr
  | ok data =>
      rw [hdata] at hended
      dsimp only at hended
      split_ifs at hended with hconfirm
      · injection hended with hended
        rw [← hended] at hr
        cases hr
      · obtain ⟨write, hwrite, rfl⟩ := Option.map_eq_some_iff.mp hended
        dsimp only at hr
        refine ⟨data, write, rfl, not_not.mp hconfirm, hwrite, ?_, rfl⟩
        cases hresult : write.result with
        | error e =>
            rw [hresult] at hr
            cases hr
        | ok written =>
            rw [hresult] at hr
            injection hr with hr
            injection hr with hr
            rw [(report_written_iff _ _).mp hr]

theorem fileHonest_iff :
    FileHonest card text confirm ↔ FileCondition text confirm (card .twiIrtStatus) := by
  constructor
  · rintro honest data hdata rfl
    have hhonest : WriteHonest card 0x56 0 data.length data := ?_
    · exact writeHonest_iff.mp hhonest
    intro write r hwrite hr hlength
    have hreport : write.result.map (fun written => some (report data.length written)) =
        .ok (some .written) := by
      rw [hr]
      exact congrArg (fun w => Except.ok (some w)) ((report_written_iff _ _).mpr (by omega))
    obtain ⟨data', hdata', -, hall⟩ :=
      honest _ (fileDumpToEeprom_of_write hdata hwrite) hreport
    exact hall
  · intro hcondition ended hended hr
    obtain ⟨data, write, hdata, hconfirm, hwrite, hresult, htrace⟩ := write_of_written hended hr
    have hhonest := writeHonest_iff.mpr (hcondition data hdata hconfirm) write _ hwrite hresult rfl
    have hbursts := (transactions_of_length hwrite hresult rfl).2.2
    rw [← htrace]
    refine ⟨data, hdata, ?_, hhonest⟩
    rw [hbursts, data_bursts, sum_cuts, List.drop_zero, Int.toNat_natCast, List.take_length]

end File

/-- **What success of an EEPROM transfer means.**  For all statuses and all inputs: that `i2c_write`
returns the length means that every burst was completed and went to cells of its own if and only if
`WriteCondition` holds, that `i2c_read` returns it means that every part was completed if and only
if `ReadCondition` does, and the message of `file_dump_to_eeprom` means a complete write if and only
if `FileCondition` does. -/
theorem eeprom_success_iff (card : Card) (i2cAddr offset length : ℤ) (writeData : List ℤ)
    (readData : List Byte) (text : List Char) (confirm : String) :
    (WriteHonest card i2cAddr offset length writeData ↔
      WriteCondition offset length writeData (card .twiIrtStatus)) ∧
    (ReadHonest card i2cAddr offset length readData ↔
      ReadCondition length (card .twiIrtStatus)) ∧
    (FileHonest card text confirm ↔ FileCondition text confirm (card .twiIrtStatus)) :=
  ⟨writeHonest_iff, readHonest_iff, fileHonest_iff⟩

/-- A card where no transfer is acknowledged. -/
def nackCard : Card := fun _ _ => 4

/-- A card that completes the transfer of a word offset only. -/
def silentCard : Card
  | .twiIrtStatus, pos => if pos ≤ 1 then 1 else 0
  | _, _ => 0

/-- All data in one burst, and no acknowledge. -/
theorem not_writeCondition_nackCard {data : List ℤ} (hpos : 0 < data.length)
    (hle : data.length ≤ 6) :
    ¬ WriteCondition 0 data.length data (nackCard .twiIrtStatus) := by
  have hsize : burstSize 0 data.length = data.length := by
    unfold burstSize
    omega
  have hpolls : writePolls (nackCard .twiIrtStatus) 0 data.length = [.failed] := by
    rw [writePolls, Int.toNat_natCast, cuts_of_pos 0 hpos, hsize, Nat.sub_self, cuts_zero]
    rfl
  intro hcondition
  have hdone := (hcondition le_rfl (by rw [hpolls]; decide)).2
  rw [hpolls] at hdone
  exact absurd (hdone .failed List.mem_cons_self) (by decide)

/-- One byte that is not acknowledged is counted as written, one that never arrives as read, and
the record `0000 00000000` that is not acknowledged is reported as written. -/
theorem nack_and_silence_succeed :
    ¬ WriteHonest nackCard 0x56 0 1 [0] ∧ ¬ ReadHonest silentCard 0x56 0 1 [] ∧
      ¬ FileHonest nackCard (dumpLine 0 0) "Yes" := by
  refine ⟨fun honest => ?_, fun honest => ?_, fun honest => ?_⟩
  · exact not_writeCondition_nackCard (show 0 < [0].length by decide) (by decide)
      (writeHonest_iff.mp honest)
  · have hparts : parts 1 = [1] := by rw [parts_of_pos (by decide), parts_zero]; rfl
    have hoffset : pollStatus (silentCard .twiIrtStatus) 1 = (.done, [1]) := rfl
    have hsilent : (pollPart (silentCard .twiIrtStatus) 2).1 = .exhausted := by
      refine pollOf_exhausted (fun k hk => ⟨?_, rfl⟩) _
      have hlate : ¬ k ≤ 1 := by omega
      simp [silentCard, hlate, completed]
    have hrunsOut : readPolls (silentCard .twiIrtStatus) 1 = [.exhausted] := by
      rw [readPolls, hoffset, show (1 : ℤ).toNat = 1 from rfl, hparts]
      exact congrArg (fun o => [o]) hsilent
    have hdone := readHonest_iff.mp honest rfl (by rw [hrunsOut]; decide)
    rw [hrunsOut] at hdone
    exact absurd (hdone .exhausted List.mem_cons_self) (by decide)
  · have hdata : fileData (dumpLine 0 0 ++ []) = _ :=
      fileData_dumpLine (by decide) (by decide) (show fileData [] = .ok [] from rfl)
    rw [List.append_nil] at hdata
    exact not_writeCondition_nackCard (by decide) (by decide)
      (fileHonest_iff.mp honest _ hdata rfl)

end Eeprom

end Gn4124Core
