import Gn4124Core.CLang.Memory
import Gn4124Core.Eeprom.TwoWire
import Gn4124Core.PyLang.Text

/-!
# The dump file of the EEPROM

The EEPROM holds records of six bytes: a register address of 16 bits and a word of 32 bits, the
low byte first, up to a record with the address `0xFFFF`.  `eeprom_dump_to_file` writes a line
for each record, as two numbers, and `file_dump_to_eeprom` takes these apart from the right to
the left.  The bytes that it finds are those that were read (`dump_file_gives_back`).

The text is the real one, with its format, its lines and the splitting of a line into words,
which `PyLang.Text` has the lemmas for.  `wordBytes_lowDigits` says that a number printed with
all its digits is taken apart into its low bytes, the lowest first; `recordBytes_dumpLine` does
this for the two numbers of a line, and `fileData_dumpLine` for a line in front of others.
Writing stops at the end mark or after a hundred records, so the induction of
`dumpRecords_fileData` is on the records that are left, with `recordCount` of them still to come.
-/

namespace Gn4124Core

open CLang PyLang RegisterBus

namespace Eeprom

/-! ## Writing the file -/

/-- The line of a record. -/
def dumpLine (addr data : ℕ) : List Char :=
  formatHex 4 addr ++ ' ' :: (formatHex 8 data ++ ['\n'])

/-- The loop of `eeprom_dump_to_file` over the records, `nbRec` of them from the byte `i` on. -/
def dumpRecords (eepromData : List Byte) : ℕ → ℕ → Except PyError (List Char)
  | 0, _ => .ok []
  | nbRec + 1, i =>
      match eepromData.drop i with
      | a₀ :: a₁ :: d₀ :: d₁ :: d₂ :: d₃ :: _ =>
          let addr := a₀.toNat + a₁.toNat <<< 8
          let data := d₀.toNat + d₁.toNat <<< 8 + d₂.toNat <<< 16 + d₃.toNat <<< 24
          if addr = 0xFFFF then .ok (dumpLine addr data)
          else (dumpRecords eepromData nbRec (i + 6)).map (dumpLine addr data ++ ·)
      | _ => .error .indexError

/-- `eeprom_dump_to_file`: the text of the file. -/
def eepromDumpToFile (card : Card) : Option (Ended (List Char)) :=
  (i2cRead card 0x56 0 600 []).map fun ended =>
    ⟨ended.result.bind fun (_, eepromData) => dumpRecords eepromData 100 0, ended.trace⟩

/-! ## Reading the file -/

/-- `range(n, 0, -1)`. -/
def countDown : ℕ → List ℕ
  | 0 => []
  | n + 1 => (n + 1) :: countDown n

/-- The bytes of a number of `n` bytes, from the last two digits on. -/
def wordBytes (s : List Char) (n : ℕ) : Except PyError (List ℤ) :=
  (countDown n).mapM fun i => pyInt16 (pairAt s ((i - 1) * 2))

/-- The body of the reading loop. -/
def recordBytes (line : List Char) : Except PyError (List ℤ) :=
  match split line with
  | [addr, data] => do
      let addrBytes ← wordBytes addr 2
      let dataBytes ← wordBytes data 4
      return addrBytes ++ dataBytes
  | _ => .error .valueError

/-- The reading loop: `file_data`. -/
def fileData (text : List Char) : Except PyError (List ℤ) := do
  let records ← (lines text).mapM recordBytes
  return records.flatten

/-- What `file_dump_to_eeprom` tells at the end. -/
inductive Report where
  | written
  | error
deriving DecidableEq

def report (length written : ℕ) : Report := if written = length then .written else .error

/-- `file_dump_to_eeprom`.  Nothing is told without the confirmation. -/
def fileDumpToEeprom (card : Card) (text : List Char) (confirm : String) :
    Option (Ended (Option Report)) :=
  match fileData text with
  | .error e => some ⟨.error e, []⟩
  | .ok data =>
      if confirm ≠ "Yes" then some ⟨.ok none, []⟩
      else
        (i2cWrite card 0x56 0 data.length data).map fun ended =>
          ⟨ended.result.map fun written => some (report data.length written), ended.trace⟩

/-! ## One record -/

/-- The low `n` bytes of a number. -/
def lowBytes (n x : ℕ) : List ℤ := (List.range n).map fun k => ((x / 256 ^ k % 256 : ℕ) : ℤ)

theorem lowBytes_succ (n x : ℕ) :
    lowBytes (n + 1) x = ((x % 256 : ℕ) : ℤ) :: lowBytes n (x / 256) := by
  have hshift : ∀ k, x / 256 ^ (k + 1) = x / 256 / 256 ^ k := fun k => by
    rw [Nat.div_div_eq_div_mul, Nat.pow_succ']
  simp only [lowBytes, List.range_succ_eq_map, List.map_cons, List.map_map, Nat.pow_zero,
    Nat.div_one, Function.comp_def, Nat.succ_eq_add_one, hshift]

/-- The bytes of the number that bytes stand for. -/
theorem lowBytes_ofLittleEndian (bs : List Byte) :
    lowBytes bs.length (ofLittleEndian bs) = bs.map fun b => (b.toNat : ℤ) := by
  induction bs with
  | nil => rfl
  | cons b bs ih =>
      have hb : b.toNat < 256 := b.isLt
      have hlow : (b.toNat + 256 * ofLittleEndian bs) % 256 = b.toNat := by omega
      have hhigh : (b.toNat + 256 * ofLittleEndian bs) / 256 = ofLittleEndian bs := by omega
      rw [List.length_cons, lowBytes_succ, ofLittleEndian, hlow, hhigh, ih, List.map_cons]

/-- The last `m` bytes of a number of `n` bytes are found from the right to the left. -/
theorem mapM_countDown {n m : ℕ} (hm : m ≤ n) (x : ℕ) :
    (countDown m).mapM (fun i => pyInt16 (pairAt (lowDigits (2 * n) x) ((i - 1) * 2))) =
      .ok (lowBytes m (x / 256 ^ (n - m))) := by
  induction m with
  | zero => rfl
  | succ m ih =>
      have hdigits : 2 * n = m * 2 + (2 + 2 * (n - (m + 1))) := by omega
      have hpower : (16 : ℕ) ^ (2 * (n - (m + 1))) = 256 ^ (n - (m + 1)) := by rw [Nat.pow_mul]
      have hfirst : pyInt16 (pairAt (lowDigits (2 * n) x) ((m + 1 - 1) * 2)) =
          .ok (x / 256 ^ (n - (m + 1)) % 256 : ℕ) := by
        rw [Nat.add_sub_cancel, hdigits, pairAt_lowDigits, hpower, pyInt16_lowDigits (by decide)]
        rfl
      have hrest : x / 256 ^ (n - (m + 1)) / 256 = x / 256 ^ (n - m) := by
        rw [Nat.div_div_eq_div_mul, ← Nat.pow_succ]
        congr 2
        omega
      rw [countDown, List.mapM_cons, hfirst, ih (by omega), lowBytes_succ, hrest]
      rfl

theorem wordBytes_lowDigits (n x : ℕ) : wordBytes (lowDigits (2 * n) x) n = .ok (lowBytes n x) := by
  have hall := mapM_countDown (n := n) le_rfl x
  rwa [Nat.sub_self, Nat.pow_zero, Nat.div_one] at hall

/-- A line is read as the bytes of its record. -/
theorem recordBytes_dumpLine {addr data : ℕ} (haddr : addr < 2 ^ 16) (hdata : data < 2 ^ 32) :
    recordBytes (dumpLine addr data) = .ok (lowBytes 2 addr ++ lowBytes 4 data) := by
  have haddr' : formatHex 4 addr = lowDigits (2 * 2) addr := formatHex_eq haddr
  have hdata' : formatHex 8 data = lowDigits (2 * 4) data := formatHex_eq hdata
  have hsplit := split_two_words (hexDigits_lowDigits (n := 2 * 2) (by decide) addr)
    (hexDigits_lowDigits (n := 2 * 4) (by decide) data)
  rw [recordBytes, dumpLine, haddr', hdata', hsplit]
  simp only [wordBytes_lowDigits]
  rfl

/-- A line in front of other lines. -/
theorem fileData_dumpLine {addr data : ℕ} (haddr : addr < 2 ^ 16) (hdata : data < 2 ^ 32)
    {text : List Char} {bytes : List ℤ} (htext : fileData text = .ok bytes) :
    fileData (dumpLine addr data ++ text) = .ok (lowBytes 2 addr ++ lowBytes 4 data ++ bytes) := by
  have hdigit : ∀ n x, ∀ c ∈ lowDigits n x, c ≠ '\n' := by
    rintro n x c hc rfl
    exact absurd (isHexDigit_lowDigits n x _ hc) (by decide)
  have hline : ∀ c ∈ formatHex 4 addr ++ ' ' :: formatHex 8 data, c ≠ '\n' := by
    rw [formatHex_eq haddr, formatHex_eq hdata, List.forall_mem_append, List.forall_mem_cons]
    exact ⟨hdigit 4 addr, by decide, hdigit 8 data⟩
  have hlines : lines (dumpLine addr data ++ text) = dumpLine addr data :: lines text := by
    have happend := lines_append hline text
    simpa [dumpLine] using happend
  rw [fileData, hlines, List.mapM_cons, recordBytes_dumpLine haddr hdata]
  cases hrecords : (lines text).mapM recordBytes with
  | error e =>
      rw [fileData, hrecords] at htext
      cases htext
  | ok records =>
      rw [fileData, hrecords] at htext
      injection htext with htext
      rw [← htext]
      rfl

/-- The line of a record is read as its bytes. -/
theorem fileData_record {addr data : List Byte} (haddr : addr.length = 2) (hdata : data.length = 4)
    {text : List Char} {bytes : List ℤ} (htext : fileData text = .ok bytes) :
    fileData (dumpLine (ofLittleEndian addr) (ofLittleEndian data) ++ text) =
      .ok ((addr ++ data).map (fun b => (b.toNat : ℤ)) ++ bytes) := by
  have haddr_lt : ofLittleEndian addr < 2 ^ 16 := by simpa [haddr] using ofLittleEndian_lt addr
  have hdata_lt : ofLittleEndian data < 2 ^ 32 := by simpa [hdata] using ofLittleEndian_lt data
  have haddr_bytes := lowBytes_ofLittleEndian addr
  have hdata_bytes := lowBytes_ofLittleEndian data
  rw [haddr] at haddr_bytes
  rw [hdata] at hdata_bytes
  rw [fileData_dumpLine haddr_lt hdata_lt htext, haddr_bytes, hdata_bytes, List.map_append]

/-! ## The whole file -/

/-- The register address of a record. -/
def recordAddress (eepromData : List Byte) (k : ℕ) : ℕ :=
  (eepromData.getD (6 * k) 0).toNat + 256 * (eepromData.getD (6 * k + 1) 0).toNat

/-- How many of `n` records there are from the record `j` on, up to the first one with the address
`0xFFFF`. -/
def recordCount (eepromData : List Byte) (n j : ℕ) : ℕ :=
  ((List.range n).find? fun k => recordAddress eepromData (j + k) = 0xFFFF).elim n (· + 1)

theorem recordCount_succ (eepromData : List Byte) (n j : ℕ) :
    recordCount eepromData (n + 1) j =
      if recordAddress eepromData j = 0xFFFF then 1 else recordCount eepromData n (j + 1) + 1 := by
  have hshift : ∀ k, recordAddress eepromData (j + (k + 1)) =
      recordAddress eepromData (j + 1 + k) := fun k => by rw [Nat.add_assoc, Nat.add_comm 1 k]
  rw [recordCount, List.range_succ_eq_map, List.find?_cons]
  by_cases hend : recordAddress eepromData j = 0xFFFF
  · simp [hend]
  · simp only [Nat.add_zero, hend, decide_false, List.find?_map, Function.comp_def, hshift,
      if_false, recordCount, Nat.succ_eq_add_one]
    cases List.find? _ _ <;> rfl

theorem exists_record {eepromData : List Byte} {j : ℕ} (hlen : 6 * (j + 1) ≤ eepromData.length) :
    ∃ a₀ a₁ d₀ d₁ d₂ d₃, eepromData.drop (6 * j) =
      a₀ :: a₁ :: d₀ :: d₁ :: d₂ :: d₃ :: eepromData.drop (6 * (j + 1)) := by
  refine ⟨eepromData[6 * j], eepromData[6 * j + 1], eepromData[6 * j + 2], eepromData[6 * j + 3],
    eepromData[6 * j + 4], eepromData[6 * j + 5], ?_⟩
  repeat rw [List.drop_eq_getElem_cons (by omega)]
  rfl

/-- One round of the loop: the record is taken apart into two numbers. -/
theorem dumpRecords_succ {eepromData : List Byte} {j : ℕ} (n : ℕ)
    (hlen : 6 * (j + 1) ≤ eepromData.length) :
    ∃ addr data : List Byte, addr.length = 2 ∧ data.length = 4 ∧
      eepromData.drop (6 * j) = addr ++ data ++ eepromData.drop (6 * (j + 1)) ∧
      recordAddress eepromData j = ofLittleEndian addr ∧
      dumpRecords eepromData (n + 1) (6 * j) =
        if ofLittleEndian addr = 0xFFFF then
          .ok (dumpLine (ofLittleEndian addr) (ofLittleEndian data))
        else (dumpRecords eepromData n (6 * (j + 1))).map
          (dumpLine (ofLittleEndian addr) (ofLittleEndian data) ++ ·) := by
  obtain ⟨a₀, a₁, d₀, d₁, d₂, d₃, hrecord⟩ := exists_record hlen
  refine ⟨[a₀, a₁], [d₀, d₁, d₂, d₃], rfl, rfl, hrecord, ?_, ?_⟩
  · have hfirst : eepromData[6 * j]? = some a₀ := by
      rw [← List.head?_drop, hrecord]
      rfl
    have hsecond : eepromData[6 * j + 1]? = some a₁ := by
      rw [← List.getElem?_drop, hrecord]
      rfl
    simp [recordAddress, List.getD_eq_getElem?_getD, hfirst, hsecond, ofLittleEndian]
  · have haddr : a₀.toNat + a₁.toNat <<< 8 = ofLittleEndian [a₀, a₁] := by
      simp only [ofLittleEndian, Nat.shiftLeft_eq]
      omega
    have hdata : d₀.toNat + d₁.toNat <<< 8 + d₂.toNat <<< 16 + d₃.toNat <<< 24 =
        ofLittleEndian [d₀, d₁, d₂, d₃] := by
      simp only [ofLittleEndian, Nat.shiftLeft_eq]
      omega
    rw [dumpRecords, hrecord]
    simp only [haddr, hdata]
    rfl

/-- What is written of the records from `j` on is read as their bytes. -/
theorem dumpRecords_fileData (eepromData : List Byte) (n j : ℕ)
    (hlen : 6 * (j + n) ≤ eepromData.length) :
    ∃ text, dumpRecords eepromData n (6 * j) = .ok text ∧
      fileData text = .ok (((eepromData.drop (6 * j)).take (6 * recordCount eepromData n j)).map
        fun b => (b.toNat : ℤ)) := by
  induction n generalizing j with
  | zero => exact ⟨[], rfl, rfl⟩
  | succ n ih =>
      obtain ⟨addr, data, haddr, hdata, hrecord, haddress, hround⟩ :=
        dumpRecords_succ n (show 6 * (j + 1) ≤ eepromData.length by omega)
      have hsix : (addr ++ data).length = 6 := by rw [List.length_append, haddr, hdata]
      have htake : ∀ r, (eepromData.drop (6 * j)).take (6 * (r + 1)) =
          addr ++ data ++ (eepromData.drop (6 * (j + 1))).take (6 * r) := by
        intro r
        rw [hrecord, Nat.mul_succ, Nat.add_comm, ← hsix, List.take_length_add_append, hsix]
      rw [hround, recordCount_succ, haddress]
      by_cases hend : ofLittleEndian addr = 0xFFFF
      · have hlast := fileData_record haddr hdata (show fileData [] = .ok [] from rfl)
        have hone := htake 0
        rw [List.append_nil, List.append_nil] at hlast
        rw [Nat.mul_zero, List.take_zero, List.append_nil] at hone
        rw [if_pos hend, if_pos hend, hone]
        exact ⟨_, rfl, hlast⟩
      · obtain ⟨text, htext, hread⟩ := ih (j + 1) (by omega)
        rw [if_neg hend, if_neg hend, htext, htake, List.map_append]
        exact ⟨_, rfl, fileData_record haddr hdata hread⟩

/-- The first bytes of the contents, up to the end of the first record with the address `0xFFFF` or
of the hundredth. -/
def recordedBytes (eepromData : List Byte) : List ℤ :=
  (eepromData.take (6 * recordCount eepromData 100 0)).map fun b => (b.toNat : ℤ)

/-- **The dump file gives back the EEPROM contents.**  In the text for 600 bytes the reading loop
finds the bytes of the records up to the first one with the address `0xFFFF`, or of all 100.  This
is the text that `eeprom_dump_to_file` writes when `i2c_read` returns these bytes, and the bytes are
those that `file_dump_to_eeprom` hands to `i2c_write`. -/
theorem dump_file_gives_back (eepromData : List Byte) (hlen : eepromData.length = 600) :
    ∃ text, dumpRecords eepromData 100 0 = .ok text ∧
      fileData text = .ok (recordedBytes eepromData) ∧
      (∀ card n t, i2cRead card 0x56 0 600 [] = some ⟨.ok (n, eepromData), t⟩ →
        eepromDumpToFile card = some ⟨.ok text, t⟩) ∧
      ∀ card, fileDumpToEeprom card text "Yes" =
        (i2cWrite card 0x56 0 (recordedBytes eepromData).length (recordedBytes eepromData)).map
          fun ended => ⟨ended.result.map fun written =>
            some (report (recordedBytes eepromData).length written), ended.trace⟩ := by
  obtain ⟨text, htext, hread⟩ := dumpRecords_fileData eepromData 100 0 (by omega)
  rw [Nat.mul_zero, List.drop_zero] at hread
  refine ⟨text, htext, hread, fun card n t hcard => ?_, fun card => ?_⟩
  · rw [eepromDumpToFile, hcard]
    exact congrArg (fun r => some (⟨r, t⟩ : Ended (List Char))) htext
  · simp only [fileDumpToEeprom, hread]
    rfl

/-- Two records before the one that ends the contents. -/
def shortContents : List Byte :=
  [0x04, 0x08, 0x00, 0x00, 0x01, 0x00, 0x0c, 0x00, 0xef, 0xbe, 0xad, 0xde, 0xff, 0xff, 0x78, 0x56,
    0x34, 0x12] ++ List.replicate 582 0xff

theorem shortContents_given_back :
    ∃ text, dumpRecords shortContents 100 0 = .ok text ∧
      fileData text = .ok ((shortContents.take 18).map fun b => (b.toNat : ℤ)) := by
  have hlen : shortContents.length = 600 := by
    rw [shortContents, List.length_append, List.length_replicate]
    rfl
  obtain ⟨text, htext, hread, -⟩ := dump_file_gives_back shortContents hlen
  have hcount : recordCount shortContents 100 0 = 3 := by decide +kernel
  rw [recordedBytes, hcount] at hread
  exact ⟨text, htext, hread⟩

example : dumpLine 0x0804 0x00010000 =
    ['0', '8', '0', '4', ' ', '0', '0', '0', '1', '0', '0', '0', '0', '\n'] := by
  decide +kernel

end Eeprom

end Gn4124Core
