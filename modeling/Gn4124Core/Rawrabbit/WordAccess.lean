import Gn4124Core.Rawrabbit.AddressCode

/-!
# Word accesses of `rr.py`

`iread` and `iwrite` hand a command to the driver that has a union for the data, with a member
for each width.  Both use the member of 32 bits whatever the width is, so that the high half of a
64-bit word is written as zero and not read back (`word_access_iff`).

The way of a word goes through four layers: the method of `rr.py`, the function of `rrlib.c`, the
copy of the command between user space and the driver, and the driver's access to the buffer.
`WordOf.rrIread` and `WordOf.rrIwrite` are the last three for a word of the buffer, from what is
known of `rr_do_iocmd`; `WordOf.iread` and `WordOf.iwrite` add the first, where the union of a
new command with the datum as its `data32` has zeros behind four bytes (`pyIocmd_data32`).
`WordOf.value` is what the buffer then holds of the datum.
-/

namespace Gn4124Core

open CLang

namespace Rawrabbit

/-! ## The clients' side -/

section Clients

variable {m : DataModel} (rrBufsize : Bufsize m) (dev : Areas) (k : Machine Region)

/-- `rr_ioctl` for `RR_READ` and `RR_WRITE`: the command is copied to user space only after a read,
and only if there is no error. -/
def rrIoctl (cmd : RrCmd) (iocmd : RrIocmd) : Option IocmdOut :=
  (rrDoIocmd dev iocmd k rrBufsize cmd).map fun out =>
    match cmd, out.ret with
    | .rrRead, .ok _ => out
    | _, _ => { out with iocmd := iocmd }

/-- `rr_iread` of `rrlib.c`. -/
def rrIread (iocmd : RrIocmd) : Option IocmdOut := rrIoctl rrBufsize dev k .rrRead iocmd

/-- `rr_iwrite` of `rrlib.c`. -/
def rrIwrite (iocmd : RrIocmd) : Option IocmdOut := rrIoctl rrBufsize dev k .rrWrite iocmd

/-- `RR_Iocmd(address=address, datasize=width)`: what is not named is zero. -/
def pyIocmd (address : BitVec 32) (width : ℕ) : RrIocmd :=
  ⟨address, BitVec.ofNat 32 width, List.replicate 8 0, length_zeroData⟩

/-- The member `data32` as a number. -/
def RrIocmd.data32 (iocmd : RrIocmd) : ℕ := ofLittleEndian (iocmd.member 4)

/-- What a method of `Gennum` leaves behind: its attribute `errno`, the number that it returns, and
the machine. -/
structure PyOut where
  errno : Except Errno ℤ
  value : ℕ
  kern : Machine Region

/-- `iread`.  There is nothing for a BAR that is not in the map. -/
def iread (bar offset width : ℕ) : Option PyOut := do
  let address ← pyAddress bar offset
  let out ← rrIread rrBufsize dev k (pyIocmd address width)
  return ⟨out.ret, out.iocmd.data32, out.kern⟩

/-- `iwrite`.  The member `data32` takes a number modulo `2 ^ 32`. -/
def iwrite (bar offset width datum : ℕ) : Option PyOut := do
  let address ← pyAddress bar offset
  let ds := (pyIocmd address width).setMember (littleEndian 4 datum)
  let out ← rrIwrite rrBufsize dev k ds
  return ⟨out.ret, out.iocmd.data32, out.kern⟩

end Clients

/-! ## A word in the DMA buffer -/

section Buffer

variable {m : DataModel} {rrBufsize : Bufsize m} {dev : Areas} {k : Machine Region}
variable {offset width : ℕ} {iocmd : RrIocmd}

/-- A word of this width belongs to the buffer, at an offset that is aligned to it. -/
structure WordOf (rrBufsize : Bufsize m) (offset width : ℕ) : Prop where
  aligned : Aligned offset width
  fits : offset + width ≤ rrBufsize.val

/-- A command for this word. -/
structure Addresses (iocmd : RrIocmd) (offset width : ℕ) : Prop where
  address : pyAddress 0xc offset = some iocmd.address
  datasize : iocmd.datasize = BitVec.ofNat 32 width

theorem WordOf.letThrough (h : WordOf rrBufsize offset width) (hcmd : Addresses iocmd offset width)
    (dev : Areas) : LetThrough rrBufsize dev iocmd .dmabuf ∧
      rrGetOff iocmd.address.toNat = offset ∧ iocmd.datasize.toNat = width := by
  have hmax := rrMaxBufsize_le m
  have hle := rrBufsize.le
  have hfits := h.fits
  have hpos := h.aligned.width_pos
  have hlt : offset < 2 ^ 28 := by omega
  have haddress : iocmd.address.toNat = 12 * 2 ^ 28 + offset := by
    have hmap : some (BitVec.ofNat 32 (12 * 2 ^ 28 + offset)) = some iocmd.address :=
      (pyAddress_eq (by decide)).symm.trans hcmd.address
    injection hmap with hmap
    rw [← hmap]
    exact pyAddress_toNat (by decide) hlt
  have hoff : rrGetOff iocmd.address.toNat = offset := by
    rw [haddress]
    exact rrGetOff_eq_of_add hlt
  have hwidth : iocmd.datasize.toNat = width := by
    have height := h.aligned.le
    rw [hcmd.datasize, BitVec.toNat_ofNat]
    exact Nat.mod_eq_of_lt (by omega)
  refine ⟨⟨?_, ?_, ?_⟩, hoff, hwidth⟩
  · rw [haddress, namedArea, rrGetBar_eq_of_add hlt]
    rfl
  · rw [hoff]
    exact lt_of_lt_of_le (Nat.lt_add_of_pos_right hpos) hfits
  · rw [hoff, hwidth]
    exact h.aligned

theorem WordOf.rrIread (h : WordOf rrBufsize offset width) (hcmd : Addresses iocmd offset width) :
    rrIread rrBufsize dev k iocmd = some (fetch iocmd k .dmabuf offset width) := by
  obtain ⟨hlet, hoff, hwidth⟩ := h.letThrough hcmd dev
  have hreach : reachable dev .dmabuf = true := rfl
  rw [Rawrabbit.rrIread, rrIoctl, rrDoIocmd_letThrough hlet, hreach, if_pos rfl, hoff, hwidth]
  rfl

theorem WordOf.rrIwrite (h : WordOf rrBufsize offset width) (hcmd : Addresses iocmd offset width) :
    rrIwrite rrBufsize dev k iocmd = some (deposit iocmd k .dmabuf offset width) := by
  obtain ⟨hlet, hoff, hwidth⟩ := h.letThrough hcmd dev
  have hreach : reachable dev .dmabuf = true := rfl
  rw [Rawrabbit.rrIwrite, rrIoctl, rrDoIocmd_letThrough hlet, hreach, if_pos rfl, hoff, hwidth]
  rfl

/-- The union of a new command in which one member is stored. -/
theorem pyIocmd_data (address : BitVec 32) (width : ℕ) {bs : List Byte} (hle : bs.length ≤ 8) :
    ((pyIocmd address width).setMember bs).data = bs ++ List.replicate (8 - bs.length) 0 := by
  show bs.take 8 ++ (List.replicate 8 0).drop bs.length = _
  rw [List.take_of_length_le hle, List.drop_replicate]

/-- `data32=datum`: all eight bytes hold the datum modulo `2 ^ 32`. -/
theorem pyIocmd_data32 (address : BitVec 32) (width datum : ℕ) :
    ((pyIocmd address width).setMember (littleEndian 4 datum)).data =
      littleEndian 8 (datum % 2 ^ 32) := by
  have hlen : (littleEndian 4 datum).length = 4 := length_littleEndian 4 datum
  have hlt : datum % 2 ^ 32 < 256 ^ 4 := Nat.mod_lt datum (by decide)
  rw [pyIocmd_data _ _ (by omega), hlen, ← littleEndian_mod]
  exact (littleEndian_of_lt hlt 4).symm

theorem exists_pyAddress (offset : ℕ) : ∃ address, pyAddress 0xc offset = some address :=
  ⟨_, pyAddress_eq (by decide)⟩

variable (dev k)

/-- `iread` returns what the buffer holds, cut to 32 bits. -/
theorem WordOf.iread (h : WordOf rrBufsize offset width) :
    iread rrBufsize dev k 0xc offset width = some
      ⟨.ok 0, ofLittleEndian ((k.mem.load .dmabuf offset width ++
        List.replicate (8 - width) 0).take 4), k.read .dmabuf offset width⟩ := by
  obtain ⟨address, haddress⟩ := exists_pyAddress offset
  have hcmd : Addresses (pyIocmd address width) offset width := ⟨haddress, rfl⟩
  have hle : (k.mem.load .dmabuf offset width).length ≤ 8 := by
    rw [Memory.length_load]
    exact h.aligned.le
  have hdata := pyIocmd_data address width hle
  rw [Memory.length_load] at hdata
  rw [Rawrabbit.iread, haddress, Option.bind_eq_bind, Option.bind_some, h.rrIread hcmd,
    Option.bind_eq_bind, Option.bind_some, fetch, RrIocmd.data32, RrIocmd.member, hdata]
  rfl

/-- `iwrite` writes the low 32 bits of the datum. -/
theorem WordOf.iwrite (h : WordOf rrBufsize offset width) (datum : ℕ) :
    ∃ value, iwrite rrBufsize dev k 0xc offset width datum = some
      ⟨.ok 0, value, k.write .dmabuf offset (littleEndian width (datum % 2 ^ 32))⟩ := by
  obtain ⟨address, haddress⟩ := exists_pyAddress offset
  have hcmd : Addresses ((pyIocmd address width).setMember (littleEndian 4 datum)) offset width :=
    ⟨haddress, rfl⟩
  have height : 8 = width + (8 - width) := (Nat.add_sub_cancel' h.aligned.le).symm
  have hmember : ((pyIocmd address width).setMember (littleEndian 4 datum)).member width =
      littleEndian width (datum % 2 ^ 32) := by
    rw [RrIocmd.member, pyIocmd_data32, height, take_littleEndian]
  have hwrite : Rawrabbit.rrIwrite rrBufsize dev k _ = _ := h.rrIwrite hcmd
  rw [deposit, hmember] at hwrite
  refine ⟨((pyIocmd address width).setMember (littleEndian 4 datum)).data32, ?_⟩
  unfold Rawrabbit.iwrite
  rw [haddress, Option.bind_eq_bind, Option.bind_some]
  show (Rawrabbit.rrIwrite rrBufsize dev k _).bind _ = _
  rw [hwrite]
  rfl

end Buffer

/-! ## Whether a word comes back -/

section RoundTrip

variable {m : DataModel} (rrBufsize : Bufsize m) (dev : Areas) (k : Machine Region)
variable (offset width datum : ℕ)

/-- What is written by `iwrite` is what `iread` returns; the buffer holds it with the low byte
first, and nothing else has changed. -/
def RoundTrips : Prop :=
  ∃ w r, iwrite rrBufsize dev k 0xc offset width datum = some w ∧
    iread rrBufsize dev w.kern 0xc offset width = some r ∧
    (w.errno = .ok 0 ∧ r.errno = .ok 0) ∧ r.value = datum ∧
    w.kern.mem.load .dmabuf offset width = littleEndian width datum ∧
    (∀ r a, (r, a) ∉ span .dmabuf offset width → w.kern.mem r a = k.mem r a) ∧
    r.kern.mem = w.kern.mem

variable {rrBufsize dev k offset width datum}

/-- What the buffer holds after a datum of at most 32 bits was written. -/
theorem WordOf.value (h : WordOf rrBufsize offset width) (hdatum : datum < 2 ^ (8 * width))
    (hsmall : datum < 2 ^ 32) :
    ofLittleEndian ((littleEndian width datum ++ List.replicate (8 - width) 0).take 4) = datum := by
  have height : width + (8 - width) = 4 + 4 := Nat.add_sub_cancel' h.aligned.le
  rw [Nat.pow_mul] at hdatum
  rw [← littleEndian_of_lt hdatum, height, take_littleEndian,
    ofLittleEndian_littleEndian]
  exact Nat.mod_eq_of_lt hsmall

end RoundTrip

/-- **When a word comes back.**  For every word of the DMA buffer and every datum that fits into
it, what `iwrite` writes is what `iread` returns if and only if the datum has at most 32 bits. -/
theorem word_access_iff {m : DataModel} {rrBufsize : Bufsize m} {offset width datum : ℕ}
    (dev : Areas) (k : Machine Region) (hword : WordOf rrBufsize offset width)
    (hdatum : datum < 2 ^ (8 * width)) :
    RoundTrips rrBufsize dev k offset width datum ↔ datum < 2 ^ 32 := by
  constructor
  · rintro ⟨w, r, -, hread, -, hvalue, -⟩
    rw [hword.iread dev w.kern] at hread
    injection hread with hread
    rw [← hvalue, ← hread]
    refine (ofLittleEndian_lt _).trans_le ?_
    exact Nat.pow_le_pow_right (by decide) (List.length_take_le 4 _)
  · intro hsmall
    obtain ⟨value, hwrite⟩ := hword.iwrite dev k datum
    rw [Nat.mod_eq_of_lt hsmall] at hwrite
    have hread := hword.iread dev (k.write .dmabuf offset (littleEndian width datum))
    have hload : (k.mem.store .dmabuf offset (littleEndian width datum)).load .dmabuf offset width =
        littleEndian width datum := by
      have hstored := k.mem.load_store .dmabuf offset (littleEndian width datum)
      rwa [length_littleEndian] at hstored
    rw [Machine.mem_write, hload, hword.value hdatum hsmall] at hread
    refine ⟨_, _, hwrite, hread, ⟨rfl, rfl⟩, rfl, hload, fun r a hout => ?_, rfl⟩
    apply Memory.store_of_not_mem
    rwa [length_littleEndian]

/-- The last word of 64 bits in a buffer of 16 bytes. -/
def sixteenBytes : Bufsize .lp64 := ⟨16, by decide, by decide⟩

theorem sixteenBytes_wordOf : WordOf sixteenBytes 8 8 where
  aligned := ⟨by decide, by decide⟩
  fits := by decide

theorem word_of_32_bits_comes_back :
    RoundTrips sixteenBytes .none ⟨fun _ _ => 0xa5, []⟩ 8 8 0xdeadface :=
  (word_access_iff .none ⟨fun _ _ => 0xa5, []⟩ sixteenBytes_wordOf (by decide)).mpr (by decide)

/-- Of `2 ^ 32` nothing comes back. -/
theorem word_of_33_bits_lost :
    ¬ RoundTrips sixteenBytes .none ⟨fun _ _ => 0xa5, []⟩ 8 8 (2 ^ 32) := by
  rintro ⟨w, r, -, hread, -, hvalue, -⟩
  rw [sixteenBytes_wordOf.iread .none w.kern] at hread
  injection hread with hread
  have hlt : r.value < 2 ^ 32 := by
    rw [← hread]
    refine (ofLittleEndian_lt _).trans_le ?_
    exact Nat.pow_le_pow_right (by decide) (List.length_take_le 4 _)
  exact hlt.ne hvalue

end Rawrabbit

end Gn4124Core
