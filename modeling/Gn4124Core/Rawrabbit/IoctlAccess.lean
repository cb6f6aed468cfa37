import Gn4124Core.Rawrabbit.FileAccess

/-!
# Accesses by ioctl

`rr_do_iocmd` and its helpers compare the first byte of an access with the length of the area.
That the bytes behind it belong to the area as well follows from the alignment only where the
length is a multiple of the width.  An access to a memory area follows the pointer of its
mapping, which is NULL after an `ioremap` that has failed.

The four helpers and the access to the DMA buffer differ in what they access only, so each of
them is an `attempt` at its area (`rrDoMem_eq`, `rrDoIo_eq`), and so is the whole
(`rrDoIocmd_eq`).  An access of 64 bits to I/O ports is two of 32 bits, but the same bytes
(`two_port_reads`, `two_port_writes`).  An attempt is let through or refused by its checks alone
(`rrDoIocmd_letThrough`, `rrDoIocmd_refused`), and one that is let through is contained exactly
if its last byte is (`contained_transfer_iff`).
-/

namespace Gn4124Core

open CLang

namespace Rawrabbit

/-! ## The area that an address names -/

/-- The area of a BAR, by its flags. -/
def barRegion (dev : Areas) (bar : Fin 3) : Option Region :=
  match dev.area bar with
  | none => none
  | some r =>
      if r.ioresourceMem then some (.mem bar)
      else if r.ioresourceIo then some (.port bar)
      else none

/-- The address code: the BARs 0, 2 and 4, and the DMA buffer. -/
def namedArea (dev : Areas) (address : ℕ) : Option Region :=
  match rrGetBar address with
  | 0 => barRegion dev 0
  | 2 => barRegion dev 1
  | 4 => barRegion dev 2
  | 12 => some .dmabuf
  | _ => none

/-- There is a pointer or a port number to access it with. -/
def reachable (dev : Areas) : Region → Bool
  | .mem bar => dev.remap bar
  | _ => true

variable {m : DataModel} {rrBufsize : Bufsize m} {dev : Areas} {k : Machine Region}
variable {iocmd : RrIocmd} {cmd : RrCmd}

theorem namedArea_even {address : ℕ} {bar : Fin 3} (hbar : rrGetBar address = 2 * bar) :
    namedArea dev address = barRegion dev bar := by
  match bar with
  | 0 => simp [namedArea, hbar]
  | 1 => simp [namedArea, hbar]
  | 2 => simp [namedArea, hbar]

theorem namedArea_invalid {address : ℕ} (hcode : rrGetBar address ∉ [0, 2, 4, 12]) :
    namedArea dev address = none := by
  unfold namedArea
  split <;> simp_all

/-! ## The switch over the data size -/

section Sized

variable {off : ℕ} {access : ℕ → Option IocmdOut}

/-- A width that there is, at an offset that is aligned to it. -/
def Aligned (off width : ℕ) : Prop := width ∈ [1, 2, 4, 8] ∧ off % width = 0

theorem width_cases {width : ℕ} (hwidth : width ∈ [1, 2, 4, 8]) :
    width = 1 ∨ width = 2 ∨ width = 4 ∨ width = 8 := by
  simpa using hwidth

theorem Aligned.le {width : ℕ} (h : Aligned off width) : width ≤ 8 := by
  have hcases := width_cases h.1
  omega

theorem Aligned.width_pos {width : ℕ} (h : Aligned off width) : 0 < width := by
  have hcases := width_cases h.1
  omega

theorem and_one_eq (off : ℕ) : off &&& 1 = off % 2 := Nat.and_two_pow_sub_one_eq_mod off 1
theorem and_three_eq (off : ℕ) : off &&& 3 = off % 4 := Nat.and_two_pow_sub_one_eq_mod off 2
theorem and_seven_eq (off : ℕ) : off &&& 7 = off % 8 := Nat.and_two_pow_sub_one_eq_mod off 3

theorem sized_of_aligned (h : Aligned off iocmd.datasize.toNat) :
    sized iocmd k off access = access iocmd.datasize.toNat := by
  obtain ⟨hmem, hmod⟩ := h
  unfold sized
  rcases width_cases hmem with hw | hw | hw | hw
  · simp [hw]
  · rw [hw] at hmod
    simp [hw, hmod]
  · rw [hw] at hmod
    simp [hw, and_three_eq, hmod]
  · rw [hw] at hmod
    simp [hw, and_seven_eq, hmod]

theorem sized_of_not_aligned (h : ¬ Aligned off iocmd.datasize.toNat) :
    ∃ e, sized iocmd k off access = refuse iocmd k e := by
  unfold sized
  split
  · next hw =>
      rw [hw] at h
      exact absurd ⟨by decide, Nat.mod_one off⟩ h
  · next hw =>
      rw [hw] at h
      rw [and_one_eq, if_pos fun hmod => h ⟨by decide, hmod⟩]
      exact ⟨_, rfl⟩
  · next hw =>
      rw [hw] at h
      rw [and_three_eq, if_pos fun hmod => h ⟨by decide, hmod⟩]
      exact ⟨_, rfl⟩
  · next hw =>
      rw [hw] at h
      rw [and_seven_eq, if_pos fun hmod => h ⟨by decide, hmod⟩]
      exact ⟨_, rfl⟩
  · exact ⟨_, rfl⟩

end Sized

/-! ## What an access does -/

section Transfer

/-- One access of this width. -/
def transfer (iocmd : RrIocmd) (k : Machine Region) (cmd : RrCmd) (r : Region) (off width : ℕ) :
    IocmdOut :=
  match cmd with
  | .rrRead => fetch iocmd k r off width
  | .rrWrite => deposit iocmd k r off width

/-- What each of the helpers does, once the area is known. -/
def attempt (dev : Areas) (iocmd : RrIocmd) (k : Machine Region) (cmd : RrCmd) (size : ℕ)
    (r : Region) : Option IocmdOut :=
  if rrGetOff iocmd.address.toNat ≥ size then refuse iocmd k .enomedium
  else
    sized iocmd k (rrGetOff iocmd.address.toNat) fun width =>
      if reachable dev r then
        some (transfer iocmd k cmd r (rrGetOff iocmd.address.toNat) width)
      else none

theorem rrDoBar_eq {bar : Fin 3} {r : Resource} {access : Fin 3 → ℕ → ℕ → Option IocmdOut}
    (hbar : rrGetBar iocmd.address.toNat = 2 * bar) (hr : dev.area bar = some r) :
    rrDoBar dev iocmd k access =
      if rrGetOff iocmd.address.toNat ≥ r.length then refuse iocmd k .enomedium
      else
        sized iocmd k (rrGetOff iocmd.address.toNat)
          (access bar (rrGetOff iocmd.address.toNat)) := by
  unfold rrDoBar
  rw [(barIndex_even hbar).1, Option.bind_eq_bind, Option.bind_some, hr, Option.bind_eq_bind,
    Option.bind_some, r.size_eq]

/-- The two halves of a 64-bit access to the ports are one access. -/
theorem two_port_reads (bar : Fin 3) (off : ℕ) :
    (⟨.ok 0,
      iocmd.setMember (k.mem.load (.port bar) off 4 ++ k.mem.load (.port bar) (off + 4) 4),
      (k.read (.port bar) off 4).read (.port bar) (off + 4) 4⟩ : IocmdOut) =
      fetch iocmd k (.port bar) off 8 := by
  rw [fetch, ← Memory.load_add, Machine.read_add]

theorem two_port_writes (bar : Fin 3) (off : ℕ) :
    (⟨.ok 0, iocmd, (k.write (.port bar) off ((iocmd.member 8).take 4)).write (.port bar) (off + 4)
      ((iocmd.member 8).drop 4)⟩ : IocmdOut) = deposit iocmd k (.port bar) off 8 := by
  have hlow : ((iocmd.member 8).take 4).length = 4 := by
    rw [List.length_take_of_le]
    rw [iocmd.length_member le_rfl]
    decide
  have happend := k.write_append (.port bar) off ((iocmd.member 8).take 4) ((iocmd.member 8).drop 4)
  rw [hlow, List.take_append_drop] at happend
  rw [deposit, happend]

variable (k cmd) in
theorem rrDoMem_eq {bar : Fin 3} {r : Resource}
    (hbar : rrGetBar iocmd.address.toNat = 2 * bar) (hr : dev.area bar = some r) :
    (match cmd with
      | .rrRead => rrDoReadMem dev iocmd k
      | .rrWrite => rrDoWriteMem dev iocmd k) = attempt dev iocmd k cmd r.length (.mem bar) := by
  cases cmd with
  | rrRead => exact rrDoBar_eq hbar hr
  | rrWrite => exact rrDoBar_eq hbar hr

variable (k cmd) in
theorem rrDoIo_eq {bar : Fin 3} {r : Resource}
    (hbar : rrGetBar iocmd.address.toNat = 2 * bar) (hr : dev.area bar = some r) :
    (match cmd with
      | .rrRead => rrDoReadIo dev iocmd k
      | .rrWrite => rrDoWriteIo dev iocmd k) = attempt dev iocmd k cmd r.length (.port bar) := by
  have hreach : reachable dev (.port bar) = true := rfl
  cases cmd with
  | rrRead =>
      simp only [rrDoReadIo, rrDoBar_eq hbar hr, attempt, hreach, if_true, two_port_reads, transfer]
      congr 2
      funext width
      split <;> simp_all
  | rrWrite =>
      simp only [rrDoWriteIo, rrDoBar_eq hbar hr, attempt, hreach, if_true, two_port_writes,
        transfer]
      congr 2
      funext width
      split <;> simp_all

theorem rrDoIocmd_invalid (hcode : rrGetBar iocmd.address.toNat ∉ [0, 2, 4, 12]) :
    rrDoIocmd dev iocmd k rrBufsize cmd = refuse iocmd k .einval := by
  rw [← barCode_of_lt iocmd.address.isLt (m := m), ← rrIsValidBar_iff] at hcode
  unfold rrDoIocmd
  rw [if_pos (by simp [hcode])]

theorem rrDoIocmd_dmabuf (hcode : rrGetBar iocmd.address.toNat = 12) :
    rrDoIocmd dev iocmd k rrBufsize cmd = attempt dev iocmd k cmd rrBufsize.val .dmabuf := by
  rw [← barCode_of_lt iocmd.address.isLt (m := m)] at hcode
  have hvalid : rrIsValidBar m iocmd.address.toNat = true := by
    rw [rrIsValidBar_iff, hcode]
    decide
  have hbuf := (rrIsDmabufBar_iff m iocmd.address.toNat).mpr hcode
  unfold rrDoIocmd
  rw [if_neg (by simp [hvalid]), if_pos hbuf]
  cases cmd <;> rfl

theorem rrDoIocmd_bar {bar : Fin 3} (hbar : rrGetBar iocmd.address.toNat = 2 * bar) :
    rrDoIocmd dev iocmd k rrBufsize cmd =
      match dev.area bar with
      | none => refuse iocmd k .enodev
      | some r =>
          if r.ioresourceMem then attempt dev iocmd k cmd r.length (.mem bar)
          else if r.ioresourceIo then attempt dev iocmd k cmd r.length (.port bar)
          else refuse iocmd k .eio := by
  have hcode : barCode m iocmd.address.toNat = 2 * bar := by
    rw [barCode_of_lt iocmd.address.isLt, hbar]
  have hvalid : rrIsValidBar m iocmd.address.toNat = true := by
    rw [rrIsValidBar_iff, hcode]
    exact two_mul_mem bar
  have hbuf : ¬ rrIsDmabufBar m iocmd.address.toNat = true := by
    rw [rrIsDmabufBar_iff, hcode]
    omega
  unfold rrDoIocmd
  rw [if_neg (by simp [hvalid]), if_neg hbuf, (barIndex_even hbar).2, Option.bind_eq_bind,
    Option.bind_some]
  cases hr : dev.area bar with
  | none => rfl
  | some r =>
      have hmem := rrDoMem_eq k cmd hbar hr
      have hio := rrDoIo_eq k cmd hbar hr
      exact if_congr Iff.rfl hmem (if_congr Iff.rfl hio rfl)

variable (rrBufsize dev k iocmd cmd) in
/-- **What `rr_do_iocmd` does**: an error where the address names no area, else an access to this
area within the checks of the helpers. -/
theorem rrDoIocmd_eq :
    (namedArea dev iocmd.address.toNat = none ∧
        ∃ e, rrDoIocmd dev iocmd k rrBufsize cmd = refuse iocmd k e) ∨
      ∃ r, namedArea dev iocmd.address.toNat = some r ∧
        rrDoIocmd dev iocmd k rrBufsize cmd =
          attempt dev iocmd k cmd (areaSize rrBufsize dev r) r := by
  by_cases hvalid : rrGetBar iocmd.address.toNat ∈ [0, 2, 4, 12]
  · by_cases hdma : rrGetBar iocmd.address.toNat = 12
    · exact .inr ⟨.dmabuf, by simp [namedArea, hdma], rrDoIocmd_dmabuf hdma⟩
    · obtain ⟨bar, hbar⟩ := exists_bar_index hvalid hdma
      rw [rrDoIocmd_bar hbar, namedArea_even hbar, barRegion]
      cases hr : dev.area bar with
      | none => exact .inl ⟨rfl, _, rfl⟩
      | some r =>
          have hsize : ((dev.area bar).map Resource.length).getD 0 = r.length := by
            rw [hr]
            rfl
          by_cases hmem : r.ioresourceMem = true
          · right
            refine ⟨.mem bar, by simp [hmem], ?_⟩
            simp only [hmem, if_true, areaSize, hsize]
          · by_cases hio : r.ioresourceIo = true
            · right
              refine ⟨.port bar, by simp [hmem, hio], ?_⟩
              simp only [hmem, hio, if_true, areaSize, hsize, if_false, Bool.false_eq_true]
            · left
              refine ⟨by simp [hmem, hio], .eio, ?_⟩
              simp [hmem, hio]
  · exact .inl ⟨namedArea_invalid hvalid, .einval, rrDoIocmd_invalid hvalid⟩

end Transfer

/-! ## Whether the access stays inside the area -/

section Containment

variable (rrBufsize dev k iocmd cmd)

/-- The checks of the helpers pass. -/
structure LetThrough (r : Region) : Prop where
  named : namedArea dev iocmd.address.toNat = some r
  off_lt : rrGetOff iocmd.address.toNat < areaSize rrBufsize dev r
  aligned : Aligned (rrGetOff iocmd.address.toNat) iocmd.datasize.toNat

/-- An access that succeeds touches bytes of the data size from the offset on, and all of these
belong to the area; one that fails touches nothing. -/
def Contained (out : IocmdOut) : Prop :=
  (out.ret = .ok 0 ∧ ∃ r new, namedArea dev iocmd.address.toNat = some r ∧
    out.kern.touched = k.touched ++ new ∧
    (∀ t ∈ new, t.1 = r ∧ rrGetOff iocmd.address.toNat ≤ t.2 ∧
      t.2 < rrGetOff iocmd.address.toNat + iocmd.datasize.toNat) ∧
    rrGetOff iocmd.address.toNat + iocmd.datasize.toNat ≤ areaSize rrBufsize dev r) ∨
  (∃ e, out.ret = .error e) ∧ out.kern = k

variable {rrBufsize dev k iocmd cmd}

theorem transfer_ret {r : Region} {off width : ℕ} :
    (transfer iocmd k cmd r off width).ret = .ok 0 := by
  cases cmd <;> rfl

theorem transfer_touched {r : Region} {off width : ℕ} (hwidth : width ≤ 8) :
    (transfer iocmd k cmd r off width).kern.touched = k.touched ++ span r off width := by
  cases cmd with
  | rrRead => rfl
  | rrWrite =>
      have hlength := iocmd.length_member hwidth
      simp only [transfer, deposit, Machine.touched_write, hlength]

/-- The checks decide between an access and an error. -/
theorem rrDoIocmd_letThrough {r : Region} (h : LetThrough rrBufsize dev iocmd r) :
    rrDoIocmd dev iocmd k rrBufsize cmd =
      if reachable dev r then
        some (transfer iocmd k cmd r (rrGetOff iocmd.address.toNat) iocmd.datasize.toNat)
      else none := by
  obtain ⟨hnamed, hoff, haligned⟩ := h
  rcases rrDoIocmd_eq rrBufsize dev k iocmd cmd with ⟨hnone, -⟩ | ⟨r', hr', heq⟩
  · rw [hnamed] at hnone
    cases hnone
  · rw [hnamed] at hr'
    cases hr'
    rw [heq, attempt, if_neg (by omega), sized_of_aligned haligned]

variable (k cmd) in
theorem rrDoIocmd_refused (h : ¬ ∃ r, LetThrough rrBufsize dev iocmd r) :
    ∃ e, rrDoIocmd dev iocmd k rrBufsize cmd = refuse iocmd k e := by
  rcases rrDoIocmd_eq rrBufsize dev k iocmd cmd with ⟨-, hrefused⟩ | ⟨r, hr, heq⟩
  · exact hrefused
  · rw [heq, attempt]
    by_cases hoff : rrGetOff iocmd.address.toNat ≥ areaSize rrBufsize dev r
    · rw [if_pos hoff]
      exact ⟨_, rfl⟩
    · rw [if_neg hoff]
      apply sized_of_not_aligned
      exact fun haligned => h ⟨r, hr, by omega, haligned⟩

variable (k cmd) in
/-- An access that is let through is contained if and only if its last byte is. -/
theorem contained_transfer_iff {r : Region} (h : LetThrough rrBufsize dev iocmd r) :
    Contained rrBufsize dev k iocmd
        (transfer iocmd k cmd r (rrGetOff iocmd.address.toNat) iocmd.datasize.toNat) ↔
      rrGetOff iocmd.address.toNat + iocmd.datasize.toNat ≤ areaSize rrBufsize dev r := by
  constructor
  · rintro (⟨-, r', -, hr', -, -, hle⟩ | ⟨⟨e, he⟩, -⟩)
    · rw [h.named] at hr'
      cases hr'
      exact hle
    · rw [transfer_ret] at he
      cases he
  · intro hle
    refine .inl ⟨transfer_ret, r, _, h.named, transfer_touched h.aligned.le, fun t ht => ?_, hle⟩
    exact mem_span.mp ht

end Containment

/-- **The accesses that stay inside their area.**  The driver keeps every access within the area
that it names, or refuses it untouched, if and only if an access that passes its checks ends
inside the area and has a mapping to go through. -/
theorem iocmd_contained_iff (rrBufsize : Bufsize m) (dev : Areas) (k : Machine Region)
    (iocmd : RrIocmd) (cmd : RrCmd) :
    (∃ out, rrDoIocmd dev iocmd k rrBufsize cmd = some out ∧
        Contained rrBufsize dev k iocmd out) ↔
      ∀ r, LetThrough rrBufsize dev iocmd r →
        rrGetOff iocmd.address.toNat + iocmd.datasize.toNat ≤ areaSize rrBufsize dev r ∧
          reachable dev r = true := by
  constructor
  · rintro ⟨out, hout, hcontained⟩ r h
    rw [rrDoIocmd_letThrough h] at hout
    split at hout
    · next hreach =>
        injection hout with hout
        rw [← hout] at hcontained
        exact ⟨(contained_transfer_iff k cmd h).mp hcontained, hreach⟩
    · cases hout
  · intro hfits
    by_cases hlet : ∃ r, LetThrough rrBufsize dev iocmd r
    · obtain ⟨r, h⟩ := hlet
      obtain ⟨hle, hreach⟩ := hfits r h
      refine ⟨_, ?_, (contained_transfer_iff k cmd h).mpr hle⟩
      rw [rrDoIocmd_letThrough h, if_pos hreach]
    · obtain ⟨e, he⟩ := rrDoIocmd_refused k cmd hlet
      exact ⟨_, he, .inr ⟨⟨e, rfl⟩, rfl⟩⟩

/-- A buffer of 1001 bytes, with one byte behind the last multiple of 4. -/
def oddBuffer : Bufsize .lp64 := ⟨1001, by decide, by decide⟩

/-- `RR_READ` of 4 bytes at offset 1000 of the DMA buffer. -/
def lastWord : RrIocmd := ⟨0xc00003e8#32, 4#32, List.replicate 8 0, length_zeroData⟩

theorem lastWord_letThrough : LetThrough oddBuffer smallDevice lastWord .dmabuf where
  named := by decide
  off_lt := by decide
  aligned := by unfold Aligned; decide

/-- Three bytes behind the end of the buffer are read. -/
theorem lastWord_not_contained :
    ¬ ∃ out, rrDoIocmd smallDevice lastWord ⟨fun _ _ => 0, []⟩ oddBuffer .rrRead = some out ∧
      Contained oddBuffer smallDevice ⟨fun _ _ => 0, []⟩ lastWord out := by
  rintro ⟨out, hout, hcontained⟩
  rw [rrDoIocmd_letThrough lastWord_letThrough] at hout
  injection hout with hout
  rw [← hout, contained_transfer_iff _ _ lastWord_letThrough] at hcontained
  exact absurd hcontained (by decide)

end Rawrabbit

end Gn4124Core
