import Gn4124Core.Rawrabbit.IoctlAccess

/-!
# File access and ioctl access

The two paths decode an address with the same macros, at different widths.  Of a file position
above 32 bits `rr_is_valid_bar` sees only a part of the BAR number, and everything from
`RR_BAR_BUF` on counts as the DMA buffer.  Below, the paths reach the same bytes, except that
`rr_read` and `rr_write` keep the size of an area in an `int`.

The theorem has two parts, and so has its proof.  `selectsByCode_iff` tells the positions that
are taken for an area that they do not name (`rrRead_of_aliased`).  For all others the ioctl
names the area that the position selects (`namedArea_of_selected`), and the two accesses are
compared there: the ioctl moves the bytes of its width (`rrDoIocmd_selected`), and so does the
file access if the access ends within the size that it has (`rrRead_within`, `rrWrite_within`),
while otherwise it is cut (`rrRead_cut`).  Paths that read and write the same bytes exchange them
(`exchanged_of_same`).
-/

namespace Gn4124Core

open CLang

namespace Rawrabbit

/-! ## What the two paths have in common -/

section Specification

variable {m : DataModel} (rrBufsize : Bufsize m) (dev : Areas) (pos width : ℕ)

/-- A position that names none of the four areas selects none. -/
def SelectsByCode : Prop :=
  rrGetBar pos ∉ [0, 2, 4, 12] → ∀ k avail buf,
    rrRead m rrBufsize dev k pos avail width = some (noTransfer k pos (.error .einval)) ∧
      rrWrite m rrBufsize dev k pos buf width = some (noTransfer k pos (.error .einval))

/-- The command for the same address and width. -/
def SameCommand (iocmd : RrIocmd) : Prop :=
  iocmd.address.toNat = pos ∧ iocmd.datasize.toNat = width

/-- Both paths read these bytes. -/
def SameReads (r : Region) : Prop :=
  ∀ k avail iocmd, width ≤ avail → SameCommand pos width iocmd →
    ∃ out o, rrRead m rrBufsize dev k pos avail width = some out ∧
      rrDoIocmd dev iocmd k rrBufsize .rrRead = some o ∧
      (out.ret = .ok width ∧ o.ret = .ok 0) ∧
      (out.user = k.mem.load r (rrGetOff pos) width ∧
        o.iocmd.member width = k.mem.load r (rrGetOff pos) width) ∧
      out.kern = k.read r (rrGetOff pos) width ∧ o.kern = k.read r (rrGetOff pos) width

/-- Both paths write these bytes. -/
def SameWrites (r : Region) : Prop :=
  ∀ k buf iocmd, width ≤ buf.length → SameCommand pos width iocmd →
    ∃ out o, rrWrite m rrBufsize dev k pos buf width = some out ∧
      rrDoIocmd dev iocmd k rrBufsize .rrWrite = some o ∧
      (out.ret = .ok width ∧ o.ret = .ok 0) ∧
      out.kern = k.write r (rrGetOff pos) (buf.take width) ∧
      o.kern = k.write r (rrGetOff pos) (iocmd.member width)

/-- What was written by one path is read by the other. -/
def Exchanged : Prop :=
  (∀ k buf iocmd, width ≤ buf.length → SameCommand pos width iocmd →
    ∃ out o, rrWrite m rrBufsize dev k pos buf width = some out ∧
      rrDoIocmd dev iocmd out.kern rrBufsize .rrRead = some o ∧
      o.iocmd.member width = buf.take width) ∧
  ∀ k avail iocmd, width ≤ avail → SameCommand pos width iocmd →
    ∃ o out, rrDoIocmd dev iocmd k rrBufsize .rrWrite = some o ∧
      rrRead m rrBufsize dev o.kern pos avail width = some out ∧
      out.user = iocmd.member width

/-- File access and ioctl access at this position name the same registers. -/
def SameRegisters : Prop :=
  SelectsByCode rrBufsize dev pos width ∧
    (pos < 2 ^ 32 → ∀ r, selected m dev pos = some r →
      rrGetOff pos + width ≤ areaSize rrBufsize dev r →
        SameReads rrBufsize dev pos width r ∧ SameWrites rrBufsize dev pos width r ∧
          Exchanged rrBufsize dev pos width)

/-- The last byte belongs to the area also where its size is an `int`. -/
def EndsWithinInt : Prop :=
  ∀ bar r, selected m dev pos = some (.mem bar) → dev.area bar = some r →
    rrGetOff pos + width ≤ r.length → (rrGetOff pos + width : ℤ) ≤ r.intSize

end Specification

variable {m : DataModel} {rrBufsize : Bufsize m} {dev : Areas} {k : Machine Region}
variable {pos width : ℕ} {iocmd : RrIocmd}

/-! ## Which positions select an area -/

theorem rrIsValidBar_eq_false (hcode : barCode m pos ∉ [0, 2, 4, 12]) :
    rrIsValidBar m pos = false := by
  rw [← Bool.not_eq_true, rrIsValidBar_iff]
  exact hcode

/-- The BAR number that the check sees is another one only above 32 bits. -/
theorem rrIsDmabuf_of_aliased (hcode : rrGetBar pos ∉ [0, 2, 4, 12])
    (halias : barCode m pos ∈ [0, 2, 4, 12]) : rrIsDmabuf pos = true := by
  have hge : 2 ^ 32 ≤ pos := by
    by_contra hlt
    rw [barCode_of_lt (by omega)] at halias
    exact hcode halias
  exact (rrIsDmabuf_eq pos).mpr (by omega)

/-- Such a position is taken for one of the DMA buffer, and is no invalid argument. -/
theorem rrRead_of_aliased (hcode : rrGetBar pos ∉ [0, 2, 4, 12])
    (halias : barCode m pos ∈ [0, 2, 4, 12]) (avail count : ℕ) :
    rrRead m rrBufsize dev k pos avail count ≠ some (noTransfer k pos (.error .einval)) := by
  have hvalid := (rrIsValidBar_iff m pos).mpr halias
  rw [rrRead_dmabuf rrBufsize dev k _ _ hvalid (rrIsDmabuf_of_aliased hcode halias)]
  intro heq
  split at heq
  · injection heq with heq
    have hret := congrArg FileOut.ret heq
    simp [noTransfer] at hret
  · injection heq with heq
    have hret := congrArg FileOut.ret heq
    rcases copyToUser_readsUpTo m k pos avail (clipBuf m rrBufsize (rrGetOff pos) count)
      (rrGetOff pos) .dmabuf with ⟨herr, -, -⟩ | hok
    · rw [herr] at hret
      simp [noTransfer] at hret
    · rw [hok] at hret
      simp [noTransfer, transferred] at hret

theorem selectsByCode_iff :
    SelectsByCode rrBufsize dev pos width ↔
      (barCode m pos ∈ [0, 2, 4, 12] → rrGetBar pos ∈ [0, 2, 4, 12]) := by
  constructor
  · intro h halias
    by_contra hcode
    exact rrRead_of_aliased hcode halias 0 width (h hcode ⟨fun _ _ => 0, []⟩ 0 []).1
  · intro h hcode k avail buf
    have hvalid : rrIsValidBar m pos = false := rrIsValidBar_eq_false fun halias => hcode (h halias)
    exact ⟨rrRead_invalid rrBufsize dev k hvalid, rrWrite_invalid rrBufsize dev k hvalid⟩

/-! ## The selected area -/

/-- The two ways of `selected` to an area. -/
theorem selected_cases {r : Region} (h : selected m dev pos = some r) :
    (rrIsValidBar m pos = true ∧ rrIsDmabuf pos = true ∧ r = .dmabuf) ∨
      ∃ bar res, rrIsValidBar m pos = true ∧ rrIsDmabuf pos = false ∧ r = .mem bar ∧
        barIndex (toInt (rrGetBar pos / 2)) = some bar ∧ rrGetBar pos = 2 * bar ∧
        dev.remap bar = true ∧ dev.area bar = some res ∧ res.ioresourceMem = true := by
  cases hvalid : rrIsValidBar m pos with
  | false => simp [selected, hvalid] at h
  | true =>
      cases hbuf : rrIsDmabuf pos with
      | true =>
          rw [selected_dmabuf hvalid hbuf] at h
          injection h with h
          exact .inl ⟨rfl, rfl, h.symm⟩
      | false =>
          right
          obtain ⟨bar, hindex, hbar⟩ := barIndex_of_valid hvalid hbuf
          cases hremap : dev.remap bar with
          | false => simp [selected, hvalid, hbuf, hindex, hremap] at h
          | true =>
              rw [selected_mem hvalid hbuf hindex hremap] at h
              injection h with h
              obtain ⟨res, hres, hmem⟩ := dev.mapped bar hremap
              exact ⟨bar, res, rfl, rfl, h.symm, hindex, hbar, hremap, hres, hmem⟩

/-- Below 32 bits the ioctl names the area that the position selects, and can reach it. -/
theorem namedArea_of_selected {r : Region} (hlt : pos < 2 ^ 32)
    (h : selected m dev pos = some r) :
    namedArea dev pos = some r ∧ reachable dev r = true := by
  rcases selected_cases h with ⟨hvalid, hbuf, rfl⟩ |
    ⟨bar, res, -, -, rfl, -, hbar, hremap, hres, hmem⟩
  · rw [rrIsValidBar_iff, barCode_of_lt hlt] at hvalid
    rw [rrIsDmabuf_eq] at hbuf
    have hbar : rrGetBar pos = 12 := by
      have hge : 12 ≤ rrGetBar pos := by
        rw [rrGetBar_eq]
        omega
      have hcases := barNumber_cases hvalid
      omega
    exact ⟨by simp [namedArea, hbar], rfl⟩
  · refine ⟨?_, hremap⟩
    rw [namedArea_even hbar, barRegion, hres]
    simp [hmem]

/-- The position's multiples of a width are the offset's. -/
theorem Aligned.off (h : Aligned pos width) : Aligned (rrGetOff pos) width := by
  obtain ⟨hmem, hmod⟩ := h
  refine ⟨hmem, ?_⟩
  have hdvd : width ∣ 2 ^ 28 := by
    rcases width_cases hmem with rfl | rfl | rfl | rfl
    · exact one_dvd _
    · exact ⟨2 ^ 27, by decide⟩
    · exact ⟨2 ^ 26, by decide⟩
    · exact ⟨2 ^ 25, by decide⟩
  rw [rrGetOff_eq, Nat.mod_mod_of_dvd _ hdvd, hmod]

theorem letThrough_of_selected {r : Region} (hlt : pos < 2 ^ 32) (haligned : Aligned pos width)
    (h : selected m dev pos = some r) (hends : rrGetOff pos + width ≤ areaSize rrBufsize dev r)
    (hcommand : SameCommand pos width iocmd) : LetThrough rrBufsize dev iocmd r := by
  obtain ⟨haddress, hwidth⟩ := hcommand
  have hpositive := haligned.width_pos
  refine ⟨?_, ?_, ?_⟩
  · rw [haddress]
    exact (namedArea_of_selected hlt h).1
  · rw [haddress]
    omega
  · rw [haddress, hwidth]
    exact haligned.off

/-! ## File accesses of one width -/

section Widths

variable {avail off : ℕ} {r : Region} {buf : List Byte}

theorem width_lt (m : DataModel) (hle : width ≤ 8) : width < 2 ^ (m.longBits - 1) := by
  have hbits : 2 ^ 31 ≤ 2 ^ (m.longBits - 1) := by cases m <;> decide
  omega

theorem transferred_ret (hle : width ≤ 8) {user : List Byte} {kern : Machine Region} :
    (transferred m pos width user kern).ret = .ok width := by
  rw [transferred, toLong_natCast (width_lt m hle)]

theorem sizedRead_width (hwidth : width ∈ [1, 2, 4, 8]) (havail : width ≤ avail) :
    sizedRead m k pos avail r off width =
      transferred m pos width (k.mem.load r off width) (k.read r off width) := by
  rcases width_cases hwidth with rfl | rfl | rfl | rfl
  · exact if_pos havail
  · exact if_pos havail
  · exact if_pos havail
  · exact if_pos havail

theorem sizedWrite_width (hwidth : width ∈ [1, 2, 4, 8]) (hbuf : width ≤ buf.length) :
    sizedWrite m k pos buf r off width =
      transferred m pos width [] (k.write r off (buf.take width)) := by
  rcases width_cases hwidth with rfl | rfl | rfl | rfl
  · exact if_pos hbuf
  · exact if_pos hbuf
  · exact if_pos hbuf
  · exact if_pos hbuf

/-- An `int` size that the access ends within is a number that nothing is clipped to. -/
theorem clipArea_within {size : ℤ} (hint : size < 2 ^ 31) (hle : width ≤ 8)
    (hpositive : 0 < width) (hends : (off + width : ℤ) ≤ size) :
    clipArea m size off width = width := by
  lift size to ℕ using by omega
  rw [clipArea_eq m (by omega) (by omega) (width_lt m hle)]
  omega

theorem clipBuf_within (hle : width ≤ 8) (hpositive : 0 < width)
    (hends : off + width ≤ rrBufsize.val) : clipBuf m rrBufsize off width = width := by
  rw [clipBuf_eq (by omega) (width_lt m hle)]
  omega

/-- An access within the selected area is transferred as a whole. -/
theorem rrRead_within (haligned : Aligned pos width) (hint : EndsWithinInt (m := m) dev pos width)
    (h : selected m dev pos = some r) (hends : rrGetOff pos + width ≤ areaSize rrBufsize dev r)
    (havail : width ≤ avail) :
    rrRead m rrBufsize dev k pos avail width =
      some (transferred m pos width (k.mem.load r (rrGetOff pos) width)
        (k.read r (rrGetOff pos) width)) := by
  have hpositive := haligned.width_pos
  rcases selected_cases h with ⟨hvalid, hbuf, rfl⟩ |
    ⟨bar, res, hvalid, hbuf, rfl, hindex, -, hremap, hres, -⟩
  · have hends : rrGetOff pos + width ≤ rrBufsize.val := hends
    rw [rrRead_dmabuf rrBufsize dev k _ _ hvalid hbuf, if_neg (by omega),
      clipBuf_within haligned.le hpositive hends, copyToUser, if_pos havail]
  · rw [areaSize_mem rrBufsize hres] at hends
    have hsize := hint bar res h hres hends
    have hlt : res.intSize < 2 ^ 31 := toInt_lt _
    rw [rrRead_mem rrBufsize dev k _ _ hvalid hbuf hindex hremap hres, if_neg (by omega),
      clipArea_within hlt haligned.le hpositive hsize, sizedRead_width haligned.1 havail]

theorem rrWrite_within (haligned : Aligned pos width) (hint : EndsWithinInt (m := m) dev pos width)
    (h : selected m dev pos = some r) (hends : rrGetOff pos + width ≤ areaSize rrBufsize dev r)
    (hlength : width ≤ buf.length) :
    rrWrite m rrBufsize dev k pos buf width =
      some (transferred m pos width [] (k.write r (rrGetOff pos) (buf.take width))) := by
  have hpositive := haligned.width_pos
  rcases selected_cases h with ⟨hvalid, hbuf, rfl⟩ |
    ⟨bar, res, hvalid, hbuf, rfl, hindex, -, hremap, hres, -⟩
  · have hends : rrGetOff pos + width ≤ rrBufsize.val := hends
    rw [rrWrite_dmabuf rrBufsize dev k _ _ hvalid hbuf, if_neg (by omega),
      clipBuf_within haligned.le hpositive hends, copyFromUser, if_pos hlength]
  · rw [areaSize_mem rrBufsize hres] at hends
    have hsize := hint bar res h hres hends
    have hlt : res.intSize < 2 ^ 31 := toInt_lt _
    rw [rrWrite_mem rrBufsize dev k _ _ hvalid hbuf hindex hremap hres, if_neg (by omega),
      clipArea_within hlt haligned.le hpositive hsize, sizedWrite_width haligned.1 hlength]

variable (rrBufsize k avail) in
/-- Where the size is cut to an `int` in front of the end of the access, less is returned. -/
theorem rrRead_cut {bar : Fin 3} {res : Resource} (hle : width ≤ 8) (hpositive : 0 < width)
    (h : selected m dev pos = some (.mem bar)) (hres : dev.area bar = some res)
    (hcut : res.intSize < rrGetOff pos + width) :
    ∃ out, rrRead m rrBufsize dev k pos avail width = some out ∧ out.ret ≠ .ok width := by
  rcases selected_cases h with ⟨-, -, hr⟩ |
    ⟨bar', res', hvalid, hbuf, hr, hindex, -, hremap, hres', -⟩
  · cases hr
  · cases hr
    rw [hres] at hres'
    cases hres'
    rw [rrRead_mem rrBufsize dev k _ _ hvalid hbuf hindex hremap hres]
    by_cases hend : (rrGetOff pos : ℤ) ≥ res.intSize
    · rw [if_pos hend]
      exact ⟨_, rfl, by simp [noTransfer]⟩
    · rw [if_neg hend]
      refine ⟨_, rfl, ?_⟩
      obtain ⟨size, hsize⟩ : ∃ size : ℕ, res.intSize = size := ⟨res.intSize.toNat, by omega⟩
      have hlt : res.intSize < 2 ^ 31 := toInt_lt _
      rw [hsize] at hend hcut hlt
      rw [hsize, clipArea_eq m (by omega) (by omega) (width_lt m hle)]
      generalize hn : min width (size - rrGetOff pos) = n
      have hshort : n < width := by omega
      rcases sizedRead_readsUpTo m k pos avail n (rrGetOff pos) (.mem bar) with ⟨herr, -, -⟩ | hok
      · rw [herr]
        simp
      · rw [hok, transferred_ret (by omega)]
        intro heq
        injection heq with heq
        omega

end Widths

/-! ## The two paths -/

section Paths

variable {r : Region}

theorem rrDoIocmd_selected (hlt : pos < 2 ^ 32) (haligned : Aligned pos width)
    (h : selected m dev pos = some r) (hends : rrGetOff pos + width ≤ areaSize rrBufsize dev r)
    (hcommand : SameCommand pos width iocmd) (cmd : RrCmd) :
    rrDoIocmd dev iocmd k rrBufsize cmd =
      some (transfer iocmd k cmd r (rrGetOff pos) width) := by
  have hreach := (namedArea_of_selected hlt h).2
  rw [rrDoIocmd_letThrough (letThrough_of_selected hlt haligned h hends hcommand), if_pos hreach,
    hcommand.1, hcommand.2]

theorem sameReads (hlt : pos < 2 ^ 32) (haligned : Aligned pos width)
    (hint : EndsWithinInt (m := m) dev pos width) (h : selected m dev pos = some r)
    (hends : rrGetOff pos + width ≤ areaSize rrBufsize dev r) :
    SameReads rrBufsize dev pos width r := by
  intro k avail iocmd havail hcommand
  refine ⟨_, _, rrRead_within haligned hint h hends havail,
    rrDoIocmd_selected hlt haligned h hends hcommand .rrRead,
    ⟨transferred_ret haligned.le, rfl⟩, ⟨rfl, ?_⟩, rfl, rfl⟩
  have hlength : (k.mem.load r (rrGetOff pos) width).length ≤ 8 := by
    rw [Memory.length_load]
    exact haligned.le
  have hmember := iocmd.member_setMember hlength
  rwa [Memory.length_load] at hmember

theorem sameWrites (hlt : pos < 2 ^ 32) (haligned : Aligned pos width)
    (hint : EndsWithinInt (m := m) dev pos width) (h : selected m dev pos = some r)
    (hends : rrGetOff pos + width ≤ areaSize rrBufsize dev r) :
    SameWrites rrBufsize dev pos width r := by
  intro k buf iocmd hbuf hcommand
  exact ⟨_, _, rrWrite_within haligned hint h hends hbuf,
    rrDoIocmd_selected hlt haligned h hends hcommand .rrWrite,
    ⟨transferred_ret haligned.le, rfl⟩, rfl, rfl⟩

/-- Two paths that read and write the same bytes exchange them. -/
theorem exchanged_of_same (hle : width ≤ 8) (hreads : SameReads rrBufsize dev pos width r)
    (hwrites : SameWrites rrBufsize dev pos width r) : Exchanged rrBufsize dev pos width := by
  constructor
  · intro k buf iocmd hbuf hcommand
    obtain ⟨out, -, hout, -, -, hkern, -⟩ := hwrites k buf iocmd hbuf hcommand
    obtain ⟨-, o, -, ho, -, ⟨-, hmember⟩, -⟩ := hreads out.kern width iocmd le_rfl hcommand
    refine ⟨out, o, hout, ho, ?_⟩
    have hstored := Memory.load_store k.mem r (rrGetOff pos) (buf.take width)
    rw [List.length_take_of_le hbuf] at hstored
    rw [hmember, hkern, Machine.mem_write, hstored]
  · intro k avail iocmd havail hcommand
    have hlength := iocmd.length_member hle
    obtain ⟨-, o, -, ho, -, -, hkern⟩ :=
      hwrites k (iocmd.member width) iocmd hlength.ge hcommand
    obtain ⟨out, -, hout, -, -, ⟨huser, -⟩, -⟩ := hreads o.kern avail iocmd havail hcommand
    refine ⟨o, out, ho, hout, ?_⟩
    have hstored := Memory.load_store k.mem r (rrGetOff pos) (iocmd.member width)
    rw [hlength] at hstored
    rw [huser, hkern, Machine.mem_write, hstored]

/-- A command for a position below 32 bits. -/
theorem exists_sameCommand (hlt : pos < 2 ^ 32) (hle : width ≤ 8) :
    ∃ iocmd, SameCommand pos width iocmd := by
  refine ⟨⟨BitVec.ofNat 32 pos, BitVec.ofNat 32 width, List.replicate 8 0, rfl⟩, ?_, ?_⟩
  · rw [BitVec.toNat_ofNat, Nat.mod_eq_of_lt hlt]
  · rw [BitVec.toNat_ofNat, Nat.mod_eq_of_lt (by omega)]

end Paths

/-- **When file access and ioctl access agree.**  At a position that is a multiple of the width,
the two paths name the same registers if and only if the position does not alias a valid BAR
number above 32 bits, and a memory area that contains the bytes contains them also with its size
as an `int`. -/
theorem same_registers_iff (rrBufsize : Bufsize m) (dev : Areas) (haligned : Aligned pos width) :
    SameRegisters rrBufsize dev pos width ↔
      (barCode m pos ∈ [0, 2, 4, 12] → rrGetBar pos ∈ [0, 2, 4, 12]) ∧
        (pos < 2 ^ 32 → EndsWithinInt (m := m) dev pos width) := by
  unfold SameRegisters
  rw [selectsByCode_iff]
  refine and_congr_right fun _ => ⟨?_, ?_⟩
  · intro hsame hlt bar res h hres hends
    by_contra hcut
    rw [← areaSize_mem rrBufsize hres] at hends
    obtain ⟨iocmd, hcommand⟩ := exists_sameCommand hlt haligned.le
    obtain ⟨out, -, hout, -, ⟨hret, -⟩, -⟩ :=
      (hsame hlt _ h hends).1 ⟨fun _ _ => 0, []⟩ width iocmd le_rfl hcommand
    obtain ⟨out', hout', hne⟩ := rrRead_cut rrBufsize ⟨fun _ _ => 0, []⟩ width haligned.le
      haligned.width_pos h hres (by omega)
    rw [hout] at hout'
    cases hout'
    exact hne hret
  · intro hint hlt r h hends
    have hreads := sameReads hlt haligned (hint hlt) h hends
    have hwrites := sameWrites hlt haligned (hint hlt) h hends
    exact ⟨hreads, hwrites, exchanged_of_same haligned.le hreads hwrites⟩

/-- The last word of the BAR. -/
theorem same_registers_lastWord : SameRegisters smallBuffer smallDevice 0xffc 4 := by
  refine (same_registers_iff smallBuffer smallDevice ⟨by decide, by decide⟩).mpr
    ⟨fun _ => by decide, fun _ bar r _ hr hends => ?_⟩
  rw [intSize_of_fit smallDevice_fitInt hr]
  exact_mod_cast hends

/-- Position `2 ^ 60` is taken for the beginning of the DMA buffer. -/
theorem aliased_position_not_same : ¬ SameRegisters smallBuffer smallDevice (2 ^ 60) 1 := by
  rintro ⟨hselects, -⟩
  rw [selectsByCode_iff] at hselects
  exact absurd (hselects (by decide)) (by decide)

end Rawrabbit

end Gn4124Core
