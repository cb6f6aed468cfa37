import Gn4124Core.Clocked.Run
import Gn4124Core.Rawrabbit.Driver

/-!
# `rr_read` and `rr_write` stay inside their area

The position selects an area and an offset in it.  A call either transfers nothing, or exactly
the bytes from the offset on, as many as were asked for or as there are up to the end of the
area.  The proof goes through the integer types: the sum of offset and count fits a `size_t`, the
sizes fit an `int`, and where the position is not one of the DMA buffer it has 32 bits, so that
the BAR is an index of the arrays.

The two calls are taken apart in the same way.

* The paths through a call (`rrRead_invalid` to `rrRead_mem`, and the same for a write) are its
  checks: each gives the call as a clipped count and a transfer, or as an error.
* The clipped count is the one that is claimed (`clipBuf_transferCount`,
  `clipArea_transferCount`).
* A transfer, whether by one access of its width or by a plain copy, moves the first bytes of
  what it was told to, and all of them if there is no fault (`ReadsUpTo`, `WritesUpTo`).

`rrRead_exact` and `rrWrite_exact` put these together.  Reading the DMA buffer to its end is a
run of calls with `Reader.InOrder` as its invariant.
-/

namespace Gn4124Core

open CLang Clocked

namespace Rawrabbit

/-! ## What a call may do -/

section Specification

/-- The area that a file position selects. -/
def selected (m : DataModel) (dev : Areas) (pos : ℕ) : Option Region :=
  if !rrIsValidBar m pos then none
  else if rrIsDmabuf pos then some .dmabuf
  else
    match barIndex (toInt (rrGetBar pos / 2)) with
    | some bar => if dev.remap bar then some (.mem bar) else none
    | none => none

variable {m : DataModel} (rrBufsize : Bufsize m) (dev : Areas) (k : Machine Region) (pos : ℕ)

/-- The bytes that belong to an area. -/
def areaSize : Region → ℕ
  | .dmabuf => rrBufsize.val
  | .mem bar | .port bar => ((dev.area bar).map Resource.length).getD 0

/-- Every byte that is touched belongs to the selected area. -/
def StaysInside (k' : Machine Region) : Prop :=
  ∃ new, k'.touched = k.touched ++ new ∧
    ∀ t ∈ new, selected m dev pos = some t.1 ∧ t.2 < areaSize rrBufsize dev t.1

/-- An error or 0 is returned, and the position is what it was. -/
def NoTransfer (out : FileOut) : Prop :=
  ((∃ e, out.ret = .error e) ∨ out.ret = .ok 0) ∧ out.offp = pos

/-- As many bytes as were asked for, or up to the end of the area. -/
def transferCount (r : Region) (count : ℕ) : ℕ :=
  min count (areaSize rrBufsize dev r - rrGetOff pos)

/-- The count of a transfer is returned, and the position advances by it. -/
structure Counted (r : Region) (count : ℕ) (out : FileOut) : Prop where
  selected : selected m dev pos = some r
  off_lt : rrGetOff pos < areaSize rrBufsize dev r
  ret : out.ret = .ok (transferCount rrBufsize dev pos r count)
  offp : out.offp = pos + transferCount rrBufsize dev pos r count

/-- Exactly the bytes from the offset on have been read, and the user has them. -/
def ReadsExactly (count : ℕ) (out : FileOut) : Prop :=
  ∃ r, Counted rrBufsize dev pos r count out ∧
    out.user = k.mem.load r (rrGetOff pos) (transferCount rrBufsize dev pos r count) ∧
    out.kern = k.read r (rrGetOff pos) (transferCount rrBufsize dev pos r count)

/-- Exactly the bytes from the offset on have been written, with those of the user. -/
def WritesExactly (buf : List Byte) (count : ℕ) (out : FileOut) : Prop :=
  ∃ r, Counted rrBufsize dev pos r count out ∧
    transferCount rrBufsize dev pos r count ≤ buf.length ∧
    out.kern =
      k.write r (rrGetOff pos) (buf.take (transferCount rrBufsize dev pos r count))

/-- The sizes of the areas fit an `int`. -/
def FitInt : Prop := ∀ bar r, dev.area bar = some r → r.length < 2 ^ 31

end Specification

variable {m : DataModel} {rrBufsize : Bufsize m} {dev : Areas} {k : Machine Region} {pos : ℕ}

/-! ## The selected area -/

theorem barIndex_natCast (bar : Fin 3) : barIndex (bar : ℕ) = some bar := by
  rw [barIndex, dif_pos (by omega)]
  rfl

/-- The index of a BAR with an even number, halved before or after the conversion. -/
theorem barIndex_even {address : ℕ} {bar : Fin 3} (hbar : rrGetBar address = 2 * bar) :
    barIndex (toInt (rrGetBar address / 2)) = some bar ∧
      barIndex (toInt (rrGetBar address) / 2) = some bar := by
  have hcode : toInt (rrGetBar address) = (2 * bar : ℕ) := by
    rw [hbar]
    exact toInt_natCast (by omega)
  have hhalf : (rrGetBar address / 2 : ℤ) = (bar : ℕ) := by omega
  have hindex : toInt (rrGetBar address / 2) = (bar : ℕ) := by
    rw [hhalf]
    exact toInt_natCast (by omega)
  have hhalf' : ((2 * bar : ℕ) / 2 : ℤ) = (bar : ℕ) := by omega
  rw [hindex, hcode, hhalf']
  exact ⟨barIndex_natCast bar, barIndex_natCast bar⟩

/-- What is not a position of the DMA buffer has one of the three indices. -/
theorem barIndex_of_valid (hvalid : rrIsValidBar m pos = true) (hbuf : rrIsDmabuf pos = false) :
    ∃ bar, barIndex (toInt (rrGetBar pos / 2)) = some bar ∧ rrGetBar pos = 2 * bar := by
  have hlt : pos < 0xc0000000 := by
    by_contra hge
    rw [Bool.eq_false_iff] at hbuf
    exact hbuf ((rrIsDmabuf_eq pos).mpr (by omega))
  have hcode := (rrIsValidBar_iff m pos).mp hvalid
  rw [barCode_of_lt (by omega)] at hcode
  have hbar : rrGetBar pos ≠ 12 := by
    rw [rrGetBar_eq]
    omega
  obtain ⟨bar, heven⟩ := exists_bar_index hcode hbar
  exact ⟨bar, (barIndex_even heven).1, heven⟩

theorem selected_mem {bar : Fin 3} (hvalid : rrIsValidBar m pos = true)
    (hbuf : rrIsDmabuf pos = false) (hindex : barIndex (toInt (rrGetBar pos / 2)) = some bar)
    (hremap : dev.remap bar = true) : selected m dev pos = some (.mem bar) := by
  simp [selected, hvalid, hbuf, hindex, hremap]

theorem selected_dmabuf (hvalid : rrIsValidBar m pos = true) (hbuf : rrIsDmabuf pos = true) :
    selected m dev pos = some .dmabuf := by
  simp [selected, hvalid, hbuf]

/-! ## The clipped count -/

theorem two_pow_longBits_pred (m : DataModel) :
    2 ^ (m.longBits - 1) + 2 ^ 31 ≤ 2 ^ m.longBits := by
  cases m <;> decide

variable (m) in
theorem clipArea_eq {size off count : ℕ} (hsize : size < 2 ^ 31) (hoff : off < size)
    (hcount : count < 2 ^ (m.longBits - 1)) :
    clipArea m size off count = min count (size - off) := by
  have hbits := two_pow_longBits_pred m
  have hsum : toUlong m (count + off : ℕ) = count + off := toUlong_eq (by omega)
  have hwhole : toUlong m (size : ℕ) = size := toUlong_eq (by omega)
  have hcast : (size - off : ℤ) = (size - off : ℕ) := by omega
  have hrest : toUlong m (size - off : ℕ) = size - off := toUlong_eq (by omega)
  rw [clipArea, hcast, hrest, hwhole, ← Nat.cast_add, hsum]
  split <;> omega

theorem clipBuf_eq {off count : ℕ} (hoff : off < rrBufsize.val)
    (hcount : count < 2 ^ (m.longBits - 1)) :
    clipBuf m rrBufsize off count = min count (rrBufsize.val - off) := by
  have hmax := rrBufsize.le.trans (rrMaxBufsize_le m)
  have hsize : rrBufsize.val < 2 ^ 31 := by omega
  have harea := clipArea_eq m hsize hoff hcount
  rwa [clipArea, add_comm] at harea

/-! ## The transfers -/

section Transfers

variable {avail count n off : ℕ} {r : Region} {buf : List Byte} {out : FileOut}

/-- A transfer of `n` bytes to the user, or the part of it before a fault. -/
def ReadsUpTo (m : DataModel) (k : Machine Region) (pos : ℕ) (r : Region) (off n : ℕ)
    (out : FileOut) : Prop :=
  (out.ret = .error .efault ∧ out.offp = pos ∧ ∃ j ≤ n, out.kern = k.read r off j) ∨
    out = transferred m pos n (k.mem.load r off n) (k.read r off n)

/-- A transfer of `n` bytes from the user, which a fault leaves unfinished. -/
def WritesUpTo (m : DataModel) (k : Machine Region) (pos : ℕ) (buf : List Byte) (r : Region)
    (off n : ℕ) (out : FileOut) : Prop :=
  (out.ret = .error .efault ∧ out.offp = pos ∧
      ∃ bs : List Byte, bs.length ≤ n ∧ out.kern = k.write r off bs) ∨
    n ≤ buf.length ∧ out = transferred m pos n [] (k.write r off (buf.take n))

variable (m k pos avail n off r) in
theorem copyToUser_readsUpTo : ReadsUpTo m k pos r off n (copyToUser m k pos avail r off n) := by
  unfold copyToUser
  split
  · exact .inr rfl
  · exact .inl ⟨rfl, rfl, avail, by omega, rfl⟩

theorem putUser_readsUpTo : ReadsUpTo m k pos r off n (putUser m k pos avail r off n) := by
  unfold putUser
  split
  · exact .inr rfl
  · exact .inl ⟨rfl, rfl, n, le_rfl, rfl⟩

theorem copyFromUser_writesUpTo :
    WritesUpTo m k pos buf r off n (copyFromUser m k pos buf r off n) := by
  unfold copyFromUser
  split
  · exact .inr ⟨‹_›, rfl⟩
  · refine .inl ⟨rfl, rfl, _, ?_, rfl⟩
    rw [List.length_append, List.length_replicate]
    omega

theorem getUser_writesUpTo : WritesUpTo m k pos buf r off n (getUser m k pos buf r off n) := by
  unfold getUser
  split
  · exact .inr ⟨‹_›, rfl⟩
  · refine .inl ⟨rfl, rfl, [], Nat.zero_le n, ?_⟩
    simp [noTransfer, Machine.write, Memory.store_nil]

variable (m k pos avail n off r) in
/-- The access of a width of its own and the plain copy are transfers of the same bytes. -/
theorem sizedRead_readsUpTo : ReadsUpTo m k pos r off n (sizedRead m k pos avail r off n) := by
  unfold sizedRead
  split
  · exact putUser_readsUpTo
  · exact putUser_readsUpTo
  · exact putUser_readsUpTo
  · exact putUser_readsUpTo
  · exact copyToUser_readsUpTo m k pos avail n off r

theorem sizedWrite_writesUpTo :
    WritesUpTo m k pos buf r off n (sizedWrite m k pos buf r off n) := by
  unfold sizedWrite
  split
  · exact getUser_writesUpTo
  · exact getUser_writesUpTo
  · exact getUser_writesUpTo
  · exact getUser_writesUpTo
  · exact copyFromUser_writesUpTo

/-- A stretch that ends inside the selected area touches nothing else. -/
theorem staysInside_span {k' : Machine Region} {j : ℕ}
    (hselected : selected m dev pos = some r) (hle : off + j ≤ areaSize rrBufsize dev r)
    (htouched : k'.touched = k.touched ++ span r off j) :
    StaysInside rrBufsize dev k pos k' := by
  refine ⟨_, htouched, fun t ht => ?_⟩
  obtain ⟨hr, -, hlt⟩ := mem_span.mp ht
  rw [hr]
  exact ⟨hselected, by omega⟩

theorem transferred_counted {user : List Byte} {kern : Machine Region}
    (hselected : selected m dev pos = some r) (hoff : rrGetOff pos < areaSize rrBufsize dev r)
    (hpos : pos < 2 ^ 63) (hcount : count < 2 ^ (m.longBits - 1)) :
    Counted rrBufsize dev pos r count
      (transferred m pos (transferCount rrBufsize dev pos r count) user kern) := by
  have hle : transferCount rrBufsize dev pos r count ≤ count := Nat.min_le_left _ _
  have hlong : transferCount rrBufsize dev pos r count < 2 ^ (m.longBits - 1) := by omega
  have hbits : 2 ^ (m.longBits - 1) ≤ 2 ^ 63 := by cases m <;> decide
  refine ⟨hselected, hoff, ?_, ?_⟩
  · rw [transferred, toLong_natCast hlong]
  · show toU64 ((pos : ℤ) + (transferCount rrBufsize dev pos r count : ℕ)) = _
    rw [← Nat.cast_add]
    exact toU64_natCast (by omega)

theorem ReadsUpTo.exact (h : ReadsUpTo m k pos r (rrGetOff pos)
      (transferCount rrBufsize dev pos r count) out)
    (hselected : selected m dev pos = some r) (hoff : rrGetOff pos < areaSize rrBufsize dev r)
    (hpos : pos < 2 ^ 63) (hcount : count < 2 ^ (m.longBits - 1)) :
    StaysInside rrBufsize dev k pos out.kern ∧
      (NoTransfer pos out ∨ ReadsExactly rrBufsize dev k pos count out) := by
  have hfits : rrGetOff pos + transferCount rrBufsize dev pos r count ≤
      areaSize rrBufsize dev r := by
    unfold transferCount
    omega
  rcases h with ⟨hret, hoffp, j, hj, hkern⟩ | rfl
  · have hinside : rrGetOff pos + j ≤ areaSize rrBufsize dev r := by omega
    refine ⟨staysInside_span hselected hinside ?_, .inl ⟨.inl ⟨_, hret⟩, hoffp⟩⟩
    rw [hkern]
    rfl
  · refine ⟨staysInside_span hselected hfits rfl, .inr ⟨r, ?_, rfl, rfl⟩⟩
    exact transferred_counted hselected hoff hpos hcount

theorem WritesUpTo.exact (h : WritesUpTo m k pos buf r (rrGetOff pos)
      (transferCount rrBufsize dev pos r count) out)
    (hselected : selected m dev pos = some r) (hoff : rrGetOff pos < areaSize rrBufsize dev r)
    (hpos : pos < 2 ^ 63) (hcount : count < 2 ^ (m.longBits - 1)) :
    StaysInside rrBufsize dev k pos out.kern ∧
      (NoTransfer pos out ∨ WritesExactly rrBufsize dev k pos buf count out) := by
  have hfits : rrGetOff pos + transferCount rrBufsize dev pos r count ≤
      areaSize rrBufsize dev r := by
    unfold transferCount
    omega
  rcases h with ⟨hret, hoffp, bs, hbs, hkern⟩ | ⟨hbuf, rfl⟩
  · have hinside : rrGetOff pos + bs.length ≤ areaSize rrBufsize dev r := by omega
    refine ⟨staysInside_span hselected hinside ?_, .inl ⟨.inl ⟨_, hret⟩, hoffp⟩⟩
    rw [hkern]
    rfl
  · have hlength : (buf.take (transferCount rrBufsize dev pos r count)).length =
        transferCount rrBufsize dev pos r count := List.length_take_of_le hbuf
    refine ⟨staysInside_span hselected ?_ rfl, .inr ⟨r, ?_, hbuf, rfl⟩⟩
    · rwa [hlength]
    · exact transferred_counted hselected hoff hpos hcount

theorem noTransfer_exact (ret : Except Errno ℤ) (hret : (∃ e, ret = .error e) ∨ ret = .ok 0) :
    StaysInside rrBufsize dev k pos (noTransfer k pos ret).kern ∧
      NoTransfer pos (noTransfer k pos ret) := by
  refine ⟨⟨[], ?_, fun t ht => absurd ht List.not_mem_nil⟩, hret, rfl⟩
  exact (List.append_nil _).symm

end Transfers

/-! ## The paths through the calls -/

section Paths

variable (rrBufsize dev k) {avail count : ℕ} {buf : List Byte} {bar : Fin 3} {r : Resource}

theorem rrRead_invalid (hvalid : rrIsValidBar m pos = false) :
    rrRead m rrBufsize dev k pos avail count = some (noTransfer k pos (.error .einval)) := by
  rw [rrRead, hvalid]
  simp only [Bool.not_false, if_true]

variable (avail count) in
theorem rrRead_dmabuf (hvalid : rrIsValidBar m pos = true) (hbuf : rrIsDmabuf pos = true) :
    rrRead m rrBufsize dev k pos avail count =
      if rrGetOff pos ≥ rrBufsize.val then some (noTransfer k pos (.ok 0))
      else some (copyToUser m k pos avail .dmabuf (rrGetOff pos)
        (clipBuf m rrBufsize (rrGetOff pos) count)) := by
  unfold rrRead
  rw [if_neg (by simp [hvalid]), if_pos hbuf]

theorem rrRead_unmapped (hvalid : rrIsValidBar m pos = true) (hbuf : rrIsDmabuf pos = false)
    (hindex : barIndex (toInt (rrGetBar pos / 2)) = some bar) (hremap : dev.remap bar = false) :
    rrRead m rrBufsize dev k pos avail count = some (noTransfer k pos (.error .einval)) := by
  rw [rrRead, hvalid, hbuf, hindex]
  simp only [Bool.not_true, Bool.false_eq_true, if_false, Option.bind_eq_bind, Option.bind_some,
    hremap, Bool.not_false, if_true]

variable (avail count) in
theorem rrRead_mem (hvalid : rrIsValidBar m pos = true) (hbuf : rrIsDmabuf pos = false)
    (hindex : barIndex (toInt (rrGetBar pos / 2)) = some bar) (hremap : dev.remap bar = true)
    (hr : dev.area bar = some r) :
    rrRead m rrBufsize dev k pos avail count =
      if (rrGetOff pos : ℤ) ≥ r.intSize then some (noTransfer k pos (.error .eio))
      else some (sizedRead m k pos avail (.mem bar) (rrGetOff pos)
        (clipArea m r.intSize (rrGetOff pos) count)) := by
  unfold rrRead
  rw [if_neg (by simp [hvalid]), if_neg (by simp [hbuf]), hindex]
  simp only [Option.bind_eq_bind, Option.bind_some, hremap]
  rw [if_neg (by simp), hr, Option.bind_some]

theorem rrWrite_invalid (hvalid : rrIsValidBar m pos = false) :
    rrWrite m rrBufsize dev k pos buf count = some (noTransfer k pos (.error .einval)) := by
  rw [rrWrite, hvalid]
  simp only [Bool.not_false, if_true]

variable (count buf) in
theorem rrWrite_dmabuf (hvalid : rrIsValidBar m pos = true) (hbuf : rrIsDmabuf pos = true) :
    rrWrite m rrBufsize dev k pos buf count =
      if rrGetOff pos ≥ rrBufsize.val then some (noTransfer k pos (.error .enospc))
      else some (copyFromUser m k pos buf .dmabuf (rrGetOff pos)
        (clipBuf m rrBufsize (rrGetOff pos) count)) := by
  unfold rrWrite
  rw [if_neg (by simp [hvalid]), if_pos hbuf]

theorem rrWrite_unmapped (hvalid : rrIsValidBar m pos = true) (hbuf : rrIsDmabuf pos = false)
    (hindex : barIndex (toInt (rrGetBar pos / 2)) = some bar) (hremap : dev.remap bar = false) :
    rrWrite m rrBufsize dev k pos buf count = some (noTransfer k pos (.error .einval)) := by
  rw [rrWrite, hvalid, hbuf, hindex]
  simp only [Bool.not_true, Bool.false_eq_true, if_false, Option.bind_eq_bind, Option.bind_some,
    hremap, Bool.not_false, if_true]

variable (count buf) in
theorem rrWrite_mem (hvalid : rrIsValidBar m pos = true) (hbuf : rrIsDmabuf pos = false)
    (hindex : barIndex (toInt (rrGetBar pos / 2)) = some bar) (hremap : dev.remap bar = true)
    (hr : dev.area bar = some r) :
    rrWrite m rrBufsize dev k pos buf count =
      if (rrGetOff pos : ℤ) ≥ r.intSize then some (noTransfer k pos (.error .eio))
      else some (sizedWrite m k pos buf (.mem bar) (rrGetOff pos)
        (clipArea m r.intSize (rrGetOff pos) count)) := by
  unfold rrWrite
  rw [if_neg (by simp [hvalid]), if_neg (by simp [hbuf]), hindex]
  simp only [Option.bind_eq_bind, Option.bind_some, hremap]
  rw [if_neg (by simp), hr, Option.bind_some]

end Paths

/-! ## The two calls -/

section Calls

variable {avail count : ℕ} {buf : List Byte} {bar : Fin 3} {r : Resource}

variable (rrBufsize) in
theorem areaSize_mem (hr : dev.area bar = some r) :
    areaSize rrBufsize dev (.mem bar) = r.length := by
  simp [areaSize, hr]

/-- The size of an area that fits an `int` is its true size. -/
theorem intSize_of_fit (hfit : FitInt dev) (hr : dev.area bar = some r) :
    r.intSize = r.length := by
  rw [r.intSize_eq, toInt_natCast (hfit bar r hr)]

variable (dev) in
theorem clipBuf_transferCount (hoff : rrGetOff pos < rrBufsize.val)
    (hcount : count < 2 ^ (m.longBits - 1)) :
    clipBuf m rrBufsize (rrGetOff pos) count = transferCount rrBufsize dev pos .dmabuf count :=
  clipBuf_eq hoff hcount

variable (rrBufsize) in
theorem clipArea_transferCount (hfit : FitInt dev) (hr : dev.area bar = some r)
    (hoff : rrGetOff pos < r.length) (hcount : count < 2 ^ (m.longBits - 1)) :
    clipArea m r.intSize (rrGetOff pos) count =
      transferCount rrBufsize dev pos (.mem bar) count := by
  rw [transferCount, areaSize_mem rrBufsize hr, intSize_of_fit hfit hr,
    clipArea_eq m (hfit bar r hr) hoff hcount]

/-- **What a read does.** -/
theorem rrRead_exact (hfit : FitInt dev) (hpos : pos < 2 ^ 63)
    (hcount : count < 2 ^ (m.longBits - 1)) :
    ∃ out, rrRead m rrBufsize dev k pos avail count = some out ∧
      StaysInside rrBufsize dev k pos out.kern ∧
      (NoTransfer pos out ∨ ReadsExactly rrBufsize dev k pos count out) := by
  cases hvalid : rrIsValidBar m pos with
  | false =>
      refine ⟨_, rrRead_invalid rrBufsize dev k hvalid, ?_⟩
      exact (noTransfer_exact _ (.inl ⟨_, rfl⟩)).imp_right .inl
  | true =>
      cases hbuf : rrIsDmabuf pos with
      | true =>
          have hpath := rrRead_dmabuf rrBufsize dev k avail count hvalid hbuf
          by_cases hend : rrGetOff pos ≥ rrBufsize.val
          · refine ⟨_, hpath.trans (if_pos hend), ?_⟩
            exact (noTransfer_exact _ (.inr rfl)).imp_right .inl
          · have hoff : rrGetOff pos < rrBufsize.val := by omega
            refine ⟨_, hpath.trans (if_neg hend), ?_⟩
            rw [clipBuf_transferCount dev hoff hcount]
            have hselected : selected m dev pos = some .dmabuf := selected_dmabuf hvalid hbuf
            exact (copyToUser_readsUpTo m k pos _ _ _ _).exact hselected hoff hpos hcount
      | false =>
          obtain ⟨bar, hindex, -⟩ := barIndex_of_valid hvalid hbuf
          cases hremap : dev.remap bar with
          | false =>
              refine ⟨_, rrRead_unmapped rrBufsize dev k hvalid hbuf hindex hremap, ?_⟩
              exact (noTransfer_exact _ (.inl ⟨_, rfl⟩)).imp_right .inl
          | true =>
              obtain ⟨r, hr, -⟩ := dev.mapped bar hremap
              have hselected := selected_mem hvalid hbuf hindex hremap
              have hsize := intSize_of_fit hfit hr
              have hpath := rrRead_mem rrBufsize dev k avail count hvalid hbuf hindex
                hremap hr
              by_cases hend : (rrGetOff pos : ℤ) ≥ r.intSize
              · refine ⟨_, hpath.trans (if_pos hend), ?_⟩
                exact (noTransfer_exact _ (.inl ⟨_, rfl⟩)).imp_right .inl
              · have hoff : rrGetOff pos < r.length := by omega
                refine ⟨_, hpath.trans (if_neg hend), ?_⟩
                rw [clipArea_transferCount rrBufsize hfit hr hoff hcount]
                rw [← areaSize_mem rrBufsize hr] at hoff
                exact (sizedRead_readsUpTo m k pos _ _ _ _).exact hselected hoff hpos hcount

/-- **What a write does.** -/
theorem rrWrite_exact (hfit : FitInt dev) (hpos : pos < 2 ^ 63)
    (hcount : count < 2 ^ (m.longBits - 1)) :
    ∃ out, rrWrite m rrBufsize dev k pos buf count = some out ∧
      StaysInside rrBufsize dev k pos out.kern ∧
      (NoTransfer pos out ∨ WritesExactly rrBufsize dev k pos buf count out) := by
  cases hvalid : rrIsValidBar m pos with
  | false =>
      refine ⟨_, rrWrite_invalid rrBufsize dev k hvalid, ?_⟩
      exact (noTransfer_exact _ (.inl ⟨_, rfl⟩)).imp_right .inl
  | true =>
      cases hbuf : rrIsDmabuf pos with
      | true =>
          have hpath := rrWrite_dmabuf rrBufsize dev k count buf hvalid hbuf
          by_cases hend : rrGetOff pos ≥ rrBufsize.val
          · refine ⟨_, hpath.trans (if_pos hend), ?_⟩
            exact (noTransfer_exact _ (.inl ⟨_, rfl⟩)).imp_right .inl
          · have hoff : rrGetOff pos < rrBufsize.val := by omega
            refine ⟨_, hpath.trans (if_neg hend), ?_⟩
            rw [clipBuf_transferCount dev hoff hcount]
            exact copyFromUser_writesUpTo.exact (selected_dmabuf hvalid hbuf) hoff hpos hcount
      | false =>
          obtain ⟨bar, hindex, -⟩ := barIndex_of_valid hvalid hbuf
          cases hremap : dev.remap bar with
          | false =>
              refine ⟨_, rrWrite_unmapped rrBufsize dev k hvalid hbuf hindex hremap, ?_⟩
              exact (noTransfer_exact _ (.inl ⟨_, rfl⟩)).imp_right .inl
          | true =>
              obtain ⟨r, hr, -⟩ := dev.mapped bar hremap
              have hselected := selected_mem hvalid hbuf hindex hremap
              have hsize := intSize_of_fit hfit hr
              have hpath := rrWrite_mem rrBufsize dev k count buf hvalid hbuf hindex
                hremap hr
              by_cases hend : (rrGetOff pos : ℤ) ≥ r.intSize
              · refine ⟨_, hpath.trans (if_pos hend), ?_⟩
                exact (noTransfer_exact _ (.inl ⟨_, rfl⟩)).imp_right .inl
              · have hoff : rrGetOff pos < r.length := by omega
                refine ⟨_, hpath.trans (if_neg hend), ?_⟩
                rw [clipArea_transferCount rrBufsize hfit hr hoff hcount]
                rw [← areaSize_mem rrBufsize hr] at hoff
                exact sizedWrite_writesUpTo.exact hselected hoff hpos hcount

end Calls

/-! ## Reading the DMA buffer to its end -/

section Sequences

variable (rrBufsize dev k)

/-- A process that reads: its position, what it has read, what the last call has returned. -/
structure Reader where
  pos : ℕ
  data : List Byte
  ret : Option (Except Errno ℤ)

/-- What the process has after a call. -/
def Reader.take (s : Reader) : Option FileOut → Reader
  | some out => ⟨out.offp, s.data ++ out.user, some out.ret⟩
  | none => { s with ret := none }

/-- One call, with the bytes of the user's buffer that can be accessed and the count. -/
def Reader.call (s : Reader) (c : ℕ × ℕ) : Reader :=
  s.take (rrRead m rrBufsize dev k s.pos c.1 c.2)

/-- The call asks for something and succeeds. -/
def Reader.Succeeds (s : Reader) (c : ℕ × ℕ) : Prop :=
  0 < c.2 ∧ c.2 ≤ m.ssizeMax ∧ ∃ n, (s.call rrBufsize dev k c).ret = some (.ok n)

/-- A process that has sought to the DMA buffer. -/
def Reader.start : Reader := ⟨rrBarBuf, [], none⟩

/-- What has been read is the beginning of the buffer, and all of it after a result of 0. -/
structure Reader.InOrder (s : Reader) : Prop where
  le : s.data.length ≤ rrBufsize.val
  pos : s.pos = rrBarBuf + s.data.length
  data : s.data = k.mem.load .dmabuf 0 s.data.length
  all : s.ret = some (.ok 0) → s.data.length = rrBufsize.val

variable {rrBufsize dev k}

theorem Reader.call_of_read {s : Reader} {c : ℕ × ℕ} {out : FileOut}
    (h : rrRead m rrBufsize dev k s.pos c.1 c.2 = some out) :
    s.call rrBufsize dev k c = ⟨out.offp, s.data ++ out.user, some out.ret⟩ :=
  congrArg s.take h

theorem Reader.InOrder.call {s : Reader} {c : ℕ × ℕ} (h : s.InOrder rrBufsize k)
    (hsucceeds : s.Succeeds rrBufsize dev k c) :
    (s.call rrBufsize dev k c).InOrder rrBufsize k := by
  obtain ⟨hpositive, hcount, n, hret⟩ := hsucceeds
  rw [DataModel.le_ssizeMax_iff] at hcount
  have hmax := rrBufsize.le.trans (rrMaxBufsize_le m)
  have hle := h.le
  have hpos : s.pos = 12 * 2 ^ 28 + s.data.length := by rw [h.pos, rrBarBuf_eq]
  -- the position is one of the DMA buffer, with the number of bytes so far as the offset
  have hoff : rrGetOff s.pos = s.data.length := by
    rw [hpos]
    exact rrGetOff_eq_of_add (by omega)
  have hbar : rrGetBar s.pos = 12 := by
    rw [hpos]
    exact rrGetBar_eq_of_add (by omega)
  have hvalid : rrIsValidBar m s.pos = true := by
    rw [rrIsValidBar_iff, barCode_of_lt (by omega), hbar]
    decide
  have hbuf : rrIsDmabuf s.pos = true := (rrIsDmabuf_eq _).mpr (by omega)
  have hpath := rrRead_dmabuf rrBufsize dev k c.1 c.2 hvalid hbuf
  rw [hoff] at hpath
  by_cases hend : s.data.length ≥ rrBufsize.val
  · rw [Reader.call_of_read (hpath.trans (if_pos hend)), noTransfer, List.append_nil]
    exact ⟨hle, h.pos, h.data, fun _ => le_antisymm hle hend⟩
  · have hread := hpath.trans (if_neg hend)
    rw [clipBuf_eq (by omega) hcount] at hread
    generalize hn : min c.2 (rrBufsize.val - s.data.length) = j at hread
    have hlong : j < 2 ^ (m.longBits - 1) := by omega
    by_cases havail : j ≤ c.1
    · have hadvance : toU64 ((s.pos : ℤ) + j) = s.pos + j := by
        rw [← Nat.cast_add]
        exact toU64_natCast (by omega)
      have hlength : (s.data ++ k.mem.load .dmabuf s.data.length j).length = s.data.length + j := by
        rw [List.length_append, Memory.length_load]
      rw [copyToUser, if_pos havail, transferred, hadvance, toLong_natCast hlong] at hread
      rw [Reader.call_of_read hread]
      refine ⟨?_, ?_, ?_, fun hzero => ?_⟩
      · rw [hlength]
        omega
      · show s.pos + j = _
        rw [hlength, h.pos, Nat.add_assoc]
      · show s.data ++ k.mem.load .dmabuf s.data.length j = _
        have hdata := h.data
        rw [hlength, Memory.load_add, ← hdata, Nat.zero_add]
      · simp only [Option.some.injEq, Except.ok.injEq] at hzero
        omega
    · rw [copyToUser, if_neg havail] at hread
      rw [Reader.call_of_read hread] at hret
      simp at hret

theorem Reader.start_inOrder : Reader.start.InOrder rrBufsize k where
  le := Nat.zero_le _
  pos := by simp [Reader.start]
  data := rfl
  all := fun h => by cases h

/-- Whatever the counts of the reads, up to a result of 0 they give the whole buffer. -/
theorem reads_whole_buffer (calls : List (ℕ × ℕ))
    (hsucceed : Always (Reader.call rrBufsize dev k) (Reader.Succeeds rrBufsize dev k)
      Reader.start calls)
    (hlast : (run (Reader.call rrBufsize dev k) Reader.start calls).ret = some (.ok 0)) :
    (run (Reader.call rrBufsize dev k) Reader.start calls).data =
      k.mem.load .dmabuf 0 rrBufsize.val := by
  have hkeeps : ∀ s c, Reader.InOrder rrBufsize k s → Reader.Succeeds rrBufsize dev k s c →
      Reader.InOrder rrBufsize k (Reader.call rrBufsize dev k s c) :=
    fun _ _ hs hc => hs.call hc
  have h := invariant_run hkeeps hsucceed Reader.start_inOrder
  have hdata := h.data
  rwa [h.all hlast] at hdata

end Sequences

/-- **Reads and writes stay inside their area and report what they did.**  From whatever position
and with whatever count, every byte that is touched belongs to the selected area; either nothing
is transferred, or exactly the bytes from the offset on; and reads from the beginning of the DMA
buffer up to a result of 0 give each of its bytes once and in order. -/
theorem file_access_exact (rrBufsize : Bufsize m) (dev : Areas) (hfit : FitInt dev)
    (k : Machine Region) :
    (∀ pos avail count, pos < 2 ^ 63 → count ≤ m.ssizeMax →
      ∃ out, rrRead m rrBufsize dev k pos avail count = some out ∧
        StaysInside rrBufsize dev k pos out.kern ∧
        (NoTransfer pos out ∨ ReadsExactly rrBufsize dev k pos count out)) ∧
      (∀ pos buf count, pos < 2 ^ 63 → count ≤ m.ssizeMax →
        ∃ out, rrWrite m rrBufsize dev k pos buf count = some out ∧
          StaysInside rrBufsize dev k pos out.kern ∧
          (NoTransfer pos out ∨ WritesExactly rrBufsize dev k pos buf count out)) ∧
      ∀ calls : List (ℕ × ℕ), Always (Reader.call rrBufsize dev k)
          (Reader.Succeeds rrBufsize dev k) Reader.start calls →
        (run (Reader.call rrBufsize dev k) Reader.start calls).ret = some (.ok 0) →
          (run (Reader.call rrBufsize dev k) Reader.start calls).data =
            k.mem.load .dmabuf 0 rrBufsize.val := by
  refine ⟨?_, ?_, fun calls hsucceed hlast => reads_whole_buffer calls hsucceed hlast⟩
  · intro pos avail count hpos hcount
    exact rrRead_exact hfit hpos (DataModel.le_ssizeMax_iff.mp hcount)
  · intro pos buf count hpos hcount
    exact rrWrite_exact hfit hpos (DataModel.le_ssizeMax_iff.mp hcount)

/-- A device with one BAR of 4 kB, and a DMA buffer of 10 bytes. -/
def smallDevice : Areas :=
  .probe (fun bar => if bar.val = 0 then some ⟨0x10000, 0x10fff, true, false, by decide, by decide,
    by decide⟩ else none) fun _ => true

def smallBuffer : Bufsize .lp64 := ⟨10, by decide, by decide⟩

theorem smallDevice_fitInt : FitInt smallDevice := by
  intro bar r hr
  simp only [smallDevice, Areas.probe] at hr
  split at hr
  · injection hr with hr
    rw [← hr]
    decide
  · cases hr

/-- Every byte holds the last digits of its address. -/
def numberedBytes : Machine Region := ⟨fun _ address => BitVec.ofNat 8 address, []⟩

/-- A read of 100 bytes gives the 8 bytes up to the end of the BAR, and three reads of 4 bytes give
the 10 bytes of the DMA buffer, before a last one gives 0. -/
theorem read_at_end_exact :
    (∃ out, rrRead .lp64 smallBuffer smallDevice numberedBytes 0xff8 100 100 = some out ∧
      out.ret = .ok 8 ∧ StaysInside smallBuffer smallDevice numberedBytes 0xff8 out.kern ∧
      ReadsExactly smallBuffer smallDevice numberedBytes 0xff8 100 out) ∧
    (run (Reader.call smallBuffer smallDevice numberedBytes) Reader.start
      (List.replicate 4 (4, 4))).data = numberedBytes.mem.load .dmabuf 0 10 := by
  obtain ⟨hread, -, hall⟩ :=
    file_access_exact smallBuffer smallDevice smallDevice_fitInt numberedBytes
  constructor
  · obtain ⟨out, hout, hinside, hexact⟩ := hread 0xff8 100 100 (by decide) (by decide)
    have hret : out.ret = .ok 8 := by
      have height : (rrRead .lp64 smallBuffer smallDevice numberedBytes 0xff8 100 100).map
          FileOut.ret = some (.ok 8) := by rfl
      rw [hout] at height
      exact Option.some.inj height
    refine ⟨out, hout, hret, hinside, hexact.resolve_left ?_⟩
    rintro ⟨⟨e, herror⟩ | hzero, -⟩
    · rw [hret] at herror
      cases herror
    · rw [hret] at hzero
      exact absurd (Except.ok.inj hzero) (by decide)
  · refine hall (List.replicate 4 (4, 4)) ?_ (by decide +kernel)
    refine ⟨⟨by decide, by decide, 4, ?_⟩, ⟨by decide, by decide, 4, ?_⟩,
      ⟨by decide, by decide, 2, ?_⟩, ⟨by decide, by decide, 0, ?_⟩, trivial⟩
    all_goals decide +kernel

end Rawrabbit

end Gn4124Core
