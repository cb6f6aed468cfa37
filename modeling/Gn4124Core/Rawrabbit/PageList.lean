import Gn4124Core.Rawrabbit.Header
import Gn4124Core.CLang.Memory
import Gn4124Core.Rawrabbit.Driver

/-!
# The page list of the DMA buffer

`RR_GETPLIST` writes one word of 32 bits for each page that the buffer begins, the page frame
number, into an array of the client.  `rrcmd` declares the array as `uintptr_t`, which has 64
bits on 64-bit machines, and prints only the pages that are whole; `rr.py` reads 256 signed
words, however many pages there are.

The driver's side is independent of the client: `wordAt_rrGetplist` says what each word of the
array holds after the call, and `mem_touched_rrGetplist` which bytes are written.  Both follow
the loop by induction on its length.  The clients' sides are then conditions on what they read:

* `python_iff`: at most 256 pages, each with a number below `2 ^ 31`;
* `rrcmd_iff`: whole pages, and an element for each that is printed as the page (`PrintsPage`).
  With elements of 32 bits every page is (`printsPage_ilp32`).  With elements of 64 bits one
  element is made of two words of the driver, and the page is printed only if the first of these
  is its number and the second vanishes (`printsPage_lp64_iff`); behind the last page this is
  what was on the stack.

`page_list_right_iff` puts the two together, so that its condition is exact for each width of a
pointer.
-/

namespace Gn4124Core

open CLang

namespace Rawrabbit

/-- The pages that the buffer begins, the last one possibly not whole. -/
def pageCount (rrBufsize : ℕ) : ℕ := (rrBufsize + (rrPlistSize - 1)) / rrPlistSize

/-- Word `i` of an array of 32-bit words. -/
def wordAt (mem : Memory Unit) (i : ℕ) : ℕ := ofLittleEndian (mem.load () (4 * i) 4)

/-! ## The driver and its clients -/

section Code

variable (m : DataModel) (rrBufsize : ℕ)

/-- `RR_GETPLIST`: the loop over the pages, from the beginning of the array of the client on. -/
def rrGetplist (pfn : ℕ → BitVec 32) (k : Machine Unit) : Machine Unit :=
  (List.range (pageCount rrBufsize)).foldl
    (fun k i => k.write () (4 * i) (littleEndian 4 (pfn i).toNat)) k

/-- A line of `do_getplist`: the offset in the buffer, the page frame number, the address. -/
structure PlistLine where
  buf : ℕ
  pfn : ℕ
  addr : ℕ
deriving DecidableEq

/-- Element `i` of `uintptr_t plist[RR_PLIST_LEN]`. -/
def plistElem (mem : Memory Unit) (i : ℕ) : ℕ :=
  ofLittleEndian (mem.load () (m.sizeofPtr * i) m.sizeofPtr)

/-- `do_getplist`: of an element `%08x` prints the low 32 bits, and the address is one of 64. -/
def doGetplist (mem : Memory Unit) : List PlistLine :=
  (List.range (rrBufsize / rrPlistSize)).map fun i =>
    ⟨i * rrPlistSize, plistElem m mem i % 2 ^ 32, plistElem m mem i <<< 12 % 2 ^ 64⟩

/-- `getplist` of `rr.py`: an array `c_int * 256`. -/
def pyGetplist (mem : Memory Unit) : List ℤ :=
  (List.range 256).map fun i => toInt (wordAt mem i)

/-- The bytes of the two arrays. -/
def rrcmdPlistBytes : ℕ := m.sizeofPtr * rrPlistLen m
def pyPlistBytes : ℕ := 4 * 256

end Code

/-! ## What the driver writes -/

section Written

variable {rrBufsize : ℕ} {pfn : ℕ → BitVec 32} {k : Machine Unit}

theorem wordAt_store_ne {mem : Memory Unit} {i j v : ℕ} (hne : j ≠ i) :
    wordAt (mem.store () (4 * i) (littleEndian 4 v)) j = wordAt mem j := by
  unfold wordAt
  rw [Memory.load_store_of_disjoint]
  rw [length_littleEndian]
  omega

theorem wordAt_store_self {mem : Memory Unit} {i : ℕ} (v : BitVec 32) :
    wordAt (mem.store () (4 * i) (littleEndian 4 v.toNat)) i = v.toNat := by
  have hload := mem.load_store () (4 * i) (littleEndian 4 v.toNat)
  rw [length_littleEndian] at hload
  rw [wordAt, hload, ofLittleEndian_littleEndian]
  exact Nat.mod_eq_of_lt v.isLt

/-- The words after the first `n` pages of the loop. -/
theorem wordAt_writes (n j : ℕ) :
    wordAt ((List.range n).foldl
      (fun k i => k.write () (4 * i) (littleEndian 4 (pfn i).toNat)) k).mem j =
      if j < n then (pfn j).toNat else wordAt k.mem j := by
  induction n with
  | zero => rfl
  | succ n ih =>
      rw [List.range_succ, List.foldl_append, List.foldl_cons, List.foldl_nil, Machine.mem_write]
      by_cases hj : j = n
      · rw [hj, wordAt_store_self, if_pos (Nat.lt_succ_self n)]
      · rw [wordAt_store_ne hj, ih]
        by_cases hlt : j < n
        · rw [if_pos hlt, if_pos (by omega)]
        · rw [if_neg hlt, if_neg (by omega)]

/-- The bytes that the first `n` pages of the loop touch. -/
theorem mem_touched_writes (n : ℕ) (t : Unit × ℕ) :
    t ∈ ((List.range n).foldl
      (fun k i => k.write () (4 * i) (littleEndian 4 (pfn i).toNat)) k).touched ↔
      t ∈ k.touched ∨ t.2 < 4 * n := by
  induction n with
  | zero => simp
  | succ n ih =>
      rw [List.range_succ, List.foldl_append, List.foldl_cons, List.foldl_nil,
        Machine.touched_write, List.mem_append, ih, length_littleEndian, mem_span]
      constructor
      · rintro ((hk | hlt) | ⟨-, -, hlt⟩)
        · exact .inl hk
        · exact .inr (by omega)
        · exact .inr (by omega)
      · rintro (hk | hlt)
        · exact .inl (.inl hk)
        · by_cases hbelow : t.2 < 4 * n
          · exact .inl (.inr hbelow)
          · exact .inr ⟨rfl, by omega, by omega⟩

/-- **What the array holds.** -/
theorem wordAt_rrGetplist (j : ℕ) :
    wordAt (rrGetplist rrBufsize pfn k).mem j =
      if j < pageCount rrBufsize then (pfn j).toNat else wordAt k.mem j :=
  wordAt_writes (pageCount rrBufsize) j

/-- **Which bytes of the client are written.** -/
theorem mem_touched_rrGetplist (t : Unit × ℕ) :
    t ∈ (rrGetplist rrBufsize pfn k).touched ↔
      t ∈ k.touched ∨ t.2 < 4 * pageCount rrBufsize :=
  mem_touched_writes (pageCount rrBufsize) t

end Written

/-! ## What the clients read -/

section Specification

variable {m : DataModel} (rrBufsize : Bufsize m) (pfn : ℕ → BitVec 32)

/-- The array of a client after the call, with these contents before it. -/
def filled (before : Memory Unit) : Machine Unit := rrGetplist rrBufsize.val pfn ⟨before, []⟩

/-- Both clients read every page as it was written, in arrays that hold all that is written.  The
array of `rrcmd` is on the stack, with whatever contents. -/
structure PageListRight (stack heap : Memory Unit) : Prop where
  rrcmd : ∀ i < pageCount rrBufsize.val,
    (doGetplist m rrBufsize.val (filled rrBufsize pfn stack).mem)[i]? =
      some ⟨i * rrPlistSize, (pfn i).toNat, (pfn i).toNat * 2 ^ 12⟩
  python : ∀ i < pageCount rrBufsize.val,
    (pyGetplist (filled rrBufsize pfn heap).mem)[i]? = some ((pfn i).toNat : ℤ)
  rrcmd_fits : ∀ t ∈ (filled rrBufsize pfn stack).touched, t.2 < rrcmdPlistBytes m
  python_fits : ∀ t ∈ (filled rrBufsize pfn heap).touched, t.2 < pyPlistBytes

/-- Word `j` of the array of `rrcmd`: a page, or what was on the stack. -/
def plistWord (stack : Memory Unit) (j : ℕ) : ℕ :=
  if j < pageCount rrBufsize.val then (pfn j).toNat else wordAt stack j

/-- A pair of words is the word that stands in the place of the pair, but for bits that the shift
by 12 moves out of 64. -/
def PairsAreWords (stack : Memory Unit) : Prop :=
  ∀ i < pageCount rrBufsize.val, plistWord rrBufsize pfn stack (2 * i) = (pfn i).toNat ∧
    2 ^ 20 ∣ plistWord rrBufsize pfn stack (2 * i + 1)

end Specification

section Readers

variable {m : DataModel} {rrBufsize : Bufsize m} {pfn : ℕ → BitVec 32} {stack heap : Memory Unit}

theorem wordAt_filled (j : ℕ) :
    wordAt (filled rrBufsize pfn stack).mem j = plistWord rrBufsize pfn stack j :=
  wordAt_rrGetplist j

theorem mem_touched_filled (t : Unit × ℕ) :
    t ∈ (filled rrBufsize pfn stack).touched ↔ t.2 < 4 * pageCount rrBufsize.val := by
  rw [filled, mem_touched_rrGetplist]
  exact or_iff_right List.not_mem_nil

/-- The array of `rrcmd` has one element for each page of the largest buffer. -/
theorem rrcmd_fits (t : Unit × ℕ) (ht : t ∈ (filled rrBufsize pfn stack).touched) :
    t.2 < rrcmdPlistBytes m := by
  rw [mem_touched_filled] at ht
  have hle := rrBufsize.le
  have hpages : 4 * pageCount rrBufsize.val ≤ rrcmdPlistBytes m := by
    unfold pageCount rrcmdPlistBytes
    cases m with
    | ilp32 =>
        have hlen : rrPlistLen .ilp32 = 1024 := by decide
        simp only [rrMaxBufsize, hlen, DataModel.sizeofPtr, rrPlistSize] at hle ⊢
        omega
    | lp64 =>
        have hlen : rrPlistLen .lp64 = 512 := by decide
        simp only [rrMaxBufsize, hlen, DataModel.sizeofPtr, rrPlistSize] at hle ⊢
        omega
  omega

theorem python_fits_iff :
    (∀ t ∈ (filled rrBufsize pfn heap).touched, t.2 < pyPlistBytes) ↔
      pageCount rrBufsize.val ≤ 256 := by
  unfold pyPlistBytes
  constructor
  · intro h
    by_contra hpages
    have hlast : ((), 4 * 256) ∈ (filled rrBufsize pfn heap).touched := by
      rw [mem_touched_filled]
      omega
    exact absurd (h _ hlast) (by decide)
  · intro hpages t ht
    rw [mem_touched_filled] at ht
    omega

/-- An `int` is the number itself only below `2 ^ 31`. -/
theorem toInt_eq_self_iff (v : BitVec 32) : toInt v.toNat = v.toNat ↔ v.toNat < 2 ^ 31 := by
  constructor
  · intro h
    have hlt := toInt_lt v.toNat
    omega
  · exact toInt_natCast

theorem python_iff :
    (∀ i < pageCount rrBufsize.val,
      (pyGetplist (filled rrBufsize pfn heap).mem)[i]? = some ((pfn i).toNat : ℤ)) ↔
      pageCount rrBufsize.val ≤ 256 ∧ ∀ i < pageCount rrBufsize.val, (pfn i).toNat < 2 ^ 31 := by
  have helem : ∀ i < pageCount rrBufsize.val,
      (pyGetplist (filled rrBufsize pfn heap).mem)[i]? =
        if i < 256 then some (toInt (pfn i).toNat) else none := by
    intro i hi
    have hword : wordAt (filled rrBufsize pfn heap).mem i = (pfn i).toNat := by
      rw [wordAt_filled, plistWord, if_pos hi]
    unfold pyGetplist
    by_cases hlt : i < 256
    · rw [if_pos hlt, List.getElem?_map, List.getElem?_range hlt, Option.map_some, hword]
    · rw [if_neg hlt, List.getElem?_eq_none]
      rw [List.length_map, List.length_range]
      omega
  constructor
  · intro h
    have hboth : ∀ i < pageCount rrBufsize.val, i < 256 ∧ (pfn i).toNat < 2 ^ 31 := by
      intro i hi
      have hread := h i hi
      rw [helem i hi] at hread
      split at hread
      · next hlt =>
          injection hread with hread
          exact ⟨hlt, (toInt_eq_self_iff _).mp hread⟩
      · cases hread
    refine ⟨?_, fun i hi => (hboth i hi).2⟩
    by_contra hpages
    exact absurd (hboth 256 (by omega)).1 (by decide)
  · rintro ⟨hpages, hpfn⟩ i hi
    rw [helem i hi, if_pos (by omega), (toInt_eq_self_iff _).mpr (hpfn i hi)]

/-- Every page has a line if and only if the last page is whole. -/
theorem whole_pages_iff :
    (∀ i < pageCount rrBufsize.val, i < rrBufsize.val / rrPlistSize) ↔
      rrPlistSize ∣ rrBufsize.val := by
  have hpos := rrBufsize.pos
  unfold pageCount rrPlistSize
  constructor
  · intro h
    have hlast := h ((rrBufsize.val + (4096 - 1)) / 4096 - 1) (by omega)
    omega
  · rintro ⟨n, hn⟩ i hi
    omega

/-- An element is one word or two. -/
theorem plistElem_ilp32 (mem : Memory Unit) (i : ℕ) : plistElem .ilp32 mem i = wordAt mem i := rfl

theorem plistElem_lp64 (mem : Memory Unit) (i : ℕ) :
    plistElem .lp64 mem i = wordAt mem (2 * i) + 2 ^ 32 * wordAt mem (2 * i + 1) := by
  have hload : mem.load () (8 * i) 8 =
      mem.load () (4 * (2 * i)) 4 ++ mem.load () (4 * (2 * i + 1)) 4 := by
    rw [show 8 * i = 4 * (2 * i) by omega, show 4 * (2 * i + 1) = 4 * (2 * i) + 4 by omega]
    exact mem.load_add () (4 * (2 * i)) 4 4
  show ofLittleEndian (mem.load () (8 * i) 8) = _
  rw [hload, ofLittleEndian_append, Memory.length_load]
  rfl

theorem wordAt_lt (mem : Memory Unit) (i : ℕ) : wordAt mem i < 2 ^ 32 := by
  have hlt := ofLittleEndian_lt (mem.load () (4 * i) 4)
  rwa [Memory.length_load] at hlt

/-- What is printed of two words is the number `p` if the first is, and the second vanishes. -/
theorem pair_printed_iff {low high p : ℕ} (hlow : low < 2 ^ 32) :
    ((low + 2 ^ 32 * high) % 2 ^ 32 = p ∧ (low + 2 ^ 32 * high) <<< 12 % 2 ^ 64 = p * 2 ^ 12) ↔
      low = p ∧ 2 ^ 20 ∣ high := by
  rw [Nat.shiftLeft_eq]
  omega

/-- The line of a page. -/
theorem doGetplist_getElem? {mem : Memory Unit} (i : ℕ) :
    (doGetplist m rrBufsize.val mem)[i]? =
      if i < rrBufsize.val / rrPlistSize then
        some ⟨i * rrPlistSize, plistElem m mem i % 2 ^ 32, plistElem m mem i <<< 12 % 2 ^ 64⟩
      else none := by
  unfold doGetplist
  by_cases hlt : i < rrBufsize.val / rrPlistSize
  · rw [if_pos hlt, List.getElem?_map, List.getElem?_range hlt, Option.map_some]
  · rw [if_neg hlt, List.getElem?_eq_none]
    rw [List.length_map, List.length_range]
    omega

/-- The element of a page is printed as the page. -/
def PrintsPage (m : DataModel) (mem : Memory Unit) (i p : ℕ) : Prop :=
  plistElem m mem i % 2 ^ 32 = p ∧ plistElem m mem i <<< 12 % 2 ^ 64 = p * 2 ^ 12

theorem printsPage_ilp32 {i : ℕ} (hi : i < pageCount rrBufsize.val) :
    PrintsPage .ilp32 (filled rrBufsize pfn stack).mem i (pfn i).toNat := by
  have hlt := (pfn i).isLt
  unfold PrintsPage
  rw [plistElem_ilp32, wordAt_filled, plistWord, if_pos hi, Nat.shiftLeft_eq]
  omega

theorem printsPage_lp64_iff (i p : ℕ) :
    PrintsPage .lp64 (filled rrBufsize pfn stack).mem i p ↔
      plistWord rrBufsize pfn stack (2 * i) = p ∧
        2 ^ 20 ∣ plistWord rrBufsize pfn stack (2 * i + 1) := by
  have hlow := wordAt_lt (filled rrBufsize pfn stack).mem (2 * i)
  unfold PrintsPage
  rw [plistElem_lp64, pair_printed_iff hlow, wordAt_filled, wordAt_filled]

theorem rrcmd_iff :
    (∀ i < pageCount rrBufsize.val,
      (doGetplist m rrBufsize.val (filled rrBufsize pfn stack).mem)[i]? =
        some ⟨i * rrPlistSize, (pfn i).toNat, (pfn i).toNat * 2 ^ 12⟩) ↔
      rrPlistSize ∣ rrBufsize.val ∧ (m = .lp64 → PairsAreWords rrBufsize pfn stack) := by
  have hline : ∀ i < pageCount rrBufsize.val,
      (doGetplist m rrBufsize.val (filled rrBufsize pfn stack).mem)[i]? =
        some ⟨i * rrPlistSize, (pfn i).toNat, (pfn i).toNat * 2 ^ 12⟩ ↔
      i < rrBufsize.val / rrPlistSize ∧
        PrintsPage m (filled rrBufsize pfn stack).mem i (pfn i).toNat := by
    intro i _
    rw [doGetplist_getElem?]
    split
    · next hlt => simp [PrintsPage, hlt]
    · next hlt => simp [hlt]
  have hprints : (∀ i < pageCount rrBufsize.val,
      PrintsPage m (filled rrBufsize pfn stack).mem i (pfn i).toNat) ↔
        (m = .lp64 → PairsAreWords rrBufsize pfn stack) := by
    cases m with
    | ilp32 => exact iff_of_true (fun i hi => printsPage_ilp32 hi) fun h => by cases h
    | lp64 =>
        have hpairs : (∀ i < pageCount rrBufsize.val,
            PrintsPage .lp64 (filled rrBufsize pfn stack).mem i (pfn i).toNat) ↔
              PairsAreWords rrBufsize pfn stack :=
          forall₂_congr fun i _ => printsPage_lp64_iff i (pfn i).toNat
        rw [hpairs]
        exact ⟨fun h _ => h, fun h => h rfl⟩
  rw [← whole_pages_iff, ← hprints]
  constructor
  · intro h
    exact ⟨fun i hi => ((hline i hi).mp (h i hi)).1, fun i hi => ((hline i hi).mp (h i hi)).2⟩
  · rintro ⟨hwhole, hpages⟩ i hi
    exact (hline i hi).mpr ⟨hwhole i hi, hpages i hi⟩

end Readers

/-- **When the page list is read back as it was written.**  Both clients read every page if and
only if the buffer consists of whole pages, not more than 256, with numbers below `2 ^ 31`, and on
a machine of 64 bits every pair of words happens to be the word in its place. -/
theorem page_list_right_iff {m : DataModel} (rrBufsize : Bufsize m) (pfn : ℕ → BitVec 32)
    (stack heap : Memory Unit) :
    PageListRight rrBufsize pfn stack heap ↔
      rrPlistSize ∣ rrBufsize.val ∧ (m = .lp64 → PairsAreWords rrBufsize pfn stack) ∧
        pageCount rrBufsize.val ≤ 256 ∧
          ∀ i < pageCount rrBufsize.val, (pfn i).toNat < 2 ^ 31 := by
  constructor
  · rintro ⟨hrrcmd, hpython, -, -⟩
    obtain ⟨hwhole, hpairs⟩ := rrcmd_iff.mp hrrcmd
    obtain ⟨hpages, hpfn⟩ := python_iff.mp hpython
    exact ⟨hwhole, hpairs, hpages, hpfn⟩
  · rintro ⟨hwhole, hpairs, hpages, hpfn⟩
    exact ⟨rrcmd_iff.mpr ⟨hwhole, hpairs⟩, python_iff.mpr ⟨hpages, hpfn⟩, rrcmd_fits,
      python_fits_iff.mpr hpages⟩

/-- The default buffer. -/
def defaultBuffer : Bufsize .lp64 := ⟨2 ^ 20, by decide, by decide⟩

example : rrInitBufsize .lp64 rrDefaultBufsize = some defaultBuffer :=
  rrInitBufsize_val defaultBuffer

/-- On a machine of 64 bits, with consecutive page frames from 1 on. -/
theorem default_page_list_not_right :
    ¬ PageListRight defaultBuffer (fun i => BitVec.ofNat 32 (i + 1)) (fun _ _ => 0)
      (fun _ _ => 0) := by
  rintro ⟨hrrcmd, -, -, -⟩
  have hpairs := (rrcmd_iff.mp hrrcmd).2 rfl 1 (by decide)
  exact absurd hpairs.1 (by decide)

end Rawrabbit

end Gn4124Core
