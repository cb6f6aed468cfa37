import Gn4124Core.CLang.Scanf
import Gn4124Core.Rawrabbit.IoctlAccess

/-!
# The address code of the clients

`rrcmd` takes a BAR and an offset as text and joins them with a bit-or; `rr.py` adds the offset
to the start of the BAR and stores the sum in 32 bits.  Neither checks that the offset is below
`2 ^ 28`, nor `rrcmd` that the BAR number has four bits, so that one pair can be the address of
another.

`Decodes` is what the driver makes of an address, with its own macros, and a command is `Right`
if it is rejected or reaches what was asked for.  Each client's address is computed first, from
the text of any spelling (`doIocmdAddress_pairText`) or from the map of the BARs
(`pyAddress_eq`).  `right_iff` is the common part of the two equivalences: an address that is
right whenever the fields are in range is right exactly then, if the driver lets it through,
since 32 bits that are decoded to a pair have it in range (`Decodes.lt`).
-/

namespace Gn4124Core

open CLang

namespace Rawrabbit

/-! ## The clients -/

/-- `"%x:%x%s"`. -/
def addrFormat : List Directive := [.hex, .literal ':', .hex, .word]

/-- `do_iocmd` of `rrcmd.c`, as far as the address is concerned: from the argument to the field
`address` of the command. -/
def doIocmdAddress (m : DataModel) (addr : List Char) : Except Errno (BitVec 32) :=
  if 32 ≤ addr.length then .error .einval
  else
    match sscanf m addrFormat addr with
    | [.number bar, .number offset] =>
        let address := BitVec.ofNat 32 offset ||| rrSetBar (BitVec.ofNat 32 bar)
        if rrIsValidBar m address.toNat then .ok address else .error .einval
    | _ => .error .einval

/-- `bar_map` of `rr.py`. -/
def barMap : ℕ → Option ℕ
  | 0 => some rrBar0
  | 2 => some rrBar2
  | 4 => some rrBar4
  | 0xc => some rrBarBuf
  | _ => none

/-- The field `address` in `iread` and `iwrite`; without an entry in the map, an exception. -/
def pyAddress (bar offset : ℕ) : Option (BitVec 32) :=
  (barMap bar).map fun start => BitVec.ofNat 32 (start + offset)

/-! ## What becomes of an address -/

/-- A driver, and a command but for its address. -/
structure Request (m : DataModel) where
  rrBufsize : Bufsize m
  dev : Areas
  kern : Machine Region
  cmd : RrCmd
  datasize : BitVec 32
  data : List Byte
  length_data : data.length = 8

namespace Request

variable {m : DataModel} (q : Request m)

def iocmd (address : BitVec 32) : RrIocmd := ⟨address, q.datasize, q.data, q.length_data⟩

/-- The driver returns an error. -/
def Rejects (address : BitVec 32) : Prop :=
  ∃ out e, rrDoIocmd q.dev (q.iocmd address) q.kern q.rrBufsize q.cmd = some out ∧
    out.ret = .error e

/-- The checks of the driver let the command through, to whatever area. -/
def Admits (address : BitVec 32) : Prop :=
  ∃ r, LetThrough q.rrBufsize q.dev (q.iocmd address) r

/-- The driver takes the address for this BAR and this offset. -/
def Decodes (m : DataModel) (address : BitVec 32) (bar offset : ℕ) : Prop :=
  rrIsValidBar m address.toNat = true ∧ rrGetBar address.toNat = bar ∧
    rrGetOff address.toNat = offset

/-- The command is rejected, or reaches what was asked for. -/
def Right (address : BitVec 32) (bar offset : ℕ) : Prop :=
  q.Rejects address ∨ Decodes m address bar offset

variable {q} {address : BitVec 32} {bar offset : ℕ}

theorem rejects_iff : q.Rejects address ↔ ¬ q.Admits address := by
  constructor
  · rintro ⟨out, e, hout, he⟩ ⟨r, h⟩
    rw [rrDoIocmd_letThrough h] at hout
    split at hout
    · injection hout with hout
      rw [← hout, transfer_ret] at he
      cases he
    · cases hout
  · intro h
    obtain ⟨e, he⟩ := rrDoIocmd_refused q.kern q.cmd h
    exact ⟨_, e, he, rfl⟩

theorem Admits.valid (h : q.Admits address) : rrIsValidBar m address.toNat = true := by
  obtain ⟨r, h⟩ := h
  rw [rrIsValidBar_iff, barCode_of_lt address.isLt]
  by_contra hcode
  have hnamed := h.named
  rw [show (q.iocmd address).address = address from rfl, namedArea_invalid hcode] at hnamed
  cases hnamed

/-- An address of 32 bits has a BAR number of four bits and an offset of 28. -/
theorem Decodes.lt (h : Decodes m address bar offset) : bar < 16 ∧ offset < 2 ^ 28 := by
  obtain ⟨-, rfl, rfl⟩ := h
  refine ⟨?_, rrGetOff_lt _⟩
  have hlt := address.isLt
  rw [rrGetBar_eq]
  omega

/-- Where the address is the BAR and the offset side by side, it is decoded to these. -/
theorem decodes_of_eq (hoffset : offset < 2 ^ 28)
    (haddress : address.toNat = bar * 2 ^ 28 + offset)
    (hvalid : rrIsValidBar m address.toNat = true) : Decodes m address bar offset := by
  refine ⟨hvalid, ?_, ?_⟩
  · rw [haddress, rrGetBar_eq_of_add hoffset]
  · rw [haddress, rrGetOff_eq_of_add hoffset]

/-- An address that is right whenever the fields are in range is right exactly then, if the
driver lets it through. -/
theorem right_iff (hexact : bar < 16 → offset < 2 ^ 28 → address.toNat = bar * 2 ^ 28 + offset) :
    q.Right address bar offset ↔ (q.Admits address → bar < 16 ∧ offset < 2 ^ 28) := by
  unfold Right
  rw [rejects_iff]
  constructor
  · rintro (hrejected | hdecodes) hadmits
    · exact absurd hadmits hrejected
    · exact hdecodes.lt
  · intro h
    by_cases hadmits : q.Admits address
    · obtain ⟨hbar, hoffset⟩ := h hadmits
      exact .inr (decodes_of_eq hoffset (hexact hbar hoffset) hadmits.valid)
    · exact .inl hadmits

end Request

/-! ## The address of `rrcmd` -/

section Rrcmd

variable {m : DataModel} {bar offset : ℕ} {bs os : List Char}

/-- The pair as it is written on the command line. -/
def pairText (bs os : List Char) : List Char := bs ++ ':' :: os

/-- The offset, or-ed with the BAR number in the four high bits. -/
def orAddress (bar offset : ℕ) : BitVec 32 :=
  BitVec.ofNat 32 offset ||| rrSetBar (BitVec.ofNat 32 bar)

theorem sscanf_pairText (hbar : Spelled bar bs) (hoffset : Spelled offset os)
    (hbar_lt : bar < 2 ^ 32) (hoffset_lt : offset < 2 ^ 32) :
    sscanf m addrFormat (pairText bs os) = [.number bar, .number offset] := by
  have hbits := two_pow_32_le m
  have hcolon : EndsNumber (':' :: os) := endsNumber_cons ⟨by decide, by decide, by decide⟩
  have hfirst := scanHex_spelled (m := m) hbar hcolon (by omega)
  have hsecond := scanHex_spelled (m := m) hoffset endsNumber_nil (by omega)
  rw [List.append_nil] at hsecond
  rw [addrFormat, pairText, sscanf_hex hfirst, sscanf_literal, sscanf_hex hsecond, sscanf_word_nil]

/-- `rrcmd` makes an address of every pair that it can take up and whose BAR number is valid. -/
theorem doIocmdAddress_pairText (hbar : Spelled bar bs) (hoffset : Spelled offset os)
    (hbar_lt : bar < 2 ^ 32) (hoffset_lt : offset < 2 ^ 32) :
    doIocmdAddress m (pairText bs os) =
      if (pairText bs os).length < 32 ∧ rrIsValidBar m (orAddress bar offset).toNat = true then
        .ok (orAddress bar offset)
      else .error .einval := by
  unfold doIocmdAddress
  rw [sscanf_pairText hbar hoffset hbar_lt hoffset_lt]
  by_cases hlength : 32 ≤ (pairText bs os).length
  · rw [if_pos hlength, if_neg fun h => by omega]
  · rw [if_neg hlength]
    by_cases hvalid : rrIsValidBar m (orAddress bar offset).toNat = true
    · rw [if_pos ⟨by omega, hvalid⟩]
      exact if_pos hvalid
    · rw [if_neg fun h => hvalid h.2]
      exact if_neg hvalid

/-- The fields do not overlap where they are in range. -/
theorem orAddress_toNat (hbar : bar < 16) (hoffset : offset < 2 ^ 28) :
    (orAddress bar offset).toNat = bar * 2 ^ 28 + offset := by
  have hshift : bar <<< 28 = bar * 2 ^ 28 := Nat.shiftLeft_eq bar 28
  have hor := Nat.shiftLeft_add_eq_or_of_lt hoffset bar
  have hlow : offset % 2 ^ 32 = offset := Nat.mod_eq_of_lt (by omega)
  have hhigh : bar % 2 ^ 32 = bar := Nat.mod_eq_of_lt (by omega)
  have hwhole : (bar <<< 28) % 2 ^ 32 = bar <<< 28 := Nat.mod_eq_of_lt (by rw [hshift]; omega)
  unfold orAddress rrSetBar
  rw [BitVec.toNat_or, BitVec.toNat_shiftLeft, BitVec.toNat_ofNat, BitVec.toNat_ofNat, hlow, hhigh,
    hwhole, Nat.or_comm, ← hor, hshift]

end Rrcmd

/-! ## The address of `rr.py` -/

section Python

variable {bar offset : ℕ}

theorem barMap_eq (hbar : bar ∈ [0, 2, 4, 12]) : barMap bar = some (bar * 2 ^ 28) := by
  rcases barNumber_cases hbar with rfl | rfl | rfl | rfl <;> decide

theorem pyAddress_eq (hbar : bar ∈ [0, 2, 4, 12]) :
    pyAddress bar offset = some (BitVec.ofNat 32 (bar * 2 ^ 28 + offset)) := by
  rw [pyAddress, barMap_eq hbar]
  rfl

theorem pyAddress_toNat (hbar : bar < 16) (hoffset : offset < 2 ^ 28) :
    (BitVec.ofNat 32 (bar * 2 ^ 28 + offset)).toNat = bar * 2 ^ 28 + offset := by
  rw [BitVec.toNat_ofNat]
  exact Nat.mod_eq_of_lt (by omega)

end Python

/-! ## Whether the clients and the driver agree -/

section Agreement

variable {m : DataModel} (q : Request m) (bar offset : ℕ)

/-- A command of `rrcmd` is rejected, or reaches the register of its pair. -/
def RrcmdRight (bs os : List Char) : Prop :=
  ∀ address, doIocmdAddress m (pairText bs os) = .ok address → q.Right address bar offset

/-- So is one of `rr.py`. -/
def PyRight : Prop := ∀ address, pyAddress bar offset = some address → q.Right address bar offset

/-- The fields of a pair are in range. -/
def InRange : Prop := bar < 16 ∧ offset < 2 ^ 28

variable {q bar offset} {bs os : List Char}

theorem rrcmdRight_iff (hbar : Spelled bar bs) (hoffset : Spelled offset os)
    (hbar_lt : bar < 2 ^ 32) (hoffset_lt : offset < 2 ^ 32) :
    RrcmdRight q bar offset bs os ↔
      ((pairText bs os).length < 32 → q.Admits (orAddress bar offset) → InRange bar offset) := by
  have hright : q.Right (orAddress bar offset) bar offset ↔
      (q.Admits (orAddress bar offset) → InRange bar offset) := Request.right_iff orAddress_toNat
  unfold RrcmdRight
  rw [doIocmdAddress_pairText hbar hoffset hbar_lt hoffset_lt]
  constructor
  · intro h hlength hadmits
    have hpair := h _ (if_pos ⟨hlength, hadmits.valid⟩)
    exact hright.mp hpair hadmits
  · intro h address haddress
    split at haddress
    · next hpair =>
        injection haddress with haddress
        rw [← haddress]
        exact hright.mpr (h hpair.1)
    · cases haddress

theorem pyRight_iff (hbar : bar ∈ [0, 2, 4, 12]) :
    PyRight q bar offset ↔
      (q.Admits (BitVec.ofNat 32 (bar * 2 ^ 28 + offset)) → offset < 2 ^ 28) := by
  have hlt : bar < 16 := by
    have hcases := barNumber_cases hbar
    omega
  have hright : q.Right (BitVec.ofNat 32 (bar * 2 ^ 28 + offset)) bar offset ↔
      (q.Admits (BitVec.ofNat 32 (bar * 2 ^ 28 + offset)) → InRange bar offset) :=
    Request.right_iff pyAddress_toNat
  unfold PyRight
  rw [pyAddress_eq hbar]
  constructor
  · intro h hadmits
    exact (hright.mp (h _ rfl) hadmits).2
  · intro h address haddress
    injection haddress with haddress
    rw [← haddress]
    exact hright.mpr fun hadmits => ⟨hlt, h hadmits⟩

/-- In range the two clients make the same address. -/
theorem clients_same_address (hbar : bar ∈ [0, 2, 4, 12]) (hrange : InRange bar offset) :
    pyAddress bar offset = some (orAddress bar offset) := by
  rw [pyAddress_eq hbar]
  congr 1
  apply BitVec.eq_of_toNat_eq
  rw [pyAddress_toNat hrange.1 hrange.2, orAddress_toNat hrange.1 hrange.2]

/-- In range the address tells the pair. -/
theorem orAddress_injective {bar' offset' : ℕ} (hrange : InRange bar offset)
    (hrange' : InRange bar' offset') (heq : orAddress bar offset = orAddress bar' offset') :
    bar = bar' ∧ offset = offset' := by
  have hnat := congrArg BitVec.toNat heq
  rw [orAddress_toNat hrange.1 hrange.2, orAddress_toNat hrange'.1 hrange'.2] at hnat
  obtain ⟨-, hoffset⟩ := hrange
  obtain ⟨-, hoffset'⟩ := hrange'
  omega

end Agreement

/-- **When clients and driver agree on an address.**  A command of either client is rejected or
reaches the register of its pair if and only if the driver lets it through for no pair out of
range; and in range both clients make the same address, which no other pair in range has. -/
theorem address_code_iff {m : DataModel} (q : Request m) {bar offset : ℕ} {bs os : List Char}
    (hbar : Spelled bar bs) (hoffset : Spelled offset os) (hbar_lt : bar < 2 ^ 32)
    (hoffset_lt : offset < 2 ^ 32) :
    (RrcmdRight q bar offset bs os ↔
      ((pairText bs os).length < 32 → q.Admits (orAddress bar offset) → InRange bar offset)) ∧
    (bar ∈ [0, 2, 4, 12] → ∀ o, PyRight q bar o ↔
      (q.Admits (BitVec.ofNat 32 (bar * 2 ^ 28 + o)) → o < 2 ^ 28)) ∧
    (bar ∈ [0, 2, 4, 12] → InRange bar offset →
      pyAddress bar offset = some (orAddress bar offset)) ∧
    ∀ bar' offset', InRange bar offset → InRange bar' offset' →
      orAddress bar offset = orAddress bar' offset' → bar = bar' ∧ offset = offset' :=
  ⟨rrcmdRight_iff hbar hoffset hbar_lt hoffset_lt, fun hmem _ => pyRight_iff hmem,
    clients_same_address, fun _ _ => orAddress_injective⟩

/-- A read of four bytes from a device with one BAR of 4 kB. -/
def readWord : Request .lp64 where
  rrBufsize := smallBuffer
  dev := smallDevice
  kern := ⟨fun _ _ => 0, []⟩
  cmd := .rrRead
  datasize := 4#32
  data := List.replicate 8 0
  length_data := length_zeroData

/-- `0:f00`, a register of the BAR. -/
theorem register_pair_right : RrcmdRight readWord 0 0xf00 ['0'] ['f', '0', '0'] := by
  have hbar : Spelled 0 ['0'] := .plain (.of_all (by decide) (by decide)) (by decide)
  have hoffset : Spelled 0xf00 ['f', '0', '0'] :=
    .plain (.of_all (by decide) (by decide)) (by decide)
  exact (address_code_iff readWord hbar hoffset (by decide) (by decide)).1.mpr
    fun _ _ => ⟨by decide, by decide⟩

theorem readWord_admits_zero : readWord.Admits 0#32 :=
  ⟨.mem 0, by decide, by decide, by decide, by decide⟩

/-- `10:0` of `rrcmd`, and offset `0x40000000` in the DMA buffer of `rr.py`, are the first register
of BAR 0. -/
theorem aliased_pairs_not_right :
    ¬ RrcmdRight readWord 16 0 ['1', '0'] ['0'] ∧ ¬ PyRight readWord 12 0x40000000 := by
  constructor
  · rw [rrcmdRight_iff (.plain (.of_all (by decide) (by decide)) (by decide))
      (.plain (.of_all (by decide) (by decide)) (by decide)) (by decide) (by decide)]
    intro h
    have hrange := h (by decide) readWord_admits_zero
    exact absurd hrange.1 (by decide)
  · rw [pyRight_iff (by decide)]
    intro h
    exact absurd (h readWord_admits_zero) (by decide)

end Rawrabbit

end Gn4124Core
