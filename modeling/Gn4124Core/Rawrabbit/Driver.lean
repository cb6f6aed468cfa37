import Gn4124Core.CLang.Memory
import Gn4124Core.Rawrabbit.Header

/-!
# `rawrabbit.c`: the access to the device

`rr_read`, `rr_write` and the ioctl commands `RR_READ` and `RR_WRITE`.  A function that would
follow a NULL pointer or an index outside of its array has no result here (`none`).  Bytes
behind the end of the DMA buffer or of a BAR area can be touched, as in the kernel.  The BAR
areas are memory whose contents change only by writes, on a little-endian machine.
-/

namespace Gn4124Core

open CLang

namespace Rawrabbit

/-- The error codes of the driver. -/
inductive Errno where
  | eio
  | eagain
  | efault
  | ebusy
  | enodev
  | einval
  | enospc
  | enomedium
  | erestartsys
deriving DecidableEq

/-- A `struct resource` that the PCI core has assigned. -/
structure Resource where
  start : ℕ
  last : ℕ
  ioresourceMem : Bool
  ioresourceIo : Bool
  start_pos : 0 < start
  start_le : start ≤ last
  last_lt : last < 2 ^ 64

namespace Resource

variable (r : Resource)

/-- The bytes of the area. -/
def length : ℕ := r.last + 1 - r.start

/-- `r->end - r->start + 1`. -/
def size : ℕ := toU64 (r.last - r.start + 1)

/-- `r->end + 1 - r->start`, in an `int`. -/
def intSize : ℤ := toInt (toU64 (r.last + 1 - r.start))

theorem size_eq : r.size = r.length := by
  have hpos := r.start_pos
  have hle := r.start_le
  have hlt := r.last_lt
  have hcast : (r.last - r.start + 1 : ℤ) = (r.length : ℕ) := by
    unfold length
    omega
  rw [size, hcast]
  apply toU64_natCast
  unfold length
  omega

theorem intSize_eq : r.intSize = toInt r.length := by
  have hpos := r.start_pos
  have hle := r.start_le
  have hlt := r.last_lt
  have hcast : (r.last + 1 - r.start : ℤ) = (r.length : ℕ) := by
    unfold length
    omega
  rw [intSize, hcast, toU64_natCast]
  unfold length
  omega

end Resource

/-- `rr_bufsize`, once the module has been loaded. -/
structure Bufsize (m : DataModel) where
  val : ℕ
  pos : 0 < val
  le : val ≤ rrMaxBufsize m

/-- The buffer size that `rr_init` uses for the module parameter `bufsize`, an `int`: the
comparison with `RR_MAX_BUFSIZE` is one of unsigned numbers, and of no byte there is no buffer. -/
def rrInitBufsize (m : DataModel) (bufsize : ℤ) : Option (Bufsize m) :=
  let used := if rrMaxBufsize m < toUlong m bufsize then rrMaxBufsize m else toUlong m bufsize
  if h : 0 < used ∧ used ≤ rrMaxBufsize m then some ⟨used, h.1, h.2⟩ else none

theorem rrMaxBufsize_le (m : DataModel) : rrMaxBufsize m ≤ 2 ^ 22 := by
  cases m <;> decide

/-- A size from 1 to `RR_MAX_BUFSIZE` is used as it is. -/
theorem rrInitBufsize_val {m : DataModel} (b : Bufsize m) : rrInitBufsize m b.val = some b := by
  have hle := b.le
  have hmax := rrMaxBufsize_le m
  have hbits := two_pow_32_le m
  have hused : toUlong m b.val = b.val := toUlong_eq (by omega)
  simp only [rrInitBufsize, hused, if_neg (not_lt.mpr hle)]
  exact dif_pos ⟨b.pos, hle⟩

/-- Where the driver reads and writes: the DMA buffer, the mapping of a BAR, its I/O ports. -/
inductive Region where
  | dmabuf
  | mem (bar : Fin 3)
  | port (bar : Fin 3)
deriving DecidableEq

/-- What the driver knows of the BAR areas 0, 2 and 4: the resources, and which are mapped. -/
structure Areas where
  area : Fin 3 → Option Resource
  remap : Fin 3 → Bool
  mapped : ∀ i, remap i = true → ∃ r, area i = some r ∧ r.ioresourceMem = true

namespace Areas

/-- No device. -/
def none : Areas := ⟨fun _ => .none, fun _ => false, fun _ h => absurd h Bool.false_ne_true⟩

/-- The loop of `rr_pciprobe` over the three BARs.  `ioremap` may fail. -/
def probe (resource : Fin 3 → Option Resource) (ioremap : Fin 3 → Bool) : Areas where
  area := resource
  remap := fun i =>
    match resource i with
    | some r => r.ioresourceMem && ioremap i
    | .none => false
  mapped := by
    intro i h
    cases hr : resource i with
    | none => simp [hr] at h
    | some r =>
        simp only [hr, Bool.and_eq_true] at h
        exact ⟨r, rfl, h.1⟩

end Areas

/-- The element of `area` or `remap` at an index. -/
def barIndex (bar : ℤ) : Option (Fin 3) :=
  if h : 0 ≤ bar ∧ bar < 3 then some ⟨bar.toNat, by omega⟩ else none

/-! ## `rr_read` and `rr_write` -/

/-- The return value, the file position, what has arrived in the user's buffer, and the machine. -/
structure FileOut where
  ret : Except Errno ℤ
  offp : ℕ
  user : List Byte
  kern : Machine Region

section FileOps

variable (m : DataModel) (rrBufsize : Bufsize m) (dev : Areas) (k : Machine Region) (pos : ℕ)

/-- Return without a transfer. -/
def noTransfer (ret : Except Errno ℤ) : FileOut := ⟨ret, pos, [], k⟩

/-- `*offp += count; return count;` -/
def transferred (count : ℕ) (user : List Byte) (kern : Machine Region) : FileOut :=
  ⟨.ok (toLong m count), toU64 (pos + count), user, kern⟩

/-- `copy_to_user`, where `avail` bytes of the user's buffer can be accessed. -/
def copyToUser (avail : ℕ) (r : Region) (off count : ℕ) : FileOut :=
  if count ≤ avail then transferred m pos count (k.mem.load r off count) (k.read r off count)
  else ⟨.error .efault, pos, k.mem.load r off avail, k.read r off avail⟩

/-- `put_user` of a value that has been read with one access. -/
def putUser (avail : ℕ) (r : Region) (off width : ℕ) : FileOut :=
  if width ≤ avail then transferred m pos width (k.mem.load r off width) (k.read r off width)
  else ⟨.error .efault, pos, [], k.read r off width⟩

/-- `copy_from_user`, where only `buf` can be accessed; the rest of the destination is zeroed. -/
def copyFromUser (buf : List Byte) (r : Region) (off count : ℕ) : FileOut :=
  if count ≤ buf.length then transferred m pos count [] (k.write r off (buf.take count))
  else ⟨.error .efault, pos, [], k.write r off (buf ++ List.replicate (count - buf.length) 0)⟩

/-- `get_user` into a local variable, and one access that writes it. -/
def getUser (buf : List Byte) (r : Region) (off width : ℕ) : FileOut :=
  if width ≤ buf.length then transferred m pos width [] (k.write r off (buf.take width))
  else noTransfer k pos (.error .efault)

/-- The `switch` of `rr_read`: a single access for 1, 2, 4 and 8 bytes. -/
def sizedRead (avail : ℕ) (r : Region) (off : ℕ) : ℕ → FileOut
  | 1 => putUser m k pos avail r off 1
  | 2 => putUser m k pos avail r off 2
  | 4 => putUser m k pos avail r off 4
  | 8 => putUser m k pos avail r off 8
  | count => copyToUser m k pos avail r off count

/-- The `switch` of `rr_write`. -/
def sizedWrite (buf : List Byte) (r : Region) (off : ℕ) : ℕ → FileOut
  | 1 => getUser m k pos buf r off 1
  | 2 => getUser m k pos buf r off 2
  | 4 => getUser m k pos buf r off 4
  | 8 => getUser m k pos buf r off 8
  | count => copyFromUser m k pos buf r off count

/-- The count, clipped to a DMA buffer of this size. -/
def clipBuf (off count : ℕ) : ℕ :=
  if toUlong m (off + count) > toUlong m rrBufsize.val then toUlong m (rrBufsize.val - off)
  else count

/-- The count, clipped to an area of this size. -/
def clipArea (size : ℤ) (off count : ℕ) : ℕ :=
  if toUlong m (count + off) > toUlong m size then toUlong m (size - off) else count

def rrRead (avail count : ℕ) : Option FileOut :=
  let off := rrGetOff pos
  if !rrIsValidBar m pos then some (noTransfer k pos (.error .einval))
  else if rrIsDmabuf pos then
    if off ≥ rrBufsize.val then some (noTransfer k pos (.ok 0))
    else some (copyToUser m k pos avail .dmabuf off (clipBuf m rrBufsize off count))
  else do
    let bar ← barIndex (toInt (rrGetBar pos / 2))
    if !dev.remap bar then some (noTransfer k pos (.error .einval))
    else
      let r ← dev.area bar
      let size := r.intSize
      if off ≥ size then some (noTransfer k pos (.error .eio))
      else
        some (sizedRead m k pos avail (.mem bar) off (clipArea m size off count))

def rrWrite (buf : List Byte) (count : ℕ) : Option FileOut :=
  let off := rrGetOff pos
  if !rrIsValidBar m pos then some (noTransfer k pos (.error .einval))
  else if rrIsDmabuf pos then
    if off ≥ rrBufsize.val then some (noTransfer k pos (.error .enospc))
    else some (copyFromUser m k pos buf .dmabuf off (clipBuf m rrBufsize off count))
  else do
    let bar ← barIndex (toInt (rrGetBar pos / 2))
    if !dev.remap bar then some (noTransfer k pos (.error .einval))
    else
      let r ← dev.area bar
      let size := r.intSize
      if off ≥ size then some (noTransfer k pos (.error .eio))
      else
        some (sizedWrite m k pos buf (.mem bar) off (clipArea m size off count))

end FileOps

/-! ## `RR_READ` and `RR_WRITE` -/

/-- `struct rr_iocmd`; the bytes are those of the union, so that a member of `n` bytes is the
first `n` of them. -/
structure RrIocmd where
  address : BitVec 32
  datasize : BitVec 32
  data : List Byte
  length_data : data.length = 8

/-- Eight bytes that are zero. -/
theorem length_zeroData : (List.replicate 8 (0 : Byte)).length = 8 := rfl

namespace RrIocmd

variable (iocmd : RrIocmd)

/-- The member of this width. -/
def member (width : ℕ) : List Byte := iocmd.data.take width

/-- The member of as many bytes as are stored in it. -/
def setMember (bs : List Byte) : RrIocmd where
  address := iocmd.address
  datasize := iocmd.datasize
  data := bs.take 8 ++ iocmd.data.drop bs.length
  length_data := by
    rw [List.length_append, List.length_take, List.length_drop, iocmd.length_data]
    omega

theorem length_member {width : ℕ} (hwidth : width ≤ 8) : (iocmd.member width).length = width := by
  apply List.length_take_of_le
  rwa [iocmd.length_data]

theorem member_setMember {bs : List Byte} (hle : bs.length ≤ 8) :
    (iocmd.setMember bs).member bs.length = bs := by
  show (bs.take 8 ++ iocmd.data.drop bs.length).take bs.length = bs
  rw [List.take_of_length_le hle, List.take_left]

end RrIocmd

/-- The commands that take an `rr_iocmd`. -/
inductive RrCmd where
  | rrRead
  | rrWrite
deriving DecidableEq

structure IocmdOut where
  ret : Except Errno ℤ
  iocmd : RrIocmd
  kern : Machine Region

section Iocmd

variable (dev : Areas) (iocmd : RrIocmd) (k : Machine Region)

/-- Return an error. -/
def refuse (e : Errno) : Option IocmdOut := some ⟨.error e, iocmd, k⟩

/-- The `switch` over the data size, with the checks of the alignment. -/
def sized (off : ℕ) (access : ℕ → Option IocmdOut) : Option IocmdOut :=
  match iocmd.datasize.toNat with
  | 1 => access 1
  | 2 => if off &&& 1 ≠ 0 then refuse iocmd k .eio else access 2
  | 4 => if off &&& 3 ≠ 0 then refuse iocmd k .eio else access 4
  | 8 => if off &&& 7 ≠ 0 then refuse iocmd k .eio else access 8
  | _ => refuse iocmd k .einval

/-- A member of the union takes what is read. -/
def fetch (r : Region) (off width : ℕ) : IocmdOut :=
  ⟨.ok 0, iocmd.setMember (k.mem.load r off width), k.read r off width⟩

/-- A member of the union is written. -/
def deposit (r : Region) (off width : ℕ) : IocmdOut :=
  ⟨.ok 0, iocmd, k.write r off (iocmd.member width)⟩

/-- The body of the four helpers for a BAR: they differ in the access. -/
def rrDoBar (access : Fin 3 → ℕ → ℕ → Option IocmdOut) : Option IocmdOut := do
  let bar ← barIndex (toInt (rrGetBar iocmd.address.toNat / 2))
  let off := rrGetOff iocmd.address.toNat
  let r ← dev.area bar
  if off ≥ r.size then refuse iocmd k .enomedium
  else sized iocmd k off (access bar off)

def rrDoReadMem : Option IocmdOut :=
  rrDoBar dev iocmd k fun bar off width =>
    if dev.remap bar then some (fetch iocmd k (.mem bar) off width) else none

def rrDoWriteMem : Option IocmdOut :=
  rrDoBar dev iocmd k fun bar off width =>
    if dev.remap bar then some (deposit iocmd k (.mem bar) off width) else none

/-- 64 bits are two accesses to the ports, the low word first. -/
def rrDoReadIo : Option IocmdOut :=
  rrDoBar dev iocmd k fun bar off width =>
    if width = 8 then
      let low := k.mem.load (.port bar) off 4
      let high := k.mem.load (.port bar) (off + 4) 4
      some ⟨.ok 0, iocmd.setMember (low ++ high),
        (k.read (.port bar) off 4).read (.port bar) (off + 4) 4⟩
    else some (fetch iocmd k (.port bar) off width)

def rrDoWriteIo : Option IocmdOut :=
  rrDoBar dev iocmd k fun bar off width =>
    if width = 8 then
      let low := (iocmd.member 8).take 4
      let high := (iocmd.member 8).drop 4
      some ⟨.ok 0, iocmd,
        (k.write (.port bar) off low).write (.port bar) (off + 4) high⟩
    else some (deposit iocmd k (.port bar) off width)

variable {m : DataModel} (rrBufsize : Bufsize m) (cmd : RrCmd)

def rrDoIocmdDmabuf : Option IocmdOut :=
  let off := rrGetOff iocmd.address.toNat
  if off ≥ rrBufsize.val then refuse iocmd k .enomedium
  else
    sized iocmd k off fun width =>
      match cmd with
      | .rrWrite => some (deposit iocmd k .dmabuf off width)
      | .rrRead => some (fetch iocmd k .dmabuf off width)

def rrDoIocmd : Option IocmdOut :=
  if !rrIsValidBar m iocmd.address.toNat then refuse iocmd k .einval
  else if rrIsDmabufBar m iocmd.address.toNat then rrDoIocmdDmabuf iocmd k rrBufsize cmd
  else do
    let bar ← barIndex (toInt (rrGetBar iocmd.address.toNat) / 2)
    match dev.area bar with
    | none => refuse iocmd k .enodev
    | some r =>
        if r.ioresourceMem then
          match cmd with
          | .rrRead => rrDoReadMem dev iocmd k
          | .rrWrite => rrDoWriteMem dev iocmd k
        else if r.ioresourceIo then
          match cmd with
          | .rrRead => rrDoReadIo dev iocmd k
          | .rrWrite => rrDoWriteIo dev iocmd k
        else refuse iocmd k .eio

end Iocmd

end Rawrabbit

end Gn4124Core
