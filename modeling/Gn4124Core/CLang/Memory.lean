import Mathlib.Data.List.GetD
import Mathlib.Data.List.Range
import Mathlib.Tactic.Common
import Mathlib.Tactic.Ring

/-!
# Memory by regions

A pointer is a region and an offset from its start.  A region has no end here: what lies behind
the bytes that belong to it can be read and written like these, and it is a theorem about a
program that it does not.  A `Machine` remembers every byte that was touched.

The lemmas are about stretches of bytes.  A load behind a store is the store's own (`load_store`),
or is not touched by it (`load_store_of_disjoint`), and stretches one behind the other are one
(`store_append`, `Machine.read_add`, `Machine.write_append`).  Numbers are stretches as well, the
low byte first.
-/

namespace CLang

abbrev Byte := BitVec 8

variable {ρ : Type*}

/-- The bytes of a stretch. -/
def span (r : ρ) (off n : ℕ) : List (ρ × ℕ) := (List.range n).map fun k => (r, off + k)

theorem mem_span {r : ρ} {off n : ℕ} {x : ρ × ℕ} :
    x ∈ span r off n ↔ x.1 = r ∧ off ≤ x.2 ∧ x.2 < off + n := by
  obtain ⟨r', a⟩ := x
  simp only [span, List.mem_map, List.mem_range, Prod.mk.injEq]
  constructor
  · rintro ⟨k, hk, rfl, rfl⟩
    exact ⟨rfl, by omega, by omega⟩
  · rintro ⟨rfl, hle, hlt⟩
    exact ⟨a - off, by omega, rfl, by omega⟩

theorem span_add (r : ρ) (off a b : ℕ) :
    span r off (a + b) = span r off a ++ span r (off + a) b := by
  simp [span, List.range_add, Nat.add_assoc]

@[simp] theorem span_zero (r : ρ) (off : ℕ) : span r off 0 = [] := rfl

/-- The contents of all regions. -/
abbrev Memory (ρ : Type*) := ρ → ℕ → Byte

namespace Memory

variable (m : Memory ρ) (r : ρ)

def load (off n : ℕ) : List Byte := (List.range n).map fun k => m r (off + k)

def store [DecidableEq ρ] (off : ℕ) (bs : List Byte) : Memory ρ := fun r' a =>
  if r' = r ∧ off ≤ a ∧ a < off + bs.length then bs.getD (a - off) 0 else m r' a

@[simp] theorem length_load (off n : ℕ) : (m.load r off n).length = n := by
  simp [load]

@[simp] theorem load_zero (off : ℕ) : m.load r off 0 = [] := rfl

theorem load_add (off a b : ℕ) : m.load r off (a + b) = m.load r off a ++ m.load r (off + a) b := by
  simp [load, List.range_add, Nat.add_assoc]

variable [DecidableEq ρ]

/-- What was stored is what is loaded. -/
theorem load_store (off : ℕ) (bs : List Byte) : (m.store r off bs).load r off bs.length = bs := by
  apply List.ext_getElem
  · simp
  · intro k hk hk'
    have hlt : off + k < off + bs.length := by omega
    simp only [load, store, List.getElem_map, List.getElem_range, true_and]
    rw [if_pos ⟨Nat.le_add_right off k, hlt⟩, Nat.add_sub_cancel_left, List.getD_eq_getElem _ _ hk']

/-- The bytes outside of a stretch keep their values. -/
theorem store_of_not_mem {off : ℕ} {bs : List Byte} {r' : ρ} {a : ℕ}
    (h : (r', a) ∉ span r off bs.length) : m.store r off bs r' a = m r' a := by
  rw [mem_span] at h
  exact if_neg h

/-- What is stored behind a stretch or in front of it does not change what is loaded from it. -/
theorem load_store_of_disjoint {off a n : ℕ} {bs : List Byte}
    (h : a + n ≤ off ∨ off + bs.length ≤ a) : (m.store r off bs).load r a n = m.load r a n := by
  apply List.map_congr_left
  intro k hk
  rw [List.mem_range] at hk
  apply store_of_not_mem
  rw [mem_span]
  omega

theorem store_nil (off : ℕ) : m.store r off [] = m := by
  funext r' a
  apply store_of_not_mem
  simp

/-- Two stretches one behind the other are one. -/
theorem store_append (off : ℕ) (as bs : List Byte) :
    (m.store r off as).store r (off + as.length) bs = m.store r off (as ++ bs) := by
  funext r' a
  simp only [store, List.length_append]
  by_cases hr : r' = r
  · by_cases hbelow : a < off + as.length
    · have hnot : ¬ (off + as.length ≤ a ∧ a < off + as.length + bs.length) := by omega
      by_cases hle : off ≤ a
      · have hin : a - off < as.length := by omega
        rw [if_neg (fun h => hnot h.2), if_pos ⟨hr, hle, hbelow⟩, if_pos ⟨hr, hle, by omega⟩,
          List.getD_append _ _ _ _ hin]
      · rw [if_neg (fun h => hnot h.2), if_neg (fun h => hle h.2.1), if_neg (fun h => hle h.2.1)]
    · by_cases hlt : a < off + as.length + bs.length
      · have hge : as.length ≤ a - off := by omega
        rw [if_pos ⟨hr, by omega, hlt⟩, if_pos ⟨hr, by omega, by omega⟩,
          List.getD_append_right _ _ _ _ hge, Nat.sub_sub]
      · rw [if_neg (fun h => hlt h.2.2), if_neg (fun h => hbelow h.2.2),
          if_neg (fun h => hlt (by omega))]
  · rw [if_neg (fun h => hr h.1), if_neg (fun h => hr h.1), if_neg (fun h => hr h.1)]

end Memory

/-- The memory, and every byte that was read or written so far. -/
structure Machine (ρ : Type*) where
  mem : Memory ρ
  touched : List (ρ × ℕ)

namespace Machine

variable (k : Machine ρ) (r : ρ)

/-- The machine after `n` bytes were read. -/
def read (off n : ℕ) : Machine ρ := { k with touched := k.touched ++ span r off n }

def write [DecidableEq ρ] (off : ℕ) (bs : List Byte) : Machine ρ :=
  ⟨k.mem.store r off bs, k.touched ++ span r off bs.length⟩

@[simp] theorem mem_read (off n : ℕ) : (k.read r off n).mem = k.mem := rfl

@[simp] theorem touched_read (off n : ℕ) :
    (k.read r off n).touched = k.touched ++ span r off n := rfl

/-- Two reads one behind the other are one. -/
theorem read_add (off a b : ℕ) : (k.read r off a).read r (off + a) b = k.read r off (a + b) := by
  simp [read, span_add]

variable [DecidableEq ρ]

@[simp] theorem mem_write (off : ℕ) (bs : List Byte) :
    (k.write r off bs).mem = k.mem.store r off bs := rfl

@[simp] theorem touched_write (off : ℕ) (bs : List Byte) :
    (k.write r off bs).touched = k.touched ++ span r off bs.length := rfl

theorem write_append (off : ℕ) (as bs : List Byte) :
    (k.write r off as).write r (off + as.length) bs = k.write r off (as ++ bs) := by
  simp [write, Memory.store_append, span_add]

end Machine

/-! ## Numbers in memory -/

/-- The bytes of a number, the low byte first. -/
def littleEndian : ℕ → ℕ → List Byte
  | 0, _ => []
  | n + 1, v => BitVec.ofNat 8 v :: littleEndian n (v / 256)

/-- The number that bytes stand for. -/
def ofLittleEndian : List Byte → ℕ
  | [] => 0
  | b :: bs => b.toNat + 256 * ofLittleEndian bs

@[simp] theorem length_littleEndian (n v : ℕ) : (littleEndian n v).length = n := by
  induction n generalizing v with
  | zero => rfl
  | succ n ih => rw [littleEndian, List.length_cons, ih]

/-- The low bytes of a number, and those of what is above them. -/
theorem littleEndian_add (a b v : ℕ) :
    littleEndian (a + b) v = littleEndian a v ++ littleEndian b (v / 256 ^ a) := by
  induction a generalizing v with
  | zero => simp [littleEndian]
  | succ a ih =>
      rw [Nat.succ_add, littleEndian, littleEndian, ih, List.cons_append, Nat.div_div_eq_div_mul,
        ← Nat.pow_succ']

/-- Only the low bytes count. -/
theorem littleEndian_mod (n v : ℕ) : littleEndian n (v % 256 ^ n) = littleEndian n v := by
  induction n generalizing v with
  | zero => rfl
  | succ n ih =>
      have hlow : BitVec.ofNat 8 (v % 256 ^ (n + 1)) = BitVec.ofNat 8 v := by
        apply BitVec.eq_of_toNat_eq
        rw [BitVec.toNat_ofNat, BitVec.toNat_ofNat]
        exact Nat.mod_mod_of_dvd v (Dvd.intro_left _ rfl)
      have hhigh : v % 256 ^ (n + 1) / 256 = v / 256 % 256 ^ n := by
        rw [Nat.pow_succ', Nat.mod_mul_right_div_self]
      rw [littleEndian, littleEndian, hlow, hhigh, ih]

theorem littleEndian_zero (n : ℕ) : littleEndian n 0 = List.replicate n 0 := by
  induction n with
  | zero => rfl
  | succ n ih =>
      rw [littleEndian, Nat.zero_div, ih]
      rfl

/-- A number that fits into `a` bytes has zeros above them. -/
theorem littleEndian_of_lt {a v : ℕ} (hv : v < 256 ^ a) (b : ℕ) :
    littleEndian (a + b) v = littleEndian a v ++ List.replicate b 0 := by
  rw [littleEndian_add, Nat.div_eq_of_lt hv, littleEndian_zero]

theorem take_littleEndian (a b v : ℕ) : (littleEndian (a + b) v).take a = littleEndian a v := by
  rw [littleEndian_add]
  exact List.take_left' (length_littleEndian a v)

theorem ofLittleEndian_littleEndian (n v : ℕ) :
    ofLittleEndian (littleEndian n v) = v % 256 ^ n := by
  induction n generalizing v with
  | zero => exact (Nat.mod_one v).symm
  | succ n ih =>
      have hpow : 256 ^ (n + 1) = 256 * 256 ^ n := Nat.pow_succ'
      rw [littleEndian, ofLittleEndian, ih, BitVec.toNat_ofNat, hpow, Nat.mod_mul]

theorem ofLittleEndian_append (as bs : List Byte) :
    ofLittleEndian (as ++ bs) = ofLittleEndian as + 256 ^ as.length * ofLittleEndian bs := by
  induction as with
  | nil => simp [ofLittleEndian]
  | cons a as ih =>
      rw [List.cons_append, ofLittleEndian, ofLittleEndian, ih, List.length_cons, Nat.pow_succ']
      ring

theorem ofLittleEndian_lt (bs : List Byte) : ofLittleEndian bs < 256 ^ bs.length := by
  induction bs with
  | nil => exact Nat.one_pos
  | cons b bs ih =>
      have hb : b.toNat < 256 := b.isLt
      rw [ofLittleEndian, List.length_cons, Nat.pow_succ']
      omega

end CLang
