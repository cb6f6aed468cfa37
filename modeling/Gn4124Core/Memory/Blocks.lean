import Mathlib.Algebra.BigOperators.Group.List.Basic
import Mathlib.Data.List.Basic
import Mathlib.Data.List.Induction
import Mathlib.Tactic.Common

/-!
# Blocks of words in a memory

A memory of words `α` with addresses of `w` bits is a function, and `store mem a ws` is the memory
in which the words `ws` stand from `a` on, around the end of the address space if need be.  Two
blocks that are stored one behind the other are one block (`store_append`), and so are any number
of blocks of one size (`foldl_store`).
-/

namespace Blocks

variable {w : ℕ} {α β : Type*}

/-- The words `ws` are stored from the address `a` on. -/
def store (mem : BitVec w → α) (a : BitVec w) (ws : List α) : BitVec w → α :=
  fun x => ws[(x - a).toNat]?.getD (mem x)

variable {mem : BitVec w → α} {a x : BitVec w} {us vs : List α} {n : ℕ}

@[simp] theorem store_nil : store mem a [] = mem := rfl

/-- The distance to a block that begins `k` words later. -/
theorem toNat_sub_add {k : ℕ} (hk : k < 2 ^ w) :
    (x - (a + BitVec.ofNat w k)).toNat =
      if k ≤ (x - a).toNat then (x - a).toNat - k else (x - a).toNat + 2 ^ w - k := by
  have hlt := (x - a).isLt
  rw [← BitVec.sub_sub, BitVec.toNat_sub, BitVec.toNat_ofNat, Nat.mod_eq_of_lt hk]
  split
  · next hle =>
      have hsum : 2 ^ w - k + (x - a).toNat = ((x - a).toNat - k) + 2 ^ w := by omega
      rw [hsum, Nat.add_mod_right, Nat.mod_eq_of_lt (by omega)]
  · rw [Nat.mod_eq_of_lt (by omega)]
    omega

/-- One block behind the other. -/
theorem store_append (h : us.length + vs.length ≤ 2 ^ w) :
    store (store mem a us) (a + BitVec.ofNat w us.length) vs = store mem a (us ++ vs) := by
  cases hvs : vs with
  | nil => simp
  | cons v rest =>
      rw [← hvs]
      have hpos : 0 < vs.length := by simp [hvs]
      funext x
      have hdist := toNat_sub_add (a := a) (x := x) (k := us.length) (by omega)
      simp only [store, hdist]
      split
      · next hle => rw [List.getElem?_append_right hle, List.getElem?_eq_none hle, Option.getD_none]
      · next hlt =>
          -- the second block ends before it comes around to `x`
          rw [List.getElem?_eq_none (l := vs) (by omega), Option.getD_none,
            List.getElem?_append_left (Nat.lt_of_not_le hlt)]

/-- **Blocks of one size.**  Every `b` stores its words where the blocks of `n` words before it
end; only the last one may be shorter. -/
theorem foldl_store {write : (BitVec w → α) → β → BitVec w → α} {words : β → List α} {bs : List β}
    (hwrite : ∀ k b, bs[k]? = some b → ∀ mem,
      write mem b = store mem (a + BitVec.ofNat w (n * k)) (words b))
    (hfull : ∀ k b, bs[k]? = some b → k + 1 < bs.length → (words b).length = n)
    (hfits : (bs.flatMap words).length ≤ 2 ^ w) :
    bs.foldl write mem = store mem a (bs.flatMap words) := by
  induction bs using List.reverseRecOn with
  | nil => rfl
  | append_singleton bs b ih =>
      rw [List.flatMap_append, List.length_append, List.flatMap_singleton] at hfits
      have hearlier : ∀ k c, bs[k]? = some c → (bs ++ [b])[k]? = some c ∧ k < bs.length := by
        intro k c hc
        have hk := (List.getElem?_eq_some_iff.mp hc).1
        exact ⟨by rw [List.getElem?_append_left hk, hc], hk⟩
      have hlength : (bs.flatMap words).length = n * bs.length := by
        have hall : ∀ c ∈ bs, (words c).length = n := by
          intro c hc
          obtain ⟨k, hk⟩ := List.getElem?_of_mem hc
          obtain ⟨hsame, hlt⟩ := hearlier k c hk
          exact hfull k c hsame (by simpa using hlt)
        rw [List.length_flatMap, List.map_congr_left hall, List.map_const', List.sum_replicate,
          Nat.nsmul_eq_mul, Nat.mul_comm]
      have hbefore := ih (fun k c hc => hwrite k c (hearlier k c hc).1)
        (fun k c hc hk => hfull k c (hearlier k c hc).1 (by simp; omega)) (by omega)
      rw [List.foldl_append, List.foldl_cons, List.foldl_nil, hbefore,
        hwrite bs.length b (List.getElem?_concat_length ..), ← hlength, store_append hfits,
        List.flatMap_append, List.flatMap_singleton]

end Blocks
