import Mathlib.Data.Bool.Basic
import Mathlib.Data.List.Basic
import Mathlib.Tactic.Common

/-!
# A chain of registers that carries toggles

A pulse crosses into another clock domain as a change of a level.  The level goes through a
chain of registers, and a change at the end of the chain is a pulse again.  What is inside the
chain is told by the neighbours that differ: a toggle at the front makes one more such pair if
the first two were equal (`changes_toggle`), and a shift takes one away exactly if the last two
differed (`changes_shift`).
-/

namespace Clocked

/-- How many neighbours of the chain differ. -/
def changes : List Bool → ℕ
  | a :: b :: rest => (a ^^ b).toNat + changes (b :: rest)
  | _ => 0

@[simp] theorem changes_singleton (a : Bool) : changes [a] = 0 := rfl

@[simp] theorem changes_cons_cons (a b : Bool) (rest : List Bool) :
    changes (a :: b :: rest) = (a ^^ b).toNat + changes (b :: rest) := rfl

/-- A toggle of the level that the first register has already taken. -/
theorem changes_toggle (a : Bool) (rest : List Bool) :
    changes ((!a) :: a :: rest) = changes (a :: a :: rest) + 1 := by
  rw [changes_cons_cons, changes_cons_cons]
  cases a <;> simp [Nat.add_comm]

theorem changes_append_pair (chain : List Bool) (a b : Bool) :
    changes (chain ++ [a, b]) = changes (chain ++ [a]) + (a ^^ b).toNat := by
  induction chain with
  | nil => simp
  | cons c rest ih =>
      cases rest with
      | nil => simp
      | cons d rest =>
          simp only [List.cons_append, changes_cons_cons] at ih ⊢
          rw [ih, Nat.add_assoc]

/-- An edge of the clock of the chain: the first register takes the level, the others move on,
and what the last one held goes. -/
theorem changes_shift (level : Bool) (chain : List Bool) (a b : Bool) :
    changes (level :: level :: (chain ++ [a])) + (a ^^ b).toNat =
      changes (level :: (chain ++ [a, b])) := by
  calc changes (level :: level :: (chain ++ [a])) + (a ^^ b).toNat
      = changes ((level :: chain) ++ [a]) + (a ^^ b).toNat := by simp
    _ = changes ((level :: chain) ++ [a, b]) := (changes_append_pair _ a b).symm
    _ = changes (level :: (chain ++ [a, b])) := by rw [List.cons_append]

end Clocked
