import Mathlib.Data.List.Basic
import Mathlib.Data.List.Infix
import Mathlib.Logic.Function.Basic
import Mathlib.Tactic.Common

/-!
# Operations one after the other

What an object does is told by the state that each operation leaves and by what it answers
(`Sequential`).  An operation takes some time, but the next one begins only after the answer of
the last.  `Serves` says of the operations that have begun and of the answers that were given
that they agree with the object, and which operations are still to be answered.

Several objects behind one bus are again an object, if each operation goes to one of them
(`routed`).  Its answers are right as soon as those of each part are, whatever the order in which
the operations go to the different parts (`agrees_routed`).
-/

namespace RegisterBus

variable {σ ω ω' β : Type*}

/-- An object that is used by one operation after the other; `none` leaves the answer open. -/
structure Sequential (σ ω β : Type*) where
  next : σ → ω → σ
  answer : σ → ω → Option β

namespace Sequential

/-- An answer that the object can give. -/
def Allows (expected : Option β) (given : β) : Prop := ∀ v ∈ expected, given = v

variable (obj : Sequential σ ω β)

/-- The state after some operations. -/
def after (m : σ) (ops : List ω) : σ := ops.foldl obj.next m

/-- Operations with answers that the object can give. -/
def Agrees : σ → List (ω × β) → Prop
  | _, [] => True
  | m, (op, v) :: rest => Allows (obj.answer m op) v ∧ Agrees (obj.next m op) rest

/-- All operations that have begun were answered as the object does, but for those in `pending`. -/
def Serves (m : σ) (begun : List ω) (given : List β) (pending : List ω) : Prop :=
  ∃ finished : List (ω × β), begun = finished.map Prod.fst ++ pending ∧
    given = finished.map Prod.snd ∧ obj.Agrees m finished

variable {obj} {m : σ} {begun ops pending : List ω} {given : List β} {op : ω} {v : β}
  {finished : List (ω × β)}

@[simp] theorem after_nil : obj.after m [] = m := rfl

@[simp] theorem after_concat : obj.after m (ops ++ [op]) = obj.next (obj.after m ops) op := by
  rw [after, List.foldl_append]
  rfl

theorem agrees_append {more : List (ω × β)} :
    obj.Agrees m (finished ++ more) ↔
      obj.Agrees m finished ∧ obj.Agrees (obj.after m (finished.map Prod.fst)) more := by
  induction finished generalizing m with
  | nil => simp [Agrees]
  | cons first finished ih =>
      obtain ⟨op, v⟩ := first
      rw [List.cons_append, Agrees, Agrees, ih, and_assoc]
      rfl

variable (obj m) in
theorem serves_nil : obj.Serves m [] [] [] := ⟨[], rfl, rfl, trivial⟩

/-- An operation begins. -/
theorem Serves.begins (h : obj.Serves m begun given []) (op : ω) :
    obj.Serves m (begun ++ [op]) given [op] := by
  obtain ⟨finished, hbegun, hgiven, hagrees⟩ := h
  exact ⟨finished, by rw [hbegun, List.append_nil], hgiven, hagrees⟩

/-- The operation in progress is answered. -/
theorem Serves.ends (h : obj.Serves m begun given [op])
    (hv : ∀ ops, begun = ops ++ [op] → Allows (obj.answer (obj.after m ops) op) v) :
    obj.Serves m begun (given ++ [v]) [] := by
  obtain ⟨finished, hbegun, hgiven, hagrees⟩ := h
  refine ⟨finished ++ [(op, v)], ?_, ?_, agrees_append.mpr ⟨hagrees, hv _ hbegun, trivial⟩⟩
  · rw [hbegun, List.map_append, List.append_nil]
    rfl
  · rw [hgiven, List.map_append]
    rfl

/-- Operations and answers that were seen elsewhere, but not all of them yet. -/
theorem Serves.agrees_of_isPrefix (h : obj.Serves m begun given pending)
    {seen : List (ω × β)} (hops : seen.map Prod.fst <+: begun)
    (hvs : seen.map Prod.snd <+: given) : obj.Agrees m seen := by
  obtain ⟨finished, rfl, rfl, hagrees⟩ := h
  have hlen : seen.length ≤ finished.length := by simpa using hvs.length_le
  have hfst : seen.map Prod.fst = (finished.take seen.length).map Prod.fst := by
    have htake := List.prefix_iff_eq_take.mp hops
    rw [List.length_map, List.take_append_of_le_length (by simpa using hlen)] at htake
    rw [htake, List.map_take]
  have hsnd : seen.map Prod.snd = (finished.take seen.length).map Prod.snd := by
    have htake := List.prefix_iff_eq_take.mp hvs
    rw [List.length_map] at htake
    rw [htake, List.map_take]
  have hseen : seen = finished.take seen.length :=
    (List.zip_of_prod hfst hsnd).trans (List.zip_of_prod rfl rfl).symm
  rw [← List.take_append_drop seen.length finished, ← hseen] at hagrees
  exact (agrees_append.mp hagrees).1

/-! ## Objects behind one bus -/

/-- The object, with its operations in other words. -/
def comap (f : ω' → ω) (obj : Sequential σ ω β) : Sequential σ ω' β where
  next := fun m op => obj.next m (f op)
  answer := fun m op => obj.answer m (f op)

theorem agrees_comap (f : ω' → ω) {seen : List (ω' × β)} :
    (obj.comap f).Agrees m seen ↔ obj.Agrees m (seen.map (Prod.map f id)) := by
  induction seen generalizing m with
  | nil => exact Iff.rfl
  | cons first seen ih =>
      obtain ⟨op, v⟩ := first
      rw [Agrees, ih]
      rfl

section Routed

variable {κ : Type*} [DecidableEq κ] {τ : κ → Type*}

/-- Several objects, each of which sees the operations that go to it. -/
def routed (route : ω → κ) (part : (k : κ) → Sequential (τ k) ω β) :
    Sequential ((k : κ) → τ k) ω β where
  next := fun m op => Function.update m (route op) ((part (route op)).next (m (route op)) op)
  answer := fun m op => (part (route op)).answer (m (route op)) op

/-- The answers are right where those of each part are. -/
theorem agrees_routed {route : ω → κ} {part : (k : κ) → Sequential (τ k) ω β}
    {m : (k : κ) → τ k} {seen : List (ω × β)}
    (h : ∀ k, (part k).Agrees (m k) (seen.filter fun c => route c.1 = k)) :
    (routed route part).Agrees m seen := by
  induction seen generalizing m with
  | nil => trivial
  | cons first seen ih =>
      obtain ⟨op, v⟩ := first
      have hown := h (route op)
      rw [List.filter_cons_of_pos (by simp)] at hown
      refine ⟨hown.1, ih fun k => ?_⟩
      by_cases hk : route op = k
      · subst hk
        simpa [routed] using hown.2
      · have hother := h k
        rw [List.filter_cons_of_neg (by simpa using hk)] at hother
        simpa [routed, Function.update_of_ne (Ne.symm hk)] using hother

end Routed

end Sequential

end RegisterBus
