import Mathlib.Data.Bool.Basic
import Mathlib.Tactic.Common

/-!
# A level that carries requests to another clock

A request crosses into another clock domain as a level that is raised for some cycles.  Three
registers of the other domain sample the level one after the other, and a rise between the last
two is the request there.  Nobody answers: that the rise is sampled at all, and that it has come
out before the next one, follows from the number of edges of the two clocks alone.

The place of the rise in the chain is told by `Carries`.  `lag` counts the edges of the clock of
the level since the last edge of the clock of the chain, and it never exceeds a pace `pace`.
After `j` edges of the clock of the level the rise is at a place `p` with `j < pace * p + lag`
(`Crossing`).  This one inequality is kept by every edge of either clock, and it says that the
rise has come out after `3 * pace` edges.
-/

namespace Clocked

/-- A level and the three registers that sample it. -/
structure LevelChain where
  level : Bool
  s0 : Bool
  s1 : Bool
  s2 : Bool
deriving DecidableEq

namespace LevelChain

variable (c : LevelChain)

/-- An edge of the clock of the registers. -/
def sample : LevelChain := ⟨c.level, c.level, c.s0, c.s1⟩

/-- An edge of both clocks or of one of them; the registers sample the level from before it. -/
def edge (back level : Bool) : LevelChain :=
  { if back then c.sample else c with level := level }

/-- The request, as the clock domain of the registers sees it. -/
def rise : Bool := c.s1 && !c.s2

/-- A rise is on its way. -/
def underWay : Bool := (c.level && !c.s0) || (c.s0 && !c.s1) || c.rise

/-- The one rise on its way is at this place. -/
def Carries : ℕ → LevelChain → Prop
  | 0, c => c.level = true ∧ c.s0 = false ∧ (c.s1 = true → c.s2 = true)
  | 1, c => c.s0 = true ∧ c.s1 = false
  | 2, c => c.s1 = true ∧ c.s2 = false ∧ (c.level = true → c.s0 = true)
  | _, _ => False

/-- A chain that is ready for the next rise. -/
structure Rests : Prop where
  low : c.level = false
  sampled : c.s0 = false
  quiet : c.underWay = false

/-- The rise of a level that was raised `j` edges ago. -/
def Crossing (pace j lag : ℕ) : Prop := ∃ p, Carries p c ∧ j < pace * p + lag

variable {c} {pace j lag p : ℕ} {back level : Bool}

/-! ## The chain at one edge -/

@[simp] theorem edge_level : (c.edge back level).level = level := rfl

@[simp] theorem edge_s0 : (c.edge back level).s0 = if back then c.level else c.s0 := by
  cases back <;> rfl

@[simp] theorem edge_s1 : (c.edge back level).s1 = if back then c.s0 else c.s1 := by
  cases back <;> rfl

@[simp] theorem edge_s2 : (c.edge back level).s2 = if back then c.s1 else c.s2 := by
  cases back <;> rfl

theorem Carries.lt_three (h : Carries p c) : p < 3 := by
  match p, h with
  | 0, _ | 1, _ | 2, _ => omega

theorem Carries.underWay (h : Carries p c) : c.underWay = true := by
  match p, h with
  | 0, ⟨hlevel, hs0, _⟩ => simp [LevelChain.underWay, hlevel, hs0]
  | 1, ⟨hs0, hs1⟩ => simp [LevelChain.underWay, hs0, hs1]
  | 2, ⟨hs1, hs2, _⟩ => simp [LevelChain.underWay, rise, hs1, hs2]

/-- The rise comes out from the last place, and from no other. -/
theorem Carries.rise_iff (h : Carries p c) : c.rise = true ↔ p = 2 := by
  match p, h with
  | 0, ⟨_, _, hquiet⟩ =>
      cases hs1 : c.s1 with
      | true => simp [rise, hs1, hquiet hs1]
      | false => simp [rise, hs1]
  | 1, ⟨_, hs1⟩ => simp [rise, hs1]
  | 2, ⟨hs1, hs2, _⟩ => simp [rise, hs1, hs2]

/-- There is one rise on its way. -/
theorem Carries.unique {q : ℕ} (h : Carries p c) (h' : Carries q c) : p = q := by
  match p, h, q, h' with
  | 0, _, 0, _ | 1, _, 1, _ | 2, _, 2, _ => rfl
  | 0, ⟨_, hs0, _⟩, 1, ⟨hs0', _⟩ | 1, ⟨hs0', _⟩, 0, ⟨_, hs0, _⟩ => exact absurd hs0' (by simp [hs0])
  | 0, ⟨_, _, hquiet⟩, 2, ⟨hs1, hs2, _⟩ | 2, ⟨hs1, hs2, _⟩, 0, ⟨_, _, hquiet⟩ =>
      exact absurd (hquiet hs1) (by simp [hs2])
  | 1, ⟨_, hs1⟩, 2, ⟨hs1', _⟩ | 2, ⟨hs1', _⟩, 1, ⟨_, hs1⟩ => exact absurd hs1' (by simp [hs1])

theorem rise_of_not_underWay (h : c.underWay = false) : c.rise = false := by
  simp only [underWay, Bool.or_eq_false_iff] at h
  exact h.2

/-- An edge that does not raise the level again, nor lowers it before it is sampled, leaves the
rise where it is, or moves it on if the registers sample. -/
theorem Carries.edge (h : Carries p c) (hraise : level = true → c.level = true)
    (hsampled : level = false → p = 0 → back = true) (hin : (back && c.rise) = false) :
    Carries (p + back.toNat) (c.edge back level) := by
  cases back with
  | false =>
      match p, h with
      | 0, ⟨hlevel, hs0, hquiet⟩ =>
          have hkept : level = true := by
            by_contra hlow
            exact absurd (hsampled (by simpa using hlow) rfl) (by decide)
          exact ⟨hkept, hs0, hquiet⟩
      | 1, h => exact h
      | 2, ⟨hs1, hs2, hlevel⟩ => exact ⟨hs1, hs2, fun htrue => hlevel (hraise htrue)⟩
  | true =>
      match p, h with
      | 0, ⟨hlevel, hs0, _⟩ => exact ⟨hlevel, hs0⟩
      | 1, ⟨hs0, hs1⟩ => exact ⟨hs0, hs1, hraise⟩
      | 2, ⟨hs1, hs2, _⟩ => simp [rise, hs1, hs2] at hin

/-- The edge at which the rise comes out leaves nothing behind. -/
theorem Carries.edge_out (h : Carries p c) (hraise : level = true → c.level = true)
    (hrise : c.rise = true) : (c.edge true level).underWay = false := by
  obtain rfl := h.rise_iff.mp hrise
  obtain ⟨hs1, hs2, hlevel⟩ := h
  cases hlow : level with
  | true => simp [LevelChain.underWay, rise, hs1, hraise hlow, hlevel (hraise hlow)]
  | false =>
      cases hs0 : c.s0 with
      | true => simp [LevelChain.underWay, rise, hs1, hs0]
      | false =>
          have hc : c.level = false := by
            by_contra htrue
            exact absurd (hlevel (by simpa using htrue)) (by simp [hs0])
          simp [LevelChain.underWay, rise, hs0, hc]

/-- Where no rise is on its way, none comes but by raising the level. -/
theorem underWay_edge (h : c.underWay = false) (hraise : level = true → c.level = true) :
    (c.edge back level).underWay = false := by
  revert h hraise
  obtain ⟨l, a, b, d⟩ := c
  cases back <;> cases level <;> cases l <;> cases a <;> cases b <;> cases d <;> decide

/-- A chain at rest that stays low stays at rest. -/
theorem Rests.edge_low (h : c.Rests) : (c.edge back false).Rests := by
  refine ⟨rfl, ?_, underWay_edge h.quiet (fun htrue => absurd htrue (by decide))⟩
  cases back with
  | false => exact h.sampled
  | true => exact h.low

/-- A chain at rest takes a rise. -/
theorem Rests.edge_high (h : c.Rests) : Carries 0 (c.edge back true) := by
  obtain ⟨hlow, hs0, hquiet⟩ := h
  refine ⟨rfl, ?_, ?_⟩
  · cases back with
    | false => exact hs0
    | true => exact hlow
  · simp only [LevelChain.underWay, hlow, hs0, rise, Bool.false_and, Bool.false_or,
      Bool.and_eq_false_iff, Bool.not_eq_false'] at hquiet
    cases back with
    | false =>
        intro hs1
        rcases hquiet with h | h
        · exact absurd hs1 (by simp [show c.s1 = false from h])
        · exact h
    | true =>
        intro hs1
        exact absurd hs1 (by simp [hs0])

/-! ## The pace of the two clocks -/

/-- The lag after an edge of the clock of the level (`front`), of the chain (`back`) or of both. -/
def nextLag (lag : ℕ) (front back : Bool) : ℕ := (if back then 0 else lag) + front.toNat

/-- An edge of the clock of the level alone comes only as long as the lag allows it. -/
def Paced (pace lag : ℕ) (front back : Bool) : Prop :=
  front = true → back = false → lag < pace

instance (front back : Bool) : Decidable (Paced pace lag front back) :=
  inferInstanceAs (Decidable (_ → _ → _))

theorem nextLag_le {front : Bool} (h : Paced pace lag front back) (hlag : lag ≤ pace)
    (hpace : 1 ≤ pace) : nextLag lag front back ≤ pace := by
  unfold nextLag
  cases front with
  | false => cases back <;> simp [hlag]
  | true =>
      cases back with
      | false =>
          have hlt := h rfl rfl
          simp only [Bool.false_eq_true, if_false, Bool.toNat_true]
          omega
      | true => simpa using hpace

/-- The raised level is a rise that has just set out. -/
theorem crossing_of_carries {front : Bool} (h : Carries 0 c) (hfront : front = true) :
    c.Crossing pace 0 (nextLag lag front back) := by
  refine ⟨0, h, ?_⟩
  rw [hfront, nextLag]
  simp

/-- The rise comes out before `3 * pace` edges. -/
theorem Crossing.lt (h : c.Crossing pace j lag) (hlag : lag ≤ pace) : j < 3 * pace := by
  obtain ⟨p, hcarries, hj⟩ := h
  have hp : p ≤ 2 := Nat.le_of_lt_succ hcarries.lt_three
  have hmul : pace * p ≤ pace * 2 := Nat.mul_le_mul_left pace hp
  omega

/-- **One edge of a crossing.**  The level is not raised again, and it is lowered only after
`pace` edges of its clock. -/
theorem Crossing.edge {front : Bool} (h : c.Crossing pace j lag) (hlag : lag ≤ pace)
    (hpaced : Paced pace lag front back) (hraise : level = true → c.level = true)
    (hlower : level = false → pace ≤ j + front.toNat) :
    (back && c.rise) = true ∧ (c.edge back level).underWay = false ∨
      (back && c.rise) = false ∧
        (c.edge back level).Crossing pace (j + front.toNat) (nextLag lag front back) := by
  obtain ⟨p, hcarries, hj⟩ := h
  cases hout : back && c.rise with
  | true =>
      obtain ⟨rfl, hrise⟩ := Bool.and_eq_true_iff.mp hout
      exact .inl ⟨rfl, hcarries.edge_out hraise hrise⟩
  | false =>
      refine .inr ⟨rfl, p + back.toNat, hcarries.edge hraise ?_ hout, ?_⟩
      · -- a level that has not been sampled is too young to be lowered
        rintro hlow rfl
        by_contra hback
        have hfalse : back = false := by simpa using hback
        have hold := hlower hlow
        cases front with
        | false => simp only [Bool.toNat_false] at hold; omega
        | true =>
            have hlt := hpaced rfl hfalse
            simp only [Bool.toNat_true] at hold
            omega
      · cases back with
        | false =>
            simp only [nextLag, Bool.toNat_false, Bool.false_eq_true, if_false, Nat.add_zero]
            omega
        | true =>
            simp only [nextLag, Bool.toNat_true, if_true, Nat.mul_add, Nat.mul_one]
            omega

end LevelChain

end Clocked
