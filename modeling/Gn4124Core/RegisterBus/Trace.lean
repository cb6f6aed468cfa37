import Mathlib.Data.List.Basic
import Mathlib.Tactic.Common

/-!
# Registers behind a bus

A program reads and writes the registers of a device, and all that is known of the device is what
each of its registers answers: any value, at every read.  The accesses so far are the state
(`Trace`), and the answer of a register depends on how often it was read before (`Answers`).

A program that polls a register ends with the first value that says so, or after as many reads
as it allows itself (`poll`).  What it reads is the beginning of what the register answers from
there on (`pollOf`), which does not depend on any other register.
-/

namespace RegisterBus

variable {α β : Type*}

/-- An access to the register `a`, with the value that is read or written. -/
inductive Access (α β : Type*) where
  | read (a : α) (v : β)
  | write (a : α) (v : β)
deriving DecidableEq

abbrev Trace (α β : Type*) := List (Access α β)

/-- What the successive reads of each register return. -/
abbrev Answers (α β : Type*) := α → ℕ → β

/-- The accesses after a write of the register. -/
def writes (a : α) (v : β) (t : Trace α β) : Trace α β := t ++ [.write a v]

section Reading

variable [DecidableEq α]

/-- How often a register was read. -/
def readCount (a : α) (t : Trace α β) : ℕ :=
  t.countP fun
    | .read a' _ => a' = a
    | .write _ _ => false

variable (card : Answers α β)

/-- What a read of the register returns now. -/
def answer (a : α) (t : Trace α β) : β := card a (readCount a t)

/-- The accesses after a read of the register. -/
def reads (a : α) (t : Trace α β) : Trace α β := t ++ [.read a (answer card a t)]

variable {card} {a a' : α} {v : β} {t : Trace α β}

@[simp] theorem readCount_writes : readCount a (writes a' v t) = readCount a t := by
  simp [readCount, writes]

@[simp] theorem readCount_reads_same : readCount a (reads card a t) = readCount a t + 1 := by
  simp [readCount, reads]

theorem readCount_reads (h : a' ≠ a) : readCount a (reads card a' t) = readCount a t := by
  simp [readCount, reads, h]

/-- Of several reads only those of the register itself count. -/
theorem readCount_append_same (t : Trace α β) (vs : List β) :
    readCount a (t ++ vs.map (.read a)) = readCount a t + vs.length := by
  have hall : readCount a (vs.map (.read a)) = vs.length := by
    simp [readCount, List.countP_map, Function.comp_def]
  rw [readCount, List.countP_append]
  exact congrArg (readCount a t + ·) hall

theorem readCount_append (h : a' ≠ a) (t : Trace α β) (vs : List β) :
    readCount a (t ++ vs.map (.read a')) = readCount a t := by
  simp [readCount, List.countP_map, Function.comp_def, h]

theorem readCount_append_writes (t : Trace α β) (vs : List β) :
    readCount a (t ++ vs.map (.write a')) = readCount a t := by
  simp [readCount, List.countP_map, Function.comp_def]

end Reading

/-! ## Polling -/

/-- How polling ends. -/
inductive Poll where
  | done
  | failed
  | exhausted
deriving DecidableEq

section Polling

variable (isDone isFailed : β → Bool)

/-- The outcome of polling, and the values read, where the register answers `values` from its
read `pos` on and at most `n` reads are made. -/
def pollOf (values : ℕ → β) : ℕ → ℕ → Poll × List β
  | 0, _ => (.exhausted, [])
  | n + 1, pos =>
      if isDone (values pos) then (.done, [values pos])
      else if isFailed (values pos) then (.failed, [values pos])
      else ((pollOf values n (pos + 1)).1, values pos :: (pollOf values n (pos + 1)).2)

/-- Poll the register `a` with at most `n` reads. -/
def poll [DecidableEq α] (card : Answers α β) (a : α) : ℕ → Trace α β → Poll × Trace α β
  | 0, t => (.exhausted, t)
  | n + 1, t =>
      if isDone (answer card a t) then (.done, reads card a t)
      else if isFailed (answer card a t) then (.failed, reads card a t)
      else poll card a n (reads card a t)

variable {isDone isFailed} {values : ℕ → β}

/-- Polling that ends otherwise than with success has seen no value that says so. -/
theorem pollOf_done_iff (n pos : ℕ) :
    (pollOf isDone isFailed values n pos).1 = .done ↔
      ∃ v ∈ (pollOf isDone isFailed values n pos).2, isDone v = true := by
  induction n generalizing pos with
  | zero => simp [pollOf]
  | succ n ih =>
      rw [pollOf]
      split_ifs with hdone hfailed
      · simp [hdone]
      · simp [hdone]
      · simp [ih, hdone]

theorem pollOf_failed_iff (n pos : ℕ) :
    (pollOf isDone isFailed values n pos).1 = .failed ↔
      ∃ v ∈ (pollOf isDone isFailed values n pos).2, isDone v = false ∧ isFailed v = true := by
  induction n generalizing pos with
  | zero => simp [pollOf]
  | succ n ih =>
      rw [pollOf]
      split_ifs with hdone hfailed
      · simp [hdone]
      · simp [hdone, hfailed]
      · simp [ih, hdone, hfailed]

/-- Polling that never sees anything runs out. -/
theorem pollOf_exhausted {pos : ℕ}
    (hnone : ∀ k ≥ pos, isDone (values k) = false ∧ isFailed (values k) = false) (n : ℕ) :
    (pollOf isDone isFailed values n pos).1 = .exhausted := by
  induction n generalizing pos with
  | zero => rfl
  | succ n ih =>
      obtain ⟨hdone, hfailed⟩ := hnone pos (Nat.le_refl pos)
      rw [pollOf, hdone, hfailed]
      exact ih fun k hk => hnone k (Nat.le_of_succ_le hk)

variable [DecidableEq α] {card : Answers α β} {a : α}

/-- Polling reads what the register answers, and nothing else. -/
theorem poll_eq (n : ℕ) (t : Trace α β) :
    poll isDone isFailed card a n t =
      ((pollOf isDone isFailed (card a) n (readCount a t)).1,
        t ++ (pollOf isDone isFailed (card a) n (readCount a t)).2.map (.read a)) := by
  induction n generalizing t with
  | zero => simp [poll, pollOf]
  | succ n ih =>
      rw [poll, pollOf, answer]
      split_ifs with hdone hfailed
      · rfl
      · rfl
      · rw [ih, readCount_reads_same]
        simp [reads, answer]

end Polling

end RegisterBus
