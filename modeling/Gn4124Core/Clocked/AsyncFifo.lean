import Gn4124Core.Clocked.Run

/-!
# A FIFO between two clock domains

The FIFO is an unbounded queue with a registered output.  A written word spends any time
in `crossing` before the read side sees it in `ready`; how many words finish the crossing
at an edge is an input, so that every latency of the flags is covered.  A read edge with
something in `ready` pops one word, which `q` shows from then on until the next pop.
-/

namespace Clocked

/-- The words of a FIFO on both sides of the clock boundary, and its output register. -/
structure AsyncFifo (α : Type*) where
  ready : List α
  crossing : List α
  q : α
deriving DecidableEq

namespace AsyncFifo

variable {α : Type*}

/-- The empty flag of the read side. -/
def empty (f : AsyncFifo α) : Bool := f.ready.isEmpty

/-- All the words written and not yet read, in the order they were written. -/
def contents (f : AsyncFifo α) : List α := f.ready ++ f.crossing

/-- A write edge. -/
def write (f : AsyncFifo α) (we : Bool) (d : α) : AsyncFifo α :=
  if we then { f with crossing := f.crossing ++ [d] } else f

/-- A read edge. -/
def read (f : AsyncFifo α) (rd : Bool) : AsyncFifo α :=
  match rd, f.ready with
  | true, d :: ds => { f with ready := ds, q := d }
  | _, _ => f

/-- `n` more words finish the crossing. -/
def arrive (f : AsyncFifo α) (n : ℕ) : AsyncFifo α :=
  { f with ready := f.ready ++ f.crossing.take n, crossing := f.crossing.drop n }

@[simp] theorem write_false (f : AsyncFifo α) (d : α) : f.write false d = f := rfl

@[simp] theorem write_ready (f : AsyncFifo α) (we : Bool) (d : α) :
    (f.write we d).ready = f.ready := by
  cases we <;> rfl

@[simp] theorem write_q (f : AsyncFifo α) (we : Bool) (d : α) : (f.write we d).q = f.q := by
  cases we <;> rfl

@[simp] theorem contents_write (f : AsyncFifo α) (we : Bool) (d : α) :
    (f.write we d).contents = f.contents ++ if we then [d] else [] := by
  cases we <;> simp [write, contents]

@[simp] theorem read_false (f : AsyncFifo α) : f.read false = f := rfl

theorem read_cons {f : AsyncFifo α} {d : α} {ds : List α} (h : f.ready = d :: ds) :
    f.read true = { f with ready := ds, q := d } := by
  simp [read, h]

theorem read_of_empty {f : AsyncFifo α} (h : f.empty = true) (rd : Bool) : f.read rd = f := by
  have hready : f.ready = [] := List.isEmpty_iff.mp h
  cases rd <;> simp [read, hready]

theorem read_crossing (f : AsyncFifo α) (rd : Bool) : (f.read rd).crossing = f.crossing := by
  unfold read
  split <;> rfl

/-- A read edge that pops hands over the oldest word. -/
theorem contents_read {f : AsyncFifo α} (h : f.ready ≠ []) :
    (f.read true).q :: (f.read true).contents = f.contents := by
  obtain ⟨d, ds, hready⟩ := List.exists_cons_of_ne_nil h
  simp [read_cons hready, contents, hready]

@[simp] theorem arrive_q (f : AsyncFifo α) (n : ℕ) : (f.arrive n).q = f.q := rfl

@[simp] theorem contents_arrive (f : AsyncFifo α) (n : ℕ) :
    (f.arrive n).contents = f.contents := by
  simp [arrive, contents]

theorem arrive_ready_ne_nil {f : AsyncFifo α} (h : f.ready ≠ []) (n : ℕ) :
    (f.arrive n).ready ≠ [] := by
  simp [arrive, h]

theorem arrive_of_crossing_nil {f : AsyncFifo α} (h : f.crossing = []) (n : ℕ) :
    f.arrive n = f := by
  obtain ⟨ready, crossing, q⟩ := f
  subst h
  simp [arrive]

/-- One edge of either clock or of both, and `n` words that finish the crossing. -/
def tick (f : AsyncFifo α) (we : Bool) (d : α) (rd : Bool) (n : ℕ) : AsyncFifo α :=
  ((f.write we d).read rd).arrive n

@[simp] theorem tick_false_q (f : AsyncFifo α) (we : Bool) (d : α) (n : ℕ) :
    (f.tick we d false n).q = f.q := by
  simp [tick]

theorem tick_false_ready_ne_nil {f : AsyncFifo α} (h : f.ready ≠ []) (we : Bool) (d : α) (n : ℕ) :
    (f.tick we d false n).ready ≠ [] :=
  arrive_ready_ne_nil (by simpa using h) n

/-- A read of an empty FIFO does nothing. -/
theorem tick_rd (f : AsyncFifo α) (we : Bool) (d : α) (rd : Bool) (n : ℕ) :
    f.tick we d rd n = f.tick we d (rd && !f.empty) n := by
  cases hready : f.ready with
  | nil => cases rd <;> simp [tick, empty, hready, read]
  | cons x xs => simp [empty, hready]

/-- What is read and what stays is what was there and what is written. -/
theorem contents_tick {f : AsyncFifo α} {rd : Bool} (h : rd = true → f.ready ≠ []) (we : Bool)
    (d : α) (n : ℕ) :
    (if rd then [(f.tick we d rd n).q] else []) ++ (f.tick we d rd n).contents =
      f.contents ++ if we then [d] else [] := by
  cases rd with
  | false => simp [tick]
  | true =>
      have hready : (f.write we d).ready ≠ [] := by simpa using h rfl
      rw [tick, arrive_q, contents_arrive, if_pos rfl, List.singleton_append, contents_read hready,
        contents_write]

theorem length_contents_tick_le (f : AsyncFifo α) (we : Bool) (d : α) (rd : Bool) (n : ℕ) :
    (f.tick we d rd n).contents.length ≤ f.contents.length + we.toNat := by
  have hpop : (rd && !f.empty) = true → f.ready ≠ [] := by
    simp only [Bool.and_eq_true, Bool.not_eq_true', empty, List.isEmpty_eq_false_iff]
    exact And.right
  have hlen := congrArg List.length (contents_tick hpop we d n)
  rw [tick_rd]
  cases we <;> simp only [List.length_append, List.length_nil, List.length_singleton, if_true,
    Bool.false_eq_true, if_false, Bool.toNat_true, Bool.toNat_false] at hlen ⊢ <;> omega

/-- Two FIFOs with the same words on their way.  What they have given out may differ. -/
structure SameWords (f g : AsyncFifo α) : Prop where
  ready : f.ready = g.ready
  crossing : f.crossing = g.crossing

theorem SameWords.empty {f g : AsyncFifo α} (h : f.SameWords g) : f.empty = g.empty := by
  unfold AsyncFifo.empty
  rw [h.ready]

theorem SameWords.tick {f g : AsyncFifo α} (h : f.SameWords g) {we : Bool} {d d' : α}
    (hwrite : we = true → d = d') (rd : Bool) (n : ℕ) : (f.tick we d rd n).SameWords (g.tick we d' rd n) := by
  obtain ⟨hready, hcrossing⟩ := h
  have hwrite' : (f.write we d).crossing = (g.write we d').crossing := by
    cases we with
    | false => exact hcrossing
    | true => simp [write, hcrossing, hwrite rfl]
  have hread : ((f.write we d).read rd).ready = ((g.write we d').read rd).ready := by
    cases rd with
    | false => simpa using hready
    | true => cases hwords : g.ready <;> simp [read, hready, hwords]
  have hcrossing' : ((f.write we d).read rd).crossing = ((g.write we d').read rd).crossing := by
    rw [read_crossing, read_crossing, hwrite']
  constructor <;> simp [AsyncFifo.tick, arrive, hread, hcrossing']

/-- The word that is read now is the same. -/
theorem SameWords.q_tick {f g : AsyncFifo α} (h : f.SameWords g) {rd : Bool}
    (hq : f.q = g.q ∨ rd = true ∧ f.ready ≠ []) (we : Bool) (d d' : α) (n : ℕ) :
    (f.tick we d rd n).q = (g.tick we d' rd n).q := by
  rw [AsyncFifo.tick, AsyncFifo.tick, arrive_q, arrive_q]
  cases hwords : g.ready with
  | nil =>
      have hsame : f.q = g.q := by
        rcases hq with hq | ⟨-, hne⟩
        · exact hq
        · exact absurd (h.ready.trans hwords) hne
      cases rd <;> simp [read, h.ready, hwords, hsame]
  | cons x xs =>
      cases rd with
      | false => simpa using hq
      | true => simp [read, h.ready, hwords]

/-- How many words finish the crossing at an edge. -/
def arrivals (f : AsyncFifo α) (we : Bool) (n : ℕ) : ℕ := min n (f.crossing.length + we.toNat)

theorem length_ready_tick {f : AsyncFifo α} {rd : Bool} (h : rd = true → f.ready ≠ []) (we : Bool)
    (d : α) (n : ℕ) :
    (f.tick we d rd n).ready.length + rd.toNat = f.ready.length + f.arrivals we n := by
  have harrive : ((f.write we d).crossing.take n).length = f.arrivals we n := by
    cases we <;> simp [write, arrivals]
  cases rd with
  | false => simp [tick, arrive, harrive]
  | true =>
      obtain ⟨x, xs, hready⟩ := List.exists_cons_of_ne_nil (h rfl)
      have hwrite : (f.write we d).ready = x :: xs := by rw [write_ready, hready]
      simp only [tick, arrive, read_cons hwrite, List.length_append, harrive, hready,
        List.length_cons, Bool.toNat_true]
      omega

theorem length_crossing_tick (f : AsyncFifo α) (we : Bool) (d : α) (rd : Bool) (n : ℕ) :
    (f.tick we d rd n).crossing.length + f.arrivals we n = f.crossing.length + we.toNat := by
  have hwrite : (f.write we d).crossing.length = f.crossing.length + we.toNat := by
    cases we <;> simp [write]
  rw [tick, arrive, List.length_drop, read_crossing, hwrite, arrivals]
  omega

theorem ready_ne_nil {f : AsyncFifo α} (h : f.empty = false) : f.ready ≠ [] := by
  simpa [empty] using h

theorem empty_eq_false {f : AsyncFifo α} : f.empty = false ↔ f.ready ≠ [] := by
  simp [empty]

end AsyncFifo

end Clocked
