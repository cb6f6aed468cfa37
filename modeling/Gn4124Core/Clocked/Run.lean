import Mathlib.Data.List.Basic
import Mathlib.Data.List.Infix
import Mathlib.Tactic.Common

/-!
# Runs of a clocked machine

A synchronous machine is a function `step : σ → ι → σ`: the registers `σ` after a clock
edge, from the registers before it and the inputs `ι` sampled by it.  This file has the
runs of such a machine over a list of inputs, what an observer sees along a run, and the
rules by which everything about a run is proved from one edge.

* `run step s is` is the state after the edges `is`;
* `log step obs s is` lists what `obs` reports at each edge, in order;
* `Always step ok s is` says that `ok` holds at each edge of the run.

All three grow at the end of a run (`run_concat`, `log_concat`, `always_concat`), so a
relation between a state and the logs that led to it is proved by `run_induction`.
-/

namespace Clocked

universe u v w x

variable {σ : Type u} {ι : Type v} {ω : Type w} {ο : Type x}

section Runs

variable (step : σ → ι → σ)

/-- The state reached from `s` by the clock edges `is`. -/
def run (s : σ) (is : List ι) : σ := is.foldl step s

/-- What `obs` reports at the successive edges of a run. -/
def log (obs : σ → ι → List ω) : σ → List ι → List ω
  | _, [] => []
  | s, i :: is => obs s i ++ log obs (step s i) is

/-- `ok` holds of the state and of the input at every edge of a run. -/
def Always (ok : σ → ι → Prop) : σ → List ι → Prop
  | _, [] => True
  | s, i :: is => ok s i ∧ Always ok (step s i) is

/-- The observer of a registered output: it reports the registers that an edge loads. -/
def after (view : σ → List ω) (s : σ) (i : ι) : List ω := view (step s i)

instance Always.decidable (ok : σ → ι → Prop) [∀ s i, Decidable (ok s i)] :
    ∀ (s : σ) (is : List ι), Decidable (Always step ok s is)
  | _, [] => inferInstanceAs (Decidable True)
  | s, i :: is =>
      have := Always.decidable ok (step s i) is
      inferInstanceAs (Decidable (ok s i ∧ Always step ok (step s i) is))

end Runs

variable {step : σ → ι → σ}

/-! ## A run, from its first edge and to its last -/

@[simp] theorem run_nil (s : σ) : run step s [] = s := rfl

@[simp] theorem run_cons (s : σ) (i : ι) (is : List ι) :
    run step s (i :: is) = run step (step s i) is := rfl

theorem run_append (s : σ) (is js : List ι) :
    run step s (is ++ js) = run step (run step s is) js :=
  List.foldl_append

@[simp] theorem run_concat (s : σ) (is : List ι) (i : ι) :
    run step s (is ++ [i]) = step (run step s is) i := by
  rw [run_append]
  rfl

@[simp] theorem log_nil (obs : σ → ι → List ω) (s : σ) : log step obs s [] = [] := rfl

@[simp] theorem log_cons (obs : σ → ι → List ω) (s : σ) (i : ι) (is : List ι) :
    log step obs s (i :: is) = obs s i ++ log step obs (step s i) is := rfl

theorem log_append (obs : σ → ι → List ω) (s : σ) (is js : List ι) :
    log step obs s (is ++ js) = log step obs s is ++ log step obs (run step s is) js := by
  induction is generalizing s with
  | nil => rfl
  | cons i is ih => simp only [List.cons_append, log_cons, ih, List.append_assoc, run_cons]

@[simp] theorem log_concat (obs : σ → ι → List ω) (s : σ) (is : List ι) (i : ι) :
    log step obs s (is ++ [i]) = log step obs s is ++ obs (run step s is) i := by
  rw [log_append, log_cons, log_nil, List.append_nil]

@[simp] theorem always_nil (ok : σ → ι → Prop) (s : σ) : Always step ok s [] := trivial

@[simp] theorem always_cons (ok : σ → ι → Prop) (s : σ) (i : ι) (is : List ι) :
    Always step ok s (i :: is) ↔ ok s i ∧ Always step ok (step s i) is := Iff.rfl

theorem always_append (ok : σ → ι → Prop) (s : σ) (is js : List ι) :
    Always step ok s (is ++ js) ↔ Always step ok s is ∧ Always step ok (run step s is) js := by
  induction is generalizing s with
  | nil => simp
  | cons i is ih => simp only [List.cons_append, always_cons, ih, run_cons, and_assoc]

@[simp] theorem always_concat (ok : σ → ι → Prop) (s : σ) (is : List ι) (i : ι) :
    Always step ok s (is ++ [i]) ↔ Always step ok s is ∧ ok (run step s is) i := by
  rw [always_append, always_cons]
  simp

/-! ## Rules -/

/-- **Induction over a run.**  A property of the edges taken so far holds of a whole run
when it holds of no edges and one more allowed edge keeps it. -/
theorem run_induction {ok : σ → ι → Prop} {s : σ} {motive : List ι → Prop} {is : List ι}
    (legal : Always step ok s is) (nil : motive [])
    (concat : ∀ js i, Always step ok s js → ok (run step s js) i → motive js →
      motive (js ++ [i])) : motive is := by
  induction is using List.reverseRecOn with
  | nil => exact nil
  | append_singleton js i ih =>
      obtain ⟨hjs, hi⟩ := (always_concat ok s js i).mp legal
      exact concat js i hjs hi (ih hjs)

theorem Always.mono {ok ok' : σ → ι → Prop} (himp : ∀ s i, ok s i → ok' s i) {s : σ}
    {is : List ι} (legal : Always step ok s is) : Always step ok' s is := by
  induction is generalizing s with
  | nil => trivial
  | cons i is ih => exact ⟨himp _ _ legal.1, ih legal.2⟩

theorem Always.and {ok ok' : σ → ι → Prop} {s : σ} {is : List ι}
    (legal : Always step ok s is) (legal' : Always step ok' s is) :
    Always step (fun s i => ok s i ∧ ok' s i) s is := by
  induction is generalizing s with
  | nil => trivial
  | cons i is ih => exact ⟨⟨legal.1, legal'.1⟩, ih legal.2 legal'.2⟩

/-- A property that every edge keeps holds after a run. -/
theorem invariant_run {ok : σ → ι → Prop} {Inv : σ → Prop}
    (keeps : ∀ s i, Inv s → ok s i → Inv (step s i)) {s : σ} {is : List ι}
    (legal : Always step ok s is) (hs : Inv s) : Inv (run step s is) :=
  run_induction (motive := fun js => Inv (run step s js)) legal hs
    fun js i _ hi hinv => by
      rw [run_concat]
      exact keeps _ i hinv hi

/-- A property of the state and of what was logged on the way to it, which every edge keeps. -/
theorem invariant_log {β : Type*} {ok : σ → ι → Prop} {out : σ → ι → List β}
    {motive : σ → List β → Prop}
    (keeps : ∀ s i ws, motive s ws → ok s i → motive (step s i) (ws ++ out s i)) {s : σ}
    {is : List ι} (legal : Always step ok s is) (hs : motive s []) :
    motive (run step s is) (log step out s is) :=
  run_induction (motive := fun js => motive (run step s js) (log step out s js)) legal hs
    fun js i _ hi hinv => by
      rw [run_concat, log_concat]
      exact keeps _ i _ hinv hi

/-- An invariant holds before every edge of a run, next to what is assumed of the edge. -/
theorem Always.of_invariant {ok : σ → ι → Prop} {Inv : σ → Prop}
    (keeps : ∀ s i, Inv s → ok s i → Inv (step s i)) {s : σ} {is : List ι}
    (legal : Always step ok s is) (hs : Inv s) :
    Always step (fun s i => Inv s ∧ ok s i) s is := by
  induction is generalizing s with
  | nil => trivial
  | cons i is ih => exact ⟨⟨hs, legal.1⟩, ih legal.2 (keeps _ _ hs legal.1)⟩

/-- What holds at first and after every edge holds before every edge. -/
theorem Always.of_after {P : σ → Prop} {s : σ} {is : List ι} (hs : P s)
    (legal : Always step (fun s i => P (step s i)) s is) : Always step (fun s _ => P s) s is := by
  induction is generalizing s with
  | nil => trivial
  | cons i is ih => exact ⟨hs, ih legal.1 legal.2⟩

/-- Where an edge keeps a property exactly if it is allowed, a run keeps it exactly if all its
edges are. -/
theorem always_after_iff {ok : σ → ι → Prop} {P : σ → Prop}
    (exact : ∀ s i, P s → (P (step s i) ↔ ok s i)) {s : σ} {is : List ι} (hs : P s) :
    Always step (fun s i => P (step s i)) s is ↔ Always step ok s is := by
  induction is generalizing s with
  | nil => exact Iff.rfl
  | cons i is ih =>
      rw [always_cons, always_cons, ← exact s i hs]
      exact and_congr_right fun hnext => ih hnext

/-- Where, under an invariant, an edge is good exactly if it is allowed, a run is good exactly if
all its edges are allowed. -/
theorem always_iff_of_invariant {ok good : σ → ι → Prop} {Inv : σ → Prop}
    (keeps : ∀ s i, Inv s → ok s i → Inv (step s i))
    (exact : ∀ s i, Inv s → (good s i ↔ ok s i)) {s : σ} {is : List ι} (hs : Inv s) :
    Always step good s is ↔ Always step ok s is := by
  induction is generalizing s with
  | nil => exact Iff.rfl
  | cons i is ih =>
      rw [always_cons, always_cons, exact s i hs]
      exact and_congr_right fun hok => ih (keeps s i hs hok)

theorem always_of_forall {ok : σ → ι → Prop} (h : ∀ s i, ok s i) (s : σ) (is : List ι) :
    Always step ok s is := by
  induction is generalizing s with
  | nil => trivial
  | cons i is ih => exact ⟨h s i, ih (step s i)⟩

/-! ### Properties that every edge keeps -/

section Stable

variable {Inv : σ → Prop} {s : σ}

variable (step) in
/-- No edge is excluded. -/
theorem always_true (s : σ) (is : List ι) : Always step (fun _ _ => True) s is :=
  always_of_forall (fun _ _ => trivial) s is

theorem stable_run (keeps : ∀ s i, Inv s → Inv (step s i)) (hs : Inv s) (is : List ι) :
    Inv (run step s is) := by
  induction is generalizing s with
  | nil => exact hs
  | cons i is ih => exact ih (keeps s i hs)

theorem always_stable (keeps : ∀ s i, Inv s → Inv (step s i)) (hs : Inv s) (is : List ι) :
    Always step (fun s _ => Inv s) s is := by
  induction is generalizing s with
  | nil => trivial
  | cons i is ih => exact ⟨hs, ih (keeps s i hs)⟩

end Stable

/-! ## Logs -/

theorem log_eq_nil {ok : σ → ι → Prop} {obs : σ → ι → List ω}
    (quiet : ∀ s i, ok s i → obs s i = []) {s : σ} {is : List ι}
    (legal : Always step ok s is) : log step obs s is = [] := by
  induction is generalizing s with
  | nil => rfl
  | cons i is ih => rw [log_cons, quiet _ _ legal.1, ih legal.2, List.append_nil]

theorem log_congr {ok : σ → ι → Prop} {obs obs' : σ → ι → List ω}
    (heq : ∀ s i, ok s i → obs s i = obs' s i) {s : σ} {is : List ι}
    (legal : Always step ok s is) : log step obs s is = log step obs' s is := by
  induction is generalizing s with
  | nil => rfl
  | cons i is ih => rw [log_cons, log_cons, heq _ _ legal.1, ih legal.2]

theorem log_filterMap (f : ω → Option ο) (obs : σ → ι → List ω) (s : σ) (is : List ι) :
    log step (fun s i => (obs s i).filterMap f) s is = (log step obs s is).filterMap f := by
  induction is generalizing s with
  | nil => rfl
  | cons i is ih => simp only [log_cons, ih, List.filterMap_append]

theorem log_map (f : ω → ο) (obs : σ → ι → List ω) (s : σ) (is : List ι) :
    log step (fun s i => (obs s i).map f) s is = (log step obs s is).map f := by
  simpa only [← List.filterMap_eq_map] using log_filterMap (some ∘ f) obs s is

theorem log_filter (p : ω → Bool) (obs : σ → ι → List ω) (s : σ) (is : List ι) :
    log step (fun s i => (obs s i).filter p) s is = (log step obs s is).filter p := by
  simpa only [← List.filterMap_eq_filter] using log_filterMap (Option.guard p) obs s is

theorem forall_mem_log (P : ω → Prop) (obs : σ → ι → List ω) (s : σ) (is : List ι) :
    (∀ x ∈ log step obs s is, P x) ↔ Always step (fun s i => ∀ x ∈ obs s i, P x) s is := by
  induction is generalizing s with
  | nil => simp
  | cons i is ih => rw [log_cons, List.forall_mem_append, ih, always_cons]

/-- An observer that never sees less than another sees more if it ever does. -/
theorem length_log_le {ok : σ → ι → Prop} {obs : σ → ι → List ω} {obs' : σ → ι → List ο}
    (hle : ∀ s i, ok s i → (obs s i).length ≤ (obs' s i).length) {s : σ} {is : List ι}
    (legal : Always step ok s is) : (log step obs s is).length ≤ (log step obs' s is).length := by
  induction is generalizing s with
  | nil => exact le_rfl
  | cons i is ih =>
      rw [log_cons, log_cons, List.length_append, List.length_append]
      exact Nat.add_le_add (hle _ _ legal.1) (ih legal.2)

theorem length_log_eq_iff {ok same : σ → ι → Prop} {obs : σ → ι → List ω}
    {obs' : σ → ι → List ο} (hle : ∀ s i, ok s i → (obs s i).length ≤ (obs' s i).length)
    (heq : ∀ s i, ok s i → ((obs s i).length = (obs' s i).length ↔ same s i)) {s : σ}
    {is : List ι} (legal : Always step ok s is) :
    (log step obs s is).length = (log step obs' s is).length ↔ Always step same s is := by
  induction is generalizing s with
  | nil => simp
  | cons i is ih =>
      have hfirst := hle _ _ legal.1
      have hrest := length_log_le hle legal.2
      rw [log_cons, log_cons, List.length_append, List.length_append, always_cons, ← ih legal.2,
        ← heq _ _ legal.1]
      omega

/-- Two observers that see equally much at every edge see the same if they do at every edge. -/
theorem log_eq_iff {ok : σ → ι → Prop} {obs obs' : σ → ι → List ω}
    (hlen : ∀ s i, ok s i → (obs s i).length = (obs' s i).length) {s : σ} {is : List ι}
    (legal : Always step ok s is) :
    log step obs s is = log step obs' s is ↔ Always step (fun s i => obs s i = obs' s i) s is := by
  induction is generalizing s with
  | nil => simp
  | cons i is ih =>
      rw [log_cons, log_cons, always_cons, ← ih legal.2]
      refine ⟨fun h => List.append_inj h (hlen s i legal.1), fun h => ?_⟩
      rw [h.1, h.2]

/-- The values a register shows before the edges of a run are those it is loaded with,
one edge later. -/
theorem log_view (view : σ → List ω) (s : σ) (is : List ι) :
    log step (fun s _ => view s) s is ++ view (run step s is) =
      view s ++ log step (after step view) s is := by
  induction is generalizing s with
  | nil => simp
  | cons i is ih => simp only [log_cons, List.append_assoc, run_cons, ih, after]

/-! ## Two runs under the same inputs

Two states that are related stay so along a run, if every edge keeps them related. -/

section Related

variable {R : σ → σ → Prop} {a b : σ}

theorem related_run (keeps : ∀ a b i, R a b → R (step a i) (step b i)) (h : R a b) (is : List ι) :
    R (run step a is) (run step b is) := by
  induction is generalizing a b with
  | nil => exact h
  | cons i is ih => exact ih (keeps a b i h)

end Related

/-! ## One machine seen inside another

`f` reads the registers of a component out of those of the whole, and `g` the inputs the
component gets. -/

section Component

variable {τ : Type*} {κ : Type*} {step' : τ → κ → τ} {f : σ → τ}

theorem run_component {g : ι → κ} (hstep : ∀ s i, f (step s i) = step' (f s) (g i)) (s : σ)
    (is : List ι) : f (run step s is) = run step' (f s) (is.map g) := by
  induction is generalizing s with
  | nil => rfl
  | cons i is ih => rw [run_cons, ih, hstep, List.map_cons, run_cons]

theorem log_component {g : ι → κ} (hstep : ∀ s i, f (step s i) = step' (f s) (g i))
    {obs : σ → ι → List ω} {obs' : τ → κ → List ω}
    (hobs : ∀ s i, obs s i = obs' (f s) (g i)) (s : σ) (is : List ι) :
    log step obs s is = log step' obs' (f s) (is.map g) := by
  induction is generalizing s with
  | nil => rfl
  | cons i is ih => rw [log_cons, ih, hobs, hstep, List.map_cons, log_cons]

theorem always_component {g : ι → κ} (hstep : ∀ s i, f (step s i) = step' (f s) (g i))
    {ok : τ → κ → Prop} (s : σ) (is : List ι) :
    Always step (fun s i => ok (f s) (g i)) s is ↔ Always step' ok (f s) (is.map g) := by
  induction is generalizing s with
  | nil => exact Iff.rfl
  | cons i is ih => rw [always_cons, ih, hstep, List.map_cons, always_cons]

end Component

end Clocked
