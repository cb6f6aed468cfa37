import Gn4124Core.Clocked.Run

/-!
# What flows through a machine

A stage of a machine takes items in, holds some of them, and gives them on in the order it
took them.  `Conserves` says this of one edge, and stages one behind the other make one stage
(`Conserves.comp`).  Over a run, then, nothing is lost, duplicated or reordered (`flow_run`).

What a stage holds it has to give on some day.  The machine is served in several ways `k`: by
the edges of its clocks, by the answers it waits for.  In a round of a run it is served in
each way at least once, in any order and with anything in between.  `Work n s` says that `n`
units of work are left in the state `s`.  If no edge adds work, and work goes down as soon as
the machine is served in a way it needs, a machine with `n` units of work has none left after
`n` rounds (`finish_run`).
-/

namespace Clocked

variable {σ ι α β : Type*} {step : σ → ι → σ}

/-! ## Conservation -/

/-- One edge of a stage that holds `held` before and `held'` after it. -/
def Conserves (taken given held held' : List α) : Prop := given ++ held' = held ++ taken

namespace Conserves

variable {taken mid given a a' b b' : List α}

/-- What the stage `a` gives is what the stage `b` takes. -/
theorem comp (hb : Conserves mid given b b') (ha : Conserves taken mid a a') :
    Conserves taken given (b ++ a) (b' ++ a') := by
  unfold Conserves at *
  rw [← List.append_assoc, hb, List.append_assoc, ha, List.append_assoc]

theorem map (f : α → β) (h : Conserves taken given a a') :
    Conserves (taken.map f) (given.map f) (a.map f) (a'.map f) := by
  unfold Conserves at *
  rw [← List.map_append, h, List.map_append]

/-- What holds of the items that are held and of those that are taken holds of what is given. -/
theorem forall_mem {P : α → Prop} (h : Conserves taken given a a') (ha : ∀ x ∈ a, P x)
    (htaken : ∀ x ∈ taken, P x) : (∀ x ∈ given, P x) ∧ ∀ x ∈ a', P x := by
  unfold Conserves at h
  rw [← List.forall_mem_append, h, List.forall_mem_append]
  exact ⟨ha, htaken⟩

end Conserves

section Flow

variable {ok : σ → ι → Prop} {Inv : σ → Prop} {held : σ → List α} {taken given : σ → ι → List α}
  {s : σ} {is : List ι}

/-- **Conservation over a run.** -/
theorem flow_run (keeps : ∀ s i, Inv s → ok s i → Inv (step s i))
    (conserves : ∀ s i, Inv s → ok s i →
      Conserves (taken s i) (given s i) (held s) (held (step s i)))
    (legal : Always step ok s is) (hs : Inv s) :
    log step given s is ++ held (run step s is) = held s ++ log step taken s is := by
  induction is generalizing s with
  | nil => simp
  | cons i is ih =>
      have hfirst : given s i ++ held (step s i) = held s ++ taken s i := conserves s i hs legal.1
      rw [log_cons, log_cons, run_cons, List.append_assoc, ih legal.2 (keeps s i hs legal.1),
        ← List.append_assoc, hfirst, List.append_assoc]

/-- The same for a stage whose invariant every edge keeps. -/
theorem flow_stable (keeps : ∀ s i, Inv s → Inv (step s i))
    (conserves : ∀ s i, Inv s → Conserves (taken s i) (given s i) (held s) (held (step s i)))
    (hs : Inv s) (is : List ι) :
    log step given s is ++ held (run step s is) = held s ++ log step taken s is :=
  flow_run (fun s i h _ => keeps s i h) (fun s i h _ => conserves s i h) (always_true step s is) hs

variable (step) in
/-- The same for a stage that conserves its items at every edge whatsoever. -/
theorem flow_always
    (conserves : ∀ s i, Conserves (taken s i) (given s i) (held s) (held (step s i))) (s : σ)
    (is : List ι) : log step given s is ++ held (run step s is) = held s ++ log step taken s is := by
  have hkeeps : ∀ s i, True → True := fun (_ : σ) (_ : ι) _ => trivial
  exact flow_stable hkeeps (fun s i _ => conserves s i) trivial is

/-- The same for a stage that may drop items. -/
theorem flow_sublist (keeps : ∀ s i, Inv s → ok s i → Inv (step s i))
    (drops : ∀ s i, Inv s → ok s i → (given s i ++ held (step s i)).Sublist (held s ++ taken s i))
    (legal : Always step ok s is) (hs : Inv s) :
    (log step given s is ++ held (run step s is)).Sublist (held s ++ log step taken s is) := by
  induction is generalizing s with
  | nil => simp
  | cons i is ih =>
      have hfirst := drops s i hs legal.1
      have hrest := ih legal.2 (keeps s i hs legal.1)
      rw [log_cons, log_cons, run_cons, List.append_assoc, ← List.append_assoc (held s)]
      refine (hrest.append_left (given s i)).trans ?_
      rw [← List.append_assoc]
      exact hfirst.append_right _

end Flow

/-! ## Progress -/

section Progress

variable {κ : Type*}

/-- The machine is served in every way. -/
def Round (step : σ → ι → σ) (serves : κ → σ → ι → Prop) (s : σ) (is : List ι) : Prop :=
  ∀ k, ¬ Always step (fun s i => ¬ serves k s i) s is

/-- A run of several rounds. -/
def Rounds (step : σ → ι → σ) (serves : κ → σ → ι → Prop) : σ → List (List ι) → Prop
  | _, [] => True
  | s, is :: rest => Round step serves s is ∧ Rounds step serves (run step s is) rest

variable {serves : κ → σ → ι → Prop} {needs : κ → σ → Prop} {ok : σ → ι → Prop}
  {Work : ℕ → σ → Prop} {s : σ} {is : List ι}

/-- Within a round there is less work, unless the machine is not served in a way it needs. -/
theorem less_or_unserved {n : ℕ}
    (less_or_same : ∀ n s i, Work n s → ok s i → (∃ m < n, Work m (step s i)) ∨
      Work n (step s i) ∧ ∀ k, needs k s → ¬ serves k s i ∧ needs k (step s i))
    (legal : Always step ok s is) (hs : Work n s) :
    (∃ m < n, Work m (run step s is)) ∨
      Work n (run step s is) ∧ ∀ k, needs k s → Always step (fun s i => ¬ serves k s i) s is := by
  induction is generalizing s n with
  | nil => exact .inr ⟨hs, fun _ _ => trivial⟩
  | cons i is ih =>
      rw [run_cons]
      rcases less_or_same n s i hs legal.1 with ⟨m, hm, hless⟩ | ⟨hsame, hkept⟩
      · left
        rcases ih legal.2 hless with ⟨m', hm', hrest⟩ | ⟨hrest, -⟩
        · exact ⟨m', hm'.trans hm, hrest⟩
        · exact ⟨m, hm, hrest⟩
      · rcases ih legal.2 hsame with hrest | ⟨hrest, hunserved⟩
        · exact .inl hrest
        · refine .inr ⟨hrest, fun k hk => ?_⟩
          obtain ⟨hnot, hneeds⟩ := hkept k hk
          exact ⟨hnot, hunserved k hneeds⟩

/-- **Progress over a run.** -/
theorem finish_run {n : ℕ}
    (less_or_same : ∀ n s i, Work n s → ok s i → (∃ m < n, Work m (step s i)) ∨
      Work n (step s i) ∧ ∀ k, needs k s → ¬ serves k s i ∧ needs k (step s i))
    (needed : ∀ n s, Work n s → n ≠ 0 → ∃ k, needs k s) {rest : List (List ι)}
    (legal : Always step ok s rest.flatten) (hs : Work n s) (hrounds : Rounds step serves s rest)
    (henough : n ≤ rest.length) : Work 0 (run step s rest.flatten) := by
  induction rest generalizing s n with
  | nil =>
      rw [List.length_nil, Nat.le_zero] at henough
      rwa [henough] at hs
  | cons is rest ih =>
      rw [List.flatten_cons] at legal ⊢
      obtain ⟨hfirst, hrest⟩ := (always_append ok s is rest.flatten).mp legal
      rw [List.length_cons] at henough
      rw [run_append]
      rcases less_or_unserved less_or_same hfirst hs with ⟨m, hm, hless⟩ | ⟨hsame, hunserved⟩
      · exact ih hrest hless hrounds.2 (by omega)
      · have hzero : n = 0 := by
          by_contra hpos
          obtain ⟨k, hk⟩ := needed n s hs hpos
          exact hrounds.1 k (hunserved k hk)
        exact ih hrest hsame hrounds.2 (by omega)

/-- The same where the work is a function of the state. -/
theorem progress_run {Inv : σ → Prop} {work : σ → ℕ}
    (keeps : ∀ s i, Inv s → ok s i → Inv (step s i))
    (less_or_same : ∀ s i, Inv s → ok s i → work (step s i) < work s ∨
      work (step s i) = work s ∧ ∀ k, needs k s → ¬ serves k s i ∧ needs k (step s i))
    (needed : ∀ s, Inv s → work s ≠ 0 → ∃ k, needs k s) {rest : List (List ι)}
    (legal : Always step ok s rest.flatten) (hs : Inv s) (hrounds : Rounds step serves s rest)
    (henough : work s ≤ rest.length) : work (run step s rest.flatten) = 0 := by
  have hstep : ∀ n s i, (Inv s ∧ work s = n) → ok s i →
      (∃ m < n, Inv (step s i) ∧ work (step s i) = m) ∨ (Inv (step s i) ∧ work (step s i) = n) ∧
        ∀ k, needs k s → ¬ serves k s i ∧ needs k (step s i) := by
    rintro n s i ⟨hinv, rfl⟩ hok
    have hnext := keeps s i hinv hok
    rcases less_or_same s i hinv hok with hless | ⟨hsame, hkept⟩
    · exact .inl ⟨_, hless, hnext, rfl⟩
    · exact .inr ⟨⟨hnext, hsame⟩, hkept⟩
  have hneeded : ∀ n s, (Inv s ∧ work s = n) → n ≠ 0 → ∃ k, needs k s := by
    rintro n s ⟨hinv, rfl⟩ hpos
    exact needed s hinv hpos
  exact (finish_run hstep hneeded legal ⟨hs, rfl⟩ hrounds henough).2

end Progress

end Clocked
