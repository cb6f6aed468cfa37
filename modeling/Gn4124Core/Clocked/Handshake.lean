import Gn4124Core.Clocked.Run

/-!
# Grants in answer to a request

A client raises a request and waits for a grant.  An arbiter with registered outputs can
answer a request one cycle after it is raised at the earliest.  `Asking` keeps the request
of the previous cycle next to the client, so that an environment's duty to grant only in
answer to a request is a condition on one edge.
-/

namespace Clocked

/-- A client and whether it was requesting in the previous cycle. -/
structure Asking (σ : Type*) where
  client : σ
  asked : Bool
deriving DecidableEq

namespace Asking

variable {σ : Type*} {ι : Type*} (step : σ → ι → σ) (request : σ → Bool)

/-- One edge of the client. -/
def next (s : Asking σ) (i : ι) : Asking σ := ⟨step s.client i, request s.client⟩

variable {step request}

@[simp] theorem next_client (s : Asking σ) (i : ι) :
    (next step request s i).client = step s.client i := rfl

@[simp] theorem next_asked (s : Asking σ) (i : ι) :
    (next step request s i).asked = request s.client := rfl

theorem run_client (s : Asking σ) (is : List ι) :
    (run (next step request) s is).client = run step s.client is := by
  have hstep : ∀ (s : Asking σ) (i : ι),
      (next step request s i).client = step s.client (id i) := fun _ _ => rfl
  simpa using run_component hstep s is

end Asking

end Clocked
