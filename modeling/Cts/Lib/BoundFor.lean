import Cts.Lib.Runs

/-!
# What runs are bound for

A state is bound for `Q` when every way on comes to where `Q` holds: as long as it does not, there is a
next step, and each next state is bound for `Q` again.
-/

namespace Lib

variable {σ : Type} {step : σ → σ → Prop} {Q : σ → Prop} {s : σ}

inductive BoundFor (step : σ → σ → Prop) (Q : σ → Prop) : σ → Prop
  | here {s : σ} (h : Q s) : BoundFor step Q s
  | later {s : σ} (hsome : ∃ t, step s t) (hall : ∀ t, step s t → BoundFor step Q t) :
      BoundFor step Q s

/-- Where nothing is stuck and every step has less left, runs are bound for the end. -/
theorem bound_for_of_rank {I : σ → Prop} (rank : σ → Nat)
    (hsome : ∀ s, I s → ¬ Q s → ∃ t, step s t)
    (hless : ∀ s t, I s → ¬ Q s → step s t → Q t ∨ I t ∧ rank t < rank s) (hs : I s) :
    BoundFor step Q s := by
  induction hn : rank s using Nat.strongRecOn generalizing s with
  | ind n ih =>
    by_cases hQ : Q s
    · exact .here hQ
    refine .later (hsome s hs hQ) fun t ht => ?_
    rcases hless s t hs hQ ht with h | ⟨hI, hlt⟩
    · exact .here h
    · exact ih (rank t) (hn ▸ hlt) hI rfl

end Lib
