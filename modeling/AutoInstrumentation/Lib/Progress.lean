import AutoInstrumentation.Lib.Transition

/-!
# AutoInstrumentation.Lib.Progress

Transition systems that come to an end.

A measure that every step from the states of an invariant lowers bounds the length of
every run (`Run.length_add_le`). With it, a property of the states that no step leads on
from is what every run comes to.
-/

namespace AutoInstrumentation.Lib

universe u v

namespace System

variable {σ : Type u} {α : Type v} {M : System σ α}

/-- No step leads on. -/
def Stuck (M : System σ α) (s : σ) : Prop := ∀ a t, ¬ M.step s a t

/-- Each step from a state of the invariant lowers the measure. -/
def Lowers (M : System σ α) (I : σ → Prop) (measure : σ → ℕ) : Prop :=
  ∀ s a t, I s → M.step s a t → measure t < measure s

variable {I : σ → Prop} {measure : σ → ℕ}

/-- A run is no longer than the measure it uses up. -/
theorem Run.length_add_le (hI : Inductive M I) (hlowers : M.Lowers I measure) {s t : σ}
    {l : List α} (h : Run M s l t) (hs : I s) : l.length + measure t ≤ measure s := by
  induction h with
  | nil => simp
  | @cons s t u a l hstep _ ih =>
      have hlower := hlowers s a t hs hstep
      have hrest := ih (hI.step s a t hs hstep)
      simp only [List.length_cons]
      omega

/-- Every state of the invariant leads to one where no step leads on. -/
theorem exists_run_stuck (hI : Inductive M I) (hlowers : M.Lowers I measure) {s : σ}
    (hs : I s) : ∃ l t, Run M s l t ∧ M.Stuck t := by
  induction hn : measure s using Nat.strong_induction_on generalizing s with
  | _ n ih =>
      by_cases hstuck : M.Stuck s
      · exact ⟨[], s, .nil s, hstuck⟩
      · simp only [Stuck, not_forall, not_not] at hstuck
        obtain ⟨a, t, hstep⟩ := hstuck
        have hlower := hlowers s a t hs hstep
        obtain ⟨l, u, hrun, hend⟩ := ih (measure t) (hn ▸ hlower) (hI.step s a t hs hstep) rfl
        exact ⟨a :: l, u, .cons hstep hrun, hend⟩

end System

end AutoInstrumentation.Lib
