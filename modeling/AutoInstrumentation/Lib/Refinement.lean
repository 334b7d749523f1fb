import AutoInstrumentation.Lib.Transition
import Mathlib.Data.List.Basic

/-!
# AutoInstrumentation.Lib.Refinement

Refinement of transition systems.

A system refines another one along a relation of their states when each of its steps is
matched by steps of the other one, possibly none, that show the same. Then each of its runs is
matched by a run of the other one.
-/

namespace AutoInstrumentation.Lib.System

variable {σ τ α β ε : Type}

/-- **Refinement.** A step of `M` that shows `seen a` is matched by steps of `N` that show the
same. -/
structure Refines (M : System σ α) (N : System τ β) (R : σ → τ → Prop) (seen : α → List ε)
    (shown : β → List ε) : Prop where
  step : ∀ s a s' t, R s t → M.step s a s' →
    ∃ l t', Run N t l t' ∧ R s' t' ∧ seen a = l.flatMap shown

theorem Refines.run {M : System σ α} {N : System τ β} {R : σ → τ → Prop} {seen : α → List ε}
    {shown : β → List ε} (h : Refines M N R seen shown) {s s' : σ} {t : τ} {l : List α}
    (hrun : Run M s l s') (ht : R s t) :
    ∃ m t', Run N t m t' ∧ R s' t' ∧ l.flatMap seen = m.flatMap shown := by
  induction hrun generalizing t with
  | nil s => exact ⟨[], t, .nil t, ht, rfl⟩
  | @cons s s₁ s' a l hstep _ ih =>
      obtain ⟨m₁, t₁, hrun₁, ht₁, hseen₁⟩ := h.step s a s₁ t ht hstep
      obtain ⟨m₂, t₂, hrun₂, ht₂, hseen₂⟩ := ih ht₁
      refine ⟨m₁ ++ m₂, t₂, hrun₁.append hrun₂, ht₂, ?_⟩
      rw [List.flatMap_cons, List.flatMap_append, hseen₁, hseen₂]

end AutoInstrumentation.Lib.System
