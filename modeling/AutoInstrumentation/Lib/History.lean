import Mathlib.Algebra.Ring.Nat
import Mathlib.Data.List.Induction

/-!
# AutoInstrumentation.Lib.History

Properties of all the moments of a history: of what had happened by each of them, and of
each event with what had happened before.
-/

namespace AutoInstrumentation.Lib

variable {α : Type} {P Q : List α → Prop} {R : List α → α → Prop} {l : List α} {a : α}

/-- The property holds of the history so far, at its begin and behind each event. -/
def Always (P : List α → Prop) (l : List α) : Prop := ∀ before, before <+: l → P before

/-- The property holds of each event and the history before it. -/
def EachStep (R : List α → α → Prop) (l : List α) : Prop :=
  ∀ before event, before ++ [event] <+: l → R before event

theorem always_nil : Always P ([] : List α) ↔ P [] := by
  constructor
  · intro h
    exact h [] List.prefix_rfl
  · intro h before hbefore
    rw [List.prefix_nil.mp hbefore]
    exact h

theorem always_concat : Always P (l ++ [a]) ↔ Always P l ∧ P (l ++ [a]) := by
  constructor
  · intro h
    refine ⟨?_, h _ List.prefix_rfl⟩
    intro before hbefore
    exact h before (hbefore.trans (List.prefix_append l [a]))
  · intro h before hbefore
    rcases List.prefix_concat_iff.mp hbefore with rfl | hbefore
    · exact h.2
    · exact h.1 before hbefore

theorem eachStep_nil : EachStep R ([] : List α) := by
  intro before event h
  have hnil := List.prefix_nil.mp h
  simp at hnil

theorem eachStep_concat : EachStep R (l ++ [a]) ↔ EachStep R l ∧ R l a := by
  constructor
  · intro h
    refine ⟨?_, h l a List.prefix_rfl⟩
    intro before event hbefore
    exact h before event (hbefore.trans (List.prefix_append l [a]))
  · intro h before event hbefore
    rcases List.prefix_concat_iff.mp hbefore with heq | hbefore
    · obtain ⟨rfl, hevent⟩ := List.append_inj' heq rfl
      obtain rfl : event = a := List.singleton_inj.mp hevent
      exact h.2
    · exact h.1 before event hbefore

/-- **The rule of induction over histories.** -/
theorem Always.of_step (hnil : P []) (hstep : ∀ l a, P l → R l a → P (l ++ [a]))
    (h : EachStep R l) : Always P l := by
  induction l using List.reverseRecOn with
  | nil => exact always_nil.mpr hnil
  | append_singleton l a ih =>
      rw [eachStep_concat] at h
      have hbefore := ih h.1
      exact always_concat.mpr ⟨hbefore, hstep l a (hbefore l List.prefix_rfl) h.2⟩

theorem Always.mono (h : Always P l) (hPQ : ∀ before, P before → Q before) : Always Q l := by
  intro before hbefore
  exact hPQ before (h before hbefore)

theorem Always.here (h : Always P l) : P l := h l List.prefix_rfl

end AutoInstrumentation.Lib
