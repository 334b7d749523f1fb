import Mathlib.Algebra.Ring.Nat
import Mathlib.Data.Set.Basic
import Mathlib.Order.Basic

/-!
# AutoInstrumentation.Lib.Transition

Labelled transition systems, their runs and the invariant rule.

A `System σ α` is a set of initial states and a labelled step relation; labels
name who moves and with which outcome, so that one run is one interleaving. The
rules below are the only inductions over runs the developments need: an
inductive predicate holds in every reachable state (`Inductive.reachable`), a
predicate preserved by steps survives a run (`Inductive.run`), and a reflexive
and transitive relation that every step respects relates the ends of every run
(`Run.rel_of_step`). A system given by a step function can also be executed
(`exec`), and what it executes is a run.
-/

namespace AutoInstrumentation.Lib

universe u v

/-- A labelled transition system over states `σ` and labels `α`. -/
structure System (σ : Type u) (α : Type v) where
  init : σ → Prop
  step : σ → α → σ → Prop

namespace System

variable {σ : Type u} {α : Type v} {M : System σ α}

/-- A finite run, with the labels it takes in order. -/
inductive Run (M : System σ α) : σ → List α → σ → Prop
  | nil (s : σ) : Run M s [] s
  | cons {s t u : σ} {a : α} {l : List α} :
      M.step s a t → Run M t l u → Run M s (a :: l) u

/-- A state some run from an initial state ends in. -/
def Reachable (M : System σ α) (s : σ) : Prop :=
  ∃ s₀ l, M.init s₀ ∧ Run M s₀ l s

theorem Run.append {s t u : σ} {l m : List α} (h₁ : Run M s l t) (h₂ : Run M t m u) :
    Run M s (l ++ m) u := by
  induction h₁ with
  | nil => exact h₂
  | cons hstep _ ih => exact .cons hstep (ih h₂)

theorem Run.snoc {s t u : σ} {l : List α} {a : α} (h₁ : Run M s l t) (h₂ : M.step t a u) :
    Run M s (l ++ [a]) u :=
  h₁.append (.cons h₂ (.nil u))

theorem Reachable.of_init {s : σ} (h : M.init s) : M.Reachable s :=
  ⟨s, [], h, .nil s⟩

theorem Reachable.run {s t : σ} {l : List α} (hs : M.Reachable s) (h : Run M s l t) :
    M.Reachable t := by
  obtain ⟨s₀, m, h₀, hm⟩ := hs
  exact ⟨s₀, m ++ l, h₀, hm.append h⟩

theorem Reachable.step {s t : σ} {a : α} (hs : M.Reachable s) (h : M.step s a t) :
    M.Reachable t :=
  hs.run (.cons h (.nil t))

/-- A predicate that holds initially and that no step breaks. -/
structure Inductive (M : System σ α) (I : σ → Prop) : Prop where
  init : ∀ s, M.init s → I s
  step : ∀ s a t, I s → M.step s a t → I t

/-- An inductive predicate survives every run from a state it holds in. -/
theorem Inductive.run {I : σ → Prop} (hI : Inductive M I) {s t : σ} {l : List α}
    (h : Run M s l t) (hs : I s) : I t := by
  induction h with
  | nil => exact hs
  | cons hstep _ ih => exact ih (hI.step _ _ _ hs hstep)

/-- **The invariant rule.** An inductive predicate holds in every reachable state. -/
theorem Inductive.reachable {I : σ → Prop} (hI : Inductive M I) {s : σ}
    (h : M.Reachable s) : I s := by
  obtain ⟨s₀, l, h₀, hrun⟩ := h
  exact hI.run hrun (hI.init s₀ h₀)

/-- A relation that every step from a state satisfying the invariant respects
relates the two ends of every run from such a state. -/
theorem Run.rel_of_step {I : σ → Prop} {R : σ → σ → Prop} (hI : Inductive M I)
    (hrefl : ∀ s, R s s) (htrans : ∀ s t u, R s t → R t u → R s u)
    (hstep : ∀ s a t, I s → M.step s a t → R s t)
    {s t : σ} {l : List α} (h : Run M s l t) (hs : I s) : R s t := by
  induction h with
  | nil s => exact hrefl s
  | cons hst _ ih =>
      exact htrans _ _ _ (hstep _ _ _ hs hst) (ih (hI.step _ _ _ hs hst))

/-- The runs all of whose steps satisfy `P`. -/
def restrict (M : System σ α) (P : σ → α → Prop) : System σ α where
  init := M.init
  step s a t := M.step s a t ∧ P s a

theorem Run.of_restrict {P : σ → α → Prop} {s t : σ} {l : List α}
    (h : Run (M.restrict P) s l t) : Run M s l t := by
  induction h with
  | nil s => exact .nil s
  | cons hstep _ ih => exact .cons hstep.1 ih

theorem Reachable.of_restrict {P : σ → α → Prop} {s : σ} (h : (M.restrict P).Reachable s) :
    M.Reachable s := by
  obtain ⟨s₀, l, h₀, hrun⟩ := h
  exact ⟨s₀, l, h₀, hrun.of_restrict⟩

/-! ### Systems given by a step function -/

/-- The system whose steps are the defined results of `step`. -/
def ofStep (init : σ → Prop) (step : σ → α → Option σ) : System σ α where
  init := init
  step s a t := step s a = some t

/-- Take the steps of a list of labels in order. -/
def exec (step : σ → α → Option σ) : σ → List α → Option σ
  | s, [] => some s
  | s, a :: l => (step s a).bind fun t => exec step t l

theorem run_of_exec {init : σ → Prop} {step : σ → α → Option σ} {s t : σ} {l : List α}
    (h : exec step s l = some t) : Run (ofStep init step) s l t := by
  induction l generalizing s with
  | nil =>
      obtain rfl := Option.some.inj h
      exact .nil s
  | cons a l ih =>
      obtain ⟨u, hu, ht⟩ := Option.bind_eq_some_iff.mp h
      exact .cons hu (ih ht)

theorem reachable_of_exec {init : σ → Prop} {step : σ → α → Option σ} {s t : σ} {l : List α}
    (h₀ : init s) (h : exec step s l = some t) : (ofStep init step).Reachable t :=
  ⟨s, l, h₀, run_of_exec h⟩

end System

end AutoInstrumentation.Lib
