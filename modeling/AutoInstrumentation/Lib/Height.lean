import Mathlib.Algebra.Order.BigOperators.Group.List
import Mathlib.Algebra.Order.Group.Nat
import Mathlib.Algebra.Ring.Nat
import Mathlib.Data.List.Nodup
import Mathlib.Data.List.Perm.Subperm

/-!
# AutoInstrumentation.Lib.Height

The heights that a program reaches at its positions, and a bound on them.

A system starts at some positions with a height, and steps from a position at one height
to another position at another. It is *consistent* when every position is reached at one
height only; then whatever is reached is reached on a path that passes no position twice.
So if a step out of a position adds no more than the position's weight, no height is above
the highest start together with the weights of all positions.
-/

namespace AutoInstrumentation.Lib

/-- Where a program starts, and how it goes on, with the heights there. -/
structure HeightSystem (α : Type*) where
  start : α → ℕ → Prop
  step : α → ℕ → α → ℕ → Prop

namespace HeightSystem

variable {α : Type*} {S : HeightSystem α} {p q : α} {d : ℕ} {visited : List α}

/-- The heights that are reached at a position. -/
inductive Attained (S : HeightSystem α) : α → ℕ → Prop
  | start {p : α} {d : ℕ} : S.start p d → Attained S p d
  | step {p q : α} {d e : ℕ} : Attained S p d → S.step p d q e → Attained S q e

/-- Each position is reached at one height. -/
def Consistent (S : HeightSystem α) : Prop :=
  ∀ p d e, S.Attained p d → S.Attained p e → d = e

/-- A way to a position that passes no position twice; `visited` are the positions that
were left, the last one in front. -/
inductive Path (S : HeightSystem α) : List α → α → ℕ → Prop
  | start {p : α} {d : ℕ} : S.start p d → Path S [] p d
  | step {visited : List α} {p q : α} {d e : ℕ} : Path S visited p d → S.step p d q e →
      q ∉ p :: visited → Path S (p :: visited) q e

theorem Path.attained (h : S.Path visited p d) : S.Attained p d := by
  induction h with
  | start hstart => exact .start hstart
  | step _ hstep _ ih => exact .step ih hstep

theorem Path.nodup (h : S.Path visited p d) : (p :: visited).Nodup := by
  induction h with
  | start => exact List.nodup_singleton _
  | step _ _ hnew ih => exact List.nodup_cons.mpr ⟨hnew, ih⟩

/-- A path goes through the positions that it has left. -/
theorem Path.of_mem (h : S.Path visited p d) (hq : q ∈ p :: visited) :
    ∃ visited e, S.Path visited q e := by
  induction h with
  | start hstart =>
      rw [List.mem_singleton] at hq
      subst hq
      exact ⟨_, _, .start hstart⟩
  | step hpath hstep hnew ih =>
      rcases List.mem_cons.mp hq with rfl | hq
      · exact ⟨_, _, .step hpath hstep hnew⟩
      · exact ih hq

/-- In a consistent system nothing is reached only by passing a position twice. -/
theorem Attained.exists_path (hS : S.Consistent) (h : S.Attained p d) :
    ∃ visited, S.Path visited p d := by
  induction h with
  | start hstart => exact ⟨[], .start hstart⟩
  | @step p q d e hattained hstep ih =>
      obtain ⟨visited, hpath⟩ := ih
      by_cases hq : q ∈ p :: visited
      · -- the path has been at `q` before, and at the same height
        obtain ⟨earlier, e', hearlier⟩ := hpath.of_mem hq
        have heq : e = e' := hS q e e' (.step hattained hstep) hearlier.attained
        exact ⟨earlier, heq ▸ hearlier⟩
      · exact ⟨p :: visited, .step hpath hstep hq⟩

/-- What a system starts with, and what a step adds at most. -/
structure Bounded (S : HeightSystem α) (base : ℕ) (weight : α → ℕ) : Prop where
  start : ∀ p d, S.start p d → d ≤ base
  step : ∀ p d q e, S.step p d q e → e ≤ d + weight p

theorem Path.le {base : ℕ} {weight : α → ℕ} (hbound : S.Bounded base weight)
    (h : S.Path visited p d) : d ≤ base + (visited.map weight).sum := by
  induction h with
  | start hstart => exact hbound.start _ _ hstart
  | @step visited p q d e _ hstep _ ih =>
      have hadds := hbound.step _ _ _ _ hstep
      rw [List.map_cons, List.sum_cons]
      omega

/-- **The bound on the heights of a consistent system**: the weights of all positions on
top of the base. -/
theorem Attained.le_sum {base : ℕ} {weight : α → ℕ} {positions : List α}
    (hS : S.Consistent) (hbound : S.Bounded base weight)
    (hpositions : ∀ p d q e, S.step p d q e → p ∈ positions) (h : S.Attained p d) :
    d ≤ base + (positions.map weight).sum := by
  obtain ⟨visited, hpath⟩ := h.exists_path hS
  have hsubset : visited ⊆ positions := by
    clear hS hbound h
    induction hpath with
    | start => exact List.nil_subset _
    | step _ hstep _ ih => exact List.cons_subset.mpr ⟨hpositions _ _ _ _ hstep, ih⟩
  obtain ⟨sub, hperm, hsub⟩ := List.subperm_of_subset (List.nodup_cons.mp hpath.nodup).2 hsubset
  calc d ≤ base + (visited.map weight).sum := hpath.le hbound
    _ = base + (sub.map weight).sum := by rw [(hperm.map weight).sum_eq]
    _ ≤ base + (positions.map weight).sum :=
        Nat.add_le_add_left ((hsub.map weight).sum_le_sum fun _ _ => Nat.zero_le _) base

end HeightSystem

end AutoInstrumentation.Lib
