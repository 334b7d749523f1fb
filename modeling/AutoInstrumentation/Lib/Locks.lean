import Mathlib.Data.List.Nodup
import Mathlib.Logic.Function.Basic

/-!
# AutoInstrumentation.Lib.Locks

Tables of locks and the scopes of the threads that hold them.

A table says of each lock who has it. Beside it stands, for each owner, the list of
locks it has taken and not given back, the newest first; a scope gives back the newest
one. `Matches` says that the two views agree, and it survives taking a free lock and
giving one back.
-/

namespace AutoInstrumentation.Lib

universe u v

/-- Who has each lock. -/
abbrev Locks (L : Type u) (ι : Type v) := L → Option ι

namespace Locks

variable {L : Type u} {ι : Type v} {table : Locks L ι} {held : ι → List L}

/-- Every lock is free. -/
def free : Locks L ι := fun _ => none

def acquire [DecidableEq L] (table : Locks L ι) (l : L) (i : ι) : Locks L ι :=
  Function.update table l (some i)

def release [DecidableEq L] (table : Locks L ι) (l : L) : Locks L ι :=
  Function.update table l none

/-- The table is what the owners believe to hold. -/
structure Matches (table : Locks L ι) (held : ι → List L) : Prop where
  owner : ∀ l i, table l = some i ↔ l ∈ held i
  nodup : ∀ i, (held i).Nodup

/-- Two owners of one lock are the same. -/
theorem Matches.unique (h : Matches table held) {l : L} {i j : ι} (hi : l ∈ held i)
    (hj : l ∈ held j) : i = j := by
  have hij := ((h.owner l i).mpr hi).symm.trans ((h.owner l j).mpr hj)
  exact Option.some.inj hij

/-- A lock that is not free is held by someone. -/
theorem Matches.exists_owner (h : Matches table held) {l : L} (hl : table l ≠ none) :
    ∃ i, l ∈ held i := by
  obtain ⟨i, hi⟩ := Option.ne_none_iff_exists'.mp hl
  exact ⟨i, (h.owner l i).mp hi⟩

theorem Matches.of_free : Matches (free : Locks L ι) fun _ => [] where
  owner l i := by simp [free]
  nodup _ := List.nodup_nil

variable [DecidableEq L] [DecidableEq ι]

/-- A free lock is taken. -/
theorem Matches.acquire (h : Matches table held) {l : L} {i : ι} (hl : table l = none) :
    Matches (table.acquire l i) (Function.update held i (l :: held i)) := by
  have hfresh : ∀ j, l ∉ held j := by
    intro j hj
    have hsome := (h.owner l j).mpr hj
    simp [hl] at hsome
  constructor
  case owner =>
      intro m j
      by_cases hm : m = l
      · subst hm
        by_cases hj : j = i
        · simp [Locks.acquire, hj]
        · have hji : i ≠ j := fun hij => hj hij.symm
          simp [Locks.acquire, hj, hji, hfresh j]
      · by_cases hj : j = i
        · subst hj
          simp [Locks.acquire, hm, h.owner]
        · simp [Locks.acquire, hm, hj, h.owner]
  case nodup =>
      intro j
      by_cases hj : j = i
      · subst hj
        simp [hfresh j, h.nodup j]
      · simp [hj, h.nodup j]

/-- The lock taken last is given back. -/
theorem Matches.release (h : Matches table held) {l : L} {i : ι} {rest : List L}
    (hl : held i = l :: rest) : Matches (table.release l) (Function.update held i rest) := by
  have hnodup := h.nodup i
  rw [hl, List.nodup_cons] at hnodup
  have hown : l ∈ held i := by simp [hl]
  constructor
  case owner =>
      intro m j
      by_cases hm : m = l
      · subst hm
        by_cases hj : j = i
        · simp [Locks.release, hj, hnodup.1]
        · have hother : m ∉ held j := fun hmem => hj (h.unique hmem hown)
          simp [Locks.release, hj, hother]
      · by_cases hj : j = i
        · subst hj
          simp [Locks.release, hm, h.owner, hl]
        · simp [Locks.release, hm, hj, h.owner]
  case nodup =>
      intro j
      by_cases hj : j = i
      · subst hj
        simpa using hnodup.2
      · simp [hj, h.nodup j]

end Locks

end AutoInstrumentation.Lib
