import Mathlib.Algebra.Ring.Nat
import Mathlib.Data.List.Nodup

/-!
# AutoInstrumentation.Lib.Distinct

The distinct elements of a list, compared by what a function makes of them: each class
stays with its first element, and the first elements stay in their order.
-/

namespace AutoInstrumentation.Lib

variable {α δ : Type} [DecidableEq δ] (fold : α → δ)

/-- The elements whose class is new when they come; those of `seen` came before. -/
def distinctFrom : List δ → List α → List α
  | _, [] => []
  | seen, x :: xs =>
      if fold x ∈ seen then distinctFrom seen xs else x :: distinctFrom (fold x :: seen) xs

/-- The distinct elements of a list. -/
def distinct (xs : List α) : List α := distinctFrom fold [] xs

/-- Where the class of an element first occurs in a list. -/
def firstIndex (xs : List α) (x : α) : ℕ := (xs.map fold).idxOf (fold x)

variable {fold}

theorem mem_distinctFrom {seen : List δ} {xs : List α} {x : α}
    (h : x ∈ distinctFrom fold seen xs) : x ∈ xs ∧ fold x ∉ seen := by
  induction xs generalizing seen with
  | nil => cases h
  | cons y ys ih =>
      rw [distinctFrom] at h
      split at h
      · obtain ⟨hmem, hnew⟩ := ih h
        exact ⟨List.mem_cons_of_mem y hmem, hnew⟩
      · next hy =>
          rcases List.mem_cons.mp h with rfl | h
          · exact ⟨List.mem_cons_self, hy⟩
          · obtain ⟨hmem, hnew⟩ := ih h
            exact ⟨List.mem_cons_of_mem y hmem, fun hx => hnew (List.mem_cons_of_mem _ hx)⟩

theorem mem_of_mem_distinct {xs : List α} {x : α} (h : x ∈ distinct fold xs) : x ∈ xs :=
  (mem_distinctFrom h).1

/-- Each class has an element that stays. -/
theorem exists_mem_distinctFrom {seen : List δ} {xs : List α} {x : α} (h : x ∈ xs)
    (hnew : fold x ∉ seen) : ∃ y ∈ distinctFrom fold seen xs, fold y = fold x := by
  induction xs generalizing seen with
  | nil => cases h
  | cons z zs ih =>
      rw [distinctFrom]
      rcases List.mem_cons.mp h with rfl | h
      · rw [if_neg hnew]
        exact ⟨x, List.mem_cons_self, rfl⟩
      · split
        · exact ih h hnew
        · by_cases hz : fold x = fold z
          · exact ⟨z, List.mem_cons_self, hz.symm⟩
          · have hunseen : fold x ∉ fold z :: seen := by
              simp only [List.mem_cons, not_or]
              exact ⟨hz, hnew⟩
            obtain ⟨y, hy, hfold⟩ := ih h hunseen
            exact ⟨y, List.mem_cons_of_mem z hy, hfold⟩

theorem exists_mem_distinct {xs : List α} {x : α} (h : x ∈ xs) :
    ∃ y ∈ distinct fold xs, fold y = fold x :=
  exists_mem_distinctFrom h List.not_mem_nil

theorem firstIndex_cons_self (x : α) (xs : List α) : firstIndex fold (x :: xs) x = 0 := by
  rw [firstIndex, List.map_cons, List.idxOf_cons_self]

theorem firstIndex_cons_of_ne {x y : α} (h : fold y ≠ fold x) (xs : List α) :
    firstIndex fold (y :: xs) x = firstIndex fold xs x + 1 := by
  rw [firstIndex, List.map_cons, List.idxOf_cons_ne _ h]
  rfl

theorem distinctFrom_pairwise (seen : List δ) (xs : List α) :
    (distinctFrom fold seen xs).Pairwise fun a b => firstIndex fold xs a < firstIndex fold xs b := by
  induction xs generalizing seen with
  | nil => exact .nil
  | cons x xs ih =>
      -- behind `x` only other classes stay, and their indices move by one
      have hlater {seen' : List δ} (hx : fold x ∈ seen') :
          (distinctFrom fold seen' xs).Pairwise
            fun a b => firstIndex fold (x :: xs) a < firstIndex fold (x :: xs) b := by
        refine (ih seen').imp_of_mem fun {a b} ha hb hlt => ?_
        have hne {c : α} (hc : c ∈ distinctFrom fold seen' xs) : fold x ≠ fold c :=
          fun heq => (mem_distinctFrom hc).2 (heq ▸ hx)
        rw [firstIndex_cons_of_ne (hne ha), firstIndex_cons_of_ne (hne hb)]
        exact Nat.succ_lt_succ hlt
      rw [distinctFrom]
      split
      · next hx => exact hlater hx
      · refine List.pairwise_cons.mpr ⟨fun b hb => ?_, hlater List.mem_cons_self⟩
        have hne : fold x ≠ fold b :=
          fun heq => (mem_distinctFrom hb).2 (heq ▸ List.mem_cons_self)
        rw [firstIndex_cons_self, firstIndex_cons_of_ne hne]
        exact Nat.succ_pos _

/-- **The first elements stay in their order.** -/
theorem distinct_pairwise (xs : List α) :
    (distinct fold xs).Pairwise fun a b => firstIndex fold xs a < firstIndex fold xs b :=
  distinctFrom_pairwise [] xs

/-- **No class stays twice.** -/
theorem distinct_nodup (xs : List α) : ((distinct fold xs).map fold).Nodup := by
  refine List.pairwise_map.mpr ((distinct_pairwise xs).imp fun {a b} hlt heq => ?_)
  rw [firstIndex, firstIndex, heq] at hlt
  exact Nat.lt_irrefl _ hlt

/-- The order of two elements whose classes pass a test is their order among those that
pass it. -/
theorem firstIndex_lt_of_filter {p : α → Bool} {xs : List α} {x y : α}
    (hx : ∀ z ∈ xs, fold z = fold x → p z = true) (hy : ∀ z ∈ xs, fold z = fold y → p z = true)
    (h : firstIndex fold (xs.filter p) x < firstIndex fold (xs.filter p) y) :
    firstIndex fold xs x < firstIndex fold xs y := by
  induction xs with
  | nil => exact absurd h (Nat.lt_irrefl _)
  | cons z zs ih =>
      have ih := ih (fun w hw => hx w (List.mem_cons_of_mem z hw))
        (fun w hw => hy w (List.mem_cons_of_mem z hw))
      by_cases hz : p z = true
      · rw [List.filter_cons_of_pos hz] at h
        by_cases hzy : fold z = fold y
        · rw [firstIndex, firstIndex, ← hzy, List.map_cons, List.idxOf_cons_self] at h
          exact absurd h (Nat.not_lt_zero _)
        · rw [firstIndex_cons_of_ne hzy] at h ⊢
          by_cases hzx : fold z = fold x
          · rw [firstIndex, ← hzx, List.map_cons, List.idxOf_cons_self]
            exact Nat.succ_pos _
          · rw [firstIndex_cons_of_ne hzx] at h ⊢
            exact Nat.succ_lt_succ (ih (Nat.lt_of_succ_lt_succ h))
      · rw [List.filter_cons_of_neg hz] at h
        have hzx : fold z ≠ fold x := fun heq => hz (hx z List.mem_cons_self heq)
        have hzy : fold z ≠ fold y := fun heq => hz (hy z List.mem_cons_self heq)
        rw [firstIndex_cons_of_ne hzx, firstIndex_cons_of_ne hzy]
        exact Nat.succ_lt_succ (ih h)

end AutoInstrumentation.Lib
