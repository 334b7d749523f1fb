import AutoInstrumentation.Lib.Dictionary

/-!
# AutoInstrumentation.Lib.Memo

Tables of remembered results.

A table computes the result of a question when its key is asked for the first time, and
answers every later question of the same key with that result. Where the key says less than
the question, the answer is the result of the first question of the key.
-/

namespace AutoInstrumentation.Lib

variable {κ δ ν γ : Type} [DecidableEq δ] {fold : κ → δ}

/-- `GetOrAdd`: the value of the key, which is computed and kept where there is none. -/
def Dictionary.getOrAdd (d : Dictionary fold ν) (key : κ) (value : ν) : Dictionary fold ν × ν :=
  match d.find key with
  | some found => (d, found)
  | none => (d.set key value, value)

section Memo

variable (key : γ → κ) (compute : γ → ν)

/-- The first of the questions with a key. -/
def firstAsked [DecidableEq κ] (asked : List γ) (k : κ) : Option γ :=
  asked.find? fun q => key q = k

/-- A table remembers the first result of each key. -/
def Remembers [DecidableEq κ] (d : Dictionary (id : κ → κ) ν) (asked : List γ) : Prop :=
  ∀ k, d.find k = (firstAsked key asked k).map compute

variable {key compute} [DecidableEq κ] {d : Dictionary (id : κ → κ) ν} {asked : List γ}

theorem firstAsked_snoc (asked : List γ) (q : γ) (k : κ) :
    firstAsked key (asked ++ [q]) k =
      (firstAsked key asked k).or (if key q = k then some q else none) := by
  rw [firstAsked, List.find?_append]
  by_cases hk : key q = k
  · simp [firstAsked, hk]
  · simp [firstAsked, hk]

theorem key_of_firstAsked {q : γ} {k : κ} (h : firstAsked key asked k = some q) : key q = k := by
  simpa using List.find?_some h

/-- What was asked first stays first. -/
theorem firstAsked_append {q : γ} {k : κ} (h : firstAsked key asked k = some q)
    (later : List γ) : firstAsked key (asked ++ later) k = some q := by
  rw [firstAsked, List.find?_append]
  change (firstAsked key asked k).or _ = some q
  rw [h, Option.some_or]

theorem remembers_nil : Remembers key compute (Dictionary.empty : Dictionary (id : κ → κ) ν) [] :=
  fun _ => rfl

/-- **The answer is the result of the first question of the key.** -/
theorem Remembers.getOrAdd_snd (h : Remembers key compute d asked) (q : γ) :
    (d.getOrAdd (key q) (compute q)).2 = compute ((firstAsked key asked (key q)).getD q) := by
  rw [Dictionary.getOrAdd, h (key q)]
  cases firstAsked key asked (key q) with
  | some first => rfl
  | none => rfl

theorem Remembers.getOrAdd_fst (h : Remembers key compute d asked) (q : γ) :
    Remembers key compute (d.getOrAdd (key q) (compute q)).1 (asked ++ [q]) := by
  intro k
  rw [firstAsked_snoc, Dictionary.getOrAdd, h (key q)]
  cases hfirst : firstAsked key asked (key q) with
  | some first =>
      change d.find k = _
      rw [h k]
      by_cases hk : key q = k
      · rw [← hk, hfirst, Option.some_or]
      · rw [if_neg hk, Option.or_none]
  | none =>
      change (d.set (key q) (compute q)).find k = _
      rw [Dictionary.find_set, h k]
      simp only [id_eq]
      by_cases hk : key q = k
      · rw [if_pos hk, if_pos hk, ← hk, hfirst]
        rfl
      · rw [if_neg hk, if_neg hk, Option.or_none]

/-- A question whose key was asked before changes nothing. -/
theorem Remembers.snoc_of_asked (h : Remembers key compute d asked) {q first : γ}
    (hfirst : firstAsked key asked (key q) = some first) :
    Remembers key compute d (asked ++ [q]) := by
  intro k
  rw [h k, firstAsked_snoc]
  by_cases hk : key q = k
  · rw [← hk, hfirst, Option.some_or]
  · rw [if_neg hk, Option.or_none]

end Memo

end AutoInstrumentation.Lib
