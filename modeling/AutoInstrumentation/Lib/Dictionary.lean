import Mathlib.Algebra.Ring.Nat
import Mathlib.Data.List.Induction
import Mathlib.Data.List.Nodup

/-!
# AutoInstrumentation.Lib.Dictionary

Dictionaries whose keys are compared by what a function makes of them, as case-insensitive
strings are.

A dictionary keeps the key it was first given; a later value replaces the earlier one in
its place. What is found after any number of insertions is the value of the last one whose
key is the same.
-/

namespace AutoInstrumentation.Lib

variable {κ δ ν : Type} [DecidableEq δ]

/-- The value of the last of the pairs whose key is the same as `key`. -/
def lastValue (fold : κ → δ) (pairs : List (κ × ν)) (key : κ) : Option ν :=
  pairs.foldl (fun found p => if fold p.1 = fold key then some p.2 else found) none

section lastValue

variable {fold : κ → δ} {key : κ}

@[simp] theorem lastValue_nil : lastValue fold ([] : List (κ × ν)) key = none := rfl

theorem lastValue_snoc (pairs : List (κ × ν)) (p : κ × ν) :
    lastValue fold (pairs ++ [p]) key =
      if fold p.1 = fold key then some p.2 else lastValue fold pairs key := by
  rw [lastValue, List.foldl_append]
  rfl

theorem lastValue_append (pairs later : List (κ × ν)) :
    lastValue fold (pairs ++ later) key =
      (lastValue fold later key).or (lastValue fold pairs key) := by
  induction later using List.reverseRecOn with
  | nil => rw [List.append_nil, lastValue_nil, Option.none_or]
  | append_singleton later p ih =>
      rw [← List.append_assoc, lastValue_snoc, lastValue_snoc, ih]
      split
      · rfl
      · rfl

theorem lastValue_cons (p : κ × ν) (later : List (κ × ν)) :
    lastValue fold (p :: later) key =
      (lastValue fold later key).or (if fold p.1 = fold key then some p.2 else none) :=
  lastValue_append [p] later

theorem lastValue_eq_none {pairs : List (κ × ν)} :
    lastValue fold pairs key = none ↔ ∀ p ∈ pairs, fold p.1 ≠ fold key := by
  induction pairs with
  | nil => simp
  | cons p pairs ih =>
      rw [lastValue_cons, Option.or_eq_none_iff, ih, List.forall_mem_cons, and_comm]
      simp

theorem lastValue_congr {key' : κ} (h : fold key = fold key') (pairs : List (κ × ν)) :
    lastValue fold pairs key = lastValue fold pairs key' := by
  rw [lastValue, lastValue, h]

/-- The last pair of a key, where there is one. -/
theorem exists_last {pairs : List (κ × ν)} {value : ν}
    (h : lastValue fold pairs key = some value) :
    ∃ before p after, pairs = before ++ p :: after ∧ fold p.1 = fold key ∧ p.2 = value
      ∧ ∀ q ∈ after, fold q.1 ≠ fold key := by
  induction pairs with
  | nil => cases h
  | cons p pairs ih =>
      rw [lastValue_cons] at h
      cases hlater : lastValue fold pairs key with
      | some value' =>
          rw [hlater] at h
          obtain rfl : value' = value := Option.some.inj h
          obtain ⟨before, q, after, rfl, hq⟩ := ih hlater
          exact ⟨p :: before, q, after, rfl, hq⟩
      | none =>
          rw [hlater, Option.none_or] at h
          split at h
          · next hkey =>
              exact ⟨[], p, pairs, rfl, hkey, Option.some.inj h, lastValue_eq_none.mp hlater⟩
          · cases h

/-- The value of a pair behind which its key does not occur. -/
theorem lastValue_of_last {before after : List (κ × ν)} {p : κ × ν}
    (h : ∀ q ∈ after, fold q.1 ≠ fold p.1) :
    lastValue fold (before ++ p :: after) p.1 = some p.2 := by
  rw [lastValue_append, lastValue_cons, lastValue_eq_none.mpr h, if_pos rfl]
  rfl

theorem lastValue_append_of_absent {pairs later : List (κ × ν)}
    (h : ∀ q ∈ later, fold q.1 ≠ fold key) :
    lastValue fold (pairs ++ later) key = lastValue fold pairs key := by
  rw [lastValue_append, lastValue_eq_none.mpr h, Option.none_or]

end lastValue

/-- A dictionary with the comparer `fold`. -/
structure Dictionary (fold : κ → δ) (ν : Type) where
  entries : List (κ × ν)
  nodup : (entries.map fun p => fold p.1).Nodup

/-- The entries with a value set: in its place, if the key is there, and at the end if
it is not. -/
def setEntry (fold : κ → δ) (key : κ) (value : ν) : List (κ × ν) → List (κ × ν)
  | [] => [(key, value)]
  | p :: ps =>
      if fold p.1 = fold key then (p.1, value) :: ps else p :: setEntry fold key value ps

theorem map_setEntry (fold : κ → δ) (key : κ) (value : ν) (ps : List (κ × ν)) :
    (setEntry fold key value ps).map (fun p => fold p.1) =
      if fold key ∈ ps.map (fun p => fold p.1) then ps.map fun p => fold p.1
      else ps.map (fun p => fold p.1) ++ [fold key] := by
  induction ps with
  | nil => simp [setEntry]
  | cons p ps ih =>
      rw [setEntry]
      by_cases hkey : fold p.1 = fold key
      · simp [hkey]
      · simp only [if_neg hkey, List.map_cons, ih, List.mem_cons, or_iff_right (Ne.symm hkey)]
        split <;> rfl

theorem mem_setEntry {fold : κ → δ} {key : κ} {value : ν} {ps : List (κ × ν)} {p : κ × ν}
    (h : p ∈ setEntry fold key value ps) :
    (p.1 = key ∨ ∃ q ∈ ps, p.1 = q.1) ∧ (p.2 = value ∨ ∃ q ∈ ps, p.2 = q.2) := by
  induction ps with
  | nil =>
      rw [List.mem_singleton.mp h]
      exact ⟨.inl rfl, .inl rfl⟩
  | cons q qs ih =>
      rw [setEntry] at h
      split at h
      · rcases List.mem_cons.mp h with rfl | hp
        · exact ⟨.inr ⟨q, List.mem_cons_self, rfl⟩, .inl rfl⟩
        · have hp := List.mem_cons_of_mem q hp
          exact ⟨.inr ⟨p, hp, rfl⟩, .inr ⟨p, hp, rfl⟩⟩
      · rcases List.mem_cons.mp h with rfl | hp
        · exact ⟨.inr ⟨p, List.mem_cons_self, rfl⟩, .inr ⟨p, List.mem_cons_self, rfl⟩⟩
        · obtain ⟨hkey, hvalue⟩ := ih hp
          exact ⟨hkey.imp_right fun ⟨r, hr, heq⟩ => ⟨r, List.mem_cons_of_mem q hr, heq⟩,
            hvalue.imp_right fun ⟨r, hr, heq⟩ => ⟨r, List.mem_cons_of_mem q hr, heq⟩⟩

namespace Dictionary

variable {fold : κ → δ}

def empty : Dictionary fold ν := ⟨[], List.nodup_nil⟩

/-- `dictionary[key] = value`. -/
def set (d : Dictionary fold ν) (key : κ) (value : ν) : Dictionary fold ν where
  entries := setEntry fold key value d.entries
  nodup := by
    rw [map_setEntry]
    split
    · exact d.nodup
    · next h => exact List.nodup_append.mpr ⟨d.nodup, List.nodup_singleton _, by
        rintro a ha b hb rfl
        rw [List.mem_singleton.mp hb] at ha
        exact h ha⟩

/-- `TryGetValue`. -/
def find (d : Dictionary fold ν) (key : κ) : Option ν := lastValue fold d.entries key

/-- All pairs are set in their order. -/
def setAll (d : Dictionary fold ν) (pairs : List (κ × ν)) : Dictionary fold ν :=
  pairs.foldl (fun d p => d.set p.1 p.2) d

/-- What is found behind an insertion. -/
theorem find_set (d : Dictionary fold ν) (key : κ) (value : ν) (key' : κ) :
    (d.set key value).find key' = if fold key = fold key' then some value else d.find key' := by
  obtain ⟨entries, hnodup⟩ := d
  change lastValue fold (setEntry fold key value entries) key' =
    if fold key = fold key' then some value else lastValue fold entries key'
  induction entries with
  | nil => rfl
  | cons p ps ih =>
      obtain ⟨hp, hps⟩ := List.nodup_cons.mp hnodup
      rw [setEntry]
      by_cases hkey : fold p.1 = fold key
      · rw [if_pos hkey, lastValue_cons, lastValue_cons, hkey]
        by_cases hkey' : fold key = fold key'
        · have hnone : lastValue fold ps key' = none := by
            refine lastValue_eq_none.mpr fun q hq heq => hp ?_
            change fold p.1 ∈ _
            rw [hkey, hkey', ← heq]
            exact List.mem_map_of_mem hq
          rw [hnone, if_pos hkey', if_pos hkey']
          rfl
        · rw [if_neg hkey', if_neg hkey', if_neg hkey']
      · rw [if_neg hkey, lastValue_cons, lastValue_cons, ih hps]
        by_cases hkey' : fold key = fold key'
        · rw [if_pos hkey', if_pos hkey']
          rfl
        · rw [if_neg hkey', if_neg hkey']

/-- **The last value of each key stays.** -/
theorem find_setAll (d : Dictionary fold ν) (pairs : List (κ × ν)) (key : κ) :
    (d.setAll pairs).find key = (lastValue fold pairs key).or (d.find key) := by
  induction pairs generalizing d with
  | nil => rfl
  | cons p pairs ih =>
      change ((d.set p.1 p.2).setAll pairs).find key = _
      rw [ih, find_set, lastValue_cons, Option.or_assoc]
      split
      · rfl
      · rw [Option.none_or]

/-- Keys and values are among those that were set. -/
theorem mem_setAll {pairs : List (κ × ν)} {d : Dictionary fold ν} {p : κ × ν}
    (h : p ∈ (d.setAll pairs).entries) :
    (∃ q ∈ d.entries ++ pairs, p.1 = q.1) ∧ ∃ q ∈ d.entries ++ pairs, p.2 = q.2 := by
  induction pairs generalizing d with
  | nil =>
      rw [List.append_nil]
      exact ⟨⟨p, h, rfl⟩, p, h, rfl⟩
  | cons q pairs ih =>
      have hmem {f : κ × ν → Prop} (hf : f q ∨ ∃ r ∈ d.entries, f r) :
          ∃ r ∈ d.entries ++ q :: pairs, f r := by
        rcases hf with hf | ⟨r, hr, hf⟩
        · exact ⟨q, List.mem_append_right _ List.mem_cons_self, hf⟩
        · exact ⟨r, List.mem_append_left _ hr, hf⟩
      have hlater {f : κ × ν → Prop} {r : κ × ν} (hr : r ∈ pairs) (hf : f r) :
          ∃ r ∈ d.entries ++ q :: pairs, f r :=
        ⟨r, List.mem_append_right _ (List.mem_cons_of_mem q hr), hf⟩
      obtain ⟨⟨r, hr, hkey⟩, r', hr', hvalue⟩ := ih (d := d.set q.1 q.2) h
      constructor
      · rcases List.mem_append.mp hr with hr | hr
        · exact hmem (hkey ▸ (mem_setEntry hr).1)
        · exact hlater hr hkey
      · rcases List.mem_append.mp hr' with hr' | hr'
        · exact hmem (hvalue ▸ (mem_setEntry hr').2)
        · exact hlater hr' hvalue

end Dictionary

end AutoInstrumentation.Lib
