import Mathlib.Algebra.Ring.Nat
import Mathlib.Data.List.Basic
import Mathlib.Order.Lattice

/-!
# AutoInstrumentation.Lib.OrderedMap

Maps over a linear order, kept as their entries in the order of the keys, which is the
order in which a map is gone over.
-/

namespace AutoInstrumentation.Lib

variable {κ ν : Type} [LinearOrder κ]

/-- The entries with a value set, in its place by the order of the keys. -/
def insertEntry (key : κ) (value : ν) : List (κ × ν) → List (κ × ν)
  | [] => [(key, value)]
  | p :: ps =>
      if key < p.1 then (key, value) :: p :: ps
      else if key = p.1 then (key, value) :: ps
      else p :: insertEntry key value ps

theorem mem_insertEntry {key : κ} {value : ν} {ps : List (κ × ν)} {p : κ × ν}
    (h : p ∈ insertEntry key value ps) : p = (key, value) ∨ p ∈ ps := by
  induction ps with
  | nil => exact .inl (List.mem_singleton.mp h)
  | cons q qs ih =>
      rw [insertEntry] at h
      split at h
      · exact List.mem_cons.mp h
      · split at h
        · exact (List.mem_cons.mp h).imp_right (List.mem_cons_of_mem q)
        · rcases List.mem_cons.mp h with rfl | h
          · exact .inr List.mem_cons_self
          · exact (ih h).imp_right (List.mem_cons_of_mem q)

theorem sorted_insertEntry (key : κ) (value : ν) {ps : List (κ × ν)}
    (h : ps.Pairwise fun p q => p.1 < q.1) :
    (insertEntry key value ps).Pairwise fun p q => p.1 < q.1 := by
  induction ps with
  | nil => exact List.pairwise_singleton _ _
  | cons q qs ih =>
      obtain ⟨hq, hqs⟩ := List.pairwise_cons.mp h
      rw [insertEntry]
      split
      · next hlt =>
          refine List.pairwise_cons.mpr ⟨?_, h⟩
          intro r hr
          rcases List.mem_cons.mp hr with rfl | hr
          · exact hlt
          · exact lt_trans hlt (hq r hr)
      · next hge =>
          split
          · next heq => exact List.pairwise_cons.mpr ⟨fun r hr => heq ▸ hq r hr, hqs⟩
          · next hne =>
              refine List.pairwise_cons.mpr ⟨?_, ih hqs⟩
              intro r hr
              rcases mem_insertEntry hr with rfl | hr
              · exact lt_of_le_of_ne (not_lt.mp hge) (Ne.symm hne)
              · exact hq r hr

/-- A map as a `std::map` keeps it. -/
structure OrderedMap (κ ν : Type) [LinearOrder κ] where
  entries : List (κ × ν)
  sorted : entries.Pairwise fun p q => p.1 < q.1

namespace OrderedMap

def empty : OrderedMap κ ν := ⟨[], .nil⟩

/-- `map.find(key)`. -/
def find (m : OrderedMap κ ν) (key : κ) : Option ν :=
  (m.entries.find? fun p => p.1 = key).map Prod.snd

/-- `map[key] = value`. -/
def set (m : OrderedMap κ ν) (key : κ) (value : ν) : OrderedMap κ ν :=
  ⟨insertEntry key value m.entries, sorted_insertEntry key value m.sorted⟩

/-- `map.erase(key)`. -/
def erase (m : OrderedMap κ ν) (key : κ) : OrderedMap κ ν :=
  ⟨m.entries.filter fun p => p.1 ≠ key, m.sorted.filter _⟩

@[simp] theorem find_empty (key : κ) : (empty : OrderedMap κ ν).find key = none := rfl

/-- **What is found behind an assignment.** -/
theorem find_set (m : OrderedMap κ ν) (key : κ) (value : ν) (key' : κ) :
    (m.set key value).find key' = if key = key' then some value else m.find key' := by
  obtain ⟨entries, hsorted⟩ := m
  change ((insertEntry key value entries).find? fun p => p.1 = key').map Prod.snd =
    if key = key' then some value else (entries.find? fun p => p.1 = key').map Prod.snd
  clear hsorted
  induction entries with
  | nil =>
      rw [insertEntry, List.find?_cons]
      by_cases hkey : key = key'
      · simp [hkey]
      · simp [hkey]
  | cons q qs ih =>
      rw [insertEntry]
      split
      · rw [List.find?_cons]
        by_cases hkey : key = key'
        · simp [hkey]
        · simp [hkey]
      · split
        · next heq =>
            rw [List.find?_cons, List.find?_cons, ← heq]
            by_cases hkey : key = key'
            · simp [hkey]
            · simp [hkey]
        · next hne =>
            rw [List.find?_cons, List.find?_cons]
            by_cases hq : q.1 = key'
            · have hkey : key ≠ key' := hq ▸ hne
              simp [hq, hkey]
            · simpa [hq] using ih

/-- What is found behind an erasure. -/
theorem find_erase (m : OrderedMap κ ν) (key key' : κ) :
    (m.erase key).find key' = if key = key' then none else m.find key' := by
  rw [find, find, erase]
  by_cases hkey : key = key'
  · rw [if_pos hkey, Option.map_eq_none_iff, List.find?_eq_none]
    intro p hp
    simpa [hkey] using (List.mem_filter.mp hp).2
  · rw [if_neg hkey, List.find?_filter]
    congr 2
    funext p
    by_cases hp : p.1 = key'
    · simp [hp, Ne.symm hkey]
    · simp [hp]

/-- **The entries are what is found.** -/
theorem mem_entries (m : OrderedMap κ ν) (p : κ × ν) : p ∈ m.entries ↔ m.find p.1 = some p.2 := by
  obtain ⟨entries, hsorted⟩ := m
  change p ∈ entries ↔ (entries.find? fun q => q.1 = p.1).map Prod.snd = some p.2
  induction entries with
  | nil => simp
  | cons q qs ih =>
      obtain ⟨hq, hqs⟩ := List.pairwise_cons.mp hsorted
      rw [List.mem_cons, List.find?_cons, ih hqs]
      by_cases hkey : q.1 = p.1
      · have habsent : qs.find? (fun r => r.1 = p.1) = none := by
          refine List.find?_eq_none.mpr fun r hr => ?_
          simpa [← hkey] using ne_of_gt (hq r hr)
        simp [hkey, habsent, Prod.ext_iff, @eq_comm _ q.2]
      · have hne : p ≠ q := fun h => hkey (h ▸ rfl)
        simp [hkey, hne]

end OrderedMap

end AutoInstrumentation.Lib
