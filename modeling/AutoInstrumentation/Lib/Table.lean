import Mathlib.Algebra.BigOperators.Group.List.Basic
import Mathlib.Algebra.Ring.Nat
import Mathlib.Data.List.Nodup

/-!
# AutoInstrumentation.Lib.Table

Tables with one entry for each key, and the total of a weight over their values.

The rules say how each operation changes what is found and the total, so that a bound on
the total can be kept by operations that pay for what they add.
-/

namespace AutoInstrumentation.Lib

/-- A table with one entry for each key. -/
structure Table (κ ν : Type) where
  entries : List (κ × ν)
  nodup : (entries.map Prod.fst).Nodup

namespace Table

variable {κ ν : Type}

def empty : Table κ ν := ⟨[], List.nodup_nil⟩

def size (t : Table κ ν) : ℕ := t.entries.length

/-- The entries that pass a test. -/
def keep (t : Table κ ν) (p : κ × ν → Bool) : Table κ ν :=
  ⟨t.entries.filter p, (t.entries.filter_sublist.map _).nodup t.nodup⟩

/-- A function of every value. -/
def mapValues (t : Table κ ν) (f : ν → ν) : Table κ ν where
  entries := t.entries.map fun p => (p.1, f p.2)
  nodup := by
    rw [List.map_map]
    exact t.nodup

/-- The total weight of the values. -/
def total (t : Table κ ν) (weight : ν → ℕ) : ℕ := (t.entries.map fun p => weight p.2).sum

variable [DecidableEq κ]

def find (t : Table κ ν) (key : κ) : Option ν :=
  (t.entries.find? fun p => p.1 = key).map Prod.snd

/-- The value of a key that is there is replaced. -/
def update (t : Table κ ν) (key : κ) (value : ν) : Table κ ν where
  entries := t.entries.map fun p => if p.1 = key then (p.1, value) else p
  nodup := by
    rw [List.map_map, List.map_congr_left (g := Prod.fst)]
    · exact t.nodup
    · intro p _
      change (if p.1 = key then (p.1, value) else p).1 = p.1
      split
      · rfl
      · rfl

/-- **The entries are what is found.** -/
theorem mem_entries {t : Table κ ν} {p : κ × ν} : p ∈ t.entries ↔ t.find p.1 = some p.2 := by
  obtain ⟨entries, hnodup⟩ := t
  change p ∈ entries ↔ (entries.find? fun q => q.1 = p.1).map Prod.snd = some p.2
  induction entries with
  | nil => simp
  | cons q qs ih =>
      obtain ⟨hq, hqs⟩ := List.nodup_cons.mp hnodup
      rw [List.mem_cons, List.find?_cons, ih hqs]
      by_cases hkey : q.1 = p.1
      · have habsent : qs.find? (fun r => r.1 = p.1) = none := by
          refine List.find?_eq_none.mpr fun r hr => ?_
          intro hr'
          exact hq (List.mem_map.mpr ⟨r, hr, (of_decide_eq_true hr').trans hkey.symm⟩)
        rw [habsent, decide_eq_true hkey]
        constructor
        · rintro (rfl | h)
          · rfl
          · cases h
        · intro h
          exact .inl (Prod.ext hkey.symm (Option.some.inj h).symm)
      · rw [decide_eq_false hkey, or_iff_right]
        rintro rfl
        exact hkey rfl

theorem find_eq_none {t : Table κ ν} {key : κ} :
    t.find key = none ↔ key ∉ t.entries.map Prod.fst := by
  rw [find, Option.map_eq_none_iff, List.find?_eq_none, List.mem_map]
  constructor
  · rintro h ⟨p, hp, hkey⟩
    exact h p hp (decide_eq_true hkey)
  · intro h p hp hkey
    exact h ⟨p, hp, of_decide_eq_true hkey⟩

/-- The key added with a value, if it is not there. -/
def tryEmplace (t : Table κ ν) (key : κ) (value : ν) : Table κ ν :=
  if h : key ∈ t.entries.map Prod.fst then t
  else
    { entries := t.entries ++ [(key, value)]
      nodup := by
        rw [List.map_append]
        exact List.nodup_append.mpr ⟨t.nodup, List.nodup_singleton key, by
          rintro a ha b hb rfl
          rw [List.mem_singleton.mp hb] at ha
          exact h ha⟩ }

/-- The key with a value, whether it is there or not. -/
def set (t : Table κ ν) (key : κ) (value : ν) : Table κ ν :=
  if (t.find key).isSome then t.update key value else t.tryEmplace key value

/-- The table without a key. -/
def erase (t : Table κ ν) (key : κ) : Table κ ν := t.keep fun p => p.1 ≠ key

theorem entries_tryEmplace {t : Table κ ν} {key : κ} (value : ν) (h : t.find key = none) :
    (t.tryEmplace key value).entries = t.entries ++ [(key, value)] := by
  rw [tryEmplace, dif_neg (find_eq_none.mp h)]

theorem tryEmplace_of_find {t : Table κ ν} {key : κ} {old : ν} (value : ν)
    (h : t.find key = some old) : t.tryEmplace key value = t := by
  refine dif_pos ?_
  by_contra hkey
  rw [find_eq_none.mpr hkey] at h
  cases h

/-! ### What is found -/

@[simp] theorem find_empty (key : κ) : (empty : Table κ ν).find key = none := rfl

theorem find_tryEmplace {t : Table κ ν} {key : κ} (value : ν) (h : t.find key = none) (key' : κ) :
    (t.tryEmplace key value).find key' = if key = key' then some value else t.find key' := by
  rw [find, entries_tryEmplace value h, List.find?_append, find]
  by_cases hkey : key = key'
  · rw [find, Option.map_eq_none_iff, hkey] at h
    simp [h, hkey]
  · simp [hkey]

theorem find_update (t : Table κ ν) (key : κ) (value : ν) (key' : κ) :
    (t.update key value).find key' =
      if key = key' then (t.find key).map fun _ => value else t.find key' := by
  obtain ⟨entries, hnodup⟩ := t
  change ((entries.map fun p => if p.1 = key then (p.1, value) else p).find?
      fun p => p.1 = key').map Prod.snd =
    if key = key' then ((entries.find? fun p => p.1 = key).map Prod.snd).map fun _ => value
    else (entries.find? fun p => p.1 = key').map Prod.snd
  clear hnodup
  induction entries with
  | nil => simp
  | cons q qs ih =>
      rw [List.map_cons, List.find?_cons, List.find?_cons, List.find?_cons]
      by_cases hq : q.1 = key
      · by_cases hkey : key = key'
        · simp [hq, hkey]
        · simpa [hq, hkey] using ih
      · by_cases hkey : q.1 = key'
        · have hne : key ≠ key' := fun h => hq (hkey.trans h.symm)
          simp [hkey, hne, Ne.symm hne]
        · simpa [hq, hkey] using ih

theorem find_keep {t : Table κ ν} {p : κ × ν → Bool} (key : κ) :
    (t.keep p).find key = (t.find key).filter fun value => p (key, value) := by
  ext value
  have hkeep := mem_entries (t := t.keep p) (p := (key, value))
  have hentry := mem_entries (t := t) (p := (key, value))
  rw [← hkeep, Option.filter_eq_some_iff, ← hentry, keep, List.mem_filter]

theorem find_mapValues (t : Table κ ν) (f : ν → ν) (key : κ) :
    (t.mapValues f).find key = (t.find key).map f := by
  rw [find, find, mapValues, List.find?_map, Option.map_map, Option.map_map]
  rfl

theorem set_of_none {t : Table κ ν} {key : κ} (value : ν) (h : t.find key = none) :
    t.set key value = t.tryEmplace key value := by
  rw [set, h]
  exact if_neg Bool.false_ne_true

theorem set_of_some {t : Table κ ν} {key : κ} {old : ν} (value : ν) (h : t.find key = some old) :
    t.set key value = t.update key value := by
  rw [set, h]
  exact if_pos rfl

theorem find_set (t : Table κ ν) (key : κ) (value : ν) (key' : κ) :
    (t.set key value).find key' = if key = key' then some value else t.find key' := by
  cases h : t.find key with
  | none => rw [set_of_none value h, find_tryEmplace value h]
  | some old =>
      rw [set_of_some value h, find_update, h]
      rfl

theorem find_erase (t : Table κ ν) (key key' : κ) :
    (t.erase key).find key' = if key' = key then none else t.find key' := by
  rw [erase, find_keep]
  by_cases hkey : key' = key
  · simp [hkey]
  · simp only [hkey, if_false, ne_eq, not_false_eq_true, decide_true]
    cases t.find key' with
    | none => rfl
    | some value => rfl

/-! ### The total -/

variable (weight : ν → ℕ)

omit [DecidableEq κ] in
theorem total_keep (t : Table κ ν) (p : κ × ν → Bool) :
    (t.keep p).total weight + (t.keep fun q => !p q).total weight = t.total weight := by
  obtain ⟨entries, hnodup⟩ := t
  change ((entries.filter p).map fun q => weight q.2).sum
    + ((entries.filter fun q => !p q).map fun q => weight q.2).sum
      = (entries.map fun q => weight q.2).sum
  clear hnodup
  induction entries with
  | nil => rfl
  | cons q qs ih =>
      rw [List.filter_cons, List.filter_cons]
      cases hp : p q with
      | true =>
          simp only [Bool.not_true, if_true, List.map_cons, List.sum_cons]
          simp
          omega
      | false =>
          simp
          omega

omit [DecidableEq κ] in
/-- A function that takes the weight of some of the values away. -/
theorem total_mapValues (t : Table κ ν) (f : ν → ν) (p : ν → Bool)
    (hf : ∀ v, weight (f v) = if p v then 0 else weight v) :
    (t.mapValues f).total weight + (t.keep fun q => p q.2).total weight = t.total weight := by
  obtain ⟨entries, hnodup⟩ := t
  change ((entries.map fun q => (q.1, f q.2)).map fun q => weight q.2).sum
    + ((entries.filter fun q => p q.2).map fun q => weight q.2).sum
      = (entries.map fun q => weight q.2).sum
  clear hnodup
  induction entries with
  | nil => rfl
  | cons q qs ih =>
      rw [List.filter_cons]
      simp only [List.map_cons, List.sum_cons, hf]
      cases hp : p q.2 with
      | true =>
          simp only [if_true, List.map_cons, List.sum_cons]
          omega
      | false =>
          simp only [Bool.false_eq_true, if_false]
          omega

theorem total_tryEmplace {t : Table κ ν} {key : κ} (value : ν) (h : t.find key = none) :
    (t.tryEmplace key value).total weight = t.total weight + weight value := by
  rw [total, entries_tryEmplace value h, total]
  simp

/-- What replacing a value adds and takes away. -/
theorem total_update {t : Table κ ν} {key : κ} {old : ν} (h : t.find key = some old)
    (value : ν) :
    (t.update key value).total weight + weight old = t.total weight + weight value := by
  obtain ⟨entries, hnodup⟩ := t
  change (entries.find? fun p => p.1 = key).map Prod.snd = some old at h
  change ((entries.map fun p => if p.1 = key then (p.1, value) else p).map
      fun p => weight p.2).sum + weight old
    = (entries.map fun p => weight p.2).sum + weight value
  induction entries with
  | nil => cases h
  | cons q qs ih =>
      obtain ⟨hq, hqs⟩ := List.nodup_cons.mp hnodup
      rw [List.find?_cons] at h
      simp only [List.map_cons, List.sum_cons]
      by_cases hkey : q.1 = key
      · rw [decide_eq_true hkey] at h
        obtain rfl : q.2 = old := Option.some.inj h
        have hrest : (qs.map fun p => if p.1 = key then (p.1, value) else p) = qs := by
          refine (List.map_congr_left (g := id) fun p hp => if_neg ?_).trans qs.map_id
          intro hp'
          exact hq (List.mem_map.mpr ⟨p, hp, hp'.trans hkey.symm⟩)
        rw [if_pos hkey, hrest]
        change weight value + _ + _ = _
        omega
      · rw [decide_eq_false hkey] at h
        rw [if_neg hkey]
        have hrest := ih hqs h
        omega

/-- **The total is a sum over any list of keys that has all of the table.** -/
theorem total_eq_sum {t : Table κ ν} {keys : List κ} (hkeys : keys.Nodup)
    (hall : ∀ p ∈ t.entries, p.1 ∈ keys) :
    t.total weight = (keys.map fun key => ((t.find key).map weight).getD 0).sum := by
  have hperm : keys.Perm (t.entries.map Prod.fst
      ++ keys.filter fun key => key ∉ t.entries.map Prod.fst) := by
    refine (List.perm_ext_iff_of_nodup hkeys ?_).mpr fun key => ?_
    · refine List.nodup_append.mpr ⟨t.nodup, hkeys.filter _, ?_⟩
      rintro a ha b hb rfl
      exact of_decide_eq_true (List.mem_filter.mp hb).2 ha
    · rw [List.mem_append, List.mem_filter, decide_eq_true_eq]
      constructor
      · intro hkey
        by_cases hin : key ∈ t.entries.map Prod.fst
        · exact .inl hin
        · exact .inr ⟨hkey, hin⟩
      · rintro (hin | ⟨hkey, -⟩)
        · obtain ⟨p, hp, rfl⟩ := List.mem_map.mp hin
          exact hall p hp
        · exact hkey
  have habsent : ((keys.filter fun key => key ∉ t.entries.map Prod.fst).map
      fun key => ((t.find key).map weight).getD 0).sum = 0 := by
    refine List.sum_eq_zero fun n hn => ?_
    obtain ⟨key, hkey, rfl⟩ := List.mem_map.mp hn
    rw [find_eq_none.mpr (of_decide_eq_true (List.mem_filter.mp hkey).2)]
    rfl
  rw [(hperm.map _).sum_eq, List.map_append, List.sum_append, habsent, Nat.add_zero, List.map_map,
    total]
  refine congrArg List.sum (List.map_congr_left fun p hp => ?_)
  simp only [Function.comp_apply, mem_entries.mp hp]
  rfl

/-! ### The size -/

omit [DecidableEq κ] in
theorem size_eq_total (t : Table κ ν) : t.size = t.total fun _ => 1 := by
  rw [size, total, List.map_const', List.sum_replicate]
  exact (Nat.mul_one _).symm

theorem size_tryEmplace {t : Table κ ν} {key : κ} (value : ν) (h : t.find key = none) :
    (t.tryEmplace key value).size = t.size + 1 := by
  rw [size, entries_tryEmplace value h, List.length_append]
  rfl

@[simp] theorem size_update (t : Table κ ν) (key : κ) (value : ν) :
    (t.update key value).size = t.size := List.length_map ..

omit [DecidableEq κ] in
@[simp] theorem size_mapValues (t : Table κ ν) (f : ν → ν) : (t.mapValues f).size = t.size :=
  List.length_map ..

omit [DecidableEq κ] in
theorem size_keep_le (t : Table κ ν) (p : κ × ν → Bool) : (t.keep p).size ≤ t.size :=
  List.length_filter_le ..

end Table

end AutoInstrumentation.Lib
