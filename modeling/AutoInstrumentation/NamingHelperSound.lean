import AutoInstrumentation.Lib.History
import AutoInstrumentation.NamingHelper
import Mathlib.Order.Lattice

/-!
# AutoInstrumentation.NamingHelperSound

The map and the list of a cache stay in bijection, and the entry that is evicted is the one
that was used least recently, as long as no key is put that is in the cache.

`NamingHelper` puts such a key when it finds an identifier that it takes for invalid.
-/

namespace AutoInstrumentation.Naming

open Lib
open AutoInstrumentation.Cel (WString)

/-! ### One cache -/

section Cache

variable {κ ν : Type} [DecidableEq κ]

/-- The map and the list are in bijection, each key in each of them once, and there are not
more entries than there may be. -/
structure Coherent (c : NameCache κ ν) : Prop where
  keys : (c.list.map Node.key).Nodup
  nodes : ∀ key it, c.map.find key = some it ↔ ∃ node ∈ c.list, node.key = key ∧ node.id = it
  size : c.map.size = c.list.length
  bound : c.list.length ≤ c.maxSize

/-- The keys that are in a cache and not in the cache behind it were all used before the
other keys. The keys are used in the order of `uses`, the most recent one first. -/
def EvictsOldest (uses : List κ) (c c' : NameCache κ ν) : Prop :=
  ∀ key, (c.map.find key).isSome → c'.map.find key = none →
    ∀ other, (c.map.find other).isSome → other ≠ key → uses.idxOf other < uses.idxOf key

/-- The nodes are in the order of their last uses. -/
def Recent (uses : List κ) : List (Node κ ν) → Prop :=
  List.Pairwise fun a b => uses.idxOf a.key < uses.idxOf b.key

/-- The invariant: the entries of the map are the nodes of the list. -/
structure Sound (uses : List κ) (c : NameCache κ ν) : Prop where
  entries : c.map.entries.Perm (c.list.map fun node => (node.key, node.id))
  ids : (c.list.map Node.id).Nodup
  fresh : ∀ node ∈ c.list, node.id < c.nextId
  bound : c.list.length ≤ c.maxSize
  recent : Recent uses c.list

variable {uses : List κ} {c : NameCache κ ν} {key : κ} {value : ν}

omit [DecidableEq κ] in
theorem keys_nodup (h : c.map.entries.Perm (c.list.map fun node => (node.key, node.id))) :
    (c.list.map Node.key).Nodup := by
  have hkeys := (h.map Prod.fst).nodup_iff.mp c.map.nodup
  rw [List.map_map] at hkeys
  exact hkeys

theorem find_iff (h : c.map.entries.Perm (c.list.map fun node => (node.key, node.id)))
    (key : κ) (it : ℕ) :
    c.map.find key = some it ↔ ∃ node ∈ c.list, node.key = key ∧ node.id = it := by
  rw [← Table.mem_entries (p := (key, it)), h.mem_iff, List.mem_map]
  simp

theorem Sound.coherent (h : Sound uses c) : Coherent c where
  keys := keys_nodup h.entries
  nodes := find_iff h.entries
  size := h.entries.length_eq.trans (List.length_map _)
  bound := h.bound

theorem sound_empty (maxSize : ℕ) (defaultValue : ν) :
    Sound uses (NameCache.empty maxSize defaultValue : NameCache κ ν) where
  entries := .nil
  ids := List.nodup_nil
  fresh := by simp [NameCache.empty]
  bound := Nat.zero_le _
  recent := .nil

theorem sound_clear (c : NameCache κ ν) : Sound uses c.clear where
  entries := .nil
  ids := List.nodup_nil
  fresh := by simp [NameCache.clear]
  bound := Nat.zero_le _
  recent := .nil

/-- A use of another key leaves the order. -/
theorem Recent.other {list : List (Node κ ν)} (h : Recent uses list)
    (hother : ∀ node ∈ list, node.key ≠ key) : Recent (key :: uses) list := by
  refine List.Pairwise.imp_of_mem ?_ h
  intro a b ha hb hab
  rw [List.idxOf_cons_ne _ (Ne.symm (hother a ha)), List.idxOf_cons_ne _ (Ne.symm (hother b hb))]
  exact Nat.succ_lt_succ hab

/-- The key that is used goes to the front. -/
theorem Recent.cons {node : Node κ ν} {list : List (Node κ ν)} (h : Recent uses list)
    (hkey : node.key = key) (hother : ∀ other ∈ list, other.key ≠ key) :
    Recent (key :: uses) (node :: list) := by
  refine List.pairwise_cons.mpr ⟨?_, h.other hother⟩
  intro other hmem
  rw [hkey, List.idxOf_cons_self, List.idxOf_cons_ne _ (Ne.symm (hother other hmem))]
  exact Nat.succ_pos _

/-! #### Put -/

theorem find_pushFront (c : NameCache κ ν) (key : κ) (value : ν) (other : κ) :
    (c.pushFront key value).map.find other
      = if key = other then some c.nextId else c.map.find other := Table.find_set ..

/-- A key that is not in the cache is put in front. -/
theorem entries_pushFront (value : ν) (h : Sound uses c) (hfind : c.map.find key = none) :
    (c.pushFront key value).map.entries.Perm
      ((c.pushFront key value).list.map fun node => (node.key, node.id)) := by
  have hset : (c.pushFront key value).map.entries = c.map.entries ++ [(key, c.nextId)] := by
    rw [NameCache.pushFront, Table.set_of_none _ hfind, Table.entries_tryEmplace _ hfind]
  rw [hset]
  exact List.perm_append_comm.trans (h.entries.cons (key, c.nextId))

theorem key_ne_of_none (h : Sound uses c) (hfind : c.map.find key = none) :
    ∀ node ∈ c.list, node.key ≠ key := by
  intro node hmem heq
  have hsome := (find_iff h.entries key node.id).mpr ⟨node, hmem, heq, rfl⟩
  rw [hfind] at hsome
  cases hsome

theorem ids_pushFront (key : κ) (value : ν) (h : Sound uses c) : ((c.pushFront key value).list.map Node.id).Nodup := by
  refine List.nodup_cons.mpr ⟨?_, h.ids⟩
  intro hmem
  obtain ⟨node, hnode, hid⟩ := List.mem_map.mp hmem
  exact absurd hid (h.fresh node hnode).ne

theorem fresh_pushFront (key : κ) (value : ν) (h : Sound uses c) :
    ∀ node ∈ (c.pushFront key value).list, node.id < (c.pushFront key value).nextId := by
  intro node hmem
  rcases List.mem_cons.mp hmem with rfl | hmem
  · exact Nat.lt_succ_self _
  · exact Nat.lt_succ_of_lt (h.fresh node hmem)

/-- What `Put` evicts, if it does: the last node of the list. -/
theorem put_cases (c : NameCache κ ν) (key : κ) (value : ν) :
    ((c.pushFront key value).map.size ≤ c.maxSize
        ∧ (c.put key value).2 = c.pushFront key value)
      ∨ ∃ front lru, c.maxSize < (c.pushFront key value).map.size
        ∧ (c.pushFront key value).list = front ++ [lru]
        ∧ (c.put key value).2 = { c.pushFront key value with
            map := (c.pushFront key value).map.erase lru.key, list := front } := by
  by_cases hfull : c.maxSize < (c.pushFront key value).map.size
  · right
    have hne : (c.pushFront key value).list ≠ [] := List.cons_ne_nil _ _
    refine ⟨(c.pushFront key value).list.dropLast, (c.pushFront key value).list.getLast hne,
      hfull, (List.dropLast_append_getLast hne).symm, ?_⟩
    rw [NameCache.put]
    simp only [List.getLast?_eq_getLast_of_ne_nil hne]
    exact congrArg Prod.snd (if_pos hfull)
  · left
    refine ⟨Nat.le_of_not_lt hfull, ?_⟩
    rw [NameCache.put]
    exact congrArg Prod.snd (if_neg hfull)

/-- **`Put` keeps the invariant** for a key that is not in the cache. -/
theorem Sound.put (h : Sound uses c) (hfind : c.map.find key = none) :
    Sound (key :: uses) (c.put key value).2 := by
  have hentries := entries_pushFront value h hfind
  have hother := key_ne_of_none h hfind
  have hrecent : Recent (key :: uses) (c.pushFront key value).list := h.recent.cons rfl hother
  have hsize : (c.pushFront key value).map.size = c.list.length + 1 := by
    rw [Table.size, hentries.length_eq, List.length_map]
    rfl
  rcases put_cases c key value with ⟨hle, hput⟩ | ⟨front, lru, hfull, hlist, hput⟩
  · rw [hput]
    refine ⟨hentries, ids_pushFront key value h, fresh_pushFront key value h, ?_, hrecent⟩
    rw [hsize] at hle
    exact hle
  · rw [hput]
    have hkeys := keys_nodup hentries
    rw [hlist, List.map_append, List.nodup_append] at hkeys
    have hids := ids_pushFront key value h
    rw [hlist, List.map_append, List.nodup_append] at hids
    refine ⟨?_, hids.1, ?_, ?_, ?_⟩
    · -- the map without the last key is the list without the last node
      have hfilter := hentries.filter fun p => p.1 ≠ lru.key
      have hfront : (front.map fun node => (node.key, node.id)).filter (fun p => p.1 ≠ lru.key)
          = front.map fun node => (node.key, node.id) := by
        refine List.filter_eq_self.mpr ?_
        intro p hp
        obtain ⟨node, hnode, rfl⟩ := List.mem_map.mp hp
        have hne := hkeys.2.2 node.key (List.mem_map_of_mem hnode) lru.key (List.mem_singleton.mpr rfl)
        simpa using hne
      have hlru : [(lru.key, lru.id)].filter (fun p => p.1 ≠ lru.key) = [] := by simp
      rw [hlist, List.map_append, List.filter_append, hfront] at hfilter
      rw [List.map_singleton, hlru, List.append_nil] at hfilter
      exact hfilter
    · intro node hnode
      refine fresh_pushFront key value h node ?_
      rw [hlist]
      exact List.mem_append_left _ hnode
    · have hlength := congrArg List.length hlist
      rw [List.length_append] at hlength
      have hlong : c.list.length + 1 = front.length + 1 := hlength
      have hbound := h.bound
      show front.length ≤ c.maxSize
      omega
    · rw [hlist] at hrecent
      exact List.Pairwise.sublist (List.sublist_append_left _ _) hrecent

/-- `Put` adds one node at most. -/
theorem mem_put {node : Node κ ν} (h : node ∈ (c.put key value).2.list) :
    node.value = value ∨ node ∈ c.list := by
  have hpushed : node ∈ (c.pushFront key value).list := by
    rcases put_cases c key value with ⟨-, hput⟩ | ⟨front, lru, -, hlist, hput⟩
    · rw [hput] at h
      exact h
    · rw [hput] at h
      rw [hlist]
      exact List.mem_append_left _ h
  rcases List.mem_cons.mp hpushed with rfl | hmem
  · exact .inl rfl
  · exact .inr hmem

theorem put_defaultValue (c : NameCache κ ν) (key : κ) (value : ν) :
    (c.put key value).2.defaultValue = c.defaultValue := by
  rcases put_cases c key value with ⟨-, hput⟩ | ⟨front, lru, -, -, hput⟩
  · rw [hput]
    rfl
  · rw [hput]
    rfl

/-- **What `Put` evicts was used least recently.** -/
theorem evictsOldest_put (h : Sound uses c) (hfind : c.map.find key = none) :
    EvictsOldest uses c (c.put key value).2 := by
  have hentries := entries_pushFront value h hfind
  have hrecent : Recent (key :: uses) (c.pushFront key value).list :=
    h.recent.cons rfl (key_ne_of_none h hfind)
  intro old hold hgone other hother hne
  have hne_key : ∀ k, (c.map.find k).isSome → k ≠ key := by
    rintro k hk rfl
    rw [hfind] at hk
    cases hk
  have hkept : ∀ k, (c.map.find k).isSome →
      (c.pushFront key value).map.find k = c.map.find k := by
    intro k hk
    rw [find_pushFront, if_neg (Ne.symm (hne_key k hk))]
  rcases put_cases c key value with ⟨-, hput⟩ | ⟨front, lru, -, hlist, hput⟩
  · rw [hput, hkept old hold] at hgone
    rw [hgone] at hold
    cases hold
  · rw [hput] at hgone
    have hlru : old = lru.key := by
      by_contra hne_lru
      have hstill := Table.find_erase (c.pushFront key value).map lru.key old
      rw [if_neg hne_lru, hkept old hold] at hstill
      rw [← hstill] at hold
      rw [show ((c.pushFront key value).map.erase lru.key).find old = none from hgone] at hold
      cases hold
    obtain ⟨it, hit⟩ := Option.isSome_iff_exists.mp hother
    obtain ⟨node, hmem, hkey, -⟩ := (find_iff h.entries other it).mp hit
    have hfront : node ∈ front := by
      have hnode : node ∈ (c.pushFront key value).list := List.mem_cons_of_mem _ hmem
      rw [hlist, List.mem_append, List.mem_singleton] at hnode
      rcases hnode with hnode | rfl
      · exact hnode
      · exact absurd (hkey.symm.trans hlru.symm) hne
    rw [hlist] at hrecent
    have hlast := (List.pairwise_append.mp hrecent).2.2 node hfront lru (List.mem_singleton.mpr rfl)
    rw [hkey, ← hlru, List.idxOf_cons_ne _ (Ne.symm (hne_key other hother)),
      List.idxOf_cons_ne _ (Ne.symm (hne_key old hold))] at hlast
    exact Nat.lt_of_succ_lt_succ hlast

/-- **A key that is in the cache is put a second time.** -/
theorem not_coherent_put (h : Sound uses c) (it : ℕ) (hfind : c.map.find key = some it) :
    ¬ Coherent (c.put key value).2 := by
  have hsize : (c.pushFront key value).map.size = c.map.size := by
    rw [NameCache.pushFront, Table.set_of_some _ hfind, Table.size_update]
  have hbound := h.bound
  have hlength := h.coherent.size
  have hput : (c.put key value).2 = c.pushFront key value := by
    rcases put_cases c key value with ⟨-, hput⟩ | ⟨_, _, hfull, -, -⟩
    · exact hput
    · omega
  intro hcoherent
  rw [hput] at hcoherent
  obtain ⟨node, hmem, hkey, -⟩ := (find_iff h.entries key it).mp hfind
  have hnodup : ((key :: c.list.map Node.key)).Nodup := hcoherent.keys
  exact (List.nodup_cons.mp hnodup).1 (List.mem_map.mpr ⟨node, hmem, hkey⟩)

/-! #### Get -/

variable [DecidableEq ν]

/-- A key that is in the cache is found at its node, which goes to the front. -/
theorem get_of_find (h : Sound uses c) {it : ℕ} (hfind : c.map.find key = some it) :
    ∃ node ∈ c.list, node.key = key ∧ node.id = it ∧
      c.get key = (node.value, { c with list := node :: c.list.erase node }) := by
  obtain ⟨node, hmem, hkey, hid⟩ := (find_iff h.entries key it).mp hfind
  have hnode : c.list.find? (·.id = it) = some node := by
    cases hfound : c.list.find? (·.id = it) with
    | none =>
        have habsent := List.find?_eq_none.mp hfound node hmem
        simp [hid] at habsent
    | some found =>
        have hfoundId : found.id = it := by
          have hp := List.find?_some hfound
          simpa using hp
        rw [List.inj_on_of_nodup_map h.ids (List.mem_of_find?_eq_some hfound) hmem
          (hfoundId.trans hid.symm)]
  refine ⟨node, hmem, hkey, hid, ?_⟩
  simp only [NameCache.get, hfind, hnode]

theorem get_of_none (hfind : c.map.find key = none) : c.get key = (c.defaultValue, c) := by
  simp only [NameCache.get, hfind]

/-- **`Get` keeps the invariant**, with the key used. -/
theorem Sound.get (h : Sound uses c) (hfind : (c.map.find key).isSome) :
    Sound (key :: uses) (c.get key).2 := by
  obtain ⟨it, hit⟩ := Option.isSome_iff_exists.mp hfind
  obtain ⟨node, hmem, hkey, -, hget⟩ := get_of_find h hit
  rw [hget]
  have hperm := List.perm_cons_erase hmem
  have hnodup := (hperm.map Node.key).nodup_iff.mp (keys_nodup h.entries)
  rw [List.map_cons, List.nodup_cons, hkey] at hnodup
  refine ⟨h.entries.trans (hperm.map _), (hperm.map _).nodup_iff.mp h.ids, ?_, ?_, ?_⟩
  · intro other hother
    exact h.fresh other (hperm.mem_iff.mpr hother)
  · rw [← hperm.length_eq]
    exact h.bound
  · have hrest : Recent uses (c.list.erase node) := List.Pairwise.sublist List.erase_sublist h.recent
    refine hrest.cons hkey ?_
    intro other hother heq
    exact hnodup.1 (List.mem_map.mpr ⟨other, hother, heq⟩)

omit [DecidableEq ν] in
/-- Nothing is evicted where the map stays the same. -/
theorem evictsOldest_of_map_eq {c' : NameCache κ ν} (hmap : c'.map = c.map) :
    EvictsOldest uses c c' := by
  intro key hkey hgone
  rw [hmap] at hgone
  rw [hgone] at hkey
  cases hkey

theorem get_map (h : Sound uses c) (key : κ) : (c.get key).2.map = c.map := by
  cases hfind : c.map.find key with
  | none => rw [get_of_none hfind]
  | some it =>
      obtain ⟨node, -, -, -, hget⟩ := get_of_find h hfind
      rw [hget]

end Cache

/-! ### NamingHelper -/

/-- The names that were looked up, the last one first. -/
def nameUses (acts : List Act) : List FunctionIdentifier :=
  (acts.filterMap fun
    | .lookup id _ _ => some id
    | _ => none).reverse

/-- The functions that were looked up, the last one first. -/
def identifierUses (acts : List Act) : List (BitVec 64) :=
  (acts.filterMap fun
    | .lookupManagedFunction functionId _ => some functionId
    | _ => none).reverse

variable (stackWalker : Bool)

/-- Both caches are coherent behind a sequence of requests. -/
def CachesCoherent (acts : List Act) : Prop :=
  Coherent (after stackWalker acts).functionNameCache
    ∧ Coherent (after stackWalker acts).functionIdentifierCache

/-- A request evicts from either cache only what was used least recently. To clear the
identifiers is not to evict them. -/
def StepEvictsOldest (before : List Act) (act : Act) : Prop :=
  EvictsOldest (nameUses before) (after stackWalker before).functionNameCache
      (after stackWalker (before ++ [act])).functionNameCache
    ∧ (act ≠ .clearFunctionIdentifierCache →
      EvictsOldest (identifierUses before) (after stackWalker before).functionIdentifierCache
        (after stackWalker (before ++ [act])).functionIdentifierCache)

/-- The identifier of a function that is looked up is valid if there is one in the cache. -/
def FindsValid (before : List Act) : Act → Prop
  | .lookupManagedFunction functionId _ =>
      ((after stackWalker before).functionIdentifierCache.map.find functionId).isSome →
        ((after stackWalker before).functionIdentifierCache.get functionId).1.isValid = true
  | _ => True

/-- The invariant of the helper. -/
structure HelperSound (acts : List Act) (helper : NamingHelper) : Prop where
  names : Sound (nameUses acts) helper.functionNameCache
  identifiers : Sound (identifierUses acts) helper.functionIdentifierCache
  named : ∀ node ∈ helper.functionNameCache.list, node.value.isSome
  noName : helper.functionNameCache.defaultValue = none
  noIdentifier : helper.functionIdentifierCache.defaultValue.isValid = false

@[simp] theorem after_concat (acts : List Act) (act : Act) :
    after stackWalker (acts ++ [act]) = step (after stackWalker acts) act := by
  simp [after]

theorem nameUses_lookup (acts : List Act) (id : FunctionIdentifier) (symbol : Option WString)
    (functionName : WString) :
    nameUses (acts ++ [.lookup id symbol functionName]) = id :: nameUses acts := by
  simp [nameUses]

theorem identifierUses_lookup (acts : List Act) (functionId : BitVec 64)
    (info : Option (BitVec 32 × BitVec 64)) :
    identifierUses (acts ++ [.lookupManagedFunction functionId info])
      = functionId :: identifierUses acts := by
  simp [identifierUses]

theorem helperSound_initial : HelperSound [] (.initial stackWalker) where
  names := sound_empty _ _
  identifiers := sound_empty _ _
  named := by simp [NamingHelper.initial, NameCache.empty]
  noName := rfl
  noIdentifier := rfl

/-! #### Lookup -/

variable {stackWalker} {acts : List Act} {helper : NamingHelper}

theorem lookup_cases (helper : NamingHelper) (id : FunctionIdentifier) (symbol : Option WString)
    (functionName : WString) :
    ((helper.functionNameCache.get id).1.isSome
        ∧ step helper (.lookup id symbol functionName)
          = { helper with functionNameCache := (helper.functionNameCache.get id).2 })
      ∨ ((helper.functionNameCache.get id).1 = none
        ∧ ∃ owned, step helper (.lookup id symbol functionName)
          = { helper with
              functionNameCache := ((helper.functionNameCache.get id).2.put id (some owned)).2
              nameCacheMisses := helper.nameCacheMisses + 1 }) := by
  rw [step, NamingHelper.lookup]
  rcases helper.functionNameCache.get id with ⟨answer, cache⟩
  cases answer with
  | some name => exact .inl ⟨rfl, rfl⟩
  | none => exact .inr ⟨rfl, _, rfl⟩

/-- A name is found if and only if it is in the cache. -/
theorem get_name_isSome (h : HelperSound acts helper) (id : FunctionIdentifier) :
    (helper.functionNameCache.get id).1.isSome ↔ (helper.functionNameCache.map.find id).isSome := by
  cases hfind : helper.functionNameCache.map.find id with
  | none =>
      rw [get_of_none hfind, h.noName]
      exact Iff.rfl
  | some it =>
      obtain ⟨node, hmem, -, -, hget⟩ := get_of_find h.names hfind
      rw [hget]
      exact iff_of_true (h.named node hmem) rfl

/-- **`Lookup` keeps the invariant and evicts the name used least recently.** -/
theorem helperSound_lookup (h : HelperSound acts helper) (id : FunctionIdentifier)
    (symbol : Option WString) (functionName : WString) :
    HelperSound (acts ++ [.lookup id symbol functionName])
        (step helper (.lookup id symbol functionName))
      ∧ EvictsOldest (nameUses acts) helper.functionNameCache
        (step helper (.lookup id symbol functionName)).functionNameCache
      ∧ (step helper (.lookup id symbol functionName)).functionIdentifierCache
        = helper.functionIdentifierCache := by
  have huses : identifierUses (acts ++ [.lookup id symbol functionName]) = identifierUses acts := by
    simp [identifierUses]
  rcases lookup_cases helper id symbol functionName with ⟨hhit, hstep⟩ | ⟨hmiss, owned, hstep⟩
  · rw [hstep]
    have hfind := (get_name_isSome h id).mp hhit
    obtain ⟨it, hit⟩ := Option.isSome_iff_exists.mp hfind
    obtain ⟨node, hmem, -, -, hget⟩ := get_of_find h.names hit
    refine ⟨⟨?_, ?_, ?_, ?_, h.noIdentifier⟩, evictsOldest_of_map_eq (get_map h.names id), rfl⟩
    · rw [nameUses_lookup]
      exact h.names.get hfind
    · rw [huses]
      exact h.identifiers
    · intro other hother
      rw [hget] at hother
      rcases List.mem_cons.mp hother with rfl | hother
      · exact h.named _ hmem
      · exact h.named other (List.mem_of_mem_erase hother)
    · rw [hget]
      exact h.noName
  · rw [hstep]
    have hfind : helper.functionNameCache.map.find id = none := by
      have hnot := mt (get_name_isSome h id).mpr (by rw [hmiss]; exact Bool.false_ne_true)
      simpa using hnot
    rw [get_of_none hfind]
    refine ⟨⟨?_, ?_, ?_, ?_, h.noIdentifier⟩, evictsOldest_put h.names hfind, rfl⟩
    · rw [nameUses_lookup]
      exact h.names.put hfind
    · rw [huses]
      exact h.identifiers
    · intro node hnode
      rcases mem_put hnode with hvalue | hmem
      · rw [hvalue]
        rfl
      · exact h.named node hmem
    · rw [put_defaultValue]
      exact h.noName

/-! #### LookupManagedFunction -/

theorem lookupManagedFunction_cases (helper : NamingHelper) (functionId : BitVec 64)
    (info : Option (BitVec 32 × BitVec 64)) :
    ((helper.functionIdentifierCache.get functionId).1.isValid = true
        ∧ step helper (.lookupManagedFunction functionId info)
          = { helper with
              functionIdentifierCache := (helper.functionIdentifierCache.get functionId).2 })
      ∨ ((helper.functionIdentifierCache.get functionId).1.isValid = false
        ∧ ∃ resolved, step helper (.lookupManagedFunction functionId info)
          = { helper with
              functionIdentifierCache :=
                ((helper.functionIdentifierCache.get functionId).2.put functionId resolved).2 }) := by
  rw [step, NamingHelper.lookupManagedFunction]
  rcases helper.functionIdentifierCache.get functionId with ⟨cachedIdentifier, cache⟩
  cases hvalid : cachedIdentifier.isValid with
  | true => exact .inl ⟨rfl, by simp only [hvalid, if_true]⟩
  | false =>
      exact .inr ⟨rfl, NamingHelper.resolveManagedFunctionIdentifier functionId info,
        by simp only [hvalid, Bool.false_eq_true, if_false]⟩

/-- **`LookupManagedFunction` keeps the invariant and evicts the identifier used least
recently**, if it does not find an invalid one. -/
theorem helperSound_lookupManagedFunction (h : HelperSound acts helper) (functionId : BitVec 64)
    (info : Option (BitVec 32 × BitVec 64))
    (hvalid : (helper.functionIdentifierCache.map.find functionId).isSome →
      (helper.functionIdentifierCache.get functionId).1.isValid = true) :
    HelperSound (acts ++ [.lookupManagedFunction functionId info])
        (step helper (.lookupManagedFunction functionId info))
      ∧ EvictsOldest (identifierUses acts) helper.functionIdentifierCache
        (step helper (.lookupManagedFunction functionId info)).functionIdentifierCache
      ∧ (step helper (.lookupManagedFunction functionId info)).functionNameCache
        = helper.functionNameCache := by
  have huses : nameUses (acts ++ [.lookupManagedFunction functionId info]) = nameUses acts := by
    simp [nameUses]
  cases hfind : helper.functionIdentifierCache.map.find functionId with
  | some it =>
      have hsome : (helper.functionIdentifierCache.map.find functionId).isSome := by
        rw [hfind]
        rfl
      obtain ⟨node, -, -, -, hget⟩ := get_of_find h.identifiers hfind
      rcases lookupManagedFunction_cases helper functionId info with ⟨-, hstep⟩ | ⟨hinvalid, -⟩
      · rw [hstep]
        refine ⟨⟨?_, ?_, h.named, h.noName, ?_⟩,
          evictsOldest_of_map_eq (get_map h.identifiers functionId), rfl⟩
        · rw [huses]
          exact h.names
        · rw [identifierUses_lookup]
          exact h.identifiers.get hsome
        · rw [hget]
          exact h.noIdentifier
      · rw [hvalid hsome] at hinvalid
        cases hinvalid
  | none =>
      rcases lookupManagedFunction_cases helper functionId info with ⟨hfound, -⟩ | ⟨-, resolved, hstep⟩
      · rw [get_of_none hfind] at hfound
        rw [h.noIdentifier] at hfound
        cases hfound
      · rw [hstep, get_of_none hfind]
        refine ⟨⟨?_, ?_, h.named, h.noName, ?_⟩, evictsOldest_put h.identifiers hfind, rfl⟩
        · rw [huses]
          exact h.names
        · rw [identifierUses_lookup]
          exact h.identifiers.put hfind
        · rw [put_defaultValue]
          exact h.noIdentifier

/-- An invalid identifier that is found is put a second time. -/
theorem not_coherent_lookupManagedFunction (h : HelperSound acts helper) (functionId : BitVec 64)
    (info : Option (BitVec 32 × BitVec 64))
    (hfind : (helper.functionIdentifierCache.map.find functionId).isSome)
    (hinvalid : (helper.functionIdentifierCache.get functionId).1.isValid = false) :
    ¬ Coherent (step helper (.lookupManagedFunction functionId info)).functionIdentifierCache := by
  rcases lookupManagedFunction_cases helper functionId info with ⟨hvalid, -⟩ | ⟨-, resolved, hstep⟩
  · rw [hinvalid] at hvalid
    cases hvalid
  · rw [hstep]
    obtain ⟨it, hit⟩ := Option.isSome_iff_exists.mp hfind
    refine not_coherent_put (h.identifiers.get hfind) it ?_
    rw [get_map h.identifiers]
    exact hit

/-! #### Histories -/

theorem helperSound_clear (h : HelperSound acts helper) :
    HelperSound (acts ++ [.clearFunctionIdentifierCache])
      (step helper .clearFunctionIdentifierCache) where
  names := by
    have huses : nameUses (acts ++ [.clearFunctionIdentifierCache]) = nameUses acts := by
      simp [nameUses]
    rw [huses]
    exact h.names
  identifiers := sound_clear _
  named := h.named
  noName := h.noName
  noIdentifier := h.noIdentifier

/-- One request that finds no invalid identifier. -/
theorem helperSound_step (h : HelperSound acts (after stackWalker acts)) (act : Act)
    (hvalid : FindsValid stackWalker acts act) :
    HelperSound (acts ++ [act]) (after stackWalker (acts ++ [act]))
      ∧ StepEvictsOldest stackWalker acts act := by
  rw [StepEvictsOldest, after_concat]
  cases act with
  | lookup id symbol functionName =>
      obtain ⟨hsound, hevicts, hsame⟩ := helperSound_lookup h id symbol functionName
      refine ⟨hsound, hevicts, fun _ => ?_⟩
      rw [hsame]
      exact evictsOldest_of_map_eq rfl
  | lookupManagedFunction functionId info =>
      obtain ⟨hsound, hevicts, hsame⟩ := helperSound_lookupManagedFunction h functionId info hvalid
      refine ⟨hsound, ?_, fun _ => hevicts⟩
      rw [hsame]
      exact evictsOldest_of_map_eq rfl
  | clearFunctionIdentifierCache =>
      refine ⟨helperSound_clear h, evictsOldest_of_map_eq rfl, fun hne => ?_⟩
      exact absurd rfl hne

theorem helperSound_of_findsValid (h : EachStep (FindsValid stackWalker) acts) :
    Always (fun before => HelperSound before (after stackWalker before)) acts :=
  Always.of_step (helperSound_initial stackWalker)
    (fun _ act hsound hvalid => (helperSound_step hsound act hvalid).1) h

theorem HelperSound.cachesCoherent (h : HelperSound acts (after stackWalker acts)) :
    CachesCoherent stackWalker acts :=
  ⟨h.names.coherent, h.identifiers.coherent⟩

/-- Where the caches are coherent all along, no invalid identifier was found. -/
theorem findsValid_of_coherent (h : Always (CachesCoherent stackWalker) acts) :
    EachStep (FindsValid stackWalker) acts := by
  induction acts using List.reverseRecOn with
  | nil => exact eachStep_nil
  | append_singleton acts act ih =>
      rw [always_concat] at h
      have hbefore := ih h.1
      refine eachStep_concat.mpr ⟨hbefore, ?_⟩
      have hsound := (helperSound_of_findsValid hbefore).here
      cases act with
      | lookup id symbol functionName => trivial
      | clearFunctionIdentifierCache => trivial
      | lookupManagedFunction functionId info =>
          intro hfind
          by_contra hinvalid
          rw [Bool.not_eq_true] at hinvalid
          have hbroken := not_coherent_lookupManagedFunction hsound functionId info hfind hinvalid
          rw [← after_concat] at hbroken
          exact hbroken h.2.2

/-- **The caches stay coherent and evict what was used least recently** in exactly those
histories in which no invalid identifier is found in the cache. -/
theorem cachesCoherent_iff (stackWalker : Bool) (acts : List Act) :
    (Always (CachesCoherent stackWalker) acts ∧ EachStep (StepEvictsOldest stackWalker) acts)
      ↔ EachStep (FindsValid stackWalker) acts := by
  constructor
  · intro h
    exact findsValid_of_coherent h.1
  · intro hvalid
    have hsound := helperSound_of_findsValid hvalid
    refine ⟨hsound.mono fun _ h => h.cachesCoherent, ?_⟩
    intro before act hbefore
    have hhere := hsound before ((List.prefix_append before [act]).trans hbefore)
    exact (helperSound_step hhere act (hvalid before act hbefore)).2

/-- The identifier of a function that cannot be resolved is put at every lookup. -/
theorem cachesCoherent_fails_unresolved :
    ¬ Always (CachesCoherent false)
      [.lookupManagedFunction 7 none, .lookupManagedFunction 7 none] := by
  intro h
  have hkeys := h.here.2.keys
  have hlist : (after false [.lookupManagedFunction 7 none,
      .lookupManagedFunction 7 none]).functionIdentifierCache.list.map Node.key = [7, 7] := by
    decide
  rw [hlist] at hkeys
  revert hkeys
  decide

end AutoInstrumentation.Naming
