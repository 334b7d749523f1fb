import AutoInstrumentation.AssemblyBinding.ProbeDirectories
import Mathlib.Data.List.ReduceOption

/-!
# AutoInstrumentation.AssemblyBinding.ProbeDirectoriesSound

What the probe directories are: the directories that the setup names, each once, in their
order, as long as they do not leave the application base.

A rooted private path outside the base is ignored. A relative one is combined with the base
and never compared with it, so that `..` leads out.
-/

namespace AutoInstrumentation.AssemblyBinding

open AutoInstrumentation.Lib
open AutoInstrumentation.Cel (WChar WString code Unicode asciiUnicode)

variable (paths : Paths) (unicode : Unicode)

/-! ### The directories that are named -/

/-- The paths of a list of private paths. -/
def pathsOfList (privatePaths : Option WString) : List WString :=
  if isNullOrWhiteSpace unicode privatePaths then []
  else
    ((((privatePaths.getD []).splitOn (code ';')).filter (· ≠ [])).map (trim unicode)).filter
      (· ≠ [])

/-- The private paths of a setup and of the `probing` elements. -/
def privatePaths (probing : List (Option WString)) (setup : AppDomainSetup) : List WString :=
  pathsOfList unicode setup.privateBinPath ++ probing.flatMap (pathsOfList unicode)

/-- The directory that a private path denotes. -/
def directoryOf (base path : WString) : Option WString := do
  if ← paths.isPathRooted path then paths.getFullPath path
  else paths.getFullPath (← paths.combine base path)

/-- The directory `bin` of the application base. -/
def webBin (base : WString) : Option WString := do
  paths.getFullPath (← paths.combine base bin)

/-- The directory is the application base. -/
def IsBase (base directory : WString) : Prop :=
  ∃ fullBase, paths.getFullPath base = some fullBase
    ∧ paths.fold (trimSeparators directory) = paths.fold (trimSeparators fullBase)

/-- The directory is the application base or lies below it. -/
def AtOrBelow (base directory : WString) : Prop :=
  isPathUnderApplicationBase paths base directory = some true

instance (base : WString) : DecidablePred (AtOrBelow paths base) := fun _ =>
  inferInstanceAs (Decidable (_ = _))

/-- The application base, unless it is not probed, the directory `bin` of a web application,
and then the directories of the private paths. -/
def sourceDirectories (setup : AppDomainSetup) (base : WString)
    (directories : List (Option WString)) : List WString :=
  ([if setup.privateBinPathProbe = none then paths.getFullPath base else none,
      if isWebApplication paths setup = some true then webBin paths base else none]
    ++ directories).reduceOption

/-- The directories that are named, in the order of their sources. -/
def namedDirectories (probing : List (Option WString)) (setup : AppDomainSetup)
    (base : WString) : List WString :=
  sourceDirectories paths setup base
    ((privatePaths unicode probing setup).map (directoryOf paths base))

/-- The application base at which probing starts, if any. -/
def probedBase (creator : Option WString) (setup : AppDomainSetup) : Option WString :=
  if setup.disallowApplicationBaseProbing then none
  else
    let base := (resolveApplicationBase unicode creator setup).2.getD []
    if base = [] then none else some base

/-- **The probe directories of an application base**: each directory that is named at or below
the base once, in the order in which they are named. -/
structure ProbeOrder (probing : List (Option WString)) (setup : AppDomainSetup) (base : WString)
    (directories : List WString) : Prop where
  nodup : (directories.map paths.fold).Nodup
  atOrBelow : ∀ d ∈ directories, AtOrBelow paths base d
  base_iff : (∃ d ∈ directories, IsBase paths base d)
    ↔ setup.privateBinPathProbe = none
      ∨ ∃ path ∈ privatePaths unicode probing setup,
          ∃ d, directoryOf paths base path = some d ∧ IsBase paths base d
  named : ∀ d, AtOrBelow paths base d →
    d ∈ namedDirectories paths unicode probing setup base →
      ∃ d' ∈ directories, paths.fold d' = paths.fold d
  ordered : directories.Pairwise fun d d' =>
    firstIndex paths.fold (namedDirectories paths unicode probing setup base) d
      < firstIndex paths.fold (namedDirectories paths unicode probing setup base) d'

/-- The list is what the setup asks for: nothing where probing is off or there is no base. -/
def IsProbeOrder (creator : Option WString) (probing : List (Option WString))
    (setup : AppDomainSetup) (directories : List WString) : Prop :=
  match probedBase unicode creator setup with
  | none => directories = []
  | some base => ProbeOrder paths unicode probing setup base directories

/-- The directories that are combined with the base stay at or below it. -/
structure StaysBelow (probing : List (Option WString)) (setup : AppDomainSetup)
    (base : WString) : Prop where
  relative : ∀ path ∈ privatePaths unicode probing setup, paths.isPathRooted path = some false →
    ∀ d, directoryOf paths base path = some d → AtOrBelow paths base d
  web : isWebApplication paths setup = some true →
    ∀ d, webBin paths base = some d → AtOrBelow paths base d

/-! ### Comparing -/

section Compare

variable {paths unicode}

theorem fold_trimSeparators (path : WString) :
    paths.fold (trimSeparators path) = trimSeparators (paths.fold path) := by
  induction path using List.reverseRecOn with
  | nil => rfl
  | append_singleton path c ih =>
      have hfold : paths.fold (path ++ [c]) = paths.fold path ++ [paths.upper c] :=
        List.map_append
      rw [hfold, trimSeparators, trimSeparators]
      by_cases hc : isSeparator c = true
      · rw [List.rdropWhile_concat_pos _ _ _ hc,
          List.rdropWhile_concat_pos _ _ _ ((paths.isSeparator_upper c).trans hc)]
        exact ih
      · rw [List.rdropWhile_concat_neg _ _ _ hc,
          List.rdropWhile_concat_neg _ _ _ (by rw [paths.isSeparator_upper]; exact hc), hfold]

/-- A directory whose path is the same up to case is as far below. -/
theorem atOrBelow_congr {base d d' : WString} (h : paths.fold d = paths.fold d')
    (hd : paths.getFullPath d = some d) (hd' : paths.getFullPath d' = some d') :
    AtOrBelow paths base d ↔ AtOrBelow paths base d' := by
  have hfold : paths.fold (trimSeparators d) = paths.fold (trimSeparators d') := by
    rw [fold_trimSeparators, fold_trimSeparators, h]
  unfold AtOrBelow isPathUnderApplicationBase
  rw [hd, hd']
  simp only [Paths.equals, Paths.startsWith, Option.bind_eq_bind, Option.bind_some, hfold]

theorem isBase_congr {base d d' : WString} (h : paths.fold d = paths.fold d') :
    IsBase paths base d ↔ IsBase paths base d' := by
  unfold IsBase
  rw [fold_trimSeparators, fold_trimSeparators, h]

/-- The application base is at or below itself. -/
theorem IsBase.atOrBelow {base d : WString} (h : IsBase paths base d)
    (hd : paths.getFullPath d = some d) : AtOrBelow paths base d := by
  obtain ⟨fullBase, hbase, heq⟩ := h
  unfold AtOrBelow isPathUnderApplicationBase
  rw [hbase, hd]
  simp [Paths.equals, heq]

theorem isBase_getFullPath {base fullBase : WString} (h : paths.getFullPath base = some fullBase) :
    IsBase paths base fullBase :=
  ⟨fullBase, h, rfl⟩

theorem not_isBase_webBin {base d : WString} (h : webBin paths base = some d) :
    ¬IsBase paths base d := by
  rintro ⟨fullBase, hbase, heq⟩
  obtain ⟨child, hchild, hd⟩ := Option.bind_eq_some_iff.mp h
  exact paths.combine_bin hbase hchild hd heq

end Compare

/-! ### The directories that are kept -/

/-- The directory of a private path, unless it is rooted outside the base. -/
def keptDirectory (base path : WString) : Option WString :=
  (directoryOf paths base path).filter fun d =>
    paths.isPathRooted path ≠ some true ∨ AtOrBelow paths base d

/-- The directories that are named and not ignored. -/
def keptDirectories (probing : List (Option WString)) (setup : AppDomainSetup)
    (base : WString) : List WString :=
  sourceDirectories paths setup base
    ((privatePaths unicode probing setup).map (keptDirectory paths base))

section Kept

variable {paths unicode} {base : WString}

theorem mapM_append_eq_some {α β : Type} {f : α → Option β} {xs ys : List α} {zs : List β}
    (h : (xs ++ ys).mapM f = some zs) :
    ∃ as bs, xs.mapM f = some as ∧ ys.mapM f = some bs ∧ zs = as ++ bs := by
  rw [List.mapM_append] at h
  obtain ⟨as, has, h⟩ := Option.bind_eq_some_iff.mp h
  obtain ⟨bs, hbs, h⟩ := Option.bind_eq_some_iff.mp h
  exact ⟨as, bs, has, hbs, (Option.some.inj h).symm⟩

theorem mapM_singleton_eq_some {α β : Type} {f : α → Option β} {x : α} {zs : List β}
    (h : [x].mapM f = some zs) : ∃ z, f x = some z ∧ zs = [z] := by
  rw [List.mapM_cons] at h
  obtain ⟨z, hz, h⟩ := Option.bind_eq_some_iff.mp h
  exact ⟨z, hz, (Option.some.inj h).symm⟩

theorem mapM_nil_eq_some {α β : Type} {f : α → Option β} {zs : List β}
    (h : ([] : List α).mapM f = some zs) : zs = [] :=
  (Option.some.inj h).symm

/-- What a turn of the loop adds is the directory of the path, if it is kept. -/
theorem resolveProbeDirectory_kept {path : WString} {added fullPaths : List WString}
    (h : resolveProbeDirectory paths base path = some added)
    (hfull : added.mapM paths.getFullPath = some fullPaths) :
    fullPaths = [keptDirectory paths base path].reduceOption := by
  obtain ⟨rooted, hrooted, h⟩ := Option.bind_eq_some_iff.mp h
  have hdirectory : directoryOf paths base path =
      if rooted = true then paths.getFullPath path
      else (paths.combine base path).bind paths.getFullPath := by
    rw [directoryOf, hrooted]
    rfl
  cases rooted with
  | true =>
      obtain ⟨fullPath, hpath, h⟩ := Option.bind_eq_some_iff.mp h
      obtain ⟨under, hunder, h⟩ := Option.bind_eq_some_iff.mp h
      rw [if_pos rfl, hpath] at hdirectory
      cases under with
      | true =>
          obtain rfl : [fullPath] = added := Option.some.inj h
          obtain ⟨z, hz, rfl⟩ := mapM_singleton_eq_some hfull
          rw [paths.getFullPath_getFullPath hpath] at hz
          have hkept : keptDirectory paths base path = some fullPath := by
            rw [keptDirectory, hdirectory, Option.filter_eq_some_iff]
            exact ⟨rfl, decide_eq_true (.inr hunder)⟩
          rw [hkept, ← Option.some.inj hz]
          rfl
      | false =>
          obtain rfl : [] = added := Option.some.inj h
          have hkept : keptDirectory paths base path = none := by
            simp [keptDirectory, hdirectory, AtOrBelow, hunder, hrooted]
          rw [mapM_nil_eq_some hfull, hkept]
          rfl
  | false =>
      obtain ⟨combined, hcombine, h⟩ := Option.bind_eq_some_iff.mp h
      obtain rfl : [combined] = added := Option.some.inj h
      obtain ⟨z, hz, rfl⟩ := mapM_singleton_eq_some hfull
      rw [if_neg Bool.false_ne_true, hcombine, Option.bind_some, hz] at hdirectory
      have hkept : keptDirectory paths base path = some z := by
        rw [keptDirectory, hdirectory, Option.filter_eq_some_iff]
        exact ⟨rfl, decide_eq_true (.inl (by simp [hrooted]))⟩
      rw [hkept]
      rfl

theorem resolveProbeDirectories_kept {list added fullPaths : List WString}
    (h : resolveProbeDirectories paths unicode base list = some added)
    (hfull : added.mapM paths.getFullPath = some fullPaths) :
    fullPaths = (((list.map (trim unicode)).filter (· ≠ [])).map
      (keptDirectory paths base)).reduceOption := by
  induction list generalizing added fullPaths with
  | nil =>
      obtain rfl : [] = added := Option.some.inj h
      exact mapM_nil_eq_some hfull
  | cons path list ih =>
      rw [resolveProbeDirectories] at h
      by_cases htrim : trim unicode path = []
      · rw [if_pos htrim] at h
        rw [List.map_cons, List.filter_cons_of_neg (by simpa using htrim)]
        exact ih h hfull
      · rw [if_neg htrim] at h
        obtain ⟨first, hfirst, h⟩ := Option.bind_eq_some_iff.mp h
        obtain ⟨later, hlater, h⟩ := Option.bind_eq_some_iff.mp h
        obtain rfl : first ++ later = added := Option.some.inj h
        obtain ⟨as, bs, has, hbs, rfl⟩ := mapM_append_eq_some hfull
        rw [List.map_cons, List.filter_cons_of_pos (by simpa using htrim), List.map_cons,
          ← List.singleton_append, List.reduceOption_append, resolveProbeDirectory_kept hfirst has,
          ih hlater hbs]

theorem resolvePrivatePaths_kept {list : Option WString} {added fullPaths : List WString}
    (h : resolvePrivatePaths paths unicode base list = some added)
    (hfull : added.mapM paths.getFullPath = some fullPaths) :
    fullPaths = ((pathsOfList unicode list).map (keptDirectory paths base)).reduceOption := by
  unfold resolvePrivatePaths at h
  unfold pathsOfList
  split at h
  · next hblank =>
      obtain rfl : [] = added := Option.some.inj h
      rw [if_pos hblank]
      exact mapM_nil_eq_some hfull
  · next hblank =>
      rw [if_neg hblank]
      exact resolveProbeDirectories_kept h hfull

theorem resolveProbingElements_kept {probing : List (Option WString)}
    {added fullPaths : List WString}
    (h : resolveProbingElements paths unicode base probing = some added)
    (hfull : added.mapM paths.getFullPath = some fullPaths) :
    fullPaths =
      ((probing.flatMap (pathsOfList unicode)).map (keptDirectory paths base)).reduceOption := by
  induction probing generalizing added fullPaths with
  | nil =>
      obtain rfl : [] = added := Option.some.inj h
      exact mapM_nil_eq_some hfull
  | cons list probing ih =>
      obtain ⟨first, hfirst, h⟩ := Option.bind_eq_some_iff.mp h
      obtain ⟨later, hlater, h⟩ := Option.bind_eq_some_iff.mp h
      obtain rfl : first ++ later = added := Option.some.inj h
      obtain ⟨as, bs, has, hbs, rfl⟩ := mapM_append_eq_some hfull
      rw [List.flatMap_cons, List.map_append, List.reduceOption_append,
        resolvePrivatePaths_kept hfirst has, ih hlater hbs]

theorem resolveWebDirectory_kept {setup : AppDomainSetup} {added fullPaths : List WString}
    (h : resolveWebDirectory paths base setup = some added)
    (hfull : added.mapM paths.getFullPath = some fullPaths) :
    fullPaths = [if isWebApplication paths setup = some true then webBin paths base
      else none].reduceOption := by
  obtain ⟨web, hweb, h⟩ := Option.bind_eq_some_iff.mp h
  rw [hweb]
  cases web with
  | true =>
      obtain ⟨child, hchild, h⟩ := Option.bind_eq_some_iff.mp h
      obtain rfl : [child] = added := Option.some.inj h
      obtain ⟨z, hz, rfl⟩ := mapM_singleton_eq_some hfull
      have hbin : webBin paths base = some z := Option.bind_eq_some_iff.mpr ⟨child, hchild, hz⟩
      rw [if_pos rfl, hbin]
      rfl
  | false =>
      obtain rfl : [] = added := Option.some.inj h
      exact mapM_nil_eq_some hfull

/-- What `ResolveApplicationBase` stores is the base. -/
theorem resolveApplicationBase_frame (unicode : Unicode) (creator : Option WString)
    (setup : AppDomainSetup) :
    (resolveApplicationBase unicode creator setup).1.configurationFile = setup.configurationFile
      ∧ (resolveApplicationBase unicode creator setup).1.privateBinPath = setup.privateBinPath
      ∧ (resolveApplicationBase unicode creator setup).1.privateBinPathProbe
        = setup.privateBinPathProbe := by
  unfold resolveApplicationBase
  split
  · split
    · exact ⟨rfl, rfl, rfl⟩
    · exact ⟨rfl, rfl, rfl⟩
  · exact ⟨rfl, rfl, rfl⟩

theorem resolveWebDirectory_congr {setup setup' : AppDomainSetup}
    (h : setup.configurationFile = setup'.configurationFile) :
    resolveWebDirectory paths base setup = resolveWebDirectory paths base setup' := by
  rw [resolveWebDirectory, resolveWebDirectory, isWebApplication, isWebApplication, h]

/-- **The probe directories** are the distinct ones of those that are kept. -/
theorem getProbeDirectories_kept {creator : Option WString} {probing : List (Option WString)}
    {setup setup' : AppDomainSetup} {directories : List WString}
    (hbase : probedBase unicode creator setup = some base)
    (h : getProbeDirectories paths unicode creator probing setup = some (directories, setup')) :
    directories = distinct paths.fold (keptDirectories paths unicode probing setup base)
      ∧ (setup.privateBinPathProbe = none → (paths.getFullPath base).isSome) := by
  unfold probedBase at hbase
  unfold getProbeDirectories at h
  split at hbase
  · cases hbase
  · next hallowed =>
      rw [if_neg hallowed] at h
      obtain ⟨hconf, hbin, hprobe⟩ := resolveApplicationBase_frame unicode creator setup
      generalize resolveApplicationBase unicode creator setup = resolved at *
      obtain ⟨stored, base'⟩ := resolved
      dsimp only at hconf hbin hprobe hbase h
      split at hbase
      · cases hbase
      · next hne =>
          obtain rfl : base'.getD [] = base := Option.some.inj hbase
          rw [if_neg hne] at h
          rw [resolveWebDirectory_congr hconf, hbin, hprobe] at h
          obtain ⟨web, hweb, h⟩ := Option.bind_eq_some_iff.mp h
          obtain ⟨privateBin, hprivate, h⟩ := Option.bind_eq_some_iff.mp h
          obtain ⟨probed, hprobed, h⟩ := Option.bind_eq_some_iff.mp h
          obtain ⟨found, hfound, h⟩ := Option.bind_eq_some_iff.mp h
          obtain rfl : found = directories := congrArg Prod.fst (Option.some.inj h)
          obtain ⟨fullPaths, hfull, hfound⟩ := Option.bind_eq_some_iff.mp hfound
          obtain ⟨three, fs, hthree, hfs, rfl⟩ := mapM_append_eq_some hfull
          obtain ⟨two, ps, htwo, hps, rfl⟩ := mapM_append_eq_some hthree
          obtain ⟨bs, ws, hbs, hws, rfl⟩ := mapM_append_eq_some htwo
          obtain ⟨hfullBase, hisSome⟩ : bs = [if setup.privateBinPathProbe = none then
                paths.getFullPath (base'.getD []) else none].reduceOption
              ∧ (setup.privateBinPathProbe = none →
                (paths.getFullPath (base'.getD [])).isSome) := by
            split at hbs
            · next hprobe =>
                obtain ⟨z, hz, rfl⟩ := mapM_singleton_eq_some hbs
                rw [if_pos hprobe, hz]
                exact ⟨rfl, fun _ => rfl⟩
            · next hprobe =>
                rw [if_neg hprobe]
                exact ⟨mapM_nil_eq_some hbs, fun h => absurd h hprobe⟩
          refine ⟨?_, hisSome⟩
          rw [← Option.some.inj hfound, hfullBase, resolveWebDirectory_kept hweb hws,
            resolvePrivatePaths_kept hprivate hps, resolveProbingElements_kept hprobed hfs,
            ← List.reduceOption_append, ← List.reduceOption_append, ← List.reduceOption_append,
            List.append_assoc, ← List.map_append]
          rfl

theorem getProbeDirectories_none {creator : Option WString} {probing : List (Option WString)}
    {setup setup' : AppDomainSetup} {directories : List WString}
    (hbase : probedBase unicode creator setup = none)
    (h : getProbeDirectories paths unicode creator probing setup = some (directories, setup')) :
    directories = [] := by
  unfold probedBase at hbase
  unfold getProbeDirectories at h
  split at hbase
  · next hdisallowed =>
      rw [if_pos hdisallowed] at h
      exact (congrArg Prod.fst (Option.some.inj h)).symm
  · next hallowed =>
      rw [if_neg hallowed] at h
      dsimp only at h hbase
      split at hbase
      · next hnil =>
          rw [if_pos hnil] at h
          exact (congrArg Prod.fst (Option.some.inj h)).symm
      · cases hbase

theorem directoryOf_full {path d : WString} (h : directoryOf paths base path = some d) :
    paths.getFullPath d = some d := by
  obtain ⟨rooted, hrooted, h⟩ := Option.bind_eq_some_iff.mp h
  cases rooted with
  | true => exact paths.getFullPath_getFullPath h
  | false =>
      obtain ⟨combined, hcombine, h⟩ := Option.bind_eq_some_iff.mp h
      exact paths.getFullPath_getFullPath h

theorem webBin_full {d : WString} (h : webBin paths base = some d) :
    paths.getFullPath d = some d := by
  obtain ⟨child, hchild, h⟩ := Option.bind_eq_some_iff.mp h
  exact paths.getFullPath_getFullPath h

/-- Where a directory comes from. -/
theorem mem_sourceDirectories {setup : AppDomainSetup} {directories : List (Option WString)}
    {d : WString} : d ∈ sourceDirectories paths setup base directories ↔
      (setup.privateBinPathProbe = none ∧ paths.getFullPath base = some d)
        ∨ (isWebApplication paths setup = some true ∧ webBin paths base = some d)
        ∨ some d ∈ directories := by
  rw [sourceDirectories, List.reduceOption_mem_iff, List.mem_append, List.mem_pair, or_assoc]
  have hif {c : Prop} [Decidable c] {o : Option WString} :
      some d = (if c then o else none) ↔ c ∧ o = some d := by
    split
    · next hc => exact ⟨fun heq => ⟨hc, heq.symm⟩, fun h => h.2.symm⟩
    · next hc => exact ⟨fun heq => (Option.some_ne_none _ heq).elim, fun h => absurd h.1 hc⟩
  rw [hif, hif]

theorem mem_keptDirectories {probing : List (Option WString)} {setup : AppDomainSetup}
    {d : WString} : d ∈ keptDirectories paths unicode probing setup base ↔
      (setup.privateBinPathProbe = none ∧ paths.getFullPath base = some d)
        ∨ (isWebApplication paths setup = some true ∧ webBin paths base = some d)
        ∨ ∃ path ∈ privatePaths unicode probing setup, directoryOf paths base path = some d
            ∧ (paths.isPathRooted path ≠ some true ∨ AtOrBelow paths base d) := by
  rw [keptDirectories, mem_sourceDirectories, List.mem_map]
  simp only [keptDirectory, Option.filter_eq_some_iff, decide_eq_true_eq]

theorem namedDirectories_full {probing : List (Option WString)} {setup : AppDomainSetup}
    {d : WString} (h : d ∈ namedDirectories paths unicode probing setup base) :
    paths.getFullPath d = some d := by
  rcases mem_sourceDirectories.mp h with ⟨-, h⟩ | ⟨-, h⟩ | h
  · exact paths.getFullPath_getFullPath h
  · exact webBin_full h
  · obtain ⟨path, -, h⟩ := List.mem_map.mp h
    exact directoryOf_full h

theorem keptDirectories_full {probing : List (Option WString)} {setup : AppDomainSetup}
    {d : WString} (h : d ∈ keptDirectories paths unicode probing setup base) :
    paths.getFullPath d = some d := by
  rcases mem_keptDirectories.mp h with ⟨-, h⟩ | ⟨-, h⟩ | ⟨path, -, h, -⟩
  · exact paths.getFullPath_getFullPath h
  · exact webBin_full h
  · exact directoryOf_full h

theorem filter_reduceOption {α : Type} (p : α → Bool) (os : List (Option α)) :
    os.reduceOption.filter p = (os.map (Option.filter p)).reduceOption := by
  induction os with
  | nil => rfl
  | cons o os ih =>
      rw [List.map_cons]
      rcases o with _ | x
      · exact ih
      · rw [List.reduceOption_cons_of_some, Option.filter_some]
        by_cases hx : p x = true
        · rw [List.filter_cons_of_pos hx, if_pos hx, List.reduceOption_cons_of_some, ih]
        · rw [List.filter_cons_of_neg hx, if_neg hx, List.reduceOption_cons_of_none, ih]

/-- Where nothing leaves the base, what is kept is what lies at or below it. -/
theorem StaysBelow.keptDirectories_eq {probing : List (Option WString)} {setup : AppDomainSetup}
    (h : StaysBelow paths unicode probing setup base) :
    keptDirectories paths unicode probing setup base =
      (namedDirectories paths unicode probing setup base).filter
        fun d => AtOrBelow paths base d := by
  have filter_eq_self {o : Option WString} (ho : ∀ d, o = some d → AtOrBelow paths base d) :
      o.filter (fun d => AtOrBelow paths base d) = o := by
    cases o with
    | none => rfl
    | some d => simp [ho d rfl]
  have hbase : ∀ d, (if setup.privateBinPathProbe = none then paths.getFullPath base else none)
      = some d → AtOrBelow paths base d := by
    intro d hd
    split at hd
    · exact (isBase_getFullPath hd).atOrBelow (paths.getFullPath_getFullPath hd)
    · cases hd
  have hweb : ∀ d, (if isWebApplication paths setup = some true then webBin paths base else none)
      = some d → AtOrBelow paths base d := by
    intro d hd
    split at hd
    · next hweb => exact h.web hweb d hd
    · cases hd
  have hkept : (privatePaths unicode probing setup).map (keptDirectory paths base) =
      (privatePaths unicode probing setup).map fun path =>
        (directoryOf paths base path).filter fun d => AtOrBelow paths base d := by
    refine List.map_congr_left fun path hpath => ?_
    by_cases hrooted : paths.isPathRooted path = some true
    · simp [keptDirectory, hrooted]
    · -- a path that is not rooted is combined with the base
      rw [keptDirectory]
      cases hd : directoryOf paths base path with
      | none => rfl
      | some d =>
          obtain ⟨rooted, hrooted', -⟩ := Option.bind_eq_some_iff.mp hd
          cases rooted with
          | true => exact absurd hrooted' hrooted
          | false =>
              rw [Option.filter_some, Option.filter_some, if_pos (decide_eq_true (.inl hrooted)),
                if_pos (decide_eq_true (h.relative path hpath hrooted' d hd))]
  rw [keptDirectories, namedDirectories, sourceDirectories, sourceDirectories,
    filter_reduceOption, List.map_append, List.map_cons, List.map_cons, List.map_nil,
    filter_eq_self hbase, filter_eq_self hweb, List.map_map, hkept]
  rfl

end Kept

/-! ### The order -/

section Order

variable {paths unicode} {creator : Option WString} {probing : List (Option WString)}
  {setup setup' : AppDomainSetup} {directories : List WString} {base : WString}

/-- What is kept occurs, up to case. -/
theorem exists_of_kept {d : WString} (hd : d ∈ keptDirectories paths unicode probing setup base) :
    ∃ d' ∈ distinct paths.fold (keptDirectories paths unicode probing setup base),
      paths.fold d' = paths.fold d ∧ paths.getFullPath d' = some d'
        ∧ paths.getFullPath d = some d := by
  obtain ⟨d', hd', heq⟩ : ∃ d' ∈ distinct paths.fold _, paths.fold d' = paths.fold d :=
    exists_mem_distinct hd
  exact ⟨d', hd', heq, keptDirectories_full (mem_of_mem_distinct hd'), keptDirectories_full hd⟩

theorem staysBelow_of_probeOrder
    (h : ProbeOrder paths unicode probing setup base
      (distinct paths.fold (keptDirectories paths unicode probing setup base))) :
    StaysBelow paths unicode probing setup base := by
  have below {d : WString} (hd : d ∈ keptDirectories paths unicode probing setup base) :
      AtOrBelow paths base d := by
    obtain ⟨d', hd', heq, hfull', hfull⟩ := exists_of_kept hd
    exact (atOrBelow_congr heq hfull' hfull).mp (h.atOrBelow d' hd')
  constructor
  · intro path hpath hrooted d hd
    refine below (mem_keptDirectories.mpr (.inr (.inr ⟨path, hpath, hd, .inl ?_⟩)))
    rw [hrooted]
    simp
  · intro hweb d hd
    exact below (mem_keptDirectories.mpr (.inr (.inl ⟨hweb, hd⟩)))

theorem StaysBelow.probeOrder (h : StaysBelow paths unicode probing setup base)
    (hbase : setup.privateBinPathProbe = none → (paths.getFullPath base).isSome) :
    ProbeOrder paths unicode probing setup base
      (distinct paths.fold (keptDirectories paths unicode probing setup base)) where
  nodup := distinct_nodup _
  atOrBelow := by
    intro d hd
    have hkept := mem_of_mem_distinct hd
    rw [h.keptDirectories_eq] at hkept
    exact of_decide_eq_true (List.mem_filter.mp hkept).2
  base_iff := by
    constructor
    · rintro ⟨d, hd, hisBase⟩
      rcases mem_keptDirectories.mp (mem_of_mem_distinct hd) with
        ⟨hprobe, -⟩ | ⟨-, hweb⟩ | ⟨path, hpath, hdirectory, -⟩
      · exact .inl hprobe
      · exact absurd hisBase (not_isBase_webBin hweb)
      · exact .inr ⟨path, hpath, d, hdirectory, hisBase⟩
    · have occurs {d : WString} (hd : d ∈ keptDirectories paths unicode probing setup base)
          (hisBase : IsBase paths base d) :
          ∃ d ∈ distinct paths.fold (keptDirectories paths unicode probing setup base),
            IsBase paths base d := by
        obtain ⟨d', hd', heq, -⟩ := exists_of_kept hd
        exact ⟨d', hd', (isBase_congr heq).mpr hisBase⟩
      rintro (hprobe | ⟨path, hpath, d, hd, hisBase⟩)
      · obtain ⟨fullBase, hfull⟩ := Option.isSome_iff_exists.mp (hbase hprobe)
        exact occurs (mem_keptDirectories.mpr (.inl ⟨hprobe, hfull⟩)) (isBase_getFullPath hfull)
      · refine occurs (mem_keptDirectories.mpr (.inr (.inr ⟨path, hpath, hd, .inr ?_⟩))) hisBase
        exact hisBase.atOrBelow (directoryOf_full hd)
  named := by
    intro d hbelow hd
    have hkept : d ∈ keptDirectories paths unicode probing setup base := by
      rw [h.keptDirectories_eq]
      exact List.mem_filter.mpr ⟨hd, decide_eq_true hbelow⟩
    obtain ⟨d', hd', heq, -⟩ := exists_of_kept hkept
    exact ⟨d', hd', heq⟩
  ordered := by
    refine (distinct_pairwise _).imp_of_mem fun {d d'} hd hd' hlt => ?_
    rw [h.keptDirectories_eq] at hlt hd hd'
    -- a named directory that is the same up to case lies below the base as well
    have below {e : WString}
        (he : e ∈ distinct paths.fold ((namedDirectories paths unicode probing setup base).filter
          fun d => AtOrBelow paths base d)) :
        ∀ e' ∈ namedDirectories paths unicode probing setup base, paths.fold e' = paths.fold e →
          decide (AtOrBelow paths base e') = true := by
      intro e' he' heq
      obtain ⟨hmem, hbelow⟩ := List.mem_filter.mp (mem_of_mem_distinct he)
      exact decide_eq_true ((atOrBelow_congr heq (namedDirectories_full he')
        (namedDirectories_full hmem)).mpr (of_decide_eq_true hbelow))
    exact firstIndex_lt_of_filter (below hd) (below hd') hlt

/-- **The probe directories** are what the setup asks for exactly when nothing that is combined
with the application base leaves it. -/
theorem getProbeDirectories_isProbeOrder_iff
    (h : getProbeDirectories paths unicode creator probing setup = some (directories, setup')) :
    IsProbeOrder paths unicode creator probing setup directories
      ↔ ∀ base, probedBase unicode creator setup = some base →
          StaysBelow paths unicode probing setup base := by
  unfold IsProbeOrder
  cases hbase : probedBase unicode creator setup with
  | none =>
      exact ⟨fun _ _ hnone => (nomatch hnone), fun _ => getProbeDirectories_none hbase h⟩
  | some base =>
      obtain ⟨rfl, hisSome⟩ := getProbeDirectories_kept hbase h
      constructor
      · rintro horder base' heq
        cases heq
        exact staysBelow_of_probeOrder horder
      · intro hstays
        exact (hstays base rfl).probeOrder hisSome

end Order

/-! ### A drive -/

/-- `C:\a`. -/
def driveBase : WString := [code 'C', code ':', code '\\', code 'a']

/-- `..\b`. -/
def siblingPath : WString := [code '.', code '.', code '\\', code 'b']

/-- `C:\b`. -/
def sibling : WString := [code 'C', code ':', code '\\', code 'b']

/-- The paths of a drive, of which `C:\a\..\b` alone is not full. -/
def drive : Paths where
  upper := asciiUpper
  getFullPath path := some (if path = driveBase ++ code '\\' :: siblingPath then sibling else path)
  combine path child := some (path ++ code '\\' :: child)
  isPathRooted path := some (path.take 1 = [code '\\'] ∨ (path.drop 1).take 1 = [code ':'])
  getFileName path := some (path.rtakeWhile fun c => !isSeparator c && c != code ':')
  isSeparator_upper c := by
    have hback : asciiUpper c = code '\\' ↔ c = code '\\' := asciiUpper_eq_iff (by decide)
    have hslash : asciiUpper c = code '/' ↔ c = code '/' := asciiUpper_eq_iff (by decide)
    rw [isSeparator, isSeparator, Bool.eq_iff_iff]
    simp [hback, hslash]
  getFullPath_getFullPath := by
    intro path fullPath h
    obtain rfl := Option.some.inj h
    by_cases hpath : path = driveBase ++ code '\\' :: siblingPath
    · rw [if_pos hpath]
      decide
    · rw [if_neg hpath, if_neg hpath]
  combine_bin := by
    intro path fullPath child fullChild hpath hchild hfull heq
    obtain rfl := Option.some.inj hpath
    obtain rfl := Option.some.inj hchild
    obtain rfl := Option.some.inj hfull
    -- the child ends in a letter, and is longer
    have hchild : path ++ code '\\' :: bin
        = (path ++ [code '\\', code 'b', code 'i']) ++ [code 'n'] := by
      rw [bin, List.append_assoc]
      rfl
    have hfull : path ++ code '\\' :: bin ≠ driveBase ++ code '\\' :: siblingPath := by
      intro h
      rw [hchild] at h
      have hlast := congrArg List.getLast? h
      rw [List.getLast?_concat] at hlast
      exact absurd hlast (by decide)
    have htrim : trimSeparators (path ++ code '\\' :: bin) = path ++ code '\\' :: bin := by
      rw [hchild, trimSeparators, List.rdropWhile_concat_neg _ _ _ (by decide)]
    rw [if_neg hfull, htrim] at heq
    have hlength := congrArg List.length heq
    rw [List.length_map, List.length_map, List.length_append] at hlength
    have hle := (List.rdropWhile_prefix isSeparator
      (if path = driveBase ++ code '\\' :: siblingPath then sibling else path)).length_le
    change (trimSeparators _).length ≤ _ at hle
    rw [← hlength] at hle
    split at hle
    · next hpath =>
        rw [hpath] at hle
        exact absurd hle (by decide)
    · rw [bin, List.length_cons] at hle
      omega

/-- A setup with a list of private paths. -/
def driveSetup (privateBinPath : WString) : AppDomainSetup where
  applicationBase := some driveBase
  configurationFile := none
  privateBinPath := some privateBinPath
  privateBinPathProbe := none
  disallowApplicationBaseProbing := false

/-- `x` is probed below the base. -/
theorem getProbeDirectories_isProbeOrder_iff_child :
    IsProbeOrder drive asciiUnicode none [] (driveSetup [code 'x'])
      [driveBase, driveBase ++ [code '\\', code 'x']] := by
  have hdirectories : getProbeDirectories drive asciiUnicode none [] (driveSetup [code 'x'])
      = some ([driveBase, driveBase ++ [code '\\', code 'x']], driveSetup [code 'x']) := by rfl
  refine (getProbeDirectories_isProbeOrder_iff hdirectories).mpr ?_
  intro base hbase
  obtain rfl : driveBase = base := Option.some.inj hbase
  constructor
  · intro path hpath _ d hd
    obtain rfl : path = [code 'x'] := List.mem_singleton.mp hpath
    obtain rfl : driveBase ++ [code '\\', code 'x'] = d := Option.some.inj hd
    decide
  · intro hweb
    exact absurd hweb (by decide)

/-- `..\b` is probed outside the base. -/
theorem getProbeDirectories_not_isProbeOrder :
    getProbeDirectories drive asciiUnicode none [] (driveSetup siblingPath)
        = some ([driveBase, sibling], driveSetup siblingPath)
      ∧ ¬IsProbeOrder drive asciiUnicode none [] (driveSetup siblingPath) [driveBase, sibling] := by
  refine ⟨by rfl, fun h => ?_⟩
  exact absurd (h.atOrBelow sibling (by decide)) (by decide)

end AutoInstrumentation.AssemblyBinding
