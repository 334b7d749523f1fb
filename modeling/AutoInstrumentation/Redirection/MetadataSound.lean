import AutoInstrumentation.Redirection.Metadata

/-!
# AutoInstrumentation.Redirection.MetadataSound

What holds of the redirection map in every run, whatever is loaded and whichever emits
fail.

All that a step can do is in `redirectAssemblyRef_cases` and `updateAttribute_cases`: it
writes the targets of some entries and counts them, or it raises the target of an entry
whose count is 0. The invariant `Consistent` says that what was written agrees with the
map. It is carried by the steps that raise no entry whose count has wrapped around:
the count of an entry has 32 bits, so after 2^32 redirections an entry that was used looks
like a fresh one (`redirection_count_wraps`).
-/

namespace AutoInstrumentation.Redirection

open Lib ReflectionName

variable {toWSTRING : List Byte → WString} {s t : State}

/-! ### The operations on the state -/

section Operations

variable {name key : WString} {redirect : AssemblyVersionRedirection}

@[simp] theorem write_redirects (ws : List Written) : (s.write ws).redirects = s.redirects := rfl

@[simp] theorem write_counted (ws : List Written) : (s.write ws).counted = s.counted := rfl

@[simp] theorem write_written (ws : List Written) : (s.write ws).written = s.written ++ ws := rfl

@[simp] theorem count_written : (s.count name).written = s.written := rfl

@[simp] theorem count_counted : (s.count name).counted = s.counted ++ [name] := rfl

@[simp] theorem raise_written (version : AssemblyMetadata) :
    (s.raise name version).written = s.written := rfl

@[simp] theorem raise_counted (version : AssemblyMetadata) :
    (s.raise name version).counted = s.counted := rfl

/-- An entry whose count is `n` higher. -/
def AssemblyVersionRedirection.counted (redirect : AssemblyVersionRedirection) (n : ℕ) :
    AssemblyVersionRedirection :=
  { redirect with ulRedirectionCount := redirect.ulRedirectionCount + .ofNat 32 n }

theorem count_find (key : WString) : (s.count name).redirects.find key
    = (s.redirects.find key).map (·.counted ([name].count key)) := by
  rw [State.count, AssemblyRedirects.find_modify, List.count_singleton]
  by_cases hkey : key = name
  · subst hkey
    simp [AssemblyVersionRedirection.counted]
  · have hne : (name == key) = false := by simpa using fun h => hkey h.symm
    cases hfind : s.redirects.find key <;>
      simp [AssemblyVersionRedirection.counted, hkey, hne]

/-- Counting entries one after another adds to each count as often as its key occurs. -/
theorem foldl_count_find (names : List WString) (s : State) (key : WString) :
    (names.foldl State.count s).redirects.find key
      = (s.redirects.find key).map (·.counted (names.count key)) := by
  induction names generalizing s with
  | nil =>
      cases h : s.redirects.find key <;> simp [AssemblyVersionRedirection.counted, h]
  | cons name names ih =>
      rw [List.foldl_cons, ih, count_find, Option.map_map]
      congr 1
      funext redirect
      have hcount : (name :: names).count key = [name].count key + names.count key := by
        rw [← List.count_append, List.singleton_append]
      simp only [Function.comp_apply, AssemblyVersionRedirection.counted, hcount,
        BitVec.ofNat_add, BitVec.add_assoc]

@[simp] theorem foldl_count_counted (names : List WString) (s : State) :
    (names.foldl State.count s).counted = s.counted ++ names := by
  induction names generalizing s with
  | nil => simp
  | cons name names ih => simp [ih]

@[simp] theorem foldl_count_written (names : List WString) (s : State) :
    (names.foldl State.count s).written = s.written := by
  induction names generalizing s with
  | nil => rfl
  | cons name names ih => simp [ih]

theorem raise_find_self {version : AssemblyMetadata} (h : s.redirects.find name = some redirect) :
    (s.raise name version).redirects.find name
      = some { toAssemblyMetadata := version, ulRedirectionCount := redirect.ulRedirectionCount } := by
  rw [State.raise, AssemblyRedirects.find_modify_self, h]
  rfl

theorem raise_find_of_ne {version : AssemblyMetadata} (h : key ≠ name) :
    (s.raise name version).redirects.find key = s.redirects.find key :=
  AssemblyRedirects.find_modify_of_ne _ h _

end Operations

/-! ### What a step can do -/

/-- The map's target, written over a lower version or where there was none. -/
def Valid (s : State) (w : Written) : Prop :=
  ∃ redirect, s.redirects.find w.assemblyName = some redirect ∧
    w.version = redirect.toAssemblyMetadata ∧ ∀ v ∈ w.original, v < w.version

/-- The state after some targets were written and counted. -/
def Writes (s t : State) : Prop :=
  ∃ (ws : List Written) (names : List WString), (∀ w ∈ ws, Valid s w) ∧ names.Perm (ws.map Written.assemblyName) ∧
    t = names.foldl State.count (s.write ws)

/-- The state after a reference to a higher version raised the target of an entry. -/
def Raises (s : State) (name : WString) (version : AssemblyMetadata) (t : State) : Prop :=
  ∃ redirect, s.redirects.find name = some redirect ∧ redirect.ulRedirectionCount = 0 ∧
    redirect.toAssemblyMetadata < version ∧ t = (s.raise name version).count name

theorem writes_self (s : State) : Writes s s :=
  ⟨[], [], by simp, by simp, by simp [State.write]⟩

theorem redirectAssemblyRef_cases (s : State) (assemblyRef : AssemblyRef) (hr : EmitResult) :
    Writes s (redirectAssemblyRef s assemblyRef hr) ∨
      ∃ name version, assemblyRef.props = some (name, version) ∧
        Raises s name version (redirectAssemblyRef s assemblyRef hr) := by
  rw [redirectAssemblyRef]
  cases hprops : assemblyRef.props with
  | none => exact .inl (writes_self s)
  | some props =>
      obtain ⟨name, assemblyMetadata⟩ := props
      cases hfind : s.redirects.find name with
      | none => simpa [hfind] using .inl (writes_self s)
      | some redirect =>
          simp only [hfind]
          split_ifs with hpos hzero hcount
          · cases hr with
            | failed => exact .inl (writes_self s)
            | ok =>
                refine .inl ⟨_, [name], ?_, by simp, rfl⟩
                have hlt := AssemblyVersionRedirection.compareToAssemblyVersion_pos.mp hpos
                simpa [Valid, hfind] using hlt
          · exact .inl (writes_self s)
          · have hneg : redirect.compareToAssemblyVersion assemblyMetadata < 0 := by omega
            exact .inr ⟨name, assemblyMetadata, rfl, redirect, hfind, hcount,
              AssemblyVersionRedirection.compareToAssemblyVersion_neg.mp hneg, rfl⟩
          · exact .inl (writes_self s)

/-- The text in which a version is written. -/
def Written.text (w : Written) : List Byte :=
  match w.original with
  | none => versionQualifier ++ w.version.versionStr
  | some _ => w.version.versionStr

theorem redirectReference_written {redirects : AssemblyRedirects}
    {reference : ParsedAssemblyReference} {edit : Option Edit}
    (h : redirectReference toWSTRING redirects reference = some edit) :
    edit.toList.map (fun e => (e.assemblyName, e.value))
      = (writtenFor toWSTRING redirects reference).map fun w => (w.assemblyName, w.text) := by
  rw [writtenFor, h]
  rw [redirectReference] at h
  cases hfind : redirects.findIgnoringCase (toWSTRING reference.assemblyName) with
  | none =>
      rw [hfind] at h
      obtain rfl := Option.some.inj h
      rfl
  | some found =>
      obtain ⟨key, redirect⟩ := found
      simp only [hfind] at h
      cases hspan : reference.versionSpan with
      | none =>
          simp only [hspan, Option.some.injEq] at h
          subst h
          rfl
      | some versionSpan =>
          simp only [hspan] at h
          cases hversion : tryParseVersion versionSpan.text with
          | none => simp [hversion] at h
          | some parsedVersion =>
              simp only [hversion] at h
              split_ifs at h
              · obtain rfl := Option.some.inj h
                rfl
              · obtain rfl := Option.some.inj h
                simp [hversion, Written.text]

/-- The edits of a type name put exactly the versions into it that `writtenFor` lists. -/
theorem collectEdits_written {redirects : AssemblyRedirects}
    {references : List ParsedAssemblyReference} {edits : List Edit}
    (h : collectEdits toWSTRING redirects references = some edits) :
    edits.map (fun e => (e.assemblyName, e.value))
      = (references.flatMap (writtenFor toWSTRING redirects)).map
          fun w => (w.assemblyName, w.text) := by
  induction references generalizing edits with
  | nil =>
      obtain rfl := Option.some.inj h
      rfl
  | cons reference references ih =>
      rw [collectEdits] at h
      cases hedit : redirectReference toWSTRING redirects reference with
      | none => simp [hedit] at h
      | some edit =>
          simp only [hedit] at h
          obtain ⟨others, hothers, rfl⟩ := Option.map_eq_some_iff.mp h
          rw [List.map_append, List.flatMap_cons, List.map_append, ih hothers,
            redirectReference_written hedit]

theorem valid_of_mem_writtenFor {reference : ParsedAssemblyReference} {w : Written}
    (h : w ∈ writtenFor toWSTRING s.redirects reference) : Valid s w := by
  rw [writtenFor, redirectReference] at h
  cases hfind : s.redirects.findIgnoringCase (toWSTRING reference.assemblyName) with
  | none => simp [hfind] at h
  | some found =>
      obtain ⟨key, redirect⟩ := found
      have hkey := AssemblyRedirects.find_of_findIgnoringCase hfind
      simp only [hfind] at h
      cases hspan : reference.versionSpan with
      | none =>
          simp only [hspan, List.mem_singleton] at h
          subst h
          exact ⟨redirect, hkey, rfl, by simp⟩
      | some versionSpan =>
          simp only [hspan] at h
          cases hversion : tryParseVersion versionSpan.text with
          | none => simp [hversion] at h
          | some parsedVersion =>
              simp only [hversion] at h
              split_ifs at h with hle
              · simp at h
              · simp only [Option.bind_some, hversion, List.mem_singleton] at h
                subst h
                have hlt := AssemblyVersionRedirection.compareToAssemblyVersion_pos.mp
                  (not_le.mp hle)
                exact ⟨redirect, hkey, rfl, by simpa using hlt⟩

theorem tryRewriteTypeName_names {redirects : AssemblyRedirects} {typeName rewritten : List Byte}
    {names : List WString}
    (h : tryRewriteTypeNameAssemblyRedirections toWSTRING redirects typeName
      = some (rewritten, names)) :
    names.Perm ((writtenIn toWSTRING redirects typeName).map Written.assemblyName) := by
  rw [tryRewriteTypeNameAssemblyRedirections] at h
  rw [writtenIn]
  cases hparse : parseTypeNameAssemblyReferences typeName with
  | mk result references =>
      cases result with
      | false => simp [hparse] at h
      | true =>
          simp only [hparse] at h
          cases hedits : collectEdits toWSTRING redirects references with
          | none => simp [hedits] at h
          | some edits =>
              have hwritten := congrArg (List.map Prod.fst) (collectEdits_written hedits)
              simp only [List.map_map, Function.comp_def] at hwritten
              cases edits with
              | nil => simp [hedits] at h
              | cons edit edits =>
                  simp only [hedits, Option.map_eq_some_iff, Prod.mk.injEq] at h
                  obtain ⟨_, -, -, rfl⟩ := h
                  rw [← hwritten]
                  exact (List.mergeSort_perm _ _).map _

theorem updateAttribute_cases (toWSTRING : List Byte → WString) (s : State)
    (customAttribute : CustomAttribute) (updateHr : EmitResult) :
    Writes s (updateAttribute toWSTRING s customAttribute updateHr) := by
  rw [updateAttribute]
  cases applicableBlob customAttribute with
  | none => exact writes_self s
  | some blob =>
      simp only [tryRewriteUnsafeAccessorTypeAttributeBlob]
      cases htypeName : findTypeName blob with
      | none => exact writes_self s
      | some typeName =>
          simp only
          cases hrewrite : tryRewriteTypeNameAssemblyRedirections toWSTRING s.redirects
              (typeNameOfBlob blob (typeName.1, typeName.2)) with
          | none => exact writes_self s
          | some rewritten =>
              simp only
              split_ifs
              · exact writes_self s
              · exact writes_self s
              · cases updateHr with
                | failed => exact writes_self s
                | ok =>
                    refine ⟨_, _, ?_, tryRewriteTypeName_names hrewrite, rfl⟩
                    intro w hw
                    obtain ⟨reference, -, hw⟩ := List.mem_flatMap.mp hw
                    exact valid_of_mem_writtenFor hw

/-! ### What a step does to the map -/

/-- Only the counts differ. -/
theorem find_of_writes (h : Writes s t) {name : WString} {redirect : AssemblyVersionRedirection}
    (hfind : s.redirects.find name = some redirect) :
    ∃ n, t.redirects.find name = some (redirect.counted n) := by
  obtain ⟨ws, names, -, -, rfl⟩ := h
  rw [foldl_count_find, write_redirects, hfind]
  exact ⟨_, rfl⟩

/-- Only the entry that is raised changes, besides its count. -/
theorem find_of_raises_self {name : WString} {version : AssemblyMetadata}
    (h : Raises s name version t) : ∃ redirect', t.redirects.find name = some redirect' ∧
      redirect'.toAssemblyMetadata = version := by
  obtain ⟨redirect, hfind, -, -, rfl⟩ := h
  rw [count_find, raise_find_self hfind]
  exact ⟨_, rfl, rfl⟩

theorem find_of_raises_of_ne {name key : WString} {version : AssemblyMetadata}
    (h : Raises s name version t) (hne : key ≠ name) {redirect : AssemblyVersionRedirection}
    (hfind : s.redirects.find key = some redirect) :
    ∃ n, t.redirects.find key = some (redirect.counted n) := by
  obtain ⟨-, -, -, -, rfl⟩ := h
  rw [count_find, raise_find_of_ne hne, hfind]
  exact ⟨_, rfl⟩

theorem step_cases (toWSTRING : List Byte → WString) (s : State) (a : Act) : Writes s (step toWSTRING s a) ∨
    ∃ assemblyRef hr name version, a = .ofAssemblyRef assemblyRef hr ∧
      assemblyRef.props = some (name, version) ∧ Raises s name version (step toWSTRING s a) := by
  cases a with
  | ofAssemblyRef assemblyRef hr =>
      rcases redirectAssemblyRef_cases s assemblyRef hr with h | ⟨name, version, hprops, h⟩
      · exact .inl h
      · exact .inr ⟨assemblyRef, hr, name, version, rfl, hprops, h⟩
  | ofCustomAttribute customAttribute hr =>
      exact .inl (updateAttribute_cases toWSTRING s customAttribute hr)

/-- A step lowers no target, and changes none whose count is not 0. -/
theorem step_find (toWSTRING : List Byte → WString) (a : Act) {name : WString} {redirect : AssemblyVersionRedirection}
    (hfind : s.redirects.find name = some redirect) :
    ∃ redirect', (step toWSTRING s a).redirects.find name = some redirect' ∧
      redirect.toAssemblyMetadata ≤ redirect'.toAssemblyMetadata ∧
      (redirect.ulRedirectionCount ≠ 0 →
        redirect'.toAssemblyMetadata = redirect.toAssemblyMetadata) := by
  rcases step_cases toWSTRING s a with h | ⟨_, _, key, version, -, -, h⟩
  · obtain ⟨n, hn⟩ := find_of_writes h hfind
    exact ⟨_, hn, le_refl _, fun _ => rfl⟩
  · by_cases hkey : name = key
    · subst hkey
      obtain ⟨redirect', hfind', rfl⟩ := find_of_raises_self h
      obtain ⟨_, hfound, hzero, hlt, -⟩ := h
      obtain rfl := Option.some.inj (hfind.symm.trans hfound)
      exact ⟨redirect', hfind', hlt.le, fun hcount => absurd hzero hcount⟩
    · obtain ⟨n, hn⟩ := find_of_raises_of_ne h hkey hfind
      exact ⟨_, hn, le_refl _, fun _ => rfl⟩

/-! ### The invariant -/

/-- What was written agrees with the map, and the counts say what was counted. -/
structure Consistent (s : State) : Prop where
  written : ∀ w ∈ s.written, Valid s w
  count : ∀ name redirect, s.redirects.find name = some redirect →
    redirect.ulRedirectionCount = .ofNat 32 (s.counted.count name)
  writtenCounted : ∀ name,
    (s.written.map Written.assemblyName).count name ≤ s.counted.count name
  -- An entry is raised at most once, before anything is written by it.
  countedWritten : ∀ name,
    s.counted.count name ≤ (s.written.map Written.assemblyName).count name + 1

theorem consistent_of_init (h : Init s) : Consistent s := by
  obtain ⟨hwritten, hcounted, hzero⟩ := h
  refine ⟨?_, ?_, ?_, ?_⟩
  · simp [hwritten]
  · intro name redirect hfind
    simpa [hcounted] using hzero name redirect hfind
  · simp [hwritten]
  · simp [hcounted]

theorem counted_ofNat (m n : ℕ) {redirect : AssemblyVersionRedirection}
    (h : redirect.ulRedirectionCount = .ofNat 32 m) :
    (redirect.counted n).ulRedirectionCount = .ofNat 32 (m + n) := by
  rw [BitVec.ofNat_add, ← h]
  rfl

theorem Valid.of_find {w : Written} (h : Valid s w)
    (hfind : ∀ redirect, s.redirects.find w.assemblyName = some redirect →
      ∃ n, t.redirects.find w.assemblyName = some (redirect.counted n)) : Valid t w := by
  obtain ⟨redirect, hredirect, hversion, horiginal⟩ := h
  obtain ⟨n, hn⟩ := hfind redirect hredirect
  exact ⟨_, hn, hversion, horiginal⟩

theorem Consistent.of_writes (hs : Consistent s) (h : Writes s t) : Consistent t := by
  have hfind : ∀ name redirect, s.redirects.find name = some redirect →
      ∃ n, t.redirects.find name = some (redirect.counted n) :=
    fun _ _ hfind => find_of_writes h hfind
  obtain ⟨ws, names, hws, hnames, rfl⟩ := h
  refine ⟨?_, ?_, ?_, ?_⟩
  · intro w hw
    simp only [foldl_count_written, write_written, List.mem_append] at hw
    rcases hw with hw | hw
    · exact (hs.written w hw).of_find (hfind w.assemblyName)
    · exact (hws w hw).of_find (hfind w.assemblyName)
  · intro name redirect hredirect
    rw [foldl_count_find, write_redirects, Option.map_eq_some_iff] at hredirect
    obtain ⟨redirect, hredirect, rfl⟩ := hredirect
    rw [foldl_count_counted, List.count_append, write_counted]
    exact counted_ofNat _ _ (hs.count name redirect hredirect)
  · intro name
    have hle := hs.writtenCounted name
    have hcount := hnames.count_eq name
    simp only [foldl_count_written, foldl_count_counted, write_written, write_counted,
      List.map_append, List.count_append]
    omega
  · intro name
    have hle := hs.countedWritten name
    have hcount := hnames.count_eq name
    simp only [foldl_count_written, foldl_count_counted, write_written, write_counted,
      List.map_append, List.count_append]
    omega

/-- An entry that is raised before it was ever counted was not written. -/
theorem Consistent.ne_of_mem_written (hs : Consistent s) {name : WString}
    (hcounted : s.counted.count name = 0) {w : Written} (hw : w ∈ s.written) :
    w.assemblyName ≠ name := by
  rintro rfl
  have hpos : 0 < (s.written.map Written.assemblyName).count w.assemblyName :=
    List.count_pos_iff.mpr (List.mem_map_of_mem hw)
  have hle := hs.writtenCounted w.assemblyName
  omega

theorem Consistent.of_raises (hs : Consistent s) {name : WString} {version : AssemblyMetadata}
    (h : Raises s name version t) (hcounted : s.counted.count name = 0) : Consistent t := by
  have hfind : ∀ key redirect, key ≠ name → s.redirects.find key = some redirect →
      ∃ n, t.redirects.find key = some (redirect.counted n) :=
    fun _ _ hne hfind => find_of_raises_of_ne h hne hfind
  obtain ⟨redirect, hredirect, hzero, hlt, rfl⟩ := h
  refine ⟨?_, ?_, ?_, ?_⟩
  · intro w hw
    simp only [count_written, raise_written] at hw
    exact (hs.written w hw).of_find fun redirect hredirect =>
      hfind w.assemblyName redirect (hs.ne_of_mem_written hcounted hw) hredirect
  · intro key redirect' hredirect'
    rw [count_find, Option.map_eq_some_iff] at hredirect'
    obtain ⟨before, hbefore, rfl⟩ := hredirect'
    rw [count_counted, raise_counted, List.count_append]
    refine counted_ofNat _ _ ?_
    by_cases hkey : key = name
    · subst hkey
      rw [raise_find_self hredirect] at hbefore
      obtain rfl := Option.some.inj hbefore
      rw [hcounted]
      exact hzero
    · rw [raise_find_of_ne hkey] at hbefore
      exact hs.count key before hbefore
  · intro key
    have hle := hs.writtenCounted key
    simp only [count_written, raise_written, count_counted, raise_counted, List.count_append]
    omega
  · intro key
    have hle := hs.countedWritten key
    simp only [count_written, raise_written, count_counted, raise_counted, List.count_append,
      List.count_singleton]
    by_cases hkey : name = key
    · subst hkey
      simp only [beq_self_eq_true, if_true]
      omega
    · simp only [beq_iff_eq, hkey, if_false]
      omega

/-! ### Runs -/

/-- No reference to a version above the target finds a count that has wrapped around: a
positive multiple of 2^32 redirections behind a count of 0. -/
def NotWrapped (s : State) : Act → Prop
  | .ofAssemblyRef assemblyRef _ => ∀ name version redirect,
      assemblyRef.props = some (name, version) → s.redirects.find name = some redirect →
      redirect.toAssemblyMetadata < version → s.counted.count name % 2 ^ 32 = 0 →
      s.counted.count name = 0
  | .ofCustomAttribute .. => True

/-- The targets that were written are still those of the map. -/
def KeepsWritten (s t : State) : Prop :=
  ∀ w ∈ s.written, ∀ redirect, s.redirects.find w.assemblyName = some redirect →
    ∃ redirect', t.redirects.find w.assemblyName = some redirect' ∧
      redirect'.toAssemblyMetadata = redirect.toAssemblyMetadata

theorem counted_eq_zero (hs : Consistent s) {assemblyRef : AssemblyRef} {hr : EmitResult}
    {name : WString} {version : AssemblyMetadata} (hprops : assemblyRef.props = some (name, version))
    (h : Raises s name version t) (hwrap : NotWrapped s (.ofAssemblyRef assemblyRef hr)) :
    s.counted.count name = 0 := by
  obtain ⟨redirect, hfind, hzero, hlt, -⟩ := h
  refine hwrap name version redirect hprops hfind hlt ?_
  have hcount := congrArg BitVec.toNat ((hs.count name redirect hfind).symm.trans hzero)
  simpa using hcount

theorem Consistent.step (hs : Consistent s) {a : Act} (hwrap : NotWrapped s a) :
    Consistent (step toWSTRING s a) := by
  rcases step_cases toWSTRING s a with h | ⟨_, _, name, version, rfl, hprops, h⟩
  · exact hs.of_writes h
  · exact hs.of_raises h (counted_eq_zero hs hprops h hwrap)

theorem consistent_inductive (toWSTRING : List Byte → WString) :
    System.Inductive ((system toWSTRING).restrict NotWrapped) Consistent where
  init _ h := consistent_of_init h
  step s a t hs h := by
    obtain ⟨hstep, hwrap⟩ := h
    obtain rfl := Option.some.inj hstep
    exact hs.step hwrap

theorem redirectAssemblyRef_raises {assemblyRef : AssemblyRef} {name : WString}
    {version : AssemblyMetadata} {redirect : AssemblyVersionRedirection}
    (hprops : assemblyRef.props = some (name, version))
    (hfind : s.redirects.find name = some redirect) (hlt : redirect.toAssemblyMetadata < version)
    (hzero : redirect.ulRedirectionCount = 0) (hr : EmitResult) :
    Raises s name version (redirectAssemblyRef s assemblyRef hr) := by
  have hneg := AssemblyVersionRedirection.compareToAssemblyVersion_neg.mpr hlt
  refine ⟨redirect, hfind, hzero, hlt, ?_⟩
  simp only [redirectAssemblyRef, hprops, hfind]
  rw [if_neg (by omega), if_neg (by omega), if_pos hzero]

theorem redirectAssemblyRef_writes {assemblyRef : AssemblyRef} {name : WString}
    {version : AssemblyMetadata} {redirect : AssemblyVersionRedirection}
    (hprops : assemblyRef.props = some (name, version))
    (hfind : s.redirects.find name = some redirect) (hlt : version < redirect.toAssemblyMetadata) :
    redirectAssemblyRef s assemblyRef .ok
      = (s.write [⟨name, redirect.toAssemblyMetadata, some version⟩]).count name := by
  have hpos := AssemblyVersionRedirection.compareToAssemblyVersion_pos.mpr hlt
  simp only [redirectAssemblyRef, hprops, hfind]
  rw [if_pos hpos]

/-- A step changes no target that was written exactly when no count has wrapped around
under it. -/
theorem keepsWritten_iff (hs : Consistent s) (a : Act) :
    KeepsWritten s (step toWSTRING s a) ↔ NotWrapped s a := by
  constructor
  · intro hkeeps
    cases a with
    | ofCustomAttribute => trivial
    | ofAssemblyRef assemblyRef hr =>
        intro name version redirect hprops hfind hlt hmod
        by_contra hne
        -- All but one of the redirections counted were written.
        have hwritten : 0 < (s.written.map Written.assemblyName).count name := by
          have hle := hs.countedWritten name
          omega
        obtain ⟨w, hw, rfl⟩ := List.mem_map.mp (List.count_pos_iff.mp hwritten)
        have hzero : redirect.ulRedirectionCount = 0 := by
          rw [hs.count _ _ hfind]
          apply BitVec.eq_of_toNat_eq
          simpa using hmod
        have hraises := redirectAssemblyRef_raises hprops hfind hlt hzero hr
        obtain ⟨raised, hraised, rfl⟩ := find_of_raises_self hraises
        obtain ⟨kept, hkept, hsame⟩ := hkeeps w hw redirect hfind
        obtain rfl := Option.some.inj (hraised.symm.trans hkept)
        exact absurd hsame hlt.ne'
  · intro hwrap w hw redirect hfind
    rcases step_cases toWSTRING s a with h | ⟨_, _, name, version, rfl, hprops, h⟩
    · obtain ⟨n, hn⟩ := find_of_writes h hfind
      exact ⟨_, hn, rfl⟩
    · have hne := hs.ne_of_mem_written (counted_eq_zero hs hprops h hwrap) hw
      obtain ⟨n, hn⟩ := find_of_raises_of_ne h hne hfind
      exact ⟨_, hn, rfl⟩

/-- Along a run a target only rises, and not once it was written. -/
theorem run_find {l : List Act} (hrun : ((system toWSTRING).restrict NotWrapped).Run s l t)
    (hs : Consistent s) {name : WString} {redirect : AssemblyVersionRedirection}
    (hfind : s.redirects.find name = some redirect) :
    ∃ redirect', t.redirects.find name = some redirect' ∧
      redirect.toAssemblyMetadata ≤ redirect'.toAssemblyMetadata ∧
      ((∃ w ∈ s.written, w.assemblyName = name) →
        redirect'.toAssemblyMetadata = redirect.toAssemblyMetadata) := by
  induction hrun generalizing redirect with
  | nil => exact ⟨redirect, hfind, le_refl _, fun _ => rfl⟩
  | @cons s u t a l hstep hrun ih =>
      obtain ⟨hstep, hwrap⟩ := hstep
      obtain rfl := Option.some.inj hstep
      obtain ⟨next, hnext, hle, -⟩ := step_find toWSTRING a hfind
      obtain ⟨last, hlast, hle', hsame⟩ := ih (hs.step hwrap) hnext
      refine ⟨last, hlast, hle.trans hle', ?_⟩
      rintro ⟨w, hw, rfl⟩
      obtain ⟨kept, hkept, hversion⟩ := (keepsWritten_iff hs a).mpr hwrap w hw redirect hfind
      obtain rfl := Option.some.inj (hkept.symm.trans hnext)
      rw [hsame ⟨w, ?_, rfl⟩, hversion]
      rcases step_cases toWSTRING s a with
        ⟨ws, names, -, -, h⟩ | ⟨_, _, _, _, -, -, -, -, -, -, h⟩
      · rw [h]
        simp [hw]
      · rw [h]
        simp [hw]

theorem step_failed_assemblyRef {assemblyRef : AssemblyRef} {name : WString}
    {version : AssemblyMetadata} {redirect : AssemblyVersionRedirection}
    (hprops : assemblyRef.props = some (name, version))
    (hfind : s.redirects.find name = some redirect) (hlt : version < redirect.toAssemblyMetadata) :
    step toWSTRING s (.ofAssemblyRef assemblyRef .failed) = s := by
  have hpos := AssemblyVersionRedirection.compareToAssemblyVersion_pos.mpr hlt
  simp only [step, redirectAssemblyRef, hprops, hfind]
  rw [if_pos hpos]

theorem step_failed_customAttribute (customAttribute : CustomAttribute) :
    step toWSTRING s (.ofCustomAttribute customAttribute .failed) = s := by
  simp only [step, updateAttribute]
  cases applicableBlob customAttribute with
  | none => rfl
  | some blob =>
      cases h : tryRewriteUnsafeAccessorTypeAttributeBlob toWSTRING s.redirects blob with
      | none => simp only [h]
      | some rewritten => simp only [h]

/-- A module that is loaded is a run of such steps. -/
theorem loadModule_run (toWSTRING : List Byte → WString) (s : State)
    (refs : List (AssemblyRef × EmitResult)) (attributes : List (CustomAttribute × EmitResult)) :
    ∃ l, (system toWSTRING).Run s l (loadModule toWSTRING s refs attributes) := by
  have hrefs : ∀ s, ∃ l, (system toWSTRING).Run s l (redirectAssemblyReferences s refs) := by
    intro s
    induction refs generalizing s with
    | nil => exact ⟨[], .nil s⟩
    | cons ref refs ih =>
        obtain ⟨l, hl⟩ := ih (redirectAssemblyRef s ref.1 ref.2)
        exact ⟨.ofAssemblyRef ref.1 ref.2 :: l, .cons rfl hl⟩
  have hattributes : ∀ s, ∃ l, (system toWSTRING).Run s l (attributes.foldl (fun s c =>
      updateAttribute toWSTRING s c.1 c.2) s) := by
    intro s
    induction attributes generalizing s with
    | nil => exact ⟨[], .nil s⟩
    | cons c attributes ih =>
        obtain ⟨l, hl⟩ := ih (updateAttribute toWSTRING s c.1 c.2)
        exact ⟨.ofCustomAttribute c.1 c.2 :: l, .cons rfl hl⟩
  obtain ⟨l, hl⟩ := hrefs s
  rw [loadModule, updateUnsafeAccessorTypeAttributes]
  split_ifs
  · exact ⟨l, hl⟩
  · obtain ⟨m, hm⟩ := hattributes (redirectAssemblyReferences s refs)
    exact ⟨l ++ m, hl.append hm⟩

/-- **Redirection is consistent until a count wraps around.** In every run in which no
higher version is asked for under a count that has wrapped around: all versions written
for a name are its target and above the versions they replaced, no target is ever lowered,
nor changed when its count is not 0 or it was written, and an emit that fails changes
nothing. A step that finds a wrapped count changes a target that was written. -/
theorem redirection_sound (toWSTRING : List Byte → WString) {s : State}
    (hs : ((system toWSTRING).restrict NotWrapped).Reachable s) :
    (∀ w ∈ s.written, ∀ w' ∈ s.written, w.assemblyName = w'.assemblyName →
      w.version = w'.version) ∧
    (∀ w ∈ s.written, (∀ v ∈ w.original, v < w.version) ∧ w.assemblyName ∈ s.counted ∧
      ∃ redirect, s.redirects.find w.assemblyName = some redirect ∧
        redirect.toAssemblyMetadata = w.version) ∧
    (∀ name redirect, s.redirects.find name = some redirect →
      redirect.ulRedirectionCount = .ofNat 32 (s.counted.count name)) ∧
    (∀ a t, (system toWSTRING).step s a t →
      (∀ name redirect, s.redirects.find name = some redirect →
        ∃ redirect', t.redirects.find name = some redirect' ∧
          redirect.toAssemblyMetadata ≤ redirect'.toAssemblyMetadata ∧
          (redirect.ulRedirectionCount ≠ 0 →
            redirect'.toAssemblyMetadata = redirect.toAssemblyMetadata)) ∧
      (KeepsWritten s t ↔ NotWrapped s a)) ∧
    (∀ l t, ((system toWSTRING).restrict NotWrapped).Run s l t →
      ∀ name redirect, s.redirects.find name = some redirect →
        ∃ redirect', t.redirects.find name = some redirect' ∧
          redirect.toAssemblyMetadata ≤ redirect'.toAssemblyMetadata ∧
          ((∃ w ∈ s.written, w.assemblyName = name) →
            redirect'.toAssemblyMetadata = redirect.toAssemblyMetadata)) ∧
    (∀ customAttribute, step toWSTRING s (.ofCustomAttribute customAttribute .failed) = s) ∧
    (∀ (assemblyRef : AssemblyRef) (name : WString) (version : AssemblyMetadata)
      (redirect : AssemblyVersionRedirection),
      assemblyRef.props = some (name, version) → s.redirects.find name = some redirect →
      version < redirect.toAssemblyMetadata →
      step toWSTRING s (.ofAssemblyRef assemblyRef .failed) = s) := by
  have hconsistent := (consistent_inductive toWSTRING).reachable hs
  refine ⟨?_, ?_, hconsistent.count, ?_, ?_, step_failed_customAttribute, ?_⟩
  · intro w hw w' hw' hname
    obtain ⟨redirect, hfind, hversion, -⟩ := hconsistent.written w hw
    obtain ⟨redirect', hfind', hversion', -⟩ := hconsistent.written w' hw'
    rw [hname, hfind'] at hfind
    obtain rfl := Option.some.inj hfind
    rw [hversion, hversion']
  · intro w hw
    obtain ⟨redirect, hfind, hversion, horiginal⟩ := hconsistent.written w hw
    refine ⟨horiginal, ?_, redirect, hfind, hversion.symm⟩
    have hpos : 0 < (s.written.map Written.assemblyName).count w.assemblyName :=
      List.count_pos_iff.mpr (List.mem_map_of_mem hw)
    exact List.count_pos_iff.mp (hpos.trans_le (hconsistent.writtenCounted w.assemblyName))
  · intro a t hstep
    obtain rfl := Option.some.inj hstep
    exact ⟨fun name redirect hfind => step_find toWSTRING a hfind, keepsWritten_iff hconsistent a⟩
  · intro l t hrun name redirect hfind
    exact run_find hrun hconsistent hfind
  · intro assemblyRef name version redirect hprops hfind hlt
    exact step_failed_assemblyRef hprops hfind hlt

/-! ### A run of one name -/

section OneName

/-- The widening of ASCII texts. -/
def widen (text : List Byte) : WString := text.map (·.setWidth 16)

/-- The map with the target 2.0.0.0 for `A`, redirected `n` times from 1.0.0.0. -/
def usedState (n : ℕ) : State where
  redirects := ⟨[([0x41], ⟨⟨2, 0, 0, 0⟩, .ofNat 32 n⟩)], by simp⟩
  written := List.replicate n ⟨[0x41], ⟨2, 0, 0, 0⟩, some ⟨1, 0, 0, 0⟩⟩
  counted := List.replicate n [0x41]

/-- An AssemblyRef to a version of `A`. -/
def refA (major : BitVec 16) : AssemblyRef := ⟨some ([0x41], ⟨major, 0, 0, 0⟩)⟩

def writtenA (major : BitVec 16) : Written := ⟨[0x41], ⟨major, 0, 0, 0⟩, some ⟨1, 0, 0, 0⟩⟩

theorem usedState_find (n : ℕ) : (usedState n).redirects.find [0x41]
    = some ⟨⟨2, 0, 0, 0⟩, .ofNat 32 n⟩ := rfl

theorem usedState_step (n : ℕ) :
    redirectAssemblyRef (usedState n) (refA 1) .ok = usedState (n + 1) := by
  have hlt : (⟨1, 0, 0, 0⟩ : AssemblyMetadata) < ⟨2, 0, 0, 0⟩ := by decide
  have hwrites : redirectAssemblyRef (usedState n) (refA 1) .ok
      = ((usedState n).write [writtenA 2]).count [0x41] :=
    redirectAssemblyRef_writes rfl (usedState_find n) hlt
  rw [hwrites]
  simp [usedState, writtenA, State.write, State.count, AssemblyRedirects.modify,
    List.replicate_succ', BitVec.ofNat_add]

theorem usedState_run (m n : ℕ) :
    (system widen).Run (usedState m) (List.replicate n (.ofAssemblyRef (refA 1) .ok))
      (usedState (m + n)) := by
  induction n generalizing m with
  | zero => exact .nil _
  | succ n ih =>
      rw [List.replicate_succ, ← Nat.add_assoc, Nat.add_right_comm]
      exact .cons (congrArg some (usedState_step m)) (ih (m + 1))

theorem usedState_init : Init (usedState 0) := by
  refine ⟨rfl, rfl, ?_⟩
  intro name redirect hfind
  simp [usedState, AssemblyRedirects.find] at hfind
  obtain ⟨-, rfl⟩ := hfind
  rfl

/-- A reference to 3.0.0.0 under a count that looks like 0, and then one to 1.0.0.0. -/
theorem usedState_raised {n : ℕ} (hn : BitVec.ofNat 32 n = 0) :
    ∃ t, (system widen).Run (usedState n)
        [.ofAssemblyRef (refA 3) .ok, .ofAssemblyRef (refA 1) .ok] t ∧
      t.written = List.replicate n (writtenA 2) ++ [writtenA 3] := by
  have habove : (⟨2, 0, 0, 0⟩ : AssemblyMetadata) < ⟨3, 0, 0, 0⟩ := by decide
  have hraises : Raises (usedState n) [0x41] ⟨3, 0, 0, 0⟩
      (redirectAssemblyRef (usedState n) (refA 3) .ok) :=
    redirectAssemblyRef_raises rfl (usedState_find n) habove hn .ok
  obtain ⟨redirect, -, -, -, hraised⟩ := hraises
  have hfind : (((usedState n).raise [0x41] ⟨3, 0, 0, 0⟩).count [0x41]).redirects.find [0x41]
      = some ⟨⟨3, 0, 0, 0⟩, .ofNat 32 n + 1⟩ := by
    rw [count_find, raise_find_self (usedState_find _)]
    rfl
  have hlt : (⟨1, 0, 0, 0⟩ : AssemblyMetadata) < ⟨3, 0, 0, 0⟩ := by decide
  have hwrites : redirectAssemblyRef _ (refA 1) .ok = _ :=
    redirectAssemblyRef_writes rfl hfind hlt
  rw [← hraised] at hwrites
  exact ⟨_, .cons rfl (.cons (congrArg some hwrites) (.nil _)), by rw [hraised]; rfl⟩

theorem usedState_reachable :
    ((system widen).restrict NotWrapped).Reachable (usedState 1) := by
  refine ⟨usedState 0, [.ofAssemblyRef (refA 1) .ok], usedState_init, .cons ⟨?_, ?_⟩ (.nil _)⟩
  · exact congrArg some (usedState_step 0)
  · intro name version redirect _ _ _ _
    rfl

theorem redirection_sound_one_ref :
    (∀ v ∈ (writtenA 2).original, v < (writtenA 2).version) ∧
      (writtenA 2).assemblyName ∈ (usedState 1).counted ∧
      ∃ redirect, (usedState 1).redirects.find (writtenA 2).assemblyName = some redirect ∧
        redirect.toAssemblyMetadata = (writtenA 2).version :=
  (redirection_sound widen usedState_reachable).2.1 (writtenA 2) (List.mem_singleton_self _)

/-- After 2^32 redirections of `A` to 2.0.0.0 a reference to 3.0.0.0 raises the target, and
the next redirection writes another version. -/
theorem redirection_count_wraps : Init (usedState 0) ∧ ∃ s,
    (system widen).Run (usedState 0)
      (List.replicate (2 ^ 32) (.ofAssemblyRef (refA 1) .ok) ++
        [.ofAssemblyRef (refA 3) .ok, .ofAssemblyRef (refA 1) .ok]) s ∧
    ∃ w ∈ s.written, ∃ w' ∈ s.written, w.assemblyName = w'.assemblyName ∧
      w.version ≠ w'.version := by
  have hrun := usedState_run 0 (2 ^ 32)
  rw [Nat.zero_add] at hrun
  obtain ⟨t, ht, hwritten⟩ := usedState_raised (n := 2 ^ 32) (by decide)
  refine ⟨usedState_init, t, hrun.append ht, writtenA 2, ?_, writtenA 3, ?_, rfl, by decide⟩
  · rw [hwritten]
    exact List.mem_append_left _ (List.mem_replicate.mpr ⟨by decide, rfl⟩)
  · rw [hwritten]
    exact List.mem_append_right _ (List.mem_singleton_self _)

end OneName

end AutoInstrumentation.Redirection
