import AutoInstrumentation.AssemblyBinding.UpdateSound

/-!
# AutoInstrumentation.AssemblyBinding.UpdateTwice

A configuration that is updated twice.

A second update finds what the first has written, and writes it again: the configuration has
the same entries. Where the policy is kept, the update adds locations only; but it compares
the versions of locations as texts, and so adds a second one for a version that is not written
as the runtime writes it.
-/

namespace AutoInstrumentation.AssemblyBinding

open AutoInstrumentation.Lib
open AutoInstrumentation.Cel (WChar WString code Unicode asciiUnicode isAsciiDigit)

variable {host : Host} {disallowBindingRedirects : Bool} {a : AssemblyInfo}

/-! ### The setup -/

theorem resolveApplicationBase_again (unicode : Unicode) (creator : Option WString)
    (setup : AppDomainSetup) :
    resolveApplicationBase unicode creator (resolveApplicationBase unicode creator setup).1
      = resolveApplicationBase unicode creator setup := by
  by_cases hbase : isNullOrWhiteSpace unicode setup.applicationBase = true
  · by_cases hcreator : isNullOrWhiteSpace unicode creator = true
    · simp [resolveApplicationBase, hbase, hcreator]
    · simp [resolveApplicationBase, hbase, hcreator]
  · simp [resolveApplicationBase, hbase]

theorem resolveApplicationBase_disallow (unicode : Unicode) (creator : Option WString)
    (setup : AppDomainSetup) :
    (resolveApplicationBase unicode creator setup).1.disallowApplicationBaseProbing
      = setup.disallowApplicationBaseProbing := by
  unfold resolveApplicationBase
  split
  · split
    · rfl
    · rfl
  · rfl

/-- The setup that is left behind has the same probe directories. -/
theorem getProbeDirectories_again {paths : Paths} {unicode : Unicode} {creator : Option WString}
    {probing : List (Option WString)} {setup setup' : AppDomainSetup}
    {directories : List WString}
    (h : getProbeDirectories paths unicode creator probing setup = some (directories, setup')) :
    getProbeDirectories paths unicode creator probing setup' = some (directories, setup') := by
  by_cases hdisallow : setup.disallowApplicationBaseProbing = true
  · have heq := h
    rw [getProbeDirectories, if_pos hdisallow] at heq
    cases heq
    exact h
  · have hsetup : setup' = (resolveApplicationBase unicode creator setup).1 := by
      rw [getProbeDirectories, if_neg hdisallow] at h
      dsimp only at h
      split at h
      · exact (congrArg Prod.snd (Option.some.inj h)).symm
      · obtain ⟨_, -, h⟩ := Option.bind_eq_some_iff.mp h
        obtain ⟨_, -, h⟩ := Option.bind_eq_some_iff.mp h
        obtain ⟨_, -, h⟩ := Option.bind_eq_some_iff.mp h
        obtain ⟨_, -, h⟩ := Option.bind_eq_some_iff.mp h
        exact (congrArg Prod.snd (Option.some.inj h)).symm
    have hdisallow' : ¬setup'.disallowApplicationBaseProbing = true := by
      rw [hsetup, resolveApplicationBase_disallow]
      exact hdisallow
    rw [getProbeDirectories, if_neg hdisallow] at h
    rw [getProbeDirectories, if_neg hdisallow', hsetup, resolveApplicationBase_again]
    rw [hsetup] at h
    exact h

/-! ### The whole update -/

/-- The directories that are probed. -/
def probeDirectoriesOf (host : Host) (setup : AppDomainSetup) (assemblyBinding : List XNode) :
    List WString :=
  ((getProbeDirectories host.paths host.unicode host.creatorApplicationBase
    (probingPaths assemblyBinding) setup).map Prod.fst).getD []

/-- What is probed for an assembly. -/
def probedFor (host : Host) (setup : AppDomainSetup) (assemblyBinding : List XNode)
    (a : AssemblyInfo) : Option AssemblyCandidate :=
  (tryResolveProbingCandidate host (probeDirectoriesOf host setup assemblyBinding) a).join

/-- `codeBase` elements are added to the first of the entries, or to a new one. -/
def OnlyAddsCodeBases (a : AssemblyInfo) (entries updated : List XNode) : Prop :=
  ∃ added, AreCodeBases added ∧ updated = addToEntries a added entries

/-- No version has a second location that had one at most. -/
def KeepsUnique (host : Host) (entries updated : List XNode) : Prop :=
  ∀ v, codeBaseCount host v (elementsOf .codeBase entries) ≤ 1 →
    codeBaseCount host v (elementsOf .codeBase updated) ≤ 1

section

variable {setup setup' : AppDomainSetup} {catalog : AssemblyCatalog host.paths}
  {assemblyBinding updated : List XNode}

/-- An update that goes through, by the entries of each assembly. -/
structure UpdatesEntries (host : Host) (disallowBindingRedirects : Bool)
    (catalog : AssemblyCatalog host.paths) (setup : AppDomainSetup)
    (assemblyBinding updated : List XNode) : Prop where
  entries : ∀ a ∈ catalog.assemblies,
    updateEntries host disallowBindingRedirects (probeDirectoriesOf host setup assemblyBinding) a
      (entriesOf host a assemblyBinding) = some (entriesOf host a updated)
  others : ∀ p, (∀ a ∈ catalog.assemblies, Apart (matchesAssembly host a) p) →
    updated.filter p = assemblyBinding.filter p

theorem areEntries_entriesOf (host : Host) (a : AssemblyInfo) (assemblyBinding : List XNode) :
    AreEntries (entriesOf host a assemblyBinding) :=
  fun _ hx => matchesAssembly_isElement (List.mem_filter.mp hx).2

theorem apart_probing (host : Host) (a : AssemblyInfo) :
    Apart (matchesAssembly host a) (·.isElement .probing) := by
  intro x hx
  have hentry := matchesAssembly_isElement hx
  cases x with
  | element n attributes nodes =>
      rw [XNode.isElement, beq_iff_eq] at hentry
      subst hentry
      rfl
  | other text => rfl

/-- **The update** is one of the entries of each assembly; nothing else changes. -/
theorem modifyAssemblyBinding_spec
    (h : modifyAssemblyBinding host disallowBindingRedirects catalog setup assemblyBinding
      = some (updated, setup')) :
    UpdatesEntries host disallowBindingRedirects catalog setup assemblyBinding updated := by
  obtain ⟨⟨directories, probed⟩, hdirectories, h⟩ := Option.bind_eq_some_iff.mp h
  obtain ⟨nodes, hrun, h⟩ := Option.bind_eq_some_iff.mp h
  cases h
  have hprobe : probeDirectoriesOf host setup assemblyBinding = directories := by
    rw [probeDirectoriesOf, hdirectories]
    rfl
  obtain ⟨hentries, hothers⟩ := modifyAssembly_classwise.run catalog.separate hrun
  exact ⟨fun a ha => hprobe ▸ hentries a ha, hothers⟩

/-- **The second update** changes nothing but the order of the entries. -/
theorem modifyAssemblyBinding_again
    (h : modifyAssemblyBinding host disallowBindingRedirects catalog setup assemblyBinding
      = some (updated, setup')) {s : AppDomainSetup} (hs : s = setup ∨ s = setup') :
    ∃ again, modifyAssemblyBinding host disallowBindingRedirects catalog s updated
        = some (again, setup') ∧ again.Perm updated := by
  have hprobing : probingPaths updated = probingPaths assemblyBinding := by
    rw [probingPaths, (modifyAssemblyBinding_spec h).others _ fun a _ => apart_probing host a,
      probingPaths]
  obtain ⟨⟨directories, probed⟩, hdirectories, h⟩ := Option.bind_eq_some_iff.mp h
  obtain ⟨nodes, hrun, h⟩ := Option.bind_eq_some_iff.mp h
  cases h
  have hagain : getProbeDirectories host.paths host.unicode host.creatorApplicationBase
      (probingPaths updated) s = some (directories, setup') := by
    rw [hprobing]
    rcases hs with rfl | rfl
    · exact hdirectories
    · exact getProbeDirectories_again hdirectories
  have hkept (a : AssemblyInfo) (_ : a ∈ catalog.assemblies) (entries updated : List XNode)
      (hentries : ∀ x ∈ entries, matchesAssembly host a x = true)
      (hupdate : updateEntries host disallowBindingRedirects directories a entries
        = some updated) :
      updateEntries host disallowBindingRedirects directories a updated = some updated :=
    updateEntries_again (fun x hx => matchesAssembly_isElement (hentries x hx)) hupdate
  obtain ⟨again, hrun', hperm⟩ := modifyAssembly_classwise.run_again catalog.separate hkept hrun
  refine ⟨again, ?_, hperm⟩
  rw [modifyAssemblyBinding, hagain]
  exact Option.bind_eq_some_iff.mpr ⟨_, rfl, Option.bind_eq_some_iff.mpr ⟨_, hrun', rfl⟩⟩

/-- The entries of an assembly whose policy is kept. -/
theorem UpdatesEntries.keeps
    (h : UpdatesEntries host disallowBindingRedirects catalog setup assemblyBinding updated)
    (ha : a ∈ catalog.assemblies)
    (hkeeps : keepsPolicy host disallowBindingRedirects
      (elementsOf .bindingRedirect (entriesOf host a assemblyBinding))) :
    OnlyAddsCodeBases a (entriesOf host a assemblyBinding) (entriesOf host a updated)
      ∧ (KeepsUnique host (entriesOf host a assemblyBinding) (entriesOf host a updated)
        ↔ WritesVersions host (probedFor host setup assemblyBinding a) a
          (entriesOf host a assemblyBinding)) := by
  have hupdate := h.entries a ha
  obtain ⟨uri, probed, hfound⟩ := updateEntries_found hupdate
  have hprobed : probedFor host setup assemblyBinding a = probed := by
    rw [probedFor, hfound.probed]
    rfl
  rw [updateEntries_keeps hfound hkeeps] at hupdate
  rw [hprobed, ← Option.some.inj hupdate]
  exact ⟨⟨_, areCodeBases_missing _ _, rfl⟩,
    codeBaseCount_addToEntries_iff hfound (areEntries_entriesOf host a assemblyBinding)⟩

/-- Updating once is enough. Where the policy is kept, locations are added only, and none of
them twice. -/
structure StableUpdate (host : Host) (disallowBindingRedirects : Bool)
    (catalog : AssemblyCatalog host.paths) (setup setup' : AppDomainSetup)
    (assemblyBinding updated : List XNode) : Prop where
  again : ∀ s, s = setup ∨ s = setup' → ∃ again,
    modifyAssemblyBinding host disallowBindingRedirects catalog s updated = some (again, setup')
      ∧ again.Perm updated
  others : ∀ p, (∀ a ∈ catalog.assemblies, Apart (matchesAssembly host a) p) →
    updated.filter p = assemblyBinding.filter p
  onlyAdds : ∀ a ∈ catalog.assemblies,
    keepsPolicy host disallowBindingRedirects
        (elementsOf .bindingRedirect (entriesOf host a assemblyBinding)) →
      OnlyAddsCodeBases a (entriesOf host a assemblyBinding) (entriesOf host a updated)
  keepsUnique : ∀ a ∈ catalog.assemblies,
    keepsPolicy host disallowBindingRedirects
        (elementsOf .bindingRedirect (entriesOf host a assemblyBinding)) →
      KeepsUnique host (entriesOf host a assemblyBinding) (entriesOf host a updated)

/-- **An update is stable** if and only if, for each assembly whose policy is kept, a version
that has one `codeBase` element and a known location is written as the runtime writes it. -/
theorem modifyAssemblyBinding_stable_iff
    (h : modifyAssemblyBinding host disallowBindingRedirects catalog setup assemblyBinding
      = some (updated, setup')) :
    StableUpdate host disallowBindingRedirects catalog setup setup' assemblyBinding updated
      ↔ ∀ a ∈ catalog.assemblies,
        keepsPolicy host disallowBindingRedirects
            (elementsOf .bindingRedirect (entriesOf host a assemblyBinding)) →
          WritesVersions host (probedFor host setup assemblyBinding a) a
            (entriesOf host a assemblyBinding) := by
  have hspec := modifyAssemblyBinding_spec h
  constructor
  · intro hstable a ha hkeeps
    exact (hspec.keeps ha hkeeps).2.mp (hstable.keepsUnique a ha hkeeps)
  · intro hwrites
    exact ⟨fun s hs => modifyAssemblyBinding_again h hs, hspec.others,
      fun a ha hkeeps => (hspec.keeps ha hkeeps).1,
      fun a ha hkeeps => (hspec.keeps ha hkeeps).2.mpr (hwrites a ha hkeeps)⟩

end

/-! ### A library on a drive -/

/-- `file:///`. -/
def fileScheme : WString :=
  [code 'f', code 'i', code 'l', code 'e', code ':', code '/', code '/', code '/']

/-- The URI of a file. -/
def fileUri (path : WString) : WString :=
  fileScheme ++ path.map fun c => if c = code '\\' then code '/' else c

theorem fileUri_nonblank {path uri : WString} (h : some (fileUri path) = some uri) :
    isNullOrWhiteSpace asciiUnicode (some uri) = false := by
  obtain rfl := Option.some.inj h
  rfl

theorem asciiUpper_version_iff {c d : WChar} (hd : isAsciiDigit d = true ∨ d = code '.') :
    asciiUpper c = d ↔ c = d := by
  refine asciiUpper_eq_iff ?_
  rcases hd with hdigit | rfl
  · have hrange : code '0' ≤ d ∧ d ≤ code '9' := by simpa [isAsciiDigit] using hdigit
    rw [show code '0' = 0x30 from rfl, show code '9' = 0x39 from rfl] at hrange
    rw [show code 'a' = 0x61 from rfl, show code 'z' = 0x7A from rfl,
      show code 'A' = 0x41 from rfl, show code 'Z' = 0x5A from rfl]
    bv_omega
  · decide

/-- A drive without other files. -/
def driveHost : Host where
  paths := drive
  unicode := asciiUnicode
  creatorApplicationBase := none
  fileExists _ := false
  getAssemblyName _ := none
  readFileVersion _ := none
  absoluteUri path := some (fileUri path)
  absoluteUri_nonblank := fileUri_nonblank
  upper_eq_iff := asciiUpper_version_iff

/-- `4.0.0.0`. -/
def versionFour : Version := ⟨[4, 0, 0, 0], by decide⟩

/-- The version of a library. -/
def libraryInfo : AssemblyInfo where
  token := [code 't']
  version := versionFour
  fileVersion := none
  name := [code 'L']
  path := driveBase

def libraryCatalog : AssemblyCatalog drive where
  assemblies := [libraryInfo]
  distinct := List.nodup_singleton _

/-- An entry of the library, with a location for a version. -/
def libraryEntry (version : WString) : XNode :=
  .element .dependentAssembly []
    [.element .assemblyIdentity [(.name, [code 'L']), (.publicKeyToken, [code 't'])] [],
      .element .codeBase [(.version, version), (.href, [code 'u'])] []]

/-- A version that is written as the runtime writes it keeps its location. -/
theorem modifyAssemblyBinding_stable_iff_library :
    StableUpdate driveHost true libraryCatalog (driveSetup []) (driveSetup [])
      [libraryEntry versionFour.toText] [libraryEntry versionFour.toText] := by
  have hupdate : modifyAssemblyBinding driveHost true libraryCatalog (driveSetup [])
      [libraryEntry versionFour.toText]
        = some ([libraryEntry versionFour.toText], driveSetup []) := by rfl
  refine (modifyAssemblyBinding_stable_iff hupdate).mpr ?_
  intro a ha _ x hx v hparsed _ _
  obtain rfl := List.mem_singleton.mp ha
  obtain rfl : x = .element .codeBase [(.version, versionFour.toText), (.href, [code 'u'])] [] :=
    List.mem_singleton.mp hx
  have hversion : tryParseVersion asciiUnicode (some versionFour.toText) = some v := hparsed
  rw [tryParseVersion_toText] at hversion
  obtain rfl := Option.some.inj hversion
  rfl

/-- `04.0.0.0`. -/
def paddedVersionFour : WString := code '0' :: versionFour.toText

/-- A version that is written with a zero in front gets a second location. -/
theorem modifyAssemblyBinding_not_stable :
    ∃ updated, modifyAssemblyBinding driveHost true libraryCatalog (driveSetup [])
        [libraryEntry paddedVersionFour] = some (updated, driveSetup [])
      ∧ ¬StableUpdate driveHost true libraryCatalog (driveSetup []) (driveSetup [])
        [libraryEntry paddedVersionFour] updated := by
  refine ⟨_, rfl, fun h => ?_⟩
  have hunique := h.keepsUnique libraryInfo List.mem_cons_self (.inl rfl) versionFour
  exact absurd (hunique (by decide)) (by decide)

end AutoInstrumentation.AssemblyBinding
