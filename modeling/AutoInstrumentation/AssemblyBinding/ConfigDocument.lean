import AutoInstrumentation.AssemblyBinding.Policy

/-!
# AutoInstrumentation.AssemblyBinding.ConfigDocument

The update of a whole configuration.

A configuration can have several sections with binding policy. The update reads and writes the
first one, and keeps the others as they are.
-/

namespace AutoInstrumentation.AssemblyBinding

open AutoInstrumentation.Lib
open AutoInstrumentation.Cel (WChar WString code Unicode asciiUnicode isAsciiDigit)

/-! ### The first element -/

/-- The nodes in the first element with a name. -/
def firstNodes (n : XName) (xs : List XNode) : List XNode :=
  ((xs.find? (·.isElement n)).map (·.nodes)).getD []

/-- The nodes in the later elements with a name. -/
def laterNodes (n : XName) (xs : List XNode) : List XNode :=
  (xs.filter (·.isElement n)).tail.flatMap (·.nodes)

/-- The nodes in all elements with a name. -/
def allNodes (n : XName) (xs : List XNode) : List XNode :=
  (xs.filter (·.isElement n)).flatMap (·.nodes)

/-- Other nodes in the first element with a name, which is added where there is none. -/
def replaceFirst (n : XName) (nodes : List XNode) : List XNode → List XNode
  | [] => [.element n [] nodes]
  | x :: xs => if x.isElement n then x.withNodes nodes :: xs else x :: replaceFirst n nodes xs

variable {n : XName} {xs nodes : List XNode}

theorem firstNodes_cons_true {x : XNode} (h : x.isElement n = true) :
    firstNodes n (x :: xs) = x.nodes := by
  rw [firstNodes, List.find?_cons_of_pos h]
  rfl

theorem firstNodes_cons_false {x : XNode} (h : x.isElement n = false) :
    firstNodes n (x :: xs) = firstNodes n xs := by
  rw [firstNodes, List.find?_cons_of_neg (by rw [h]; exact Bool.false_ne_true), firstNodes]

theorem isElement_withNodes (x : XNode) : (x.withNodes nodes).isElement n = x.isElement n := by
  cases x with
  | element m attributes children => rfl
  | other text => rfl

theorem nodes_withNodes {x : XNode} (h : x.isElement n = true) :
    (x.withNodes nodes).nodes = nodes := by
  cases x with
  | element m attributes children => rfl
  | other text => cases h

theorem firstNodes_replaceFirst : firstNodes n (replaceFirst n nodes xs) = nodes := by
  induction xs with
  | nil => exact firstNodes_cons_true (beq_self_eq_true n)
  | cons x xs ih =>
      rw [replaceFirst]
      cases hx : x.isElement n with
      | true =>
          rw [if_pos rfl, firstNodes_cons_true ((isElement_withNodes x).trans hx),
            nodes_withNodes hx]
      | false => rw [if_neg Bool.false_ne_true, firstNodes_cons_false hx, ih]

theorem laterNodes_replaceFirst : laterNodes n (replaceFirst n nodes xs) = laterNodes n xs := by
  induction xs with
  | nil =>
      rw [laterNodes, replaceFirst, List.filter_singleton, XNode.isElement, beq_self_eq_true]
      rfl
  | cons x xs ih =>
      rw [replaceFirst]
      cases hx : x.isElement n with
      | true =>
          rw [if_pos rfl, laterNodes, laterNodes, List.filter_cons,
            if_pos ((isElement_withNodes x).trans hx), List.filter_cons, if_pos hx]
          rfl
      | false =>
          have hskip (ys : List XNode) : laterNodes n (x :: ys) = laterNodes n ys := by
            rw [laterNodes, List.filter_cons, hx, if_neg Bool.false_ne_true, laterNodes]
          rw [if_neg Bool.false_ne_true, hskip, hskip, ih]

theorem allNodes_eq (n : XName) (xs : List XNode) :
    allNodes n xs = firstNodes n xs ++ laterNodes n xs := by
  induction xs with
  | nil => rfl
  | cons x xs ih =>
      cases hx : x.isElement n with
      | true =>
          rw [firstNodes_cons_true hx, allNodes, laterNodes, List.filter_cons, if_pos hx]
          rfl
      | false =>
          rw [firstNodes_cons_false hx, allNodes, laterNodes, List.filter_cons, hx,
            if_neg Bool.false_ne_true]
          exact ih

theorem allNodes_append (n : XName) (xs ys : List XNode) :
    allNodes n (xs ++ ys) = allNodes n xs ++ allNodes n ys := by
  rw [allNodes, List.filter_append, List.flatMap_append, allNodes, allNodes]

section modify

variable {σ : Type} {f : List XNode → Option (List XNode × σ)}

theorem modifyFirst_eq (h : xs.any (·.isElement n) = true) :
    modifyFirst n f xs
      = (f (firstNodes n xs)).map fun r => (replaceFirst n r.1 xs, r.2) := by
  induction xs with
  | nil => cases h
  | cons x xs ih =>
      rw [modifyFirst]
      cases hx : x.isElement n with
      | true =>
          rw [if_pos rfl, firstNodes_cons_true hx]
          cases f x.nodes with
          | none => rfl
          | some r =>
              rw [Option.map_some, replaceFirst, if_pos hx]
              rfl
      | false =>
          rw [List.any_cons, hx, Bool.false_or] at h
          rw [if_neg Bool.false_ne_true, firstNodes_cons_false hx, ih h]
          cases f (firstNodes n xs) with
          | none => rfl
          | some r =>
              rw [Option.map_some, Option.map_some, replaceFirst, hx, if_neg Bool.false_ne_true]
              rfl

theorem modifyFirst_concat (h : xs.any (·.isElement n) = false) :
    modifyFirst n f (xs ++ [.element n [] []])
      = (f []).map fun r => (replaceFirst n r.1 xs, r.2) := by
  induction xs with
  | nil =>
      rw [List.nil_append, modifyFirst, XNode.isElement, beq_self_eq_true, if_pos rfl, XNode.nodes]
      cases f [] with
      | none => rfl
      | some r => rfl
  | cons x xs ih =>
      rw [List.any_cons, Bool.or_eq_false_iff] at h
      rw [List.cons_append, modifyFirst, h.1, if_neg Bool.false_ne_true, ih h.2]
      cases f [] with
      | none => rfl
      | some r =>
          rw [Option.map_some, Option.map_some, replaceFirst, h.1, if_neg Bool.false_ne_true]
          rfl

/-- An update of the first element updates its nodes. -/
theorem modifyFirstOrAdd_eq :
    modifyFirstOrAdd n f xs
      = (f (firstNodes n xs)).map fun r => (replaceFirst n r.1 xs, r.2) := by
  rw [modifyFirstOrAdd]
  cases h : xs.any (·.isElement n) with
  | true => rw [if_pos rfl, modifyFirst_eq h]
  | false =>
      have hnone : firstNodes n xs = [] := by
        rw [firstNodes, List.find?_eq_none.mpr (fun x hx => List.any_eq_false.mp h x hx)]
        rfl
      rw [if_neg Bool.false_ne_true, modifyFirst_concat h, hnone]

end modify

/-! ### Sections -/

/-- The section that is updated. -/
def policySection (document : List XNode) : List XNode :=
  firstNodes .assemblyBinding (firstNodes .runtime (firstNodes .configuration document))

/-- All sections with binding policy. -/
def allSections (document : List XNode) : List XNode :=
  allNodes .assemblyBinding (allNodes .runtime (allNodes .configuration document))

/-- The sections that are not updated. -/
def otherSections (document : List XNode) : List XNode :=
  laterNodes .assemblyBinding (firstNodes .runtime (firstNodes .configuration document))
    ++ (allNodes .assemblyBinding (laterNodes .runtime (firstNodes .configuration document))
      ++ allNodes .assemblyBinding (allNodes .runtime (laterNodes .configuration document)))

/-- Another first section. -/
def replaceSection (nodes document : List XNode) : List XNode :=
  replaceFirst .configuration
    (replaceFirst .runtime
      (replaceFirst .assemblyBinding nodes
        (firstNodes .runtime (firstNodes .configuration document)))
      (firstNodes .configuration document)) document

theorem allSections_eq (document : List XNode) :
    allSections document = policySection document ++ otherSections document := by
  rw [allSections, allNodes_eq .configuration, allNodes_append, allNodes_append,
    allNodes_eq .runtime (firstNodes .configuration document), allNodes_append,
    allNodes_eq .assemblyBinding (firstNodes .runtime _), policySection, otherSections]
  simp only [List.append_assoc]

theorem policySection_replaceSection (nodes document : List XNode) :
    policySection (replaceSection nodes document) = nodes := by
  rw [policySection, replaceSection, firstNodes_replaceFirst, firstNodes_replaceFirst,
    firstNodes_replaceFirst]

theorem otherSections_replaceSection (nodes document : List XNode) :
    otherSections (replaceSection nodes document) = otherSections document := by
  rw [otherSections, replaceSection, firstNodes_replaceFirst, firstNodes_replaceFirst,
    laterNodes_replaceFirst, laterNodes_replaceFirst, laterNodes_replaceFirst, otherSections]

variable {host : Host} {disallowBindingRedirects : Bool} {catalog : AssemblyCatalog host.paths}
  {setup setup' : AppDomainSetup} {document : List XNode}

/-- **The update** of a configuration is one of its first section. -/
theorem modifyAssemblyRedirectConfig_eq
    (h : document.any (·.isElement .configuration) = true) :
    modifyAssemblyRedirectConfig host disallowBindingRedirects catalog setup document
      = (modifyAssemblyBinding host disallowBindingRedirects catalog setup
          (policySection document)).map fun r => (replaceSection r.1 document, r.2) := by
  rw [modifyAssemblyRedirectConfig, modifyFirst_eq h, modifyFirstOrAdd_eq, modifyFirstOrAdd_eq,
    policySection]
  cases modifyAssemblyBinding host disallowBindingRedirects catalog setup
    (firstNodes .assemblyBinding (firstNodes .runtime (firstNodes .configuration document))) with
  | none => rfl
  | some r => rfl

/-! ### The policy after an update -/

/-- What an update makes of a configuration. -/
structure ReconciledDocument (host : Host) (catalog : AssemblyCatalog host.paths)
    (probeDirectories : List WString) (document updated : List XNode) : Prop where
  entries : ∀ a ∈ catalog.assemblies, ∀ probed,
    tryResolveProbingCandidate host probeDirectories a = some probed →
      Reconciled host probed a (entriesOf host a (policySection document))
        (entriesOf host a (policySection updated))
  others : ∀ p, (∀ a ∈ catalog.assemblies, Apart (matchesAssembly host a) p) →
    (allSections updated).filter p = (allSections document).filter p
  otherSections : otherSections updated = otherSections document
  elsewhere : updated = replaceSection (policySection updated) document

/-- What has to be found for an update. -/
structure Findable (host : Host) (catalog : AssemblyCatalog host.paths)
    (setup setup' : AppDomainSetup) (probeDirectories : List WString) (document : List XNode) :
    Prop where
  configuration : document.any (·.isElement .configuration) = true
  directories : getProbeDirectories host.paths host.unicode host.creatorApplicationBase
    (probingPaths (policySection document)) setup = some (probeDirectories, setup')
  found : ∀ a ∈ catalog.assemblies, ∃ uri probed, Found host a probeDirectories uri probed

section reconcile

variable {probeDirectories : List WString}

/-- The entries of an assembly can always be updated. -/
theorem updateEntries_isSome {a : AssemblyInfo}
    (h : ∃ uri probed, Found host a probeDirectories uri probed) (entries : List XNode) :
    (updateEntries host disallowBindingRedirects probeDirectories a entries).isSome = true := by
  obtain ⟨uri, probed, hfound⟩ := h
  by_cases hkeeps : keepsPolicy host disallowBindingRedirects
      (elementsOf .bindingRedirect entries)
  · rw [updateEntries_keeps hfound hkeeps]
    rfl
  · obtain ⟨c, -, hupdate⟩ := updateEntries_rewrites hfound hkeeps
    rw [hupdate]
    rfl

theorem modifyAssemblyRedirectConfig_of_run
    (h : Findable host catalog setup setup' probeDirectories document) {nodes : List XNode}
    (hrun : catalog.assemblies.foldlM
      (modifyAssembly host disallowBindingRedirects probeDirectories) (policySection document)
        = some nodes) :
    modifyAssemblyRedirectConfig host disallowBindingRedirects catalog setup document
      = some (replaceSection nodes document, setup') := by
  have hupdate : modifyAssemblyBinding host disallowBindingRedirects catalog setup
      (policySection document) = some (nodes, setup') := by
    rw [modifyAssemblyBinding, h.directories]
    exact Option.bind_eq_some_iff.mpr ⟨_, rfl, Option.bind_eq_some_iff.mpr ⟨_, hrun, rfl⟩⟩
  rw [modifyAssemblyRedirectConfig_eq h.configuration, hupdate]
  rfl

/-- **An update** of a configuration normalizes the policy of its first section, in any order of
the catalog; and a candidate is always selected. -/
theorem modifyAssemblyRedirectConfig_reconciled
    (h : Findable host catalog setup setup' probeDirectories document) :
    (∃ updated, modifyAssemblyRedirectConfig host false catalog setup document
          = some (updated, setup')
        ∧ ReconciledDocument host catalog probeDirectories document updated
        ∧ ∀ catalog' : AssemblyCatalog host.paths,
          catalog.assemblies.Perm catalog'.assemblies →
            ∃ updated', modifyAssemblyRedirectConfig host false catalog' setup document
                = some (updated', setup')
              ∧ updated' = replaceSection (policySection updated') document
              ∧ (policySection updated').Perm (policySection updated))
      ∧ ∀ a entries effective candidates,
        collectCandidates host a entries effective probeDirectories = some candidates →
          (selectCandidate candidates).isSome = true := by
  refine ⟨?_, fun a entries effective candidates hcandidates => ?_⟩
  · have hclasswise : Classwise (matchesAssembly host) (updateEntries host false probeDirectories)
        (modifyAssembly host false probeDirectories) := modifyAssembly_classwise
    obtain ⟨nodes, hrun⟩ := Option.isSome_iff_exists.mp
      (hclasswise.isSome_run catalog.separate (policySection document)
        fun a ha => updateEntries_isSome (h.found a ha) _)
    obtain ⟨hentries, hothers⟩ := hclasswise.run catalog.separate hrun
    refine ⟨replaceSection nodes document, modifyAssemblyRedirectConfig_of_run h hrun, ?_, ?_⟩
    · constructor
      · intro a ha probed hprobed
        obtain ⟨uri, found, hfound⟩ := h.found a ha
        obtain rfl : found = probed := by
          rw [hfound.probed] at hprobed
          exact Option.some.inj hprobed
        rw [policySection_replaceSection]
        exact updateEntries_reconciled hfound (areEntries_entriesOf host a _) (hentries a ha)
      · intro p hp
        rw [allSections_eq, allSections_eq, otherSections_replaceSection,
          policySection_replaceSection, List.filter_append, List.filter_append, hothers p hp]
      · exact otherSections_replaceSection nodes document
      · rw [policySection_replaceSection]
    · intro catalog' hperm
      obtain ⟨nodes', hrun', hnodes⟩ :=
        hclasswise.run_perm catalog.separate hperm hrun
      have h' : Findable host catalog' setup setup' probeDirectories document :=
        ⟨h.configuration, h.directories, fun a ha => h.found a (hperm.mem_iff.mpr ha)⟩
      refine ⟨replaceSection nodes' document, modifyAssemblyRedirectConfig_of_run h' hrun', ?_, ?_⟩
      · rw [policySection_replaceSection]
      · rw [policySection_replaceSection, policySection_replaceSection]
        exact hnodes
  · obtain ⟨uri, probed, hfound⟩ := collectCandidates_found hcandidates
    rw [hfound.collectCandidates] at hcandidates
    obtain rfl := Option.some.inj hcandidates
    have hprofiler : ∃ c ∈ candidatesOf host a uri probed entries effective,
        c.source = .profiler := ⟨_, mem_candidatesOf.mpr (.inl rfl), rfl⟩
    obtain ⟨c, hselect, -⟩ := selectCandidate_spec hprofiler
    rw [hselect]
    rfl

end reconcile

/-! ### Configurations of a library -/

/-- A configuration with sections. -/
def sectionsConfig (sections : List (List XNode)) : List XNode :=
  [.element .configuration []
    [.element .runtime [] (sections.map fun nodes => .element .assemblyBinding [] nodes)]]

/-- A section of the library is normalized. -/
theorem modifyAssemblyRedirectConfig_reconciled_library :
    ∃ updated, modifyAssemblyRedirectConfig driveHost false libraryCatalog (driveSetup [])
        (sectionsConfig [[libraryEntry versionFour.toText]]) = some (updated, driveSetup [])
      ∧ ReconciledDocument driveHost libraryCatalog [driveBase]
        (sectionsConfig [[libraryEntry versionFour.toText]]) updated := by
  have hfindable : Findable driveHost libraryCatalog (driveSetup []) (driveSetup []) [driveBase]
      (sectionsConfig [[libraryEntry versionFour.toText]]) := by
    refine ⟨by decide, by rfl, fun a ha => ?_⟩
    obtain rfl := List.mem_singleton.mp ha
    exact ⟨_, none, rfl, rfl⟩
  obtain ⟨⟨updated, hupdate, hreconciled, -⟩, -⟩ :=
    modifyAssemblyRedirectConfig_reconciled hfindable
  exact ⟨updated, hupdate, hreconciled⟩

/-- `5.0.0.0`. -/
def versionFive : Version := ⟨[5, 0, 0, 0], by decide⟩

/-- `9.0.0.0`. -/
def versionNine : Version := ⟨[9, 0, 0, 0], by decide⟩

/-- An entry of the library that binds all versions up to `9.0.0.0` to `5.0.0.0`. -/
def loweringEntry : XNode :=
  .element .dependentAssembly []
    [.element .assemblyIdentity [(.name, [code 'L']), (.publicKeyToken, [code 't'])] [],
      .element .bindingRedirect
        [(.oldVersion, Version.zero.toText ++ code '-' :: versionNine.toText),
          (.newVersion, versionFive.toText)] []]

/-- The redirects of the library in a configuration. -/
def libraryRedirects (document : List XNode) : List XNode :=
  elementsOf .bindingRedirect (entriesOf driveHost libraryInfo (allSections document))

/-- An entry in another section stays, and what is redirected to a lower version is not
redirected any more. -/
theorem modifyAssemblyRedirectConfig_not_reconciled :
    (∃ updated, modifyAssemblyRedirectConfig driveHost false libraryCatalog (driveSetup [])
          (sectionsConfig [[libraryEntry versionFour.toText], [libraryEntry versionFour.toText]])
            = some (updated, driveSetup [])
        ∧ Unambiguous driveHost (libraryRedirects
          (sectionsConfig [[libraryEntry versionFour.toText], [libraryEntry versionFour.toText]]))
        ∧ ¬∃ entry, entriesOf driveHost libraryInfo (allSections updated) = [entry])
      ∧ ∃ updated, modifyAssemblyRedirectConfig driveHost false libraryCatalog (driveSetup [])
            (sectionsConfig [[loweringEntry]]) = some (updated, driveSetup [])
          ∧ Redirects driveHost (libraryRedirects (sectionsConfig [[loweringEntry]]))
            versionNine versionFive
          ∧ ¬∃ target, Redirects driveHost (libraryRedirects updated) versionNine target := by
  refine ⟨⟨_, rfl, fun r hr => ?_, fun h => ?_⟩, ⟨_, rfl, ?_, fun h => ?_⟩⟩
  · cases hr
  · obtain ⟨entry, hentries⟩ := h
    have hlength : 2 = 1 := congrArg List.length hentries
    omega
  · exact ⟨_, List.mem_singleton_self _, rfl, Version.zero, versionNine, rfl,
      zero_le_of_isReference rfl, le_rfl⟩
  · obtain ⟨target, redirect, hredirect, -, first, last, hold, -, hle⟩ := h
    obtain rfl : redirect = redirectElement versionFive := List.mem_singleton.mp hredirect
    obtain rfl : versionFive = last := congrArg Prod.snd (Option.some.inj hold)
    exact absurd hle (by decide)

end AutoInstrumentation.AssemblyBinding
