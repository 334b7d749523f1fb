import AutoInstrumentation.AssemblyBinding.Entries
import AutoInstrumentation.AssemblyBinding.Candidates
import AutoInstrumentation.AssemblyBinding.ProbeDirectoriesSound

/-!
# AutoInstrumentation.AssemblyBinding.UpdateSound

Updating a configuration twice.

As the update of an assembly is one of its entries, what is to be shown is that this does
not change its own result. The entry that is written is a candidate of the next update, and
as good as all others.
-/

namespace AutoInstrumentation.AssemblyBinding

open AutoInstrumentation.Lib
open AutoInstrumentation.Cel (WChar WString code Unicode isAsciiDigit)

variable {host : Host} {disallowBindingRedirects : Bool} {probeDirectories : List WString}
  {a : AssemblyInfo}

/-! ### Updating the entries twice -/

theorem elementsOf_createDependentAssembly {n : XName} (hn : n ≠ .assemblyIdentity)
    (added : List XNode) :
    elementsOf n [(createDependentAssembly a).add added] = added.filter (XNode.isElement n) := by
  rw [elementsOf_cons, XNode.elements_add (n := .dependentAssembly) rfl]
  have hidentity : (createDependentAssembly a).elements n = [] := by
    rw [createDependentAssembly, XNode.elements, XNode.nodes, List.filter_singleton,
      XNode.isElement, beq_eq_false_iff_ne.mpr (Ne.symm hn)]
    rfl
  rw [hidentity]
  exact List.append_nil _

theorem rewrittenDependentAssembly_elements (a : AssemblyInfo) (c : AssemblyCandidate) :
    elementsOf .bindingRedirect [rewrittenDependentAssembly host a c]
        = [redirectElement c.assemblyVersion]
      ∧ elementsOf .codeBase [rewrittenDependentAssembly host a c]
        = if c.hasCodeBase host.unicode then [codeBaseElement c] else [] := by
  rw [rewrittenDependentAssembly, elementsOf_createDependentAssembly (by decide),
    elementsOf_createDependentAssembly (by decide)]
  cases c.hasCodeBase host.unicode with
  | true => exact ⟨rfl, rfl⟩
  | false => exact ⟨rfl, rfl⟩

theorem newVersion_redirectElement (v : Version) : newVersion host (redirectElement v) = some v :=
  tryParseVersion_toText host.unicode v

section again

variable {uri : WString} {probed : Option AssemblyCandidate} {entries : List XNode}
  {effective : Option Version} {c : AssemblyCandidate}

/-- The candidate that an entry has its location from. -/
def writtenCodeBase (c : AssemblyCandidate) : AssemblyCandidate :=
  ⟨.codeBase, c.assemblyVersion, none, c.codeBaseUri⟩

/-- The candidate that an entry has its redirect from. -/
def writtenRedirect (c : AssemblyCandidate) : AssemblyCandidate :=
  ⟨.existingRedirect, c.assemblyVersion, none, none⟩

/-- The candidates after an update. -/
abbrev candidatesAgain (host : Host) (a : AssemblyInfo) (uri : WString)
    (probed : Option AssemblyCandidate) (c : AssemblyCandidate) : List AssemblyCandidate :=
  candidatesOf host a uri probed [rewrittenDependentAssembly host a c] (some c.assemblyVersion)

/-- What has not been written was a candidate before. -/
theorem mem_candidatesAgain (entries : List XNode) (effective : Option Version)
    (h : Found host a probeDirectories uri probed) {e : AssemblyCandidate}
    (he : e ∈ candidatesAgain host a uri probed c) :
    e ∈ candidatesOf host a uri probed entries effective
        ∧ e.source ≠ .existingRedirect ∧ e.source ≠ .codeBase
      ∨ c.hasCodeBase host.unicode = true ∧ e = writtenCodeBase c
      ∨ e = writtenRedirect c := by
  rcases mem_candidatesOf.mp he with rfl | hprobed | ⟨x, hx, hcandidate⟩ | ⟨version, hversion, rfl⟩
  · exact .inl ⟨mem_candidatesOf.mpr (.inl rfl), (fun h => by cases h), (fun h => by cases h)⟩
  · have hsource : e.source = .probe := (firstProbingHit_spec (hprobed ▸ h.probed)).2
    refine .inl ⟨mem_candidatesOf.mpr (.inr (.inl hprobed)), ?_⟩
    rw [hsource]
    decide
  · rw [(rewrittenDependentAssembly_elements a c).2] at hx
    cases hlocated : c.hasCodeBase host.unicode with
    | false =>
        rw [hlocated] at hx
        cases hx
    | true =>
        rw [hlocated, if_pos rfl, List.mem_singleton] at hx
        rw [hx, codeBaseCandidate_element hlocated] at hcandidate
        exact .inr (.inl ⟨rfl, (Option.some.inj hcandidate).symm⟩)
  · cases hversion
    exact .inr (.inr rfl)

theorem writtenRedirect_mem : writtenRedirect c ∈ candidatesAgain host a uri probed c :=
  mem_candidatesOf.mpr (.inr (.inr (.inr ⟨_, rfl, rfl⟩)))

theorem writtenCodeBase_mem (h : c.hasCodeBase host.unicode = true) :
    writtenCodeBase c ∈ candidatesAgain host a uri probed c := by
  refine mem_candidatesOf.mpr (.inr (.inr (.inl ⟨codeBaseElement c, ?_, ?_⟩)))
  · rw [(rewrittenDependentAssembly_elements a c).2, h, if_pos rfl]
    exact List.mem_singleton_self _
  · exact codeBaseCandidate_element h

/-- **The selected candidate is selected again** among the entry that is written for it and the
files, as far as it is written. -/
theorem rewritten_again {d : AssemblyCandidate} (h : Found host a probeDirectories uri probed)
    (hc : Selected (candidatesOf host a uri probed entries effective) c)
    (hd : Selected (candidatesAgain host a uri probed c) d) :
    rewrittenDependentAssembly host a d = rewrittenDependentAssembly host a c := by
  have hversion : d.assemblyVersion = c.assemblyVersion := by
    have hle : (writtenRedirect c).assemblyVersion ≤ d.assemblyVersion :=
      hd.highest _ writtenRedirect_mem
    refine le_antisymm ?_ hle
    rcases mem_candidatesAgain entries effective h hd.mem with
      ⟨hold, -⟩ | ⟨-, rfl⟩ | rfl
    · exact hc.highest d hold
    · exact le_rfl
    · exact le_rfl
  have hwritten : d.hasCodeBase host.unicode = c.hasCodeBase host.unicode
      ∧ (c.hasCodeBase host.unicode = true → d.codeBaseUri = c.codeBaseUri) := by
    cases hlocated : c.hasCodeBase host.unicode with
    | true =>
        have hcodeBase : writtenCodeBase c ∈ candidatesAgain host a uri probed c :=
          writtenCodeBase_mem hlocated
        -- a redirect is not higher than the location that is written with it
        have hnotRedirect : d.source ≠ .existingRedirect := by
          intro hredirect
          have hlt := hd.redirect hredirect _ hcodeBase (fun h => by cases h)
          rw [hversion] at hlt
          exact lt_irrefl _ hlt
        have hsource := hd.codeBase hnotRedirect _ hcodeBase rfl hversion.symm
        rcases mem_candidatesAgain entries effective h hd.mem with
          ⟨-, -, hne⟩ | ⟨-, rfl⟩ | rfl
        · exact absurd hsource hne
        · exact ⟨hlocated, fun _ => rfl⟩
        · cases hsource
    | false =>
        have hcSource : c.source = .existingRedirect := by
          by_contra hne
          rw [(h.isFile hc.mem hne).hasCodeBase] at hlocated
          cases hlocated
        rcases mem_candidatesAgain entries effective h hd.mem with
          ⟨hold, hne, -⟩ | ⟨htrue, -⟩ | rfl
        · have hlt := hc.redirect hcSource d hold hne
          rw [hversion] at hlt
          exact absurd hlt (lt_irrefl _)
        · rw [hlocated] at htrue
          cases htrue
        · exact ⟨rfl, fun h => by cases h⟩
  rw [rewrittenDependentAssembly, rewrittenDependentAssembly, hversion, hwritten.1]
  cases hlocated : c.hasCodeBase host.unicode with
  | true =>
      rw [if_pos rfl, if_pos rfl, codeBaseElement, codeBaseElement, hversion,
        hwritten.2 hlocated]
  | false => rfl

end again

/-! ### Adding the locations twice -/

/-- The nodes are entries. -/
def AreEntries (entries : List XNode) : Prop :=
  ∀ x ∈ entries, x.isElement .dependentAssembly = true

theorem elementsOf_addToEntries (added : List XNode) {entries : List XNode}
    (hentries : AreEntries entries) {n : XName} (hn : n ≠ .assemblyIdentity) :
    (elementsOf n (addToEntries a added entries)).Perm
      (elementsOf n entries ++ added.filter (XNode.isElement n)) := by
  cases entries with
  | nil => exact .of_eq (elementsOf_createDependentAssembly hn added)
  | cons entry entries =>
      rw [addToEntries, elementsOf_cons, elementsOf_cons,
        XNode.elements_add (hentries entry List.mem_cons_self), List.append_assoc,
        List.append_assoc]
      exact List.perm_append_comm.append_left _

/-- The redirects stay. -/
theorem bindingRedirects_addToEntries {added entries : List XNode} (hadded : AreCodeBases added)
    (hentries : AreEntries entries) :
    elementsOf .bindingRedirect (addToEntries a added entries)
      = elementsOf .bindingRedirect entries := by
  have hnone : added.filter (XNode.isElement .bindingRedirect) = [] := hadded.filter_ne (by decide)
  cases entries with
  | nil => exact (elementsOf_createDependentAssembly (by decide) added).trans hnone
  | cons entry entries =>
      rw [addToEntries, elementsOf_cons, elementsOf_cons,
        XNode.elements_add (hentries entry List.mem_cons_self), hnone, List.append_nil]

theorem codeBases_addToEntries {added entries : List XNode} (hadded : AreCodeBases added)
    (hentries : AreEntries entries) :
    (elementsOf .codeBase (addToEntries a added entries)).Perm
      (elementsOf .codeBase entries ++ added) := by
  have hperm := elementsOf_addToEntries (a := a) added hentries (n := .codeBase) (by decide)
  rwa [hadded.filter_self] at hperm

/-- A version is among the existing ones when it is written like that. -/
theorem toText_mem_existingVersions {entries : List XNode} {v : Version} :
    v.toText ∈ existingVersions host entries
      ↔ ∃ x ∈ elementsOf .codeBase entries, x.attributeValue .version = some v.toText := by
  rw [existingVersions, List.mem_filter, List.mem_filterMap,
    isNullOrWhiteSpace_toText host.unicode v]
  exact and_iff_left rfl

/-- The versions of an assembly with a known location: that of the profiler's file, of what is
probed, and of what is configured. -/
def KnownVersion (host : Host) (probed : Option AssemblyCandidate) (a : AssemblyInfo)
    (entries : List XNode) (v : Version) : Prop :=
  v = a.version ∨ (∃ c, probed = some c ∧ c.assemblyVersion = v)
    ∨ ∃ x ∈ elementsOf .codeBase entries, ∃ c,
      codeBaseCandidate host x = some c ∧ c.assemblyVersion = v

theorem located_candidatesOf {uri : WString} {probed : Option AssemblyCandidate}
    {entries : List XNode} {effective : Option Version}
    (h : Found host a probeDirectories uri probed) {v : Version} :
    Located host (candidatesOf host a uri probed entries effective) v
      ↔ KnownVersion host probed a entries v := by
  constructor
  · intro ⟨c, hc, hlocated, hversion⟩
    rcases mem_candidatesOf.mp hc with rfl | hprobed | ⟨x, hx, hcandidate⟩ | ⟨_, -, rfl⟩
    · exact .inl hversion.symm
    · exact .inr (.inl ⟨c, hprobed, hversion⟩)
    · exact .inr (.inr ⟨x, hx, c, hcandidate, hversion⟩)
    · cases hlocated
  · have hfile {c : AssemblyCandidate}
        (hc : c ∈ candidatesOf host a uri probed entries effective)
        (hsource : c.source ≠ .existingRedirect) (hversion : c.assemblyVersion = v) :
        Located host (candidatesOf host a uri probed entries effective) v :=
      ⟨c, hc, (h.isFile hc hsource).hasCodeBase, hversion⟩
    intro hknown
    rcases hknown with rfl | ⟨c, hprobed, hversion⟩ | ⟨x, hx, c, hcandidate, hversion⟩
    · exact hfile (mem_candidatesOf.mpr (.inl rfl)) (fun h => by cases h) rfl
    · exact hfile (mem_candidatesOf.mpr (.inr (.inl hprobed)))
        (firstProbingHit_spec (hprobed ▸ h.probed)).1.source hversion
    · exact hfile (mem_candidatesOf.mpr (.inr (.inr (.inl ⟨x, hx, hcandidate⟩))))
        (codeBaseCandidate_eq_some hcandidate).2.2.1.source hversion

section update

variable {uri : WString} {probed : Option AssemblyCandidate} {entries updated : List XNode}
  {effective : Option Version}

/-- What is added for a candidate is a location of its version. -/
theorem KnownVersion.of_addToEntries {existing : List WString} {v : Version}
    (h : Found host a probeDirectories uri probed) (hentries : AreEntries entries)
    (hknown : KnownVersion host probed a
      (addToEntries a (missingCodeBases host
        (candidatesOf host a uri probed entries effective) existing) entries) v) :
    KnownVersion host probed a entries v := by
  have hadded : AreCodeBases (missingCodeBases host
      (candidatesOf host a uri probed entries effective) existing) := areCodeBases_missing _ _
  rcases hknown with hprofiler | hprobed | ⟨x, hx, c, hcandidate, hversion⟩
  · exact .inl hprofiler
  · exact .inr (.inl hprobed)
  · rcases List.mem_append.mp ((codeBases_addToEntries hadded hentries).mem_iff.mp hx) with hx | hx
    · exact .inr (.inr ⟨x, hx, c, hcandidate, hversion⟩)
    · obtain ⟨d, hd, hlocated, rfl⟩ := exists_of_mem_missing hx
      rw [codeBaseCandidate_element hlocated] at hcandidate
      cases hcandidate
      exact (located_candidatesOf h).mp ⟨d, hd, hlocated, hversion⟩

/-- The candidates, when the entries are updated. -/
theorem updateEntries_found
    (h : updateEntries host disallowBindingRedirects probeDirectories a entries = some updated) :
    ∃ uri probed, Found host a probeDirectories uri probed := by
  obtain ⟨candidates, hcandidates, -⟩ := Option.bind_eq_some_iff.mp h
  exact collectCandidates_found hcandidates

/-- The candidates for the entries of an assembly. -/
abbrev entryCandidates (host : Host) (a : AssemblyInfo) (uri : WString)
    (probed : Option AssemblyCandidate) (entries : List XNode) : List AssemblyCandidate :=
  candidatesOf host a uri probed entries
    (tryResolveEffectiveRedirectVersion host (elementsOf .bindingRedirect entries))

theorem updateEntries_keeps (h : Found host a probeDirectories uri probed)
    (hkeeps : keepsPolicy host disallowBindingRedirects (elementsOf .bindingRedirect entries)) :
    updateEntries host disallowBindingRedirects probeDirectories a entries
      = some (addToEntries a (missingCodeBases host (entryCandidates host a uri probed entries)
          (existingVersions host entries)) entries) := by
  rw [updateEntries, h.collectCandidates]
  exact if_pos hkeeps

theorem updateEntries_rewrites (h : Found host a probeDirectories uri probed)
    (hkeeps : ¬keepsPolicy host disallowBindingRedirects (elementsOf .bindingRedirect entries)) :
    ∃ c, Selected (entryCandidates host a uri probed entries) c
      ∧ updateEntries host disallowBindingRedirects probeDirectories a entries
        = some [rewrittenDependentAssembly host a c] := by
  have hprofiler : ∃ c ∈ entryCandidates host a uri probed entries, c.source = .profiler :=
    ⟨_, mem_candidatesOf.mpr (.inl rfl), rfl⟩
  obtain ⟨c, hselect, hselected⟩ := selectCandidate_spec hprofiler
  refine ⟨c, hselected, ?_⟩
  rw [updateEntries, h.collectCandidates]
  refine (if_neg hkeeps).trans ?_
  rw [hselect]
  rfl

/-- **The update of the entries** of an assembly keeps its own result. -/
theorem updateEntries_again (hentries : AreEntries entries)
    (h : updateEntries host disallowBindingRedirects probeDirectories a entries = some updated) :
    updateEntries host disallowBindingRedirects probeDirectories a updated = some updated := by
  obtain ⟨uri, probed, hfound⟩ := updateEntries_found h
  by_cases hkeeps : keepsPolicy host disallowBindingRedirects
      (elementsOf .bindingRedirect entries)
  · rw [updateEntries_keeps hfound hkeeps] at h
    obtain rfl := Option.some.inj h
    have hadded : AreCodeBases (missingCodeBases host (entryCandidates host a uri probed entries)
        (existingVersions host entries)) := areCodeBases_missing _ _
    have hperm := codeBases_addToEntries (a := a) hadded hentries
    have hredirects := bindingRedirects_addToEntries (a := a) hadded hentries
    rw [updateEntries_keeps hfound (hredirects ▸ hkeeps), missingCodeBases_eq_nil]
    · cases entries with
      | nil => exact congrArg (fun x => some [x]) (XNode.add_nil _)
      | cons entry entries => exact congrArg (fun x => some (x :: entries)) (XNode.add_nil _)
    · -- what has a location was written before, or has been added
      intro v hlocated
      have hknown := ((located_candidatesOf hfound).mp hlocated).of_addToEntries hfound hentries
      refine toText_mem_existingVersions.mpr ?_
      by_cases hold : v.toText ∈ existingVersions host entries
      · obtain ⟨x, hx, hversion⟩ := toText_mem_existingVersions.mp hold
        exact ⟨x, hperm.mem_iff.mpr (List.mem_append_left _ hx), hversion⟩
      · have hcount : 0 < codeBaseCount host v (missingCodeBases host
            (entryCandidates host a uri probed entries) (existingVersions host entries)) := by
          rcases codeBaseCount_missing host (entryCandidates host a uri probed entries)
            (existingVersions host entries) v with ⟨hone, -⟩ | ⟨-, hnone⟩
          · rw [hone]
            exact Nat.one_pos
          · exact absurd ⟨(located_candidatesOf hfound).mpr hknown, hold⟩ hnone
        obtain ⟨x, hx, hparsed⟩ := List.countP_pos_iff.mp hcount
        obtain ⟨c, -, -, rfl⟩ := exists_of_mem_missing hx
        have hversion : tryParseVersion host.unicode (some c.assemblyVersion.toText) = some v :=
          of_decide_eq_true hparsed
        rw [tryParseVersion_toText] at hversion
        obtain rfl := Option.some.inj hversion
        exact ⟨_, hperm.mem_iff.mpr (List.mem_append_right _ hx), rfl⟩
  · obtain ⟨c, hselected, hupdate⟩ := updateEntries_rewrites hfound hkeeps
    rw [hupdate] at h
    obtain rfl := Option.some.inj h
    have hredirects : elementsOf .bindingRedirect [rewrittenDependentAssembly host a c]
        = [redirectElement c.assemblyVersion] := (rewrittenDependentAssembly_elements a c).1
    have hkeeps' : ¬keepsPolicy host disallowBindingRedirects
        (elementsOf .bindingRedirect [rewrittenDependentAssembly host a c]) := by
      rw [hredirects]
      intro hkeeps'
      rcases hkeeps' with hdisallow | ⟨hmany, -⟩
      · exact hkeeps (.inl hdisallow)
      · exact absurd hmany (Nat.lt_irrefl 1)
    have heffective : tryResolveEffectiveRedirectVersion host
        (elementsOf .bindingRedirect [rewrittenDependentAssembly host a c])
          = some c.assemblyVersion := by
      rw [hredirects]
      exact newVersion_redirectElement c.assemblyVersion
    obtain ⟨d, hagain, hupdate'⟩ := updateEntries_rewrites hfound hkeeps'
    rw [entryCandidates, heffective] at hagain
    rw [hupdate', rewritten_again hfound hselected hagain]

/-! ### Two locations for one version -/

/-- The versions with one `codeBase` element that have a known location are written the way
versions are compared. -/
def WritesVersions (host : Host) (probed : Option AssemblyCandidate) (a : AssemblyInfo)
    (entries : List XNode) : Prop :=
  ∀ x ∈ elementsOf .codeBase entries, ∀ v,
    tryParseVersion host.unicode (x.attributeValue .version) = some v →
      codeBaseCount host v (elementsOf .codeBase entries) = 1 →
        KnownVersion host probed a entries v → x.attributeValue .version = some v.toText

theorem eq_of_countP_eq_one {α : Type} {p : α → Bool} {xs : List α} (h : xs.countP p = 1)
    {x y : α} (hx : x ∈ xs) (hpx : p x = true) (hy : y ∈ xs) (hpy : p y = true) : x = y := by
  rw [List.countP_eq_length_filter] at h
  obtain ⟨z, hz⟩ := List.length_eq_one_iff.mp h
  have hmem {w : α} (hw : w ∈ xs) (hpw : p w = true) : w = z := by
    have hfilter := List.mem_filter.mpr ⟨hw, hpw⟩
    rw [hz] at hfilter
    exact List.mem_singleton.mp hfilter
  rw [hmem hx hpx, hmem hy hpy]

/-- **A second location** is added for a version that is written in another way. -/
theorem codeBaseCount_addToEntries_iff (h : Found host a probeDirectories uri probed)
    (hentries : AreEntries entries) :
    (∀ v, codeBaseCount host v (elementsOf .codeBase entries) ≤ 1 →
        codeBaseCount host v (elementsOf .codeBase (addToEntries a
          (missingCodeBases host (entryCandidates host a uri probed entries)
            (existingVersions host entries)) entries)) ≤ 1)
      ↔ WritesVersions host probed a entries := by
  have hadded : AreCodeBases (missingCodeBases host (entryCandidates host a uri probed entries)
      (existingVersions host entries)) := areCodeBases_missing _ _
  have hcount (v : Version) :
      codeBaseCount host v (elementsOf .codeBase (addToEntries a
          (missingCodeBases host (entryCandidates host a uri probed entries)
            (existingVersions host entries)) entries))
        = codeBaseCount host v (elementsOf .codeBase entries)
          + codeBaseCount host v (missingCodeBases host
            (entryCandidates host a uri probed entries) (existingVersions host entries)) :=
    ((codeBases_addToEntries hadded hentries).countP_eq _).trans List.countP_append
  constructor
  · intro hle x hx v hparsed hone hknown
    have hadd := hle v hone.le
    rw [hcount, hone] at hadd
    have hwritten : v.toText ∈ existingVersions host entries := by
      by_contra hnew
      rcases codeBaseCount_missing host (entryCandidates host a uri probed entries)
        (existingVersions host entries) v with ⟨hmissing, -⟩ | ⟨-, hnone⟩
      · omega
      · exact hnone ⟨(located_candidatesOf h).mpr hknown, hnew⟩
    obtain ⟨y, hy, hversion⟩ := toText_mem_existingVersions.mp hwritten
    have hyparsed : tryParseVersion host.unicode (y.attributeValue .version) = some v := by
      rw [hversion, tryParseVersion_toText]
    obtain rfl := eq_of_countP_eq_one hone hx (decide_eq_true hparsed) hy (decide_eq_true hyparsed)
    exact hversion
  · intro hwrites v hle
    rw [hcount]
    rcases codeBaseCount_missing host (entryCandidates host a uri probed entries)
      (existingVersions host entries) v with ⟨hmissing, hlocated, hnew⟩ | ⟨hmissing, -⟩
    · rcases Nat.le_one_iff_eq_zero_or_eq_one.mp hle with hzero | hone
      · omega
      · obtain ⟨x, hx, hparsed⟩ := List.countP_pos_iff.mp (hone ▸ Nat.one_pos :
          0 < codeBaseCount host v (elementsOf .codeBase entries))
        have hversion := hwrites x hx v (of_decide_eq_true hparsed) hone
          ((located_candidatesOf h).mp hlocated)
        exact absurd (toText_mem_existingVersions.mpr ⟨x, hx, hversion⟩) hnew
    · omega

end update

end AutoInstrumentation.AssemblyBinding
