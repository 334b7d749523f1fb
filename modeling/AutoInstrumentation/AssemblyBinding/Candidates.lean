import AutoInstrumentation.AssemblyBinding.Update

/-!
# AutoInstrumentation.AssemblyBinding.Candidates

The candidates for an assembly, and the one that is selected.
-/

namespace AutoInstrumentation.AssemblyBinding

open AutoInstrumentation.Lib
open AutoInstrumentation.Cel (WChar WString code Unicode isAsciiDigit)

variable {host : Host} {probeDirectories : List WString} {a : AssemblyInfo}

/-! ### The selected candidate -/

/-- What is selected: a candidate with the highest version, an existing redirect only if it
is higher than all files, and what is configured before what is found. -/
structure Selected (candidates : List AssemblyCandidate) (c : AssemblyCandidate) : Prop where
  mem : c ∈ candidates
  highest : ∀ d ∈ candidates, d.assemblyVersion ≤ c.assemblyVersion
  redirect : c.source = .existingRedirect →
    ∀ d ∈ candidates, d.source ≠ .existingRedirect → d.assemblyVersion < c.assemblyVersion
  codeBase : c.source ≠ .existingRedirect →
    ∀ d ∈ candidates, d.source = .codeBase → d.assemblyVersion = c.assemblyVersion →
      c.source = .codeBase

theorem compareFileVersions_eq_or (c : AssemblyCandidate) (probed : Option AssemblyCandidate) :
    compareFileVersions c probed = c ∨ probed = some (compareFileVersions c probed) := by
  cases probed with
  | none => exact .inl rfl
  | some d =>
      rw [compareFileVersions]
      split
      · split
        · exact .inr rfl
        · exact .inl rfl
      · exact .inl rfl

/-- A candidate for the highest version is selected, when no redirect is higher. -/
theorem selectTop_spec {candidates : List AssemblyCandidate} (highest : Version)
    (hsome : ∃ c ∈ candidates, c.source ≠ .existingRedirect ∧ c.assemblyVersion = highest) :
    ∃ c, (match
        (candidates.filter (·.assemblyVersion = highest)).find? (·.source = .codeBase),
        (candidates.filter (·.assemblyVersion = highest)).find? (·.source = .profiler),
        (candidates.filter (·.assemblyVersion = highest)).find? (·.source = .probe) with
      | some codeBaseCandidate, _, _ => some codeBaseCandidate
      | none, some profilerCandidate, probingCandidate =>
          some (compareFileVersions profilerCandidate probingCandidate)
      | none, none, probingCandidate => probingCandidate) = some c
      ∧ c ∈ candidates ∧ c.assemblyVersion = highest ∧ c.source ≠ .existingRedirect
      ∧ ∀ d ∈ candidates, d.source = .codeBase → d.assemblyVersion = highest →
        c.source = .codeBase := by
  have found {source : CandidateSource} {c : AssemblyCandidate}
      (h : (candidates.filter (·.assemblyVersion = highest)).find? (·.source = source) = some c) :
      c ∈ candidates ∧ c.assemblyVersion = highest ∧ c.source = source := by
    obtain ⟨hc, hversion⟩ := List.mem_filter.mp (List.mem_of_find?_eq_some h)
    have hsource : decide (c.source = source) = true :=
      List.find?_some (p := fun c : AssemblyCandidate => decide (c.source = source)) h
    exact ⟨hc, of_decide_eq_true hversion, of_decide_eq_true hsource⟩
  have missing {source : CandidateSource}
      (h : (candidates.filter (·.assemblyVersion = highest)).find? (·.source = source) = none)
      {d : AssemblyCandidate} (hd : d ∈ candidates) (hversion : d.assemblyVersion = highest) :
      d.source ≠ source := by
    intro hsource
    refine List.find?_eq_none.mp h d (List.mem_filter.mpr ⟨hd, ?_⟩) (decide_eq_true hsource)
    exact decide_eq_true hversion
  cases hcodeBase : (candidates.filter (·.assemblyVersion = highest)).find?
      (·.source = .codeBase) with
  | some c =>
      obtain ⟨hc, hversion, hsource⟩ := found hcodeBase
      refine ⟨c, rfl, hc, hversion, ?_, fun _ _ _ _ => hsource⟩
      rw [hsource]
      decide
  | none =>
      have hnone {c : AssemblyCandidate} : ∀ d ∈ candidates, d.source = .codeBase →
          d.assemblyVersion = highest → c.source = .codeBase :=
        fun d hd hsource hversion => absurd hsource (missing hcodeBase hd hversion)
      cases hprofiler : (candidates.filter (·.assemblyVersion = highest)).find?
          (·.source = .profiler) with
      | some c =>
          obtain ⟨hc, hversion, hsource⟩ := found hprofiler
          refine ⟨_, rfl, ?_⟩
          rcases compareFileVersions_eq_or c ((candidates.filter
            (·.assemblyVersion = highest)).find? (·.source = .probe)) with heq | hprobe
          · rw [heq]
            refine ⟨hc, hversion, ?_, hnone⟩
            rw [hsource]
            decide
          · obtain ⟨hd, hdversion, hdsource⟩ := found hprobe
            refine ⟨hd, hdversion, ?_, hnone⟩
            rw [hdsource]
            decide
      | none =>
          obtain ⟨c, hc, hsource, hversion⟩ := hsome
          cases hprobe : (candidates.filter (·.assemblyVersion = highest)).find?
              (·.source = .probe) with
          | some d =>
              obtain ⟨hd, hdversion, hdsource⟩ := found hprobe
              refine ⟨d, rfl, hd, hdversion, ?_, hnone⟩
              rw [hdsource]
              decide
          | none =>
              cases hkind : c.source with
              | profiler => exact absurd hkind (missing hprofiler hc hversion)
              | codeBase => exact absurd hkind (missing hcodeBase hc hversion)
              | probe => exact absurd hkind (missing hprobe hc hversion)
              | existingRedirect => exact absurd hkind hsource

/-- **A candidate is selected**, as the profiler always has one. -/
theorem selectCandidate_spec {candidates : List AssemblyCandidate}
    (hprofiler : ∃ c ∈ candidates, c.source = .profiler) :
    ∃ c, selectCandidate candidates = some c ∧ Selected candidates c := by
  obtain ⟨profiler, hprofilerMem, hprofilerSource⟩ := hprofiler
  have hfiles {d : AssemblyCandidate} : d ∈ candidates.filter (·.source ≠ .existingRedirect)
      ↔ d ∈ candidates ∧ d.source ≠ .existingRedirect := by
    rw [List.mem_filter, decide_eq_true_eq]
  have hredirects {d : AssemblyCandidate} : d ∈ candidates.filter (·.source = .existingRedirect)
      ↔ d ∈ candidates ∧ d.source = .existingRedirect := by
    rw [List.mem_filter, decide_eq_true_eq]
  obtain ⟨highest, hmax⟩ : ∃ highest, ((candidates.filter (·.source ≠ .existingRedirect)).map
      (·.assemblyVersion)).max? = some highest := by
    refine Option.isSome_iff_exists.mp (List.isSome_max?_of_mem (a := profiler.assemblyVersion) ?_)
    refine List.mem_map_of_mem (hfiles.mpr ⟨hprofilerMem, ?_⟩)
    rw [hprofilerSource]
    decide
  obtain ⟨hhighest, hle⟩ := List.max?_eq_some_iff.mp hmax
  obtain ⟨top, htop, htopVersion⟩ := List.mem_map.mp hhighest
  obtain ⟨htopMem, htopSource⟩ := hfiles.mp htop
  have hfile {d : AssemblyCandidate} (hd : d ∈ candidates)
      (hsource : d.source ≠ .existingRedirect) :
      d.assemblyVersion ≤ highest := hle _ (List.mem_map_of_mem (hfiles.mpr ⟨hd, hsource⟩))
  rw [selectCandidate, hmax, Option.getD_some]
  cases hfilter : ((candidates.filter (·.source = .existingRedirect)).argmax
      (·.assemblyVersion)).filter (highest < ·.assemblyVersion) with
  | some c =>
      obtain ⟨hc, hlt⟩ := Option.filter_eq_some_iff.mp hfilter
      have hlt : highest < c.assemblyVersion := of_decide_eq_true hlt
      obtain ⟨hmem, hsource⟩ := hredirects.mp (List.argmax_mem hc)
      refine ⟨c, rfl, hmem, fun d hd => ?_, fun _ d hd hne => ?_, fun hne => absurd hsource hne⟩
      · by_cases hd' : d.source = .existingRedirect
        · exact List.le_of_mem_argmax (hredirects.mpr ⟨hd, hd'⟩) hc
        · exact le_of_lt (lt_of_le_of_lt (hfile hd hd') hlt)
      · exact lt_of_le_of_lt (hfile hd hne) hlt
  | none =>
      obtain ⟨c, hselected, hmem, hversion, hsource, hcodeBase⟩ :=
        selectTop_spec highest ⟨top, htopMem, htopSource, htopVersion⟩
      refine ⟨c, hselected, hmem, fun d hd => ?_, fun heq => absurd heq hsource,
        fun _ d hd hd' hv => hcodeBase d hd hd' (hv.trans hversion)⟩
      rw [hversion]
      by_cases hd' : d.source = .existingRedirect
      · have hredirect := hredirects.mpr ⟨hd, hd'⟩
        cases hargmax : (candidates.filter (·.source = .existingRedirect)).argmax
            (·.assemblyVersion) with
        | none =>
            rw [List.argmax_eq_none.mp hargmax] at hredirect
            cases hredirect
        | some e =>
            rw [hargmax] at hfilter
            have hnot : ¬highest < e.assemblyVersion := by
              intro hlt
              rw [Option.filter_some, if_pos (decide_eq_true hlt)] at hfilter
              cases hfilter
            exact le_trans (List.le_of_mem_argmax hredirect hargmax) (not_lt.mp hnot)
      · exact hfile hd hd'

/-! ### The candidates -/

/-- The candidates, with the location of the profiler's file and with what is probed. -/
def candidatesOf (host : Host) (a : AssemblyInfo) (uri : WString)
    (probed : Option AssemblyCandidate) (entries : List XNode) (effective : Option Version) :
    List AssemblyCandidate :=
  ⟨.profiler, a.version, a.fileVersion, some uri⟩
    :: (elementsOf .codeBase entries).filterMap (codeBaseCandidate host)
    ++ probed.toList
    ++ effective.toList.map fun version => ⟨.existingRedirect, version, none, none⟩

/-- The locations that are found. -/
structure Found (host : Host) (a : AssemblyInfo) (probeDirectories : List WString) (uri : WString)
    (probed : Option AssemblyCandidate) : Prop where
  uri : host.absoluteUri a.path = some uri
  probed : tryResolveProbingCandidate host probeDirectories a = some probed

theorem Found.collectCandidates {uri : WString} {probed : Option AssemblyCandidate}
    (h : Found host a probeDirectories uri probed) (entries : List XNode)
    (effective : Option Version) :
    collectCandidates host a entries effective probeDirectories
      = some (candidatesOf host a uri probed entries effective) := by
  rw [AssemblyBinding.collectCandidates, h.uri, h.probed]
  rfl

theorem collectCandidates_found {entries : List XNode} {effective : Option Version}
    {candidates : List AssemblyCandidate}
    (h : collectCandidates host a entries effective probeDirectories = some candidates) :
    ∃ uri probed, Found host a probeDirectories uri probed := by
  obtain ⟨uri, huri, h⟩ := Option.bind_eq_some_iff.mp h
  obtain ⟨probed, hprobed, -⟩ := Option.bind_eq_some_iff.mp h
  exact ⟨uri, probed, huri, hprobed⟩

/-- A file that is found has a location. -/
structure IsFile (host : Host) (c : AssemblyCandidate) : Prop where
  source : c.source ≠ .existingRedirect
  hasCodeBase : c.hasCodeBase host.unicode = true

theorem inspectProbingCandidate_spec {path : WString} {c : AssemblyCandidate}
    (h : inspectProbingCandidate host a path = some c) : IsFile host c ∧ c.source = .probe := by
  rw [inspectProbingCandidate] at h
  split at h
  · cases h
  · split at h
    · cases h
    · split at h
      · next huri =>
          cases h
          refine ⟨⟨(fun h => by cases h), ?_⟩, rfl⟩
          rw [AssemblyCandidate.hasCodeBase, host.absoluteUri_nonblank huri]
          rfl
      · cases h

theorem firstProbingHit_spec {paths : List (Option WString)} {c : AssemblyCandidate}
    (h : firstProbingHit host a paths = some (some c)) : IsFile host c ∧ c.source = .probe := by
  induction paths with
  | nil => cases h
  | cons path paths ih =>
      cases path with
      | none => cases h
      | some path =>
          rw [firstProbingHit] at h
          split at h
          · exact inspectProbingCandidate_spec (Option.some.inj h)
          · exact ih h

theorem codeBaseCandidate_eq_some {x : XNode} {c : AssemblyCandidate}
    (h : codeBaseCandidate host x = some c) :
    tryParseVersion host.unicode (x.attributeValue .version) = some c.assemblyVersion
      ∧ x.attributeValue .href = c.codeBaseUri ∧ IsFile host c ∧ c.source = .codeBase := by
  rw [codeBaseCandidate] at h
  split at h
  · next hversion href =>
      split at h
      · cases h
      · next hblank =>
          cases h
          refine ⟨hversion, href, ⟨(fun h => by cases h), ?_⟩, rfl⟩
          rw [AssemblyCandidate.hasCodeBase, Bool.eq_false_of_not_eq_true hblank]
          rfl
  · cases h

theorem codeBaseCandidate_element {c : AssemblyCandidate}
    (h : c.hasCodeBase host.unicode = true) :
    codeBaseCandidate host (codeBaseElement c)
      = some ⟨.codeBase, c.assemblyVersion, none, c.codeBaseUri⟩ := by
  obtain ⟨uri, huri⟩ : ∃ uri, c.codeBaseUri = some uri := by
    cases huri : c.codeBaseUri with
    | none =>
        rw [AssemblyCandidate.hasCodeBase, huri] at h
        cases h
    | some uri => exact ⟨uri, rfl⟩
  have hversion : (codeBaseElement c).attributeValue .version = some c.assemblyVersion.toText := rfl
  have href : (codeBaseElement c).attributeValue .href = some uri := by
    rw [codeBaseElement, huri]
    rfl
  have hblank : isNullOrWhiteSpace host.unicode (some uri) = false := by
    rw [AssemblyCandidate.hasCodeBase, huri] at h
    exact Bool.not_eq_true' _ ▸ h
  rw [codeBaseCandidate, hversion, href, tryParseVersion_toText, huri]
  dsimp only
  rw [hblank, if_neg Bool.false_ne_true]

section found

variable {uri : WString} {probed : Option AssemblyCandidate} {entries : List XNode}
  {effective : Option Version}

theorem mem_candidatesOf {c : AssemblyCandidate} :
    c ∈ candidatesOf host a uri probed entries effective
      ↔ c = ⟨.profiler, a.version, a.fileVersion, some uri⟩ ∨ probed = some c
        ∨ (∃ x ∈ elementsOf .codeBase entries, codeBaseCandidate host x = some c)
        ∨ ∃ version, effective = some version ∧ c = ⟨.existingRedirect, version, none, none⟩ := by
  simp only [candidatesOf, List.mem_append, List.mem_cons, List.mem_filterMap, Option.mem_toList,
    List.mem_map]
  constructor
  · intro h
    rcases h with ((rfl | hcodeBase) | hprobed) | ⟨version, hversion, rfl⟩
    · exact .inl rfl
    · exact .inr (.inr (.inl hcodeBase))
    · exact .inr (.inl hprobed)
    · exact .inr (.inr (.inr ⟨version, hversion, rfl⟩))
  · intro h
    rcases h with rfl | hprobed | hcodeBase | ⟨version, hversion, rfl⟩
    · exact .inl (.inl (.inl rfl))
    · exact .inl (.inr hprobed)
    · exact .inl (.inl (.inr hcodeBase))
    · exact .inr ⟨version, hversion, rfl⟩

/-- Only an existing redirect has no location. -/
theorem Found.isFile (h : Found host a probeDirectories uri probed) {c : AssemblyCandidate}
    (hc : c ∈ candidatesOf host a uri probed entries effective)
    (hsource : c.source ≠ .existingRedirect) : IsFile host c := by
  rcases mem_candidatesOf.mp hc with rfl | hprobed | ⟨x, -, hx⟩ | ⟨version, -, rfl⟩
  · refine ⟨(fun h => by cases h), ?_⟩
    rw [AssemblyCandidate.hasCodeBase, host.absoluteUri_nonblank h.uri]
    rfl
  · exact (firstProbingHit_spec (hprobed ▸ h.probed)).1
  · exact (codeBaseCandidate_eq_some hx).2.2.1
  · exact absurd rfl hsource

end found

end AutoInstrumentation.AssemblyBinding
