import AutoInstrumentation.AssemblyBinding.UpdateTwice
import Mathlib.Order.Bounds.Basic

/-!
# AutoInstrumentation.AssemblyBinding.Policy

What an update makes of the binding policy.

The policy of an assembly says to which version a reference of the assembly is bound. An update
writes the highest version that is known, and redirects all versions up to it.
-/

namespace AutoInstrumentation.AssemblyBinding

open AutoInstrumentation.Lib
open AutoInstrumentation.Cel (WChar WString code Unicode asciiUnicode isAsciiDigit)

variable {host : Host} {disallowBindingRedirects : Bool} {a : AssemblyInfo}

/-! ### Redirects -/

/-- The versions of a `bindingRedirect` element: one, or all between two. -/
def oldVersions (host : Host) (redirect : XNode) : Option (Version × Version) :=
  match ((redirect.attributeValue .oldVersion).getD []).splitOn (code '-') with
  | [version] => do
      let version ← tryParseVersion host.unicode (some version)
      return (version, version)
  | [first, last] => do
      let first ← tryParseVersion host.unicode (some first)
      let last ← tryParseVersion host.unicode (some last)
      return (first, last)
  | _ => none

/-- The version of a reference. -/
def IsReference (v : Version) : Prop := v.components.length = 4

/-- References of one version are bound to another. -/
def Redirects (host : Host) (redirects : List XNode) (reference target : Version) : Prop :=
  ∃ redirect ∈ redirects, newVersion host redirect = some target
    ∧ ∃ first last, oldVersions host redirect = some (first, last)
      ∧ first ≤ reference ∧ reference ≤ last

/-- The redirects have the same target. -/
def Unambiguous (host : Host) (redirects : List XNode) : Prop :=
  ∀ r ∈ redirects, ∃ v, newVersion host r = some v ∧ ∀ s ∈ redirects, newVersion host s = some v

theorem exists_of_mapM_eq_some {α β : Type} {f : α → Option β} {xs : List α} {ys : List β}
    (h : xs.mapM f = some ys) {x : α} (hx : x ∈ xs) : ∃ y ∈ ys, f x = some y := by
  induction xs generalizing ys with
  | nil => cases hx
  | cons z zs ih =>
      rw [List.mapM_cons] at h
      obtain ⟨y, hy, h⟩ := Option.bind_eq_some_iff.mp h
      obtain ⟨ws, hws, h⟩ := Option.bind_eq_some_iff.mp h
      cases h
      rcases List.mem_cons.mp hx with rfl | hx
      · exact ⟨y, List.mem_cons_self, hy⟩
      · obtain ⟨w, hw, heq⟩ := ih hws hx
        exact ⟨w, List.mem_cons_of_mem y hw, heq⟩

theorem mapM_eq_replicate {α β : Type} {f : α → Option β} {xs : List α} {y : β}
    (h : ∀ x ∈ xs, f x = some y) : xs.mapM f = some (List.replicate xs.length y) := by
  induction xs with
  | nil => rfl
  | cons x xs ih =>
      rw [List.mapM_cons, h x List.mem_cons_self, ih fun z hz => h z (List.mem_cons_of_mem x hz)]
      rfl

theorem distinct_replicate {α : Type} [DecidableEq α] (n : ℕ) (x : α) :
    distinct id (List.replicate (n + 1) x) = [x] := by
  have hseen (n : ℕ) : distinctFrom id [x] (List.replicate n x) = [] := by
    induction n with
    | zero => rfl
    | succ n ih =>
        rw [List.replicate_succ, distinctFrom, if_pos (show id x ∈ [x] from List.mem_cons_self), ih]
  rw [distinct, List.replicate_succ, distinctFrom, if_neg List.not_mem_nil]
  exact congrArg (x :: ·) (hseen n)

theorem tryResolveEffectiveRedirectVersion_eq_some {redirects : List XNode} {v : Version} :
    tryResolveEffectiveRedirectVersion host redirects = some v
      ↔ redirects ≠ [] ∧ ∀ r ∈ redirects, newVersion host r = some v := by
  cases redirects with
  | nil => exact iff_of_false (fun h => by cases h) fun h => h.1 rfl
  | cons r redirects =>
      rw [and_iff_right (List.cons_ne_nil r redirects)]
      cases redirects with
      | nil => exact (List.forall_mem_singleton (p := fun r => newVersion host r = some v)).symm
      | cons s redirects =>
          rw [tryResolveEffectiveRedirectVersion]
          · constructor
            · intro h t ht
              split at h
              · cases h
              · next versions hversions =>
                  split at h
                  · next w hdistinct =>
                      cases h
                      obtain ⟨u, hu, htarget⟩ := exists_of_mapM_eq_some hversions ht
                      have hkept : ∃ y ∈ distinct id versions, id y = id u := exists_mem_distinct hu
                      obtain ⟨y, hy, heq⟩ := hkept
                      rw [hdistinct, List.mem_singleton] at hy
                      rw [htarget, ← hy]
                      exact congrArg some heq.symm
                  · cases h
            · intro h
              rw [mapM_eq_replicate h, List.length_cons]
              dsimp only
              rw [distinct_replicate]
          · exact List.cons_ne_nil r _
          · intro t h
            cases h

/-- What is redirected unambiguously has the one target. -/
theorem Unambiguous.target_iff {redirects : List XNode} (h : Unambiguous host redirects)
    {v : Version} :
    tryResolveEffectiveRedirectVersion host redirects = some v
      ↔ ∃ r ∈ redirects, newVersion host r = some v := by
  rw [tryResolveEffectiveRedirectVersion_eq_some]
  constructor
  · intro ⟨hne, hall⟩
    obtain ⟨r, hr⟩ := List.exists_mem_of_ne_nil _ hne
    exact ⟨r, hr, hall r hr⟩
  · intro ⟨r, hr, htarget⟩
    refine ⟨List.ne_nil_of_mem hr, ?_⟩
    obtain ⟨w, hw, hall⟩ := h r hr
    rw [hw] at htarget
    rwa [← htarget]

/-- Only redirects that contradict each other, or cannot be read, are kept. -/
theorem keepsPolicy_iff {redirects : List XNode} :
    keepsPolicy host false redirects ↔ 1 < redirects.length ∧ ¬Unambiguous host redirects := by
  rw [keepsPolicy, or_iff_right Bool.false_ne_true]
  refine and_congr_right fun hmany => ?_
  rw [Option.eq_none_iff_forall_ne_some]
  constructor
  · intro hnone hsame
    have hne : redirects ≠ [] := List.ne_nil_of_length_pos (Nat.zero_lt_of_lt hmany)
    obtain ⟨r, hr⟩ := List.exists_mem_of_ne_nil _ hne
    obtain ⟨v, -, hall⟩ := hsame r hr
    exact hnone v (tryResolveEffectiveRedirectVersion_eq_some.mpr ⟨List.ne_nil_of_mem hr, hall⟩)
  · intro hnot v hsome
    obtain ⟨-, hall⟩ := tryResolveEffectiveRedirectVersion_eq_some.mp hsome
    exact hnot fun r hr => ⟨v, hall r hr, hall⟩

theorem zero_le_of_isReference {v : Version} (h : IsReference v) : Version.zero ≤ v := by
  have hlt (xs ys : List Component) (hlength : xs.length = ys.length) (hzero : ∀ x ∈ xs, x = 0) :
      ¬ys < xs := by
    induction xs generalizing ys with
    | nil =>
        rw [List.eq_nil_of_length_eq_zero hlength.symm]
        exact lt_irrefl []
    | cons x xs ih =>
        cases ys with
        | nil => cases hlength
        | cons y ys =>
            obtain rfl := hzero x List.mem_cons_self
            rw [List.cons_lt_cons_iff]
            intro h
            rcases h with hlt | ⟨-, hlt⟩
            · exact Fin.not_lt_zero y hlt
            · have hrest : ∀ z ∈ xs, z = 0 := fun z hz => hzero z (List.mem_cons_of_mem 0 hz)
              exact ih ys (Nat.succ.inj hlength) hrest hlt
  exact not_lt.mp (hlt _ _ h.symm (by simp [Version.zero]))

/-- **The redirect that is written** binds all references up to a version to it. -/
theorem redirects_redirectElement {target reference : Version} (hreference : IsReference reference)
    (hle : reference ≤ target) : Redirects host [redirectElement target] reference target := by
  have hsplit : (Version.zero.toText ++ code '-' :: target.toText).splitOn (code '-')
      = [Version.zero.toText, target.toText] := by
    have hjoin : Version.zero.toText ++ code '-' :: target.toText
        = [code '-'].intercalate [Version.zero.toText, target.toText] := by
      simp [List.intercalate]
    rw [hjoin]
    refine List.splitOn_intercalate _ (fun text htext hminus => ?_) (List.cons_ne_nil _ _)
    have hnone (v : Version) : code '-' ∉ v.toText := by
      intro hmem
      rcases isAsciiDigit_or_of_mem_toText hmem with hdigit | hpoint
      · exact (isAsciiDigit_facts hdigit).2.1 rfl
      · exact absurd hpoint (by decide)
    rcases List.mem_cons.mp htext with rfl | htext
    · exact hnone _ hminus
    · rw [List.mem_singleton.mp htext] at hminus
      exact hnone _ hminus
  refine ⟨_, List.mem_singleton_self _, newVersion_redirectElement target, Version.zero, target,
    ?_, zero_le_of_isReference hreference, hle⟩
  have htext : (redirectElement target).attributeValue .oldVersion
      = some (Version.zero.toText ++ code '-' :: target.toText) := rfl
  rw [oldVersions, htext, Option.getD_some, hsplit]
  dsimp only
  rw [tryParseVersion_toText, tryParseVersion_toText]
  rfl

/-! ### The entries of one assembly -/

/-- The versions that an assembly can be bound to: those with a known location, and the targets
of its redirects. -/
def KnownTarget (host : Host) (probed : Option AssemblyCandidate) (a : AssemblyInfo)
    (entries : List XNode) (v : Version) : Prop :=
  KnownVersion host probed a entries v
    ∨ ∃ r ∈ elementsOf .bindingRedirect entries, newVersion host r = some v

/-- One entry, which redirects to the highest version what was redirected up to it. -/
structure NormalizedEntry (host : Host) (probed : Option AssemblyCandidate) (a : AssemblyInfo)
    (entries : List XNode) (entry : XNode) (target : Version) : Prop where
  redirect : ∃ redirect, entry.elements .bindingRedirect = [redirect]
    ∧ newVersion host redirect = some target
  greatest : IsGreatest {v | KnownTarget host probed a entries v} target
  redirected : ∀ reference v, IsReference reference → reference ≤ target →
    Redirects host (elementsOf .bindingRedirect entries) reference v →
      Redirects host (entry.elements .bindingRedirect) reference target ∧ v ≤ target

/-- Redirects that agree are replaced; several that do not are kept. -/
structure Reconciled (host : Host) (probed : Option AssemblyCandidate) (a : AssemblyInfo)
    (entries updated : List XNode) : Prop where
  normalized : Unambiguous host (elementsOf .bindingRedirect entries) →
    ∃ entry target, updated = [entry] ∧ NormalizedEntry host probed a entries entry target
  kept : 1 < (elementsOf .bindingRedirect entries).length →
    ¬Unambiguous host (elementsOf .bindingRedirect entries) →
      elementsOf .bindingRedirect updated = elementsOf .bindingRedirect entries

section

variable {probeDirectories : List WString} {uri : WString} {probed : Option AssemblyCandidate}
  {entries updated : List XNode}

theorem exists_entryCandidate_iff (h : Found host a probeDirectories uri probed)
    (hsame : Unambiguous host (elementsOf .bindingRedirect entries)) {v : Version} :
    (∃ c ∈ entryCandidates host a uri probed entries, c.assemblyVersion = v)
      ↔ KnownTarget host probed a entries v := by
  rw [KnownTarget, ← located_candidatesOf h, ← hsame.target_iff]
  constructor
  · intro ⟨c, hc, hversion⟩
    by_cases hsource : c.source = .existingRedirect
    · rcases mem_candidatesOf.mp hc with rfl | hprobed | ⟨x, -, hx⟩ | ⟨w, hw, rfl⟩
      · cases hsource
      · exact absurd hsource (firstProbingHit_spec (hprobed ▸ h.probed)).1.source
      · exact absurd hsource (codeBaseCandidate_eq_some hx).2.2.1.source
      · exact .inr (hversion ▸ hw)
    · exact .inl ⟨c, hc, (h.isFile hc hsource).hasCodeBase, hversion⟩
  · intro hknown
    rcases hknown with ⟨c, hc, -, hversion⟩ | hredirect
    · exact ⟨c, hc, hversion⟩
    · exact ⟨_, mem_candidatesOf.mpr (.inr (.inr (.inr ⟨v, hredirect, rfl⟩))), rfl⟩

/-- **The update of the entries** of an assembly, when redirects are allowed. -/
theorem updateEntries_reconciled (h : Found host a probeDirectories uri probed)
    (hentries : AreEntries entries)
    (hupdate : updateEntries host false probeDirectories a entries = some updated) :
    Reconciled host probed a entries updated where
  normalized := by
    intro hsame
    have hrewrites : ¬keepsPolicy host false (elementsOf .bindingRedirect entries) :=
      fun hkeeps => (keepsPolicy_iff.mp hkeeps).2 hsame
    obtain ⟨c, hselected, heq⟩ := updateEntries_rewrites h hrewrites
    rw [hupdate] at heq
    obtain rfl := Option.some.inj heq
    have hredirect : (rewrittenDependentAssembly host a c).elements .bindingRedirect
        = [redirectElement c.assemblyVersion] :=
      (List.append_nil _).symm.trans (rewrittenDependentAssembly_elements a c).1
    have hgreatest : IsGreatest {v | KnownTarget host probed a entries v} c.assemblyVersion := by
      refine ⟨(exists_entryCandidate_iff h hsame).mp ⟨c, hselected.mem, rfl⟩, fun v hv => ?_⟩
      obtain ⟨d, hd, rfl⟩ := (exists_entryCandidate_iff h hsame).mpr hv
      exact hselected.highest d hd
    refine ⟨_, c.assemblyVersion, rfl, ⟨_, hredirect, newVersion_redirectElement _⟩, hgreatest, ?_⟩
    intro reference v hreference hle hold
    rw [hredirect]
    refine ⟨redirects_redirectElement hreference hle, hgreatest.2 (.inr ?_)⟩
    obtain ⟨r, hr, htarget, -⟩ := hold
    exact ⟨r, hr, htarget⟩
  kept := by
    intro hmany hdiffer
    rw [updateEntries_keeps h (keepsPolicy_iff.mpr ⟨hmany, hdiffer⟩)] at hupdate
    obtain rfl := Option.some.inj hupdate
    exact bindingRedirects_addToEntries (areCodeBases_missing _ _) hentries

end

end AutoInstrumentation.AssemblyBinding
