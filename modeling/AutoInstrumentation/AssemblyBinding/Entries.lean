import AutoInstrumentation.AssemblyBinding.Update
import AutoInstrumentation.Lib.Classes

/-!
# AutoInstrumentation.AssemblyBinding.Entries

What an update writes into a configuration.

The update of one assembly changes the entries of this assembly only, in a way that depends
on nothing else in the section (`updateEntries`).
-/

namespace AutoInstrumentation.AssemblyBinding

open AutoInstrumentation.Lib
open AutoInstrumentation.Cel (WChar WString code Unicode isAsciiDigit)

/-! ### Elements -/

namespace XNode

theorem add_nil (x : XNode) : x.add [] = x := by
  cases x with
  | element n attributes children => rw [add, withNodes, nodes, List.append_nil]
  | other text => rfl

@[simp] theorem isElement_add (n : XName) (added : List XNode) (x : XNode) :
    (x.add added).isElement n = x.isElement n := by
  cases x with
  | element m attributes nodes => rfl
  | other text => rfl

theorem nodes_add {n : XName} {x : XNode} (h : x.isElement n = true) (added : List XNode) :
    (x.add added).nodes = x.nodes ++ added := by
  cases x with
  | element m attributes nodes => rfl
  | other text => cases h

theorem elements_add {n : XName} {x : XNode} (h : x.isElement n = true) (m : XName)
    (added : List XNode) :
    (x.add added).elements m = x.elements m ++ added.filter (isElement m) := by
  rw [elements, nodes_add h, List.filter_append]
  rfl

end XNode

theorem elementsOf_cons (n : XName) (x : XNode) (xs : List XNode) :
    elementsOf n (x :: xs) = x.elements n ++ elementsOf n xs := rfl

/-- The nodes are `codeBase` elements. -/
def AreCodeBases (added : List XNode) : Prop := ∀ x ∈ added, x.isElement .codeBase = true

theorem AreCodeBases.filter_self {added : List XNode} (h : AreCodeBases added) :
    added.filter (XNode.isElement .codeBase) = added := List.filter_eq_self.mpr h

theorem AreCodeBases.filter_ne {added : List XNode} (h : AreCodeBases added) {n : XName}
    (hn : n ≠ .codeBase) : added.filter (XNode.isElement n) = [] := by
  refine List.filter_eq_nil_iff.mpr fun x hx hname => ?_
  have hcodeBase := h x hx
  cases x with
  | element m attributes nodes =>
      rw [XNode.isElement, beq_iff_eq] at hcodeBase hname
      exact hn (hname.symm.trans hcodeBase)
  | other text => cases hname

/-! ### Matching -/

variable {host : Host}

theorem matchesAssembly_isElement {a : AssemblyInfo} {x : XNode}
    (h : matchesAssembly host a x = true) : x.isElement .dependentAssembly = true :=
  (Bool.and_eq_true _ _ ▸ h : _ ∧ _).1

/-- An entry is of one assembly. -/
theorem matchesAssembly_unique {a b : AssemblyInfo} {x : XNode}
    (ha : matchesAssembly host a x = true) (hb : matchesAssembly host b x = true) :
    host.paths.fold a.name = host.paths.fold b.name := by
  rw [matchesAssembly, Bool.and_eq_true] at ha hb
  obtain ⟨-, ha⟩ := ha
  obtain ⟨-, hb⟩ := hb
  cases hidentity : (x.elements .assemblyIdentity).head? with
  | none =>
      rw [hidentity] at ha
      cases ha
  | some identity =>
      rw [hidentity] at ha hb
      simp only [Bool.and_eq_true] at ha hb
      cases hname : identity.attributeValue .name with
      | none =>
          rw [hname] at ha
          cases ha.1
      | some s =>
          rw [hname] at ha hb
          exact (beq_iff_eq.mp ha.1).symm.trans (beq_iff_eq.mp hb.1)

theorem matchesAssembly_add {a : AssemblyInfo} {added : List XNode} (h : AreCodeBases added)
    (x : XNode) : matchesAssembly host a (x.add added) = matchesAssembly host a x := by
  rw [matchesAssembly, matchesAssembly, XNode.isElement_add]
  cases hx : x.isElement .dependentAssembly with
  | false => rfl
  | true => rw [XNode.elements_add hx, h.filter_ne (by decide), List.append_nil]

/-- A new entry matches its assembly. -/
theorem matchesAssembly_create (a : AssemblyInfo) (added : List XNode) :
    matchesAssembly host a ((createDependentAssembly a).add added) = true := by
  have hequals (s : WString) : host.equals (some s) s = true := by
    simp [Host.equals, Paths.equals]
  have hhead : (((createDependentAssembly a).add added).elements .assemblyIdentity).head?
      = (createDependentAssembly a).nodes.head? := by
    rw [XNode.elements_add (n := .dependentAssembly) rfl]
    rfl
  rw [matchesAssembly, hhead]
  have hname := hequals a.name
  have htoken := hequals a.token
  show (true && (host.equals (some a.name) a.name && host.equals (some a.token) a.token)) = true
  rw [hname, htoken]
  rfl

/-! ### The elements that are missing -/

/-- Characters that are no other's upper case. -/
theorem map_eq_self_iff {α : Type} {f : α → α} {s t : List α}
    (h : ∀ d ∈ t, ∀ c, f c = d ↔ c = d) : s.map f = t ↔ s = t := by
  induction t generalizing s with
  | nil => exact List.map_eq_nil_iff
  | cons d t ih =>
      cases s with
      | nil => exact iff_of_false (fun h => by cases h) (fun h => by cases h)
      | cons c s =>
          rw [List.map_cons, List.cons.injEq, List.cons.injEq, h d List.mem_cons_self c,
            ih fun e he => h e (List.mem_cons_of_mem d he)]

/-- Versions are compared by their text, whatever the case. -/
theorem equals_toText {s : WString} {v : Version} :
    host.paths.equals s v.toText = true ↔ s = v.toText := by
  have hupper (d : WChar) (hd : d ∈ v.toText) (c : WChar) : host.paths.upper c = d ↔ c = d :=
    host.upper_eq_iff (isAsciiDigit_or_of_mem_toText hd)
  have hself : v.toText.map host.paths.upper = v.toText := (map_eq_self_iff hupper).mpr rfl
  rw [Paths.equals, beq_iff_eq, Paths.fold, Paths.fold, hself]
  exact map_eq_self_iff hupper

theorem any_equals_toText {existing : List WString} {v : Version} :
    existing.any (host.paths.equals · v.toText) = true ↔ v.toText ∈ existing := by
  rw [List.any_eq_true]
  constructor
  · intro ⟨s, hs, heq⟩
    exact equals_toText.mp heq ▸ hs
  · intro h
    exact ⟨_, h, equals_toText.mpr rfl⟩

theorem areCodeBases_missing (candidates : List AssemblyCandidate) (existing : List WString) :
    AreCodeBases (missingCodeBases host candidates existing) := by
  induction candidates generalizing existing with
  | nil =>
      intro x hx
      cases hx
  | cons candidate candidates ih =>
      rw [missingCodeBases]
      split
      · exact ih existing
      · intro x hx
        rcases List.mem_cons.mp hx with rfl | hx
        · rfl
        · exact ih _ x hx

/-- The versions that a candidate with a location has. -/
def Located (host : Host) (candidates : List AssemblyCandidate) (v : Version) : Prop :=
  ∃ c ∈ candidates, c.hasCodeBase host.unicode = true ∧ c.assemblyVersion = v

theorem located_cons {c : AssemblyCandidate} {candidates : List AssemblyCandidate} {v : Version} :
    Located host (c :: candidates) v
      ↔ c.hasCodeBase host.unicode = true ∧ c.assemblyVersion = v
        ∨ Located host candidates v := by
  simp [Located]

/-- The number of `codeBase` elements for a version. -/
def codeBaseCount (host : Host) (v : Version) (codeBases : List XNode) : ℕ :=
  codeBases.countP fun x => tryParseVersion host.unicode (x.attributeValue .version) = some v

theorem codeBaseCount_cons (c : AssemblyCandidate) (v : Version) (codeBases : List XNode) :
    codeBaseCount host v (codeBaseElement c :: codeBases)
      = codeBaseCount host v codeBases + if c.assemblyVersion = v then 1 else 0 := by
  have hversion : (codeBaseElement c).attributeValue .version = some c.assemblyVersion.toText := rfl
  rw [codeBaseCount, List.countP_cons, hversion, tryParseVersion_toText]
  simp [codeBaseCount]

/-- **One element is added** for each version with a location that is not written yet. -/
theorem codeBaseCount_missing (host : Host) (candidates : List AssemblyCandidate)
    (existing : List WString) (v : Version) :
    codeBaseCount host v (missingCodeBases host candidates existing) = 1
        ∧ Located host candidates v ∧ v.toText ∉ existing
      ∨ codeBaseCount host v (missingCodeBases host candidates existing) = 0
        ∧ ¬(Located host candidates v ∧ v.toText ∉ existing) := by
  induction candidates generalizing existing with
  | nil => exact .inr ⟨rfl, fun ⟨⟨c, hc, _⟩, _⟩ => by cases hc⟩
  | cons c candidates ih =>
      rw [missingCodeBases, located_cons]
      by_cases hskip : (!c.hasCodeBase host.unicode
          || existing.any (host.paths.equals · c.assemblyVersion.toText)) = true
      · rw [if_pos hskip]
        have hwritten (hc : c.hasCodeBase host.unicode = true) :
            c.assemblyVersion.toText ∈ existing := by
          rw [hc, Bool.not_true, Bool.false_or] at hskip
          exact any_equals_toText.mp hskip
        refine (ih existing).imp (And.imp_right fun ⟨hlocated, hnew⟩ => ⟨.inr hlocated, hnew⟩)
          (And.imp_right fun hnone ⟨hlocated, hnew⟩ => ?_)
        rcases hlocated with ⟨hc, rfl⟩ | hlocated
        · exact hnew (hwritten hc)
        · exact hnone ⟨hlocated, hnew⟩
      · rw [if_neg hskip, codeBaseCount_cons]
        simp only [Bool.or_eq_true, Bool.not_eq_true', not_or, Bool.not_eq_false,
          any_equals_toText] at hskip
        obtain ⟨hc, hnew⟩ := hskip
        by_cases hversion : c.assemblyVersion = v
        · subst hversion
          rw [if_pos rfl]
          rcases ih (c.assemblyVersion.toText :: existing) with ⟨-, -, hnot⟩ | ⟨hcount, -⟩
          · exact absurd List.mem_cons_self hnot
          · rw [hcount]
            exact .inl ⟨rfl, .inl ⟨hc, rfl⟩, hnew⟩
        · have htext : v.toText ≠ c.assemblyVersion.toText :=
            fun heq => hversion (toText_injective heq).symm
          rw [if_neg hversion, Nat.add_zero]
          have hcons := ih (c.assemblyVersion.toText :: existing)
          simpa only [List.mem_cons, htext, false_or, hversion, and_false] using hcons

theorem missingCodeBases_eq_nil {candidates : List AssemblyCandidate} {existing : List WString}
    (h : ∀ v, Located host candidates v → v.toText ∈ existing) :
    missingCodeBases host candidates existing = [] := by
  induction candidates with
  | nil => rfl
  | cons c candidates ih =>
      rw [missingCodeBases]
      rw [if_pos]
      · exact ih fun v hv => h v (located_cons.mpr (.inr hv))
      · cases hc : c.hasCodeBase host.unicode with
        | false => rfl
        | true =>
            rw [Bool.not_true, Bool.false_or, any_equals_toText]
            exact h _ (located_cons.mpr (.inl ⟨hc, rfl⟩))

/-- What is added has the text of a version. -/
theorem exists_of_mem_missing {candidates : List AssemblyCandidate} {existing : List WString}
    {x : XNode} (h : x ∈ missingCodeBases host candidates existing) :
    ∃ c ∈ candidates, c.hasCodeBase host.unicode = true ∧ x = codeBaseElement c := by
  induction candidates generalizing existing with
  | nil => cases h
  | cons candidate candidates ih =>
      rw [missingCodeBases] at h
      split at h
      · obtain ⟨c, hc, hlocated⟩ := ih h
        exact ⟨c, List.mem_cons_of_mem _ hc, hlocated⟩
      · next hnew =>
          rcases List.mem_cons.mp h with rfl | h
          · refine ⟨candidate, List.mem_cons_self, ?_, rfl⟩
            simp only [Bool.or_eq_true, Bool.not_eq_true', not_or] at hnew
            exact Bool.not_eq_false _ ▸ hnew.1
          · obtain ⟨c, hc, hlocated⟩ := ih h
            exact ⟨c, List.mem_cons_of_mem _ hc, hlocated⟩

/-! ### The entries of one assembly -/

/-- The entries with something added to the first of them, or to a new one. -/
def addToEntries (a : AssemblyInfo) (added : List XNode) : List XNode → List XNode
  | [] => [(createDependentAssembly a).add added]
  | entry :: entries => entry.add added :: entries

/-- What becomes of the entries of an assembly. -/
def updateEntries (host : Host) (disallowBindingRedirects : Bool)
    (probeDirectories : List WString) (a : AssemblyInfo) (entries : List XNode) :
    Option (List XNode) := do
  let existingRedirects := elementsOf .bindingRedirect entries
  let candidates ← collectCandidates host a entries
    (tryResolveEffectiveRedirectVersion host existingRedirects) probeDirectories
  if keepsPolicy host disallowBindingRedirects existingRedirects then
    return addToEntries a (missingCodeBases host candidates (existingVersions host entries)) entries
  else return [rewrittenDependentAssembly host a (← selectCandidate candidates)]

/-- The entries of an assembly. -/
def entriesOf (host : Host) (a : AssemblyInfo) (assemblyBinding : List XNode) : List XNode :=
  assemblyBinding.filter (matchesAssembly host a)

variable {disallowBindingRedirects : Bool} {probeDirectories : List WString} {a : AssemblyInfo}

theorem filter_addToFirst {p : XNode → Bool} {added : List XNode} (hadded : AreCodeBases added)
    (xs : List XNode) (hp : Apart (matchesAssembly host a) p) :
    (addToFirst (matchesAssembly host a) added xs).filter p = xs.filter p := by
  induction xs with
  | nil => rfl
  | cons x xs ih =>
      rw [addToFirst]
      cases hx : matchesAssembly host a x with
      | false =>
          rw [if_neg Bool.false_ne_true, List.filter_cons, List.filter_cons, ih]
      | true =>
          have hmoved : p (x.add added) = false := hp _ ((matchesAssembly_add hadded x).trans hx)
          rw [if_pos rfl, List.filter_cons, List.filter_cons, hmoved, hp x hx,
            if_neg Bool.false_ne_true, if_neg Bool.false_ne_true]

theorem entriesOf_addToFirst {added : List XNode} (hadded : AreCodeBases added) {x : XNode}
    {xs entries : List XNode} (h : entriesOf host a xs = x :: entries) :
    entriesOf host a (addToFirst (matchesAssembly host a) added xs) = x.add added :: entries := by
  induction xs with
  | nil => cases h
  | cons y xs ih =>
      rw [entriesOf, List.filter_cons] at h
      rw [addToFirst]
      cases hy : matchesAssembly host a y with
      | false =>
          rw [hy, if_neg Bool.false_ne_true] at h
          rw [if_neg Bool.false_ne_true, entriesOf, List.filter_cons, hy,
            if_neg Bool.false_ne_true]
          exact ih h
      | true =>
          rw [hy, if_pos rfl] at h
          cases h
          rw [if_pos rfl, entriesOf, List.filter_cons, matchesAssembly_add hadded, hy, if_pos rfl]

/-- The update of an assembly, by its entries. -/
structure Updated (host : Host) (a : AssemblyInfo) (entries assemblyBinding updated : List XNode) :
    Prop where
  entries : entriesOf host a updated = entries
  others : ∀ p, Apart (matchesAssembly host a) p → updated.filter p = assemblyBinding.filter p

/-- A new entry behind the others. -/
theorem Updated.concat {assemblyBinding kept : List XNode} {entry : XNode}
    (hentry : matchesAssembly host a entry = true) (hkept : entriesOf host a kept = [])
    (hothers : ∀ p, Apart (matchesAssembly host a) p → kept.filter p = assemblyBinding.filter p) :
    Updated host a [entry] assemblyBinding (kept ++ [entry]) := by
  refine ⟨?_, fun p hp => ?_⟩
  · rw [entriesOf, List.filter_append, ← entriesOf, hkept, List.filter_singleton, hentry]
    rfl
  · rw [List.filter_append, hothers p hp, List.filter_singleton, hp entry hentry]
    exact List.append_nil _

/-- The update that only adds `codeBase` elements. -/
theorem ensureCandidateCodeBases_updated (assemblyBinding : List XNode)
    (candidates : List AssemblyCandidate) :
    Updated host a
      (addToEntries a (missingCodeBases host candidates
        (existingVersions host (entriesOf host a assemblyBinding)))
        (entriesOf host a assemblyBinding))
      assemblyBinding (ensureCandidateCodeBases host assemblyBinding a candidates) := by
  have hadded : AreCodeBases (missingCodeBases host candidates
      (existingVersions host (entriesOf host a assemblyBinding))) := areCodeBases_missing _ _
  rw [ensureCandidateCodeBases, ← entriesOf]
  cases hentries : entriesOf host a assemblyBinding with
  | nil =>
      rw [if_pos rfl]
      exact .concat (matchesAssembly_create a _) hentries fun _ _ => rfl
  | cons entry entries =>
      rw [if_neg (List.cons_ne_nil _ _)]
      rw [hentries] at hadded
      exact ⟨entriesOf_addToFirst hadded hentries, fun p hp => filter_addToFirst hadded _ hp⟩

/-- The update that writes a new entry. -/
theorem rewriteDependentAssembly_updated (assemblyBinding : List XNode) (c : AssemblyCandidate) :
    Updated host a [rewrittenDependentAssembly host a c] assemblyBinding
      (rewriteDependentAssembly host assemblyBinding a c) := by
  refine .concat (matchesAssembly_create a _) ?_ fun p hp => ?_
  · rw [entriesOf, List.filter_filter]
    exact List.filter_eq_nil_iff.mpr fun x _ => by simp
  · exact filter_apart hp assemblyBinding

/-- **One turn of the loop** changes the entries of its assembly only. -/
theorem modifyAssembly_spec (host : Host) (disallowBindingRedirects : Bool)
    (probeDirectories : List WString) (a : AssemblyInfo) (assemblyBinding : List XNode) :
    (modifyAssembly host disallowBindingRedirects probeDirectories assemblyBinding a = none
        ∧ updateEntries host disallowBindingRedirects probeDirectories a
          (entriesOf host a assemblyBinding) = none)
      ∨ ∃ updated entries,
        modifyAssembly host disallowBindingRedirects probeDirectories assemblyBinding a
            = some updated
          ∧ updateEntries host disallowBindingRedirects probeDirectories a
            (entriesOf host a assemblyBinding) = some entries
          ∧ Updated host a entries assemblyBinding updated := by
  rw [modifyAssembly, updateEntries, ← entriesOf]
  cases collectCandidates host a (entriesOf host a assemblyBinding)
      (tryResolveEffectiveRedirectVersion host
        (elementsOf .bindingRedirect (entriesOf host a assemblyBinding))) probeDirectories with
  | none => exact .inl ⟨rfl, rfl⟩
  | some candidates =>
      by_cases hkeeps : keepsPolicy host disallowBindingRedirects
          (elementsOf .bindingRedirect (entriesOf host a assemblyBinding))
      · refine .inr ⟨_, _, ?_, ?_, ensureCandidateCodeBases_updated assemblyBinding candidates⟩
        · exact if_pos hkeeps
        · exact if_pos hkeeps
      · cases hselected : selectCandidate candidates with
        | none =>
            refine .inl ⟨(if_neg hkeeps).trans ?_, (if_neg hkeeps).trans ?_⟩
            · rw [hselected]
              rfl
            · rw [hselected]
              rfl
        | some c =>
            refine .inr ⟨_, _, (if_neg hkeeps).trans ?_, (if_neg hkeeps).trans ?_,
              rewriteDependentAssembly_updated assemblyBinding c⟩
            · rw [hselected]
              rfl
            · rw [hselected]
              rfl

/-- **The loop** updates the entries of each assembly by themselves. -/
theorem modifyAssembly_classwise :
    Classwise (matchesAssembly host)
      (updateEntries host disallowBindingRedirects probeDirectories)
      (modifyAssembly host disallowBindingRedirects probeDirectories) where
  isSome assemblyBinding a := by
    rcases modifyAssembly_spec host disallowBindingRedirects probeDirectories a assemblyBinding
      with ⟨hstep, hentries⟩ | ⟨_, _, hstep, hentries, -⟩
    · rw [hstep, ← entriesOf, hentries]
    · rw [hstep, ← entriesOf, hentries]
      rfl
  own := by
    intro assemblyBinding a updated h
    rcases modifyAssembly_spec host disallowBindingRedirects probeDirectories a assemblyBinding
      with ⟨hstep, -⟩ | ⟨_, _, hstep, hentries, hupdated⟩
    · rw [h] at hstep
      cases hstep
    · rw [h] at hstep
      cases hstep
      rw [← entriesOf, ← entriesOf, hupdated.entries, hentries]
  others := by
    intro assemblyBinding a updated h
    rcases modifyAssembly_spec host disallowBindingRedirects probeDirectories a assemblyBinding
      with ⟨hstep, -⟩ | ⟨_, _, hstep, -, hupdated⟩
    · rw [h] at hstep
      cases hstep
    · rw [h] at hstep
      cases hstep
      exact hupdated.others

/-- The assemblies of a catalog have no entry in common. -/
theorem AssemblyCatalog.separate (catalog : AssemblyCatalog host.paths) :
    Separate (matchesAssembly host) catalog.assemblies := by
  refine (List.pairwise_map.mp catalog.distinct).imp fun {a b} hne x ha => ?_
  cases hb : matchesAssembly host b x with
  | false => rfl
  | true => exact absurd (matchesAssembly_unique ha hb) hne

end AutoInstrumentation.AssemblyBinding
