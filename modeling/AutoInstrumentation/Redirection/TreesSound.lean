import AutoInstrumentation.Redirection.Trees
import AutoInstrumentation.Redirection.VersionText
import AutoInstrumentation.ReflectionName.ParserSound
import Mathlib.Data.List.Forall2

/-!
# AutoInstrumentation.Redirection.TreesSound

The rewrite of a type name is the change of its tree.

`collectEdits_references` says that the edits are the splices of the pieces, in their
order, so that sorting them changes nothing and none of them overlap. What the rewrite
returns is then the text of the changed tree (`rewrite_text`). The changed tree is a type
name of the same shape again, whose references ask for no less than before and for at
least what the map says, so that a second rewrite finds nothing to do.
-/

namespace AutoInstrumentation.Redirection

open Lib ReflectionName

/-! ### The edits of a qualification -/

theorem versionSpan_text (start : ℕ) (properties : List Property) :
    (versionSpan start properties).map Span.text = versionText properties := by
  induction properties generalizing start with
  | nil => rfl
  | cons p properties ih =>
      rw [versionSpan, versionText]
      by_cases hp : p.isVersion = true
      · rw [if_pos hp, List.find?_cons_of_pos hp]
        rfl
      · rw [if_neg hp, List.find?_cons_of_neg hp]
        exact ih (start + p.text.length)

theorem any_isVersion_eq (properties : List Property) :
    properties.any Property.isVersion = (versionText properties).isSome := by
  rw [versionText, Option.isSome_map, List.isSome_find?]

theorem compareToAssemblyVersion_le_zero {redirect : AssemblyVersionRedirection}
    {requested : AssemblyMetadata} :
    redirect.compareToAssemblyVersion requested ≤ 0
      ↔ redirect.toAssemblyMetadata ≤ requested := by
  rw [← not_lt, AssemblyVersionRedirection.compareToAssemblyVersion_pos, not_lt]

/-- The edit that makes a replacement. -/
def Edit.ofSplice (s : Splice Byte WString) : Edit := ⟨s.start, s.finish, s.value, s.tag⟩

section
variable (toWSTRING : List Byte → WString) (redirects : AssemblyRedirects)

/-- The qualification, cut where it is redirected. -/
def pieces (q : Qualification) : List (Piece Byte WString) :=
  match target toWSTRING redirects q with
  | some (some (key, version)) => versionPieces version.versionStr key q
  | _ => [.keep q.text]

theorem oldText_pieces (q : Qualification) : oldText (pieces toWSTRING redirects q) = q.text := by
  rw [pieces]
  rcases target toWSTRING redirects q with _ | _ | ⟨key, version⟩
  · simp
  · simp
  · exact oldText_versionPieces version.versionStr key q

theorem newText_pieces (q : Qualification) :
    newText (pieces toWSTRING redirects q) = (redirected toWSTRING redirects q).text := by
  rw [pieces, redirected]
  rcases target toWSTRING redirects q with _ | _ | ⟨key, version⟩
  · simp
  · simp
  · exact newText_versionPieces version.versionStr key q

theorem tags_pieces (q : Qualification) :
    tags (pieces toWSTRING redirects q) = (redirectedKey toWSTRING redirects q).toList := by
  rw [pieces, redirectedKey]
  rcases target toWSTRING redirects q with _ | _ | ⟨key, version⟩
  · rfl
  · rfl
  · exact tags_versionPieces version.versionStr key q

/-- A new version is put at the place that the reference names. -/
theorem splices_versionPieces (version : List Byte) (key : WString) (q : Qualification)
    (start : ℕ) :
    (splices start (versionPieces version key q)).map Edit.ofSplice
      = [match (q.reference start).versionSpan with
        | none => ⟨(q.reference start).insertVersionAt, (q.reference start).insertVersionAt,
            versionQualifier ++ version, key⟩
        | some span => ⟨span.start, span.finish, version, key⟩] := by
  have hhead : start + (nameHead q).length = (q.reference start).insertVersionAt := by
    simp only [nameHead, Qualification.reference, List.length_append, List.length_cons]
    omega
  have hspan : (q.reference start).versionSpan
      = versionSpan (q.reference start).insertVersionAt q.properties := rfl
  have htext := versionSpan_text (q.reference start).insertVersionAt q.properties
  rw [versionPieces, splices, hhead, hspan, any_isVersion_eq, ← htext]
  cases hversion : versionSpan (q.reference start).insertVersionAt q.properties with
  | none => rfl
  | some span =>
      rw [Option.map_some, Option.isSome_some, if_pos rfl, splices_propertiesPieces, hversion]
      rfl

/-- **The edit of a reference.** -/
theorem redirectReference_reference (q : Qualification) (start : ℕ) :
    (redirectReference toWSTRING redirects (q.reference start)).map Option.toList
      = if isReadable toWSTRING redirects q then
          some ((splices start (pieces toWSTRING redirects q)).map Edit.ofSplice)
        else none := by
  have hname : (q.reference start).assemblyName = q.name.value := rfl
  have htext : ((q.reference start).versionSpan).map Span.text = versionText q.properties :=
    versionSpan_text (q.reference start).insertVersionAt q.properties
  rw [redirectReference, hname, isReadable, pieces, target]
  cases redirects.findIgnoringCase (toWSTRING q.name.value) with
  | none => rfl
  | some entry =>
      obtain ⟨key, redirect⟩ := entry
      have hsplices := splices_versionPieces redirect.versionStr key q start
      cases hversion : (q.reference start).versionSpan with
      | none =>
          rw [hversion] at htext hsplices
          simp only [← htext, Option.map_none, hsplices]
          rfl
      | some span =>
          rw [hversion] at htext hsplices
          simp only [← htext, Option.map_some]
          cases tryParseVersion span.text with
          | none => rfl
          | some requested =>
              simp only [compareToAssemblyVersion_le_zero]
              by_cases hle : redirect.toAssemblyMetadata ≤ requested
              · simp [hle, splices]
              · simp [hle, hsplices]

/-! ### The edits of a type name -/

/-- If `ok`, the loop over the references collects `edits`; otherwise it fails. -/
def Gathers (references : List ParsedAssemblyReference) (ok : Bool) (edits : List Edit) : Prop :=
  collectEdits toWSTRING redirects references = if ok then some edits else none

variable {toWSTRING redirects}

theorem Gathers.nil : Gathers toWSTRING redirects [] true [] := rfl

theorem collectEdits_cons (reference : ParsedAssemblyReference)
    (references : List ParsedAssemblyReference) :
    collectEdits toWSTRING redirects (reference :: references)
      = ((redirectReference toWSTRING redirects reference).map Option.toList).bind fun edit =>
          (collectEdits toWSTRING redirects references).map (edit ++ ·) := by
  rw [collectEdits]
  cases redirectReference toWSTRING redirects reference with
  | none => rfl
  | some edit => rfl

theorem Gathers.append {references more : List ParsedAssemblyReference} {ok ok' : Bool}
    {edits edits' : List Edit} (h : Gathers toWSTRING redirects references ok edits)
    (h' : Gathers toWSTRING redirects more ok' edits') :
    Gathers toWSTRING redirects (references ++ more) (ok && ok') (edits ++ edits') := by
  have hall : collectEdits toWSTRING redirects (references ++ more)
      = (collectEdits toWSTRING redirects references).bind fun edits =>
          (collectEdits toWSTRING redirects more).map (edits ++ ·) := by
    clear h
    induction references with
    | nil => simp [collectEdits]
    | cons reference references ih =>
        rw [List.cons_append, collectEdits_cons, collectEdits_cons, ih]
        cases (redirectReference toWSTRING redirects reference).map Option.toList with
        | none => rfl
        | some edit =>
            cases collectEdits toWSTRING redirects references with
            | none => rfl
            | some edits => cases collectEdits toWSTRING redirects more <;> simp
  simp only [Gathers] at h h' ⊢
  rw [hall, h, h']
  cases ok with
  | false => rfl
  | true => cases ok' <;> rfl

theorem Gathers.single (q : Qualification) (start : ℕ) :
    Gathers toWSTRING redirects [q.reference start] (isReadable toWSTRING redirects q)
      ((splices start (pieces toWSTRING redirects q)).map Edit.ofSplice) := by
  rw [Gathers, collectEdits_cons, redirectReference_reference]
  cases isReadable toWSTRING redirects q with
  | false => rfl
  | true => simp [collectEdits]

/-- A part of the name in which nothing is replaced, in front of one that is cut. -/
theorem splices_keep (start : ℕ) (text : List Byte) (more : List (Piece Byte WString)) :
    splices start (.keep text :: more) = splices (start + text.length) more := rfl

mutual

/-- **The edits are the splices of the pieces.** -/
theorem gathers_references : (t : TypeName) → (start : ℕ) →
    Gathers toWSTRING redirects (t.references start)
      (t.assemblies.all (isReadable toWSTRING redirects))
      ((splices start (typePieces (pieces toWSTRING redirects) t)).map Edit.ofSplice)
  | .mk before names arguments suffixes assembly behind, start => by
      have hlist := gathers_listReferences arguments (start + before.length + names.text.length)
      have hold := oldText_listPieces (oldText_pieces toWSTRING redirects) arguments
      rw [TypeName.references, TypeName.assemblies, List.all_append, typePieces, splices_keep,
        splices_append, splices_keep, splices_append, hold, List.map_append, List.map_append]
      simp only [List.length_append, ← Nat.add_assoc]
      refine hlist.append ?_
      cases assembly with
      | none => exact .nil
      | some q =>
          have hone := @Gathers.single toWSTRING redirects q (start + before.length
            + names.text.length + (listText arguments).length + (suffixesText suffixes).length)
          simpa [assemblyPieces, splices] using hone

theorem gathers_argumentReferences : (a : Argument) → (start : ℕ) →
    Gathers toWSTRING redirects (a.references start)
      (a.assemblies.all (isReadable toWSTRING redirects))
      ((splices start (argumentPieces (pieces toWSTRING redirects) a)).map Edit.ofSplice)
  | .bare type, start => by
      rw [Argument.references, Argument.assemblies, argumentPieces]
      exact gathers_references type start
  | .bracketed before type behind, start => by
      have htype := gathers_references type (start + before.length + 1)
      rw [Argument.references, Argument.assemblies, argumentPieces, splices_keep, splices_append]
      simpa [splices, Nat.add_assoc] using htype

theorem gathers_listReferences : (arguments : List Argument) → (start : ℕ) →
    Gathers toWSTRING redirects (argumentsReferences (start + 1) arguments)
      ((argumentsAssemblies arguments).all (isReadable toWSTRING redirects))
      ((splices start (listPieces (pieces toWSTRING redirects) arguments)).map Edit.ofSplice)
  | [], _ => .nil
  | argument :: arguments, start => by
      have hargument := gathers_argumentReferences argument (start + 1)
      have hmore := gathers_moreReferences arguments (start + 1 + argument.text.length)
      have hold := oldText_argumentPieces (oldText_pieces toWSTRING redirects) argument
      rw [argumentsReferences, argumentsAssemblies, List.all_append, listPieces, splices_keep,
        splices_append, splices_append, hold]
      simpa [splices, Nat.add_assoc] using hargument.append hmore

theorem gathers_moreReferences : (arguments : List Argument) → (start : ℕ) →
    Gathers toWSTRING redirects (argumentsReferences (start + 1) arguments)
      ((argumentsAssemblies arguments).all (isReadable toWSTRING redirects))
      ((splices start (morePieces (pieces toWSTRING redirects) arguments)).map Edit.ofSplice)
  | [], _ => .nil
  | argument :: arguments, start => by
      have hargument := gathers_argumentReferences argument (start + 1)
      have hmore := gathers_moreReferences arguments (start + 1 + argument.text.length)
      have hold := oldText_argumentPieces (oldText_pieces toWSTRING redirects) argument
      rw [argumentsReferences, argumentsAssemblies, List.all_append, morePieces, splices_keep,
        splices_append, hold]
      simpa [splices, Nat.add_assoc] using hargument.append hmore

end

/-! ### The rewrite -/

theorem before_of_le {left right : Edit} (hleft : left.start ≤ left.finish)
    (hright : right.start ≤ right.finish) (hle : left.finish ≤ right.start) :
    left.before right = true := by
  rw [Edit.before]
  split
  · rw [decide_eq_true_eq]
    omega
  · rw [decide_eq_true_eq]
    omega

/-- Edits in order are not moved by the sort. -/
theorem mergeSort_splices (start : ℕ) (pieces : List (Piece Byte WString)) :
    ((splices start pieces).map Edit.ofSplice).mergeSort Edit.before
      = (splices start pieces).map Edit.ofSplice := by
  have horder := pairwise_splices start pieces
  refine List.mergeSort_of_pairwise (List.pairwise_map.mpr ?_)
  refine horder.imp_of_mem fun {s t} hs ht hle => ?_
  exact before_of_le (start_le_of_mem_splices hs).2 (start_le_of_mem_splices ht).2 hle

theorem applyEdits_ofSplice (typeName : List Byte) (copied : ℕ)
    (splices : List (Splice Byte WString)) :
    applyEdits typeName copied (splices.map Edit.ofSplice)
      = applySplices typeName copied splices := by
  induction splices generalizing copied with
  | nil => rfl
  | cons s splices ih =>
      rw [List.map_cons, applyEdits, applySplices, ih]
      rfl

/-- The parser can collect the references. -/
def isCollected (t : TypeName) : Bool :=
  decide (t.bracketDepth ≤ maxGenericNestingDepth) && !t.hasBareQuote

theorem parse_text {t : TypeName} (hwf : t.wellFormed = true) (hquotes : t.quoteFree = true) :
    parseTypeNameAssemblyReferences t.text
      = if isCollected t then (true, t.references 0) else (false, []) := by
  have hcollect := collectType_text t hwf hquotes maxGenericNestingDepth 0 []
  rw [← isCollected] at hcollect
  rw [parseTypeNameAssemblyReferences]
  cases hok : isCollected t with
  | true =>
      rw [hok, if_pos rfl, List.nil_append] at hcollect
      rw [hcollect]
      rfl
  | false =>
      rw [hok, if_neg Bool.false_ne_true] at hcollect
      generalize collectType maxGenericNestingDepth ⟨0, t.text⟩ [] = result at hcollect
      obtain ⟨success, references⟩ := result
      obtain rfl : success = false := hcollect
      rfl

theorem rewrite_of_collectEdits {typeName : List Byte} {references : List ParsedAssemblyReference}
    {edits : List Edit} (hparse : parseTypeNameAssemblyReferences typeName = (true, references))
    (hedits : collectEdits toWSTRING redirects references = some edits) :
    tryRewriteTypeNameAssemblyRedirections toWSTRING redirects typeName
      = if edits = [] then none
        else (applyEdits typeName 0 (edits.mergeSort Edit.before)).map fun rewritten =>
          (rewritten, (edits.mergeSort Edit.before).map Edit.assemblyName) := by
  rw [tryRewriteTypeNameAssemblyRedirections, hparse]
  simp only [hedits]
  cases edits with
  | nil => rfl
  | cons edit edits => rfl

variable (toWSTRING redirects)

/-- The keys of the references that are redirected. -/
def redirectedKeys (t : TypeName) : List WString :=
  t.assemblies.filterMap (redirectedKey toWSTRING redirects)

/-- **The rewrite changes the tree**, if there is something to change and all versions
can be read. -/
theorem rewrite_text {t : TypeName} (hwf : t.wellFormed = true) (hquotes : t.quoteFree = true) :
    tryRewriteTypeNameAssemblyRedirections toWSTRING redirects t.text
      = if isCollected t = true ∧ t.assemblies.all (isReadable toWSTRING redirects) = true
            ∧ redirectedKeys toWSTRING redirects t ≠ [] then
          some ((t.mapAssemblies (redirected toWSTRING redirects)).text,
            redirectedKeys toWSTRING redirects t)
        else none := by
  have hparse := parse_text hwf hquotes
  have hedits := @gathers_references toWSTRING redirects t 0
  have hold := oldText_typePieces (oldText_pieces toWSTRING redirects) t
  have hnew := newText_typePieces (newText_pieces toWSTRING redirects) t
  have htags := tags_typePieces (tags_pieces toWSTRING redirects) t
  rw [Gathers] at hedits
  cases hcollected : isCollected t with
  | false =>
      rw [hcollected] at hparse
      rw [tryRewriteTypeNameAssemblyRedirections, hparse]
      simp
  | true =>
      rw [hcollected, if_pos rfl] at hparse
      cases hreadable : t.assemblies.all (isReadable toWSTRING redirects) with
      | false =>
          rw [hreadable] at hedits
          rw [tryRewriteTypeNameAssemblyRedirections, hparse]
          simp [hedits]
      | true =>
          rw [hreadable, if_pos rfl] at hedits
          have hkeys : ((splices 0 (typePieces (pieces toWSTRING redirects) t)).map
              Edit.ofSplice).map Edit.assemblyName = redirectedKeys toWSTRING redirects t := by
            rw [List.map_map, redirectedKeys, ← htags, ← tags_splices 0]
            rfl
          have happly : applyEdits t.text 0
                ((splices 0 (typePieces (pieces toWSTRING redirects) t)).map Edit.ofSplice)
              = some (t.mapAssemblies (redirected toWSTRING redirects)).text := by
            rw [applyEdits_ofSplice, ← hold, applySplices_pieces, hnew]
          rw [rewrite_of_collectEdits hparse hedits, mergeSort_splices, hkeys, happly, ← hkeys]
          by_cases hnone : splices 0 (typePieces (pieces toWSTRING redirects) t) = []
          · simp [hnone]
          · simp [hnone]

/-! ### The changed tree -/

theorem ne_of_isDigit {c d : Byte} (hc : isDigit c = true) (hd : isDigit d = false) : c ≠ d := by
  intro heq
  subst heq
  rw [hc] at hd
  cases hd

/-- A version is written without anything to escape. -/
theorem isWord_versionStr (version : AssemblyMetadata) : isWord version.versionStr = true := by
  rw [isWord, Bool.and_eq_true]
  refine ⟨by simpa using versionStr_ne_nil version, List.all_eq_true.mpr fun c hc => ?_⟩
  rcases versionStr_chars version c hc with hdigit | rfl
  · have hne : ∀ d, isDigit d = false → (c == d) = false := fun d hd =>
      beq_eq_false_iff_ne.mpr (ne_of_isDigit hdigit hd)
    simp only [Entry.bareOk, isQuote, isAsciiSpace, bne, hne backslash rfl, hne comma rfl,
      hne openBracket rfl, hne closeBracket rfl, hne singleQuote rfl, hne doubleQuote rfl,
      hne equals rfl, hne 0x20 rfl, hne 0x09 rfl, hne 0x0a rfl, hne 0x0b rfl, hne 0x0c rfl,
      hne 0x0d rfl]
    rfl
  · decide

variable {toWSTRING redirects}

@[simp] theorem redirected_name (q : Qualification) :
    (redirected toWSTRING redirects q).name = q.name := by
  rw [redirected]
  split
  · exact withVersion_name q _
  · rfl

theorem hasBareQuote_redirected (q : Qualification) :
    (redirected toWSTRING redirects q).hasBareQuote = q.hasBareQuote := by
  rw [Qualification.hasBareQuote, Qualification.hasBareQuote, redirected_name]

theorem wellFormed_redirected (q : Qualification) (hq : q.wellFormed = true) :
    (redirected toWSTRING redirects q).wellFormed = true := by
  rw [redirected]
  split
  · exact wellFormed_withVersion hq (isWord_versionStr _)
  · exact hq

@[simp] theorem isCollected_mapAssemblies (t : TypeName) :
    isCollected (t.mapAssemblies (redirected toWSTRING redirects)) = isCollected t := by
  rw [isCollected, isCollected, bracketDepth_mapAssemblies,
    hasBareQuote_mapAssemblies _ hasBareQuote_redirected]

/-- What the text of the changed tree is parsed to. -/
theorem parse_mapAssemblies {t : TypeName} (hwf : t.wellFormed = true)
    (hquotes : t.quoteFree = true) :
    parseTypeNameAssemblyReferences (t.mapAssemblies (redirected toWSTRING redirects)).text
      = if isCollected t then
          (true, (t.mapAssemblies (redirected toWSTRING redirects)).references 0)
        else (false, []) := by
  have hwf' := wellFormed_mapAssemblies (redirected toWSTRING redirects) wellFormed_redirected t hwf
  rw [parse_text hwf' ((quoteFree_mapAssemblies _ t).trans hquotes), isCollected_mapAssemblies]

/-! ### Versions are raised, and once -/

/-- The version that a qualification asks for. -/
def requestedVersion (q : Qualification) : Option AssemblyMetadata :=
  (versionText q.properties).bind tryParseVersion

/-- A target is the version of the entry that is found, and it is not reached yet. -/
theorem target_some {q : Qualification} {key : WString} {version : AssemblyMetadata}
    (h : target toWSTRING redirects q = some (some (key, version))) :
    (∃ redirect, redirects.findIgnoringCase (toWSTRING q.name.value) = some (key, redirect)
        ∧ redirect.toAssemblyMetadata = version)
      ∧ ∀ requested, requestedVersion q = some requested → requested < version := by
  rw [target] at h
  cases hfind : redirects.findIgnoringCase (toWSTRING q.name.value) with
  | none =>
      rw [hfind] at h
      cases h
  | some entry =>
      obtain ⟨entryKey, redirect⟩ := entry
      rw [hfind] at h
      rw [requestedVersion]
      cases htext : versionText q.properties with
      | none =>
          simp only [htext, Option.some.injEq, Prod.mk.injEq] at h
          obtain ⟨rfl, rfl⟩ := h
          exact ⟨⟨redirect, rfl, rfl⟩, fun requested hrequested => by cases hrequested⟩
      | some text =>
          simp only [htext] at h
          rw [Option.bind_some]
          cases hparse : tryParseVersion text with
          | none =>
              rw [hparse] at h
              cases h
          | some parsed =>
              simp only [hparse] at h
              split at h
              · cases h
              · rename_i hlt
                simp only [Option.some.injEq, Prod.mk.injEq] at h
                obtain ⟨rfl, rfl⟩ := h
                refine ⟨⟨redirect, rfl, rfl⟩, fun requested hrequested => ?_⟩
                obtain rfl := Option.some.inj hrequested
                exact not_le.mp hlt

/-- A qualification without a target asks for enough already. -/
theorem target_none {q : Qualification} (h : target toWSTRING redirects q = some none)
    {key : WString} {redirect : AssemblyVersionRedirection}
    (hfind : redirects.findIgnoringCase (toWSTRING q.name.value) = some (key, redirect)) :
    ∃ requested, requestedVersion q = some requested
      ∧ redirect.toAssemblyMetadata ≤ requested := by
  rw [target, hfind] at h
  rw [requestedVersion]
  cases htext : versionText q.properties with
  | none =>
      rw [htext] at h
      cases h
  | some text =>
      simp only [htext] at h
      rw [Option.bind_some]
      cases hparse : tryParseVersion text with
      | none =>
          rw [hparse] at h
          cases h
      | some requested =>
          simp only [hparse] at h
          split at h
          · rename_i hle
            exact ⟨requested, rfl, hle⟩
          · cases h

/-- The map names no version with a part that stands for an unspecified one. -/
def AssemblyRedirects.isSpecified (redirects : AssemblyRedirects) : Bool :=
  redirects.entries.all fun entry => entry.2.toAssemblyMetadata.isSpecified

theorem isSpecified_of_findIgnoringCase (h : redirects.isSpecified = true) {name key : WString}
    {redirect : AssemblyVersionRedirection}
    (hfind : redirects.findIgnoringCase name = some (key, redirect)) :
    redirect.toAssemblyMetadata.isSpecified = true := by
  have hmem : (key, redirect) ∈ redirects.entries := by
    rcases Option.or_eq_some_iff.mp hfind with hfind | ⟨-, hfind⟩
    · exact List.mem_of_find?_eq_some hfind
    · exact List.mem_of_find?_eq_some hfind
  exact List.all_eq_true.mp h _ hmem

theorem requestedVersion_withVersion (q : Qualification) {version : AssemblyMetadata}
    (h : version.isSpecified = true) :
    requestedVersion (q.withVersion version.versionStr) = some version := by
  rw [requestedVersion, versionText_withVersion, Option.bind_some, tryParseVersion_versionStr h]

/-- **A redirected qualification stays as it is.** -/
theorem target_redirected (hspecified : redirects.isSpecified = true) {q : Qualification}
    (hreadable : isReadable toWSTRING redirects q = true) :
    target toWSTRING redirects (redirected toWSTRING redirects q) = some none := by
  rw [isReadable] at hreadable
  rcases htarget : target toWSTRING redirects q with _ | _ | ⟨key, version⟩
  · rw [htarget] at hreadable
    cases hreadable
  · rw [redirected, htarget]
    exact htarget
  · obtain ⟨⟨redirect, hfind, rfl⟩, -⟩ := target_some htarget
    have hversion := isSpecified_of_findIgnoringCase hspecified hfind
    simp only [redirected, htarget]
    rw [target, withVersion_name, hfind, versionText_withVersion]
    simp [tryParseVersion_versionStr hversion]

/-- What the rewrite does to a reference. -/
structure Raised (toWSTRING : List Byte → WString) (redirects : AssemblyRedirects)
    (q q' : Qualification) : Prop where
  name : q'.name = q.name
  requested : ∀ version, requestedVersion q = some version →
    ∃ version', requestedVersion q' = some version' ∧ version ≤ version'
  required : ∀ key redirect,
    redirects.findIgnoringCase (toWSTRING q.name.value) = some (key, redirect) →
    ∃ version', requestedVersion q' = some version' ∧ redirect.toAssemblyMetadata ≤ version'

theorem raised_redirected (hspecified : redirects.isSpecified = true) {q : Qualification}
    (hreadable : isReadable toWSTRING redirects q = true) :
    Raised toWSTRING redirects q (redirected toWSTRING redirects q) where
  name := redirected_name q
  requested := by
    intro version hversion
    rcases htarget : target toWSTRING redirects q with _ | _ | ⟨key, raised⟩
    · exact ⟨version, by rw [redirected, htarget]; exact hversion, le_rfl⟩
    · exact ⟨version, by rw [redirected, htarget]; exact hversion, le_rfl⟩
    · obtain ⟨⟨redirect, hfind, rfl⟩, hlt⟩ := target_some htarget
      have hspec := isSpecified_of_findIgnoringCase hspecified hfind
      refine ⟨redirect.toAssemblyMetadata, ?_, (hlt version hversion).le⟩
      simp only [redirected, htarget]
      exact requestedVersion_withVersion q hspec
  required := by
    intro key redirect hfind
    have hsettled := target_redirected hspecified hreadable
    rw [← redirected_name q] at hfind
    exact target_none hsettled hfind

/-- **Redirection on the tree.** The rewrite of a type name is the text of its tree with
every qualification redirected, and the keys of those that were, if the references can be
collected, the versions of all redirected names can be read, and some reference is
redirected; otherwise it fails. The new text is parsed to the references of the new tree. -/
theorem tryRewriteTypeNameAssemblyRedirections_text (toWSTRING : List Byte → WString)
    (redirects : AssemblyRedirects) {t : TypeName} (hwf : t.wellFormed = true)
    (hquotes : t.quoteFree = true) :
    tryRewriteTypeNameAssemblyRedirections toWSTRING redirects t.text
        = (if isCollected t = true ∧ t.assemblies.all (isReadable toWSTRING redirects) = true
              ∧ redirectedKeys toWSTRING redirects t ≠ [] then
            some ((t.mapAssemblies (redirected toWSTRING redirects)).text,
              redirectedKeys toWSTRING redirects t)
          else none)
      ∧ parseTypeNameAssemblyReferences (t.mapAssemblies (redirected toWSTRING redirects)).text
        = (if isCollected t then
            (true, (t.mapAssemblies (redirected toWSTRING redirects)).references 0)
          else (false, [])) :=
  ⟨rewrite_text toWSTRING redirects hwf hquotes, parse_mapAssemblies hwf hquotes⟩

/-- `G[[T, 'A', Version=1.0]], B`. -/
def redirectedName : TypeName :=
  .mk [] ⟨[.plain 0x47], []⟩
    [.bracketed [] (.mk [] ⟨[.plain 0x54], []⟩ [] []
      (some ⟨[], [0x20], ⟨some singleQuote, [.plain 0x41]⟩,
        [⟨[], [0x20], ⟨none, plainItems versionKey⟩, [], [],
          ⟨none, plainItems [0x31, dot, 0x30]⟩⟩]⟩) []) []] []
    (some ⟨[], [0x20], ⟨none, [.plain 0x42]⟩, []⟩) []

/-- `A` at 4.0.0.0 and `b` at 2.0.0.0. -/
def twoRedirects : AssemblyRedirects where
  entries := [([0x41], ⟨⟨4, 0, 0, 0⟩, 0⟩), ([0x62], ⟨⟨2, 0, 0, 0⟩, 0⟩)]
  nodup := by decide

/-- `ToWSTRING` of an ASCII text. -/
def asciiWide (text : List Byte) : WString := text.map (BitVec.setWidth 16)

theorem tryRewriteTypeNameAssemblyRedirections_two :
    tryRewriteTypeNameAssemblyRedirections asciiWide twoRedirects redirectedName.text
        = some ((redirectedName.mapAssemblies (redirected asciiWide twoRedirects)).text,
            [[0x41], [0x62]])
      ∧ parseTypeNameAssemblyReferences
          (redirectedName.mapAssemblies (redirected asciiWide twoRedirects)).text
        = (true, [⟨[0x41], 9, some ⟨19, AssemblyMetadata.versionStr ⟨4, 0, 0, 0⟩⟩⟩,
            ⟨[0x42], 31, some ⟨41, AssemblyMetadata.versionStr ⟨2, 0, 0, 0⟩⟩⟩]) := by
  have htext := tryRewriteTypeNameAssemblyRedirections_text asciiWide twoRedirects
    (t := redirectedName) (by decide) (by decide)
  rw [if_pos (by decide), if_pos (by decide)] at htext
  refine ⟨htext.1, htext.2.trans ?_⟩
  decide

end

end AutoInstrumentation.Redirection
