import AutoInstrumentation.Redirection.Version
import AutoInstrumentation.ReflectionName.Parser

/-!
# AutoInstrumentation.Redirection.TypeName

The redirection map and the rewrite of a type name with it
(`TryRewriteTypeNameAssemblyRedirections`).

The map is a list of entries in the order of its iteration, with distinct keys. How a
UTF-8 text becomes a `WSTRING` is left open: `toWSTRING` is any function.
-/

namespace AutoInstrumentation.Redirection

open Lib ReflectionName

abbrev WChar := BitVec 16

/-- `WSTRING`. -/
abbrev WString := List WChar

/-- `ToAsciiLower` of a `WCHAR`. -/
def WChar.toAsciiLower (c : WChar) : WChar := if 0x41 ≤ c ∧ c ≤ 0x5a then c - 0x41 + 0x61 else c

/-- `EqualsIgnoreAsciiCase` of `WCHAR`s. -/
def WString.equalsIgnoreAsciiCase (left right : WString) : Bool :=
  left.map WChar.toAsciiLower == right.map WChar.toAsciiLower

/-! ### The redirection map -/

/-- `std::unordered_map<WSTRING, AssemblyVersionRedirection>`. -/
structure AssemblyRedirects where
  entries : List (WString × AssemblyVersionRedirection)
  nodup : (entries.map Prod.fst).Nodup

namespace AssemblyRedirects

def find (redirects : AssemblyRedirects) (name : WString) : Option AssemblyVersionRedirection :=
  (redirects.entries.find? (·.1 == name)).map Prod.snd

theorem map_modify_fst (entries : List (WString × AssemblyVersionRedirection)) (name : WString)
    (f : AssemblyVersionRedirection → AssemblyVersionRedirection) :
    (entries.map fun e => if e.1 = name then (e.1, f e.2) else e).map Prod.fst
      = entries.map Prod.fst := by
  rw [List.map_map]
  refine List.map_congr_left fun e _ => ?_
  simp only [Function.comp_apply]
  split <;> rfl

/-- Change the entry of a key. -/
def modify (redirects : AssemblyRedirects) (name : WString)
    (f : AssemblyVersionRedirection → AssemblyVersionRedirection) : AssemblyRedirects where
  entries := redirects.entries.map fun e => if e.1 = name then (e.1, f e.2) else e
  nodup := by
    rw [map_modify_fst]
    exact redirects.nodup

theorem find_modify (redirects : AssemblyRedirects) (name key : WString)
    (f : AssemblyVersionRedirection → AssemblyVersionRedirection) :
    (redirects.modify name f).find key
      = if key = name then (redirects.find key).map f else redirects.find key := by
  simp only [find, modify]
  induction redirects.entries with
  | nil => split <;> rfl
  | cons e entries ih =>
      by_cases hkey : e.1 = key
      · subst hkey
        by_cases hname : e.1 = name
        · simp [hname]
        · simp [hname]
      · have hstep : (if e.1 = name then (e.1, f e.2) else e).1 = e.1 := by split <;> rfl
        rw [List.map_cons, List.find?_cons_of_neg (by simpa [hstep] using hkey),
          List.find?_cons_of_neg (by simpa using hkey), ih]

@[simp] theorem find_modify_self (redirects : AssemblyRedirects) (name : WString)
    (f : AssemblyVersionRedirection → AssemblyVersionRedirection) :
    (redirects.modify name f).find name = (redirects.find name).map f := by
  rw [find_modify, if_pos rfl]

theorem find_modify_of_ne (redirects : AssemblyRedirects) {name key : WString} (h : key ≠ name)
    (f : AssemblyVersionRedirection → AssemblyVersionRedirection) :
    (redirects.modify name f).find key = redirects.find key := by
  rw [find_modify, if_neg h]

/-- The entry for the simple name of a reference in a type name: the one of the name
itself, or else the first one whose key differs from it in case only. -/
def findIgnoringCase (redirects : AssemblyRedirects) (assemblyName : WString) :
    Option (WString × AssemblyVersionRedirection) :=
  (redirects.entries.find? (·.1 == assemblyName)).or
    (redirects.entries.find? fun entry => WString.equalsIgnoreAsciiCase entry.1 assemblyName)

/-- The entry that is found is the one of its key. -/
theorem find_of_findIgnoringCase {redirects : AssemblyRedirects} {assemblyName key : WString}
    {redirect : AssemblyVersionRedirection}
    (h : redirects.findIgnoringCase assemblyName = some (key, redirect)) :
    redirects.find key = some redirect := by
  have hmem : (key, redirect) ∈ redirects.entries := by
    rcases Option.or_eq_some_iff.mp h with h | ⟨-, h⟩
    · exact List.mem_of_find?_eq_some h
    · exact List.mem_of_find?_eq_some h
  obtain ⟨entries, hnodup⟩ := redirects
  simp only [find]
  clear h
  induction entries with
  | nil => cases hmem
  | cons e entries ih =>
      rw [List.map_cons, List.nodup_cons] at hnodup
      rcases List.mem_cons.mp hmem with rfl | hmem
      · simp
      · have hne : e.1 ≠ key := fun h => hnodup.1 (h ▸ List.mem_map_of_mem hmem)
        rw [List.find?_cons_of_neg (by simpa using hne)]
        exact ih hnodup.2 hmem

end AssemblyRedirects

/-! ### The rewrite -/

structure Edit where
  start : ℕ
  finish : ℕ
  value : List Byte
  assemblyName : WString
  deriving DecidableEq, Repr

/-- `", Version="`. -/
def versionQualifier : List Byte := [comma, 0x20] ++ versionKey ++ [equals]

/-- What a turn of the loop over the references does to `edits`; `none` where the
rewrite fails. -/
def redirectReference (toWSTRING : List Byte → WString) (redirects : AssemblyRedirects)
    (reference : ParsedAssemblyReference) : Option (Option Edit) :=
  match redirects.findIgnoringCase (toWSTRING reference.assemblyName) with
  | none => some none
  | some (key, redirect) =>
      match reference.versionSpan with
      | none =>
          some (some ⟨reference.insertVersionAt, reference.insertVersionAt,
            versionQualifier ++ redirect.versionStr, key⟩)
      | some versionSpan =>
          match tryParseVersion versionSpan.text with
          | none => none
          | some parsedVersion =>
              if redirect.compareToAssemblyVersion parsedVersion ≤ 0 then some none
              else some (some ⟨versionSpan.start, versionSpan.finish, redirect.versionStr, key⟩)

/-- The loop over the references. -/
def collectEdits (toWSTRING : List Byte → WString) (redirects : AssemblyRedirects) :
    List ParsedAssemblyReference → Option (List Edit)
  | [] => some []
  | reference :: references =>
      match redirectReference toWSTRING redirects reference with
      | none => none
      | some edit => (collectEdits toWSTRING redirects references).map (edit.toList ++ ·)

/-- The order in which the edits are sorted. -/
def Edit.before (left right : Edit) : Bool :=
  if left.start ≠ right.start then left.start < right.start else left.finish ≤ right.finish

/-- The loop that applies the edits behind `copied`; `none` for replacements that overlap
or leave the type name. -/
def applyEdits (typeName : List Byte) : ℕ → List Edit → Option (List Byte)
  | copied, [] => some (typeName.drop copied)
  | copied, edit :: edits =>
      if edit.start < copied ∨ edit.finish < edit.start ∨ typeName.length < edit.finish then none
      else
        (applyEdits typeName edit.finish edits).map fun rewritten =>
          (typeName.take edit.start).drop copied ++ (edit.value ++ rewritten)

/-- `TryRewriteTypeNameAssemblyRedirections`: the rewritten type name and the keys of the
redirected names, one for each edit; `none` for `false`. -/
def tryRewriteTypeNameAssemblyRedirections (toWSTRING : List Byte → WString)
    (redirects : AssemblyRedirects) (typeName : List Byte) : Option (List Byte × List WString) :=
  match parseTypeNameAssemblyReferences typeName with
  | (false, _) => none
  | (true, references) =>
      match collectEdits toWSTRING redirects references with
      | none => none
      | some [] => none
      | some edits =>
          let edits := edits.mergeSort Edit.before
          (applyEdits typeName 0 edits).map fun rewritten => (rewritten, edits.map Edit.assemblyName)

end AutoInstrumentation.Redirection
