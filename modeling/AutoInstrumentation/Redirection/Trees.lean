import AutoInstrumentation.Lib.Splices
import AutoInstrumentation.Redirection.TypeName
import AutoInstrumentation.ReflectionName.Assemblies

/-!
# AutoInstrumentation.Redirection.Trees

Redirection as a change of the type name's syntax tree.

What the redirection of a type name is for is said on its tree: `target` is the version
that a qualification has to ask for, and `redirected` is the qualification that asks for
it. The pieces of a name cut its text where the two trees differ: put together they are
the text of the old tree (`oldText_typePieces`) and the text of the new one
(`newText_typePieces`), and their splices are the edits that the source collects
(`collectEdits_references`).
-/

namespace AutoInstrumentation.Redirection

open Lib ReflectionName

/-! ### Qualifications -/

section
variable (toWSTRING : List Byte → WString) (redirects : AssemblyRedirects)

/-- The version that the qualification is redirected to, with its key; `some none` if it
stays as it is, and `none` if its version cannot be read. -/
def target (q : Qualification) : Option (Option (WString × AssemblyMetadata)) :=
  match redirects.findIgnoringCase (toWSTRING q.name.value) with
  | none => some none
  | some (key, redirect) =>
      match versionText q.properties with
      | none => some (some (key, redirect.toAssemblyMetadata))
      | some text =>
          match tryParseVersion text with
          | none => none
          | some requested =>
              if redirect.toAssemblyMetadata ≤ requested then some none
              else some (some (key, redirect.toAssemblyMetadata))

def isReadable (q : Qualification) : Bool := (target toWSTRING redirects q).isSome

/-- The qualification that asks for the version it is redirected to. -/
def redirected (q : Qualification) : Qualification :=
  match target toWSTRING redirects q with
  | some (some (_, version)) => q.withVersion version.versionStr
  | _ => q

/-- The key of the entry that redirects the qualification. -/
def redirectedKey (q : Qualification) : Option WString :=
  match target toWSTRING redirects q with
  | some (some (key, _)) => some key
  | _ => none

end

/-! ### The pieces of a qualification -/

section
variable {κ : Type} (version : List Byte) (key : κ)

/-- The text up to the items of the value. -/
def opening (p : Property) : List Byte :=
  p.beforeComma ++ comma :: (p.head ++ p.value.quote.toList)

/-- The properties, cut at the value of the first version. -/
def propertiesPieces : List Property → List (Piece Byte κ)
  | [] => []
  | p :: properties =>
      if p.isVersion then
        [.keep (opening p), .replace (itemsText p.value.items) version key,
          .keep (p.value.quote.toList ++ propertiesText properties)]
      else .keep p.text :: propertiesPieces properties

/-- The text up to the end of the simple name. -/
def nameHead (q : Qualification) : List Byte :=
  q.beforeComma ++ comma :: (q.beforeName ++ q.name.text)

/-- The qualification, cut where its version is put. -/
def versionPieces (q : Qualification) : List (Piece Byte κ) :=
  .keep (nameHead q) ::
    if q.properties.any Property.isVersion then propertiesPieces version key q.properties
    else [.replace [] (versionQualifier ++ version) key, .keep (propertiesText q.properties)]

theorem entry_text (e : Entry) :
    e.text = e.quote.toList ++ (itemsText e.items ++ e.quote.toList) := by
  rw [Entry.text]
  cases e.quote with
  | none => simp
  | some q => rfl

theorem innerStart_eq (e : Entry) (start : ℕ) :
    e.innerStart start = start + e.quote.toList.length := by
  rw [Entry.innerStart]
  cases e.quote with
  | none => rfl
  | some q => rfl

theorem property_text (p : Property) :
    p.text = opening p ++ (itemsText p.value.items ++ p.value.quote.toList) := by
  rw [Property.text, opening, entry_text p.value]
  simp

theorem qualification_text (q : Qualification) :
    q.text = nameHead q ++ propertiesText q.properties := by
  simp [Qualification.text, nameHead]

@[simp] theorem propertiesText_nil : propertiesText [] = [] := rfl

@[simp] theorem propertiesText_cons (p : Property) (properties : List Property) :
    propertiesText (p :: properties) = p.text ++ propertiesText properties := rfl

theorem text_versionProperty :
    (versionProperty version).text = versionQualifier ++ version := by
  simp [Property.text, Property.head, entry_text, versionProperty, versionQualifier]

theorem oldText_propertiesPieces (properties : List Property) :
    oldText (propertiesPieces version key properties) = propertiesText properties := by
  induction properties with
  | nil => rfl
  | cons p properties ih =>
      rw [propertiesPieces]
      split
      · simp [property_text p]
      · simp [ih]

theorem newText_propertiesPieces (properties : List Property) :
    newText (propertiesPieces version key properties)
      = propertiesText (setVersion version properties) := by
  induction properties with
  | nil => rfl
  | cons p properties ih =>
      rw [propertiesPieces, setVersion]
      split
      · have hopening : opening (p.withValue version) = opening p := rfl
        have hquote : (p.withValue version).value.quote = p.value.quote := rfl
        have hitems : (p.withValue version).value.items = plainItems version := rfl
        simp [property_text (p.withValue version), hopening, hquote, hitems]
      · simp [ih]

theorem oldText_versionPieces (q : Qualification) :
    oldText (versionPieces version key q) = q.text := by
  rw [versionPieces, qualification_text]
  split
  · simp [oldText_propertiesPieces]
  · simp

theorem newText_versionPieces (q : Qualification) :
    newText (versionPieces version key q) = (q.withVersion version).text := by
  rw [versionPieces, Qualification.withVersion, qualification_text]
  split
  · simp [newText_propertiesPieces, nameHead]
  · simp [nameHead, text_versionProperty]

theorem tags_propertiesPieces {properties : List Property}
    (h : properties.any Property.isVersion = true) :
    tags (propertiesPieces version key properties) = [key] := by
  induction properties with
  | nil => cases h
  | cons p properties ih =>
      rw [propertiesPieces]
      by_cases hp : p.isVersion = true
      · simp [hp]
      · rw [if_neg hp, tags_keep]
        exact ih (by simpa [hp] using h)

theorem tags_versionPieces (q : Qualification) : tags (versionPieces version key q) = [key] := by
  rw [versionPieces]
  split
  · rename_i h
    simp [tags_propertiesPieces version key h]
  · simp

/-- The place of the version, as the parser reports it. -/
theorem splices_propertiesPieces (start : ℕ) (properties : List Property) :
    splices start (propertiesPieces version key properties)
      = ((versionSpan start properties).map fun span =>
          (⟨span.start, span.finish, version, key⟩ : Splice Byte κ)).toList := by
  induction properties generalizing start with
  | nil => rfl
  | cons p properties ih =>
      rw [propertiesPieces, versionSpan]
      split
      · simp [splices, Property.valueSpan, innerStart_eq, opening, Span.finish, Nat.add_assoc,
          Nat.add_comm 1]
      · simp [splices, ih]

end

/-! ### The pieces of a type name -/

section
variable {κ : Type} (g : Qualification → List (Piece Byte κ))

def assemblyPieces : Option Qualification → List (Piece Byte κ)
  | none => []
  | some q => g q

mutual

/-- The type name, its qualifications cut by `g`. -/
def typePieces : TypeName → List (Piece Byte κ)
  | .mk before names arguments suffixes assembly behind =>
      .keep (before ++ names.text) :: (listPieces arguments ++ (.keep (suffixesText suffixes) ::
        (assemblyPieces g assembly ++ [.keep behind])))

def argumentPieces : Argument → List (Piece Byte κ)
  | .bare type => typePieces type
  | .bracketed before type behind =>
      .keep (before ++ [openBracket]) :: (typePieces type ++ [.keep (closeBracket :: behind)])

def listPieces : List Argument → List (Piece Byte κ)
  | [] => []
  | argument :: arguments =>
      .keep [openBracket] :: (argumentPieces argument ++ (morePieces arguments
        ++ [.keep [closeBracket]]))

def morePieces : List Argument → List (Piece Byte κ)
  | [] => []
  | argument :: arguments =>
      .keep [comma] :: (argumentPieces argument ++ morePieces arguments)

end

section
variable {g}

theorem oldText_assemblyPieces (hg : ∀ q, oldText (g q) = q.text)
    (assembly : Option Qualification) :
    oldText (assemblyPieces g assembly) = assemblyText assembly := by
  cases assembly with
  | none => rfl
  | some q => exact hg q

mutual

/-- **The pieces of a type name are its text.** -/
theorem oldText_typePieces (hg : ∀ q, oldText (g q) = q.text) :
    (t : TypeName) → oldText (typePieces g t) = t.text
  | .mk before names arguments suffixes assembly behind => by
      simp [typePieces, TypeName.text, oldText_listPieces hg arguments, oldText_assemblyPieces hg]

theorem oldText_argumentPieces (hg : ∀ q, oldText (g q) = q.text) :
    (a : Argument) → oldText (argumentPieces g a) = a.text
  | .bare type => by
      rw [argumentPieces, Argument.text]
      exact oldText_typePieces hg type
  | .bracketed before type behind => by
      simp [argumentPieces, Argument.text, oldText_typePieces hg type]

theorem oldText_listPieces (hg : ∀ q, oldText (g q) = q.text) : (arguments : List Argument) →
    oldText (listPieces g arguments) = listText arguments
  | [] => rfl
  | argument :: arguments => by
      simp [listPieces, listText, oldText_argumentPieces hg argument,
        oldText_morePieces hg arguments]

theorem oldText_morePieces (hg : ∀ q, oldText (g q) = q.text) : (arguments : List Argument) →
    oldText (morePieces g arguments) = moreText arguments
  | [] => rfl
  | argument :: arguments => by
      simp [morePieces, moreText, oldText_argumentPieces hg argument,
        oldText_morePieces hg arguments]

end

end

section
variable {g} {f : Qualification → Qualification}

theorem newText_assemblyPieces (hg : ∀ q, newText (g q) = (f q).text)
    (assembly : Option Qualification) :
    newText (assemblyPieces g assembly) = assemblyText (assembly.map f) := by
  cases assembly with
  | none => rfl
  | some q => exact hg q

mutual

/-- **With the replacements made they are the text of the changed tree.** -/
theorem newText_typePieces (hg : ∀ q, newText (g q) = (f q).text) : (t : TypeName) →
    newText (typePieces g t) = (t.mapAssemblies f).text
  | .mk before names arguments suffixes assembly behind => by
      simp [typePieces, TypeName.mapAssemblies, TypeName.text, newText_listPieces hg arguments,
        newText_assemblyPieces hg]

theorem newText_argumentPieces (hg : ∀ q, newText (g q) = (f q).text) : (a : Argument) →
    newText (argumentPieces g a) = (a.mapAssemblies f).text
  | .bare type => by
      rw [argumentPieces, Argument.mapAssemblies, Argument.text]
      exact newText_typePieces hg type
  | .bracketed before type behind => by
      simp [argumentPieces, Argument.mapAssemblies, Argument.text, newText_typePieces hg type]

theorem newText_listPieces (hg : ∀ q, newText (g q) = (f q).text) : (arguments : List Argument) →
    newText (listPieces g arguments) = listText (mapArguments f arguments)
  | [] => rfl
  | argument :: arguments => by
      simp [listPieces, mapArguments, listText, newText_argumentPieces hg argument,
        newText_morePieces hg arguments]

theorem newText_morePieces (hg : ∀ q, newText (g q) = (f q).text) : (arguments : List Argument) →
    newText (morePieces g arguments) = moreText (mapArguments f arguments)
  | [] => rfl
  | argument :: arguments => by
      simp [morePieces, mapArguments, moreText, newText_argumentPieces hg argument,
        newText_morePieces hg arguments]

end

end

section
variable {g} {key : Qualification → Option κ}

theorem tags_assemblyPieces (hg : ∀ q, tags (g q) = (key q).toList)
    (assembly : Option Qualification) :
    tags (assemblyPieces g assembly) = assembly.toList.filterMap key := by
  cases assembly with
  | none => rfl
  | some q =>
      rw [assemblyPieces, hg q, Option.toList_some, List.filterMap_cons]
      cases key q <;> rfl

mutual

theorem tags_typePieces (hg : ∀ q, tags (g q) = (key q).toList) :
    (t : TypeName) → tags (typePieces g t) = t.assemblies.filterMap key
  | .mk before names arguments suffixes assembly behind => by
      simp [typePieces, TypeName.assemblies, tags_listPieces hg arguments, tags_assemblyPieces hg]

theorem tags_argumentPieces (hg : ∀ q, tags (g q) = (key q).toList) : (a : Argument) →
    tags (argumentPieces g a) = a.assemblies.filterMap key
  | .bare type => by
      rw [argumentPieces, Argument.assemblies]
      exact tags_typePieces hg type
  | .bracketed before type behind => by
      simp [argumentPieces, Argument.assemblies, tags_typePieces hg type]

theorem tags_listPieces (hg : ∀ q, tags (g q) = (key q).toList) : (arguments : List Argument) →
    tags (listPieces g arguments) = (argumentsAssemblies arguments).filterMap key
  | [] => rfl
  | argument :: arguments => by
      simp [listPieces, argumentsAssemblies, tags_argumentPieces hg argument,
        tags_morePieces hg arguments]

theorem tags_morePieces (hg : ∀ q, tags (g q) = (key q).toList) : (arguments : List Argument) →
    tags (morePieces g arguments) = (argumentsAssemblies arguments).filterMap key
  | [] => rfl
  | argument :: arguments => by
      simp [morePieces, argumentsAssemblies, tags_argumentPieces hg argument,
        tags_morePieces hg arguments]

end

end

end

end AutoInstrumentation.Redirection
