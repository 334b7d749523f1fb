import AutoInstrumentation.Redirection.TypeName
import AutoInstrumentation.Signature.Compression
import AutoInstrumentation.Lib.Transition

/-!
# AutoInstrumentation.Redirection.Metadata

The two ways in which a loaded module's references are redirected, and the redirection
map that they share: `RedirectAssemblyReferences` (`clr_helpers.cpp`) sets the versions
of AssemblyRefs, `UpdateUnsafeAccessorTypeAttributes`
(`unsafe_accessor_type_attribute_updater.cpp`) those in the type names of
`UnsafeAccessorType` attributes.

As a transition system a step is one AssemblyRef or one attribute; what the metadata
interfaces return is part of the label. Beside the map a state keeps every version that
was written, under the key it was redirected by, and which entries were counted.
-/

namespace AutoInstrumentation.Redirection

open Lib ReflectionName
open Signature (corSigUncompressData corSigCompressData)

/-! ### What is redirected -/

/-- What `SetAssemblyRefProps` or `SetCustomAttributeValue` returns. -/
inductive EmitResult
  | ok
  | failed
  deriving DecidableEq, Repr

/-- What `GetAssemblyRefProps` returns; `none` when it fails or the name is empty. -/
structure AssemblyRef where
  props : Option (WString × AssemblyMetadata)
  deriving DecidableEq, Repr

abbrev Token := BitVec 32

/-- What the metadata says of an attribute that an `UnsafeAccessorTypeAttribute`
constructor created. -/
structure CustomAttribute where
  /-- `GetCustomAttributeProps`: the owner and the blob. -/
  props : Option (Token × List Byte)
  /-- `GetParamProps` of the owner: the declaring method. -/
  method : Option Token
  /-- Whether the method has an `UnsafeAccessorAttribute`. -/
  hasUnsafeAccessor : Bool
  deriving DecidableEq, Repr

/-- A version in the metadata that was replaced: the key it was redirected by, the version
that it was set to, and the one before, unless there was none. -/
structure Written where
  assemblyName : WString
  version : AssemblyMetadata
  original : Option AssemblyMetadata
  deriving DecidableEq, Repr

/-! ### The redirection map and what was written -/

structure State where
  redirects : AssemblyRedirects
  written : List Written
  /-- The keys of the entries whose redirection count was incremented, once each time. -/
  counted : List WString

namespace State

/-- `ulRedirectionCount++`. -/
def count (s : State) (name : WString) : State :=
  { s with
    redirects := s.redirects.modify name fun redirect =>
      { redirect with ulRedirectionCount := redirect.ulRedirectionCount + 1 }
    counted := s.counted ++ [name] }

/-- The entry takes a version over. -/
def raise (s : State) (name : WString) (version : AssemblyMetadata) : State :=
  { s with
    redirects := s.redirects.modify name fun redirect =>
      { toAssemblyMetadata := version, ulRedirectionCount := redirect.ulRedirectionCount } }

/-- The metadata takes versions over. -/
def write (s : State) (written : List Written) : State :=
  { s with written := s.written ++ written }

end State

/-! ### AssemblyRefs -/

/-- The body of the loop of `RedirectAssemblyReferences`. -/
def redirectAssemblyRef (s : State) (assemblyRef : AssemblyRef) (hr : EmitResult) : State :=
  match assemblyRef.props with
  | none => s
  | some (name, assemblyMetadata) =>
      match s.redirects.find name with
      | none => s
      | some redirect =>
          let versionComparison := redirect.compareToAssemblyVersion assemblyMetadata
          if versionComparison > 0 then
            match hr with
            | .ok =>
                (s.write [⟨name, redirect.toAssemblyMetadata, some assemblyMetadata⟩]).count name
            | .failed => s
          else if versionComparison = 0 then s
          else if redirect.ulRedirectionCount = 0 then (s.raise name assemblyMetadata).count name
          else s

/-- `RedirectAssemblyReferences`. -/
def redirectAssemblyReferences (s : State) (refs : List (AssemblyRef × EmitResult)) : State :=
  refs.foldl (fun s ref => redirectAssemblyRef s ref.1 ref.2) s

/-! ### UnsafeAccessorType attributes -/

def maxPackedLength : ℕ := 0x1fffffff

def customAttributePrologSize : ℕ := 2

def namedArgumentCountSize : ℕ := 2

/-- Where the type name of an attribute blob lies: its position and length. -/
def findTypeName (blob : List Byte) : Option (ℕ × ℕ) :=
  if blob.length < customAttributePrologSize + 1 + namedArgumentCountSize ∨
      blob[0]? ≠ some 0x01 ∨ blob[1]? ≠ some 0x00 ∨
      blob[customAttributePrologSize]? = some 0xff then none
  else
    let serializedStringSize := blob.length - customAttributePrologSize - namedArgumentCountSize
    match corSigUncompressData ((blob.drop customAttributePrologSize).take serializedStringSize) with
    | none => none
    | some (stringLength, encodedLengthSize) =>
        if encodedLengthSize > serializedStringSize ∨
            stringLength > serializedStringSize - encodedLengthSize then none
        else some (customAttributePrologSize + encodedLengthSize, stringLength)

def typeNameOfBlob (blob : List Byte) (typeName : ℕ × ℕ) : List Byte :=
  (blob.drop typeName.1).take typeName.2

/-- `TryRewriteUnsafeAccessorTypeAttributeBlob`: the blob and the redirected names. -/
def tryRewriteUnsafeAccessorTypeAttributeBlob (toWSTRING : List Byte → WString)
    (redirects : AssemblyRedirects) (blob : List Byte) : Option (List Byte × List WString) :=
  match findTypeName blob with
  | none => none
  | some (stringBegin, stringLength) =>
      match tryRewriteTypeNameAssemblyRedirections toWSTRING redirects
          (typeNameOfBlob blob (stringBegin, stringLength)) with
      | none => none
      | some (rewrittenTypeName, rewrittenAssemblyNames) =>
          if maxPackedLength < rewrittenTypeName.length then none
          else
            let rewrittenBlob :=
              blob.take customAttributePrologSize ++ corSigCompressData rewrittenTypeName.length ++
                rewrittenTypeName ++ blob.drop (stringBegin + stringLength)
            if 2 ^ 32 ≤ rewrittenBlob.length then none
            else some (rewrittenBlob, rewrittenAssemblyNames)

/-- The blob of an attribute that stands on a parameter or return value of an unsafe
accessor. -/
def applicableBlob (customAttribute : CustomAttribute) : Option (List Byte) :=
  match customAttribute.props with
  | none => none
  | some (owner, blob) =>
      -- `mdtParamDef`
      if owner &&& 0xff000000 ≠ 0x08000000 then none
      else
        match customAttribute.method with
        | none => none
        | some _ => if customAttribute.hasUnsafeAccessor then some blob else none

/-- What the rewrite of a reference writes. -/
def writtenFor (toWSTRING : List Byte → WString) (redirects : AssemblyRedirects)
    (reference : ParsedAssemblyReference) : List Written :=
  match redirects.findIgnoringCase (toWSTRING reference.assemblyName),
      redirectReference toWSTRING redirects reference with
  | some (key, redirect), some (some _) =>
      [⟨key, redirect.toAssemblyMetadata,
        reference.versionSpan.bind fun versionSpan => tryParseVersion versionSpan.text⟩]
  | _, _ => []

/-- What the rewrite of a type name writes. -/
def writtenIn (toWSTRING : List Byte → WString) (redirects : AssemblyRedirects)
    (typeName : List Byte) : List Written :=
  (parseTypeNameAssemblyReferences typeName).2.flatMap (writtenFor toWSTRING redirects)

/-- The body of the loop of `UpdateUnsafeAccessorTypeAttributes`. -/
def updateAttribute (toWSTRING : List Byte → WString) (s : State)
    (customAttribute : CustomAttribute) (updateHr : EmitResult) : State :=
  match applicableBlob customAttribute with
  | none => s
  | some blob =>
      match tryRewriteUnsafeAccessorTypeAttributeBlob toWSTRING s.redirects blob with
      | none => s
      | some (_, redirectedAssemblyNames) =>
          match updateHr with
          | .failed => s
          | .ok =>
              redirectedAssemblyNames.foldl State.count
                (s.write (((findTypeName blob).map (typeNameOfBlob blob)).elim []
                  (writtenIn toWSTRING s.redirects)))

/-- `UpdateUnsafeAccessorTypeAttributes`. -/
def updateUnsafeAccessorTypeAttributes (toWSTRING : List Byte → WString) (s : State)
    (attributes : List (CustomAttribute × EmitResult)) : State :=
  if s.redirects.entries.isEmpty then s
  else attributes.foldl (fun s customAttribute =>
    updateAttribute toWSTRING s customAttribute.1 customAttribute.2) s

/-! ### The system -/

/-- One AssemblyRef or one attribute, with the result of the emit if there is one. -/
inductive Act
  | ofAssemblyRef (assemblyRef : AssemblyRef) (hr : EmitResult)
  | ofCustomAttribute (customAttribute : CustomAttribute) (hr : EmitResult)
  deriving DecidableEq, Repr

def step (toWSTRING : List Byte → WString) (s : State) : Act → State
  | .ofAssemblyRef assemblyRef hr => redirectAssemblyRef s assemblyRef hr
  | .ofCustomAttribute customAttribute hr => updateAttribute toWSTRING s customAttribute hr

/-- Initially nothing was redirected. -/
def Init (s : State) : Prop :=
  s.written = [] ∧ s.counted = [] ∧
    ∀ name redirect, s.redirects.find name = some redirect → redirect.ulRedirectionCount = 0

def system (toWSTRING : List Byte → WString) : System State Act :=
  .ofStep Init fun s a => some (step toWSTRING s a)

/-- A module is loaded: its AssemblyRefs are redirected, then its attributes. -/
def loadModule (toWSTRING : List Byte → WString) (s : State)
    (refs : List (AssemblyRef × EmitResult)) (attributes : List (CustomAttribute × EmitResult)) :
    State :=
  updateUnsafeAccessorTypeAttributes toWSTRING (redirectAssemblyReferences s refs) attributes

end AutoInstrumentation.Redirection
