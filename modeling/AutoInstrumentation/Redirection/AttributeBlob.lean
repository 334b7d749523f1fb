import AutoInstrumentation.Redirection.Metadata

/-!
# AutoInstrumentation.Redirection.AttributeBlob

The rewrite of the blob of an `UnsafeAccessorType` attribute
(`unsafe_accessor_type_attribute_blob_rewriter.cpp`) with the two vectors that it fills,
over the format of such a blob: the prolog, the type name as a `SerString`, and the bytes
behind it.
-/

namespace AutoInstrumentation.Redirection

open Lib Lib.Cursor Signature

/-! ### The format -/

def prolog : List Byte := [0x01, 0x00]

/-- A `SerString`: the compressed length of the text, and the text. -/
def serString (text : List Byte) : List Byte := corSigCompressData text.length ++ text

def readSerString : Cursor Byte (List Byte) := do
  let length ← uncompressData
  takeN length

/-- Decode the type name; what is left are the bytes behind it. -/
def readTypeName : Cursor Byte (List Byte) := do
  let start ← takeN customAttributePrologSize
  if start = prolog then readSerString else failure

theorem readTypeName_reads {encodedLength typeName : List Byte}
    (h : Reads uncompressData encodedLength typeName.length) :
    Reads readTypeName (prolog ++ (encodedLength ++ typeName)) typeName := by
  refine (reads_takeN prolog).bind ?_
  rw [if_pos rfl]
  exact h.bind (reads_takeN typeName)

/-- The encoding of a text that the packed length can express is read back. -/
theorem readTypeName_serString {text : List Byte} (h : text.length ≤ maxPackedLength) :
    Reads readTypeName (prolog ++ serString text) text :=
  readTypeName_reads (uncompressData_compress (Nat.lt_succ_of_le h))

/-! ### The rewrite -/

/-- The vectors `rewritten_blob` and `redirected_assembly_names` of the caller. -/
structure BlobOutputs where
  rewrittenBlob : List Byte
  redirectedAssemblyNames : List WString
  deriving DecidableEq, Repr

def BlobOutputs.clear (_ : BlobOutputs) : BlobOutputs := ⟨[], []⟩

/-- `WritePackedLength`; `none` for `false`. -/
def writePackedLength (blob : List Byte) (length : ℕ) : Option (List Byte) :=
  if length > maxPackedLength then none else some (blob ++ corSigCompressData length)

/-- `(std::numeric_limits<ULONG>::max)()`. -/
def maxBlobSize : ℕ := 2 ^ 32 - 1

/-- What `TryRewriteUnsafeAccessorTypeAttributeBlob` does once the type name is
rewritten. -/
def rebuildBlob (outputs : BlobOutputs) (blob : List Byte) (stringBegin stringLength : ℕ)
    (rewrittenTypeName : List Byte) (rewrittenAssemblyNames : List WString) :
    Bool × BlobOutputs :=
  let serializedStringSize := blob.length - customAttributePrologSize - namedArgumentCountSize
  let encodedLengthSize := stringBegin - customAttributePrologSize
  let trailingSize :=
    serializedStringSize - encodedLengthSize - stringLength + namedArgumentCountSize
  let rewrittenBlob := outputs.rewrittenBlob ++ blob.take customAttributePrologSize
  match writePackedLength rewrittenBlob rewrittenTypeName.length with
  | none => (false, { outputs with rewrittenBlob := [] })
  | some rewrittenBlob =>
      if rewrittenTypeName.length > maxBlobSize - rewrittenBlob.length ∨
          trailingSize > maxBlobSize - rewrittenBlob.length - rewrittenTypeName.length then
        (false, { outputs with rewrittenBlob := [] })
      else
        (true,
          { rewrittenBlob :=
              rewrittenBlob ++ rewrittenTypeName ++ blob.drop (stringBegin + stringLength)
            redirectedAssemblyNames := rewrittenAssemblyNames })

/-- `TryRewriteUnsafeAccessorTypeAttributeBlob` with its outputs; a blob that is not there
is the null pointer. -/
def tryRewriteUnsafeAccessorTypeAttributeBlobInto (toWSTRING : List Byte → WString)
    (redirects : AssemblyRedirects) (blob : Option (List Byte)) (outputs : BlobOutputs) :
    Bool × BlobOutputs :=
  let outputs := outputs.clear
  match blob with
  | none => (false, outputs)
  | some blob =>
      match findTypeName blob with
      | none => (false, outputs)
      | some (stringBegin, stringLength) =>
          match tryRewriteTypeNameAssemblyRedirections toWSTRING redirects
              (typeNameOfBlob blob (stringBegin, stringLength)) with
          | none => (false, outputs)
          | some (rewrittenTypeName, rewrittenAssemblyNames) =>
              rebuildBlob outputs blob stringBegin stringLength rewrittenTypeName
                rewrittenAssemblyNames

/-! ### Where the type name lies -/

/-- A compressed number is not empty, and it does not start as a null `SerString` does. -/
theorem first_of_reads {encodedLength : List Byte} {length : ℕ}
    (h : Reads uncompressData encodedLength length) :
    ∃ first rest, encodedLength = first :: rest ∧ first ≠ 0xff := by
  cases encodedLength with
  | nil => cases h []
  | cons first rest =>
      refine ⟨first, rest, rfl, ?_⟩
      intro hfirst
      subst hfirst
      cases h []

/-- The type name of the `SerString` behind the prolog; two bytes stand behind it. -/
def findSerString (serialized : List Byte) : Option (ℕ × ℕ) :=
  match corSigUncompressData (serialized.take (serialized.length - 2)) with
  | none => none
  | some (stringLength, encodedLengthSize) =>
      if encodedLengthSize > serialized.length - 2 ∨
          stringLength > serialized.length - 2 - encodedLengthSize then none
      else some (2 + encodedLengthSize, stringLength)

theorem findTypeName_cons {serialized : List Byte} (hsize : 3 ≤ serialized.length)
    (hnull : serialized[0]? ≠ some 0xff) :
    findTypeName (0x01 :: 0x00 :: serialized) = findSerString serialized := by
  rw [findTypeName, if_neg]
  · rfl
  · intro hrefused
    rcases hrefused with hshort | hfirst | hsecond | hthird
    · simp only [customAttributePrologSize, namedArgumentCountSize, List.length_cons] at hshort
      omega
    · exact hfirst rfl
    · exact hsecond rfl
    · exact hnull hthird

theorem cons_of_findTypeName {blob : List Byte} {position : ℕ × ℕ}
    (h : findTypeName blob = some position) :
    ∃ serialized, blob = 0x01 :: 0x00 :: serialized ∧ 3 ≤ serialized.length ∧
      serialized[0]? ≠ some 0xff := by
  rw [findTypeName] at h
  split at h
  · cases h
  · rename_i hstart
    simp only [not_or, not_lt, not_not] at hstart
    obtain ⟨hsize, hfirst, hsecond, hthird⟩ := hstart
    rcases blob with _ | ⟨first, _ | ⟨second, serialized⟩⟩
    · cases hfirst
    · cases hsecond
    · obtain rfl := Option.some.inj hfirst
      obtain rfl := Option.some.inj hsecond
      refine ⟨serialized, rfl, ?_, hthird⟩
      simp only [customAttributePrologSize, namedArgumentCountSize, List.length_cons] at hsize
      omega

/-- The type name stands behind the prolog and its length; two bytes or more follow it. -/
theorem findTypeName_spec {blob : List Byte} {stringBegin stringLength : ℕ}
    (h : findTypeName blob = some (stringBegin, stringLength)) :
    ∃ encodedLength typeName trailing,
      blob = prolog ++ (encodedLength ++ typeName) ++ trailing ∧
      Reads uncompressData encodedLength typeName.length ∧
      namedArgumentCountSize ≤ trailing.length ∧
      stringBegin = customAttributePrologSize + encodedLength.length ∧
      stringLength = typeName.length := by
  obtain ⟨serialized, rfl, hsize, hnull⟩ := cons_of_findTypeName h
  rw [findTypeName_cons hsize hnull, findSerString] at h
  cases hdata : corSigUncompressData (serialized.take (serialized.length - 2)) with
  | none =>
      rw [hdata] at h
      cases h
  | some data =>
      obtain ⟨length, size⟩ := data
      simp only [hdata] at h
      split at h
      · cases h
      · rename_i hfits
        obtain ⟨rfl, rfl⟩ := Prod.mk.inj (Option.some.inj h)
        obtain ⟨hle, hreads⟩ := reads_of_corSigUncompressData hdata
        rw [List.length_take] at hle
        rw [List.take_take, min_eq_left (by omega)] at hreads
        have hlength : ((serialized.drop size).take length).length = length := by
          rw [List.length_take, List.length_drop]
          omega
        refine ⟨serialized.take size, (serialized.drop size).take length,
          serialized.drop (size + length), ?_, ?_, ?_, ?_, hlength.symm⟩
        · rw [List.append_assoc, List.append_assoc, ← List.drop_drop, List.take_append_drop,
            List.take_append_drop]
          rfl
        · rw [hlength]
          exact hreads
        · rw [List.length_drop, namedArgumentCountSize]
          omega
        · rw [List.length_take, customAttributePrologSize]
          omega

/-- A blob of this format is found to be one. -/
theorem findTypeName_eq {encodedLength typeName trailing : List Byte}
    (hread : Reads uncompressData encodedLength typeName.length)
    (htrailing : namedArgumentCountSize ≤ trailing.length) :
    findTypeName (prolog ++ (encodedLength ++ typeName) ++ trailing)
      = some (customAttributePrologSize + encodedLength.length, typeName.length) := by
  obtain ⟨first, rest, rfl, hfirst⟩ := first_of_reads hread
  rw [namedArgumentCountSize] at htrailing
  have hblob : prolog ++ (first :: rest ++ typeName) ++ trailing
      = 0x01 :: 0x00 :: (first :: rest ++ (typeName ++ trailing)) := by
    simp [prolog]
  -- the uncompression sees all but the last two bytes
  have htake : (first :: rest ++ (typeName ++ trailing)).take
      ((first :: rest ++ (typeName ++ trailing)).length - 2)
        = first :: rest ++ (typeName ++ trailing.take (trailing.length - 2)) := by
    rw [List.take_append, List.take_append, List.take_of_length_le, List.take_of_length_le]
    · congr 3
      simp only [List.length_append, List.length_cons]
      omega
    all_goals
      simp only [List.length_append, List.length_cons]
      omega
  rw [hblob, findTypeName_cons, findSerString, htake, corSigUncompressData_of_reads hread]
  · simp only [List.length_append, List.length_cons]
    rw [if_neg (by omega), customAttributePrologSize]
  · simp only [List.length_append, List.length_cons]
    omega
  · simpa using hfirst

theorem typeNameOfBlob_eq (encodedLength typeName trailing : List Byte) :
    typeNameOfBlob (prolog ++ (encodedLength ++ typeName) ++ trailing)
      (customAttributePrologSize + encodedLength.length, typeName.length) = typeName := by
  rw [typeNameOfBlob, ← List.drop_drop]
  simp [prolog, customAttributePrologSize]

/-! ### The rewritten blob -/

theorem take_prolog (encodedLength typeName trailing : List Byte) :
    (prolog ++ (encodedLength ++ typeName) ++ trailing).take customAttributePrologSize
      = prolog := by
  rw [List.append_assoc]
  rfl

theorem drop_typeName (encodedLength typeName trailing : List Byte) :
    (prolog ++ (encodedLength ++ typeName) ++ trailing).drop
      (customAttributePrologSize + encodedLength.length + typeName.length) = trailing := by
  refine List.drop_left' ?_
  simp only [List.length_append, prolog, customAttributePrologSize, List.length_cons,
    List.length_nil]
  omega

/-- Around a type name the rewrite puts what was around the old one, unless the length of
the name or of the whole is out of range. -/
theorem rebuildBlob_eq (outputs : BlobOutputs)
    {encodedLength typeName trailing rewrittenTypeName : List Byte}
    (rewrittenAssemblyNames : List WString)
    (htrailing : namedArgumentCountSize ≤ trailing.length) :
    rebuildBlob outputs.clear (prolog ++ (encodedLength ++ typeName) ++ trailing)
        (customAttributePrologSize + encodedLength.length) typeName.length rewrittenTypeName
        rewrittenAssemblyNames
      = if maxPackedLength < rewrittenTypeName.length ∨
            2 ^ 32 ≤ (prolog ++ serString rewrittenTypeName ++ trailing).length then
          (false, ⟨[], []⟩)
        else
          (true, ⟨prolog ++ serString rewrittenTypeName ++ trailing, rewrittenAssemblyNames⟩) := by
  rw [rebuildBlob, take_prolog, drop_typeName]
  simp only [writePackedLength, BlobOutputs.clear, List.nil_append]
  by_cases hpacked : rewrittenTypeName.length > maxPackedLength
  · rw [if_pos hpacked, if_pos (Or.inl hpacked)]
  · rw [if_neg hpacked]
    simp only
    -- the subtractions of the source do not wrap: the prolog and the length are short
    have hcompressed := length_corSigCompressData_le rewrittenTypeName.length
    have hlength : (prolog ++ serString rewrittenTypeName ++ trailing).length
        = (prolog ++ corSigCompressData rewrittenTypeName.length).length
          + rewrittenTypeName.length + trailing.length := by
      simp only [serString, List.length_append]
      omega
    have hsizes : (prolog ++ corSigCompressData rewrittenTypeName.length).length ≤ 6 := by
      simp only [prolog, List.length_append, List.length_cons, List.length_nil]
      omega
    simp only [maxPackedLength] at hpacked
    have hbound : (rewrittenTypeName.length
          > maxBlobSize - (prolog ++ corSigCompressData rewrittenTypeName.length).length ∨
        (prolog ++ (encodedLength ++ typeName) ++ trailing).length - customAttributePrologSize
            - namedArgumentCountSize
            - (customAttributePrologSize + encodedLength.length - customAttributePrologSize)
            - typeName.length + namedArgumentCountSize
          > maxBlobSize - (prolog ++ corSigCompressData rewrittenTypeName.length).length
            - rewrittenTypeName.length) ↔
        maxPackedLength < rewrittenTypeName.length ∨
          2 ^ 32 ≤ (prolog ++ serString rewrittenTypeName ++ trailing).length := by
      rw [hlength]
      simp only [namedArgumentCountSize] at htrailing
      simp only [customAttributePrologSize, namedArgumentCountSize, maxBlobSize, maxPackedLength,
        List.length_append, prolog, List.length_cons, List.length_nil] at hsizes ⊢
      omega
    by_cases hrefused : maxPackedLength < rewrittenTypeName.length ∨
        2 ^ 32 ≤ (prolog ++ serString rewrittenTypeName ++ trailing).length
    · rw [if_pos (hbound.mpr hrefused), if_pos hrefused]
    · rw [if_neg (fun h => hrefused (hbound.mp h)), if_neg hrefused]
      simp [serString]

/-- With its outputs the rewrite returns what it returns without them; refused, it leaves
them empty. -/
theorem tryRewriteInto_eq (toWSTRING : List Byte → WString) (redirects : AssemblyRedirects)
    (blob : List Byte) (outputs : BlobOutputs) :
    tryRewriteUnsafeAccessorTypeAttributeBlobInto toWSTRING redirects (some blob) outputs
      = (tryRewriteUnsafeAccessorTypeAttributeBlob toWSTRING redirects blob).elim (false, ⟨[], []⟩)
          fun rewritten => (true, ⟨rewritten.1, rewritten.2⟩) := by
  rw [tryRewriteUnsafeAccessorTypeAttributeBlobInto, tryRewriteUnsafeAccessorTypeAttributeBlob]
  cases hfind : findTypeName blob with
  | none => rfl
  | some position =>
      obtain ⟨encodedLength, typeName, trailing, rfl, -, htrailing, hbegin, hlength⟩ :=
        findTypeName_spec hfind
      simp only [hbegin, hlength, typeNameOfBlob_eq]
      cases tryRewriteTypeNameAssemblyRedirections toWSTRING redirects typeName with
      | none => rfl
      | some rewritten =>
          simp only
          have hwhole : prolog ++ corSigCompressData rewritten.1.length ++ rewritten.1 ++ trailing
              = prolog ++ serString rewritten.1 ++ trailing := by
            rw [serString, List.append_assoc prolog]
          rw [rebuildBlob_eq outputs rewritten.2 htrailing, take_prolog, drop_typeName, hwhole]
          by_cases hpacked : maxPackedLength < rewritten.1.length
          · rw [if_pos hpacked, if_pos (Or.inl hpacked)]
            rfl
          · rw [if_neg hpacked]
            by_cases hsize : 2 ^ 32 ≤ (prolog ++ serString rewritten.1 ++ trailing).length
            · rw [if_pos hsize, if_pos (Or.inr hsize)]
              rfl
            · rw [if_neg hsize, if_neg (not_or.mpr ⟨hpacked, hsize⟩)]
              rfl

/-- What a rewrite can do. -/
theorem tryRewriteInto_cases (toWSTRING : List Byte → WString) (redirects : AssemblyRedirects)
    (blob : Option (List Byte)) (outputs : BlobOutputs) :
    tryRewriteUnsafeAccessorTypeAttributeBlobInto toWSTRING redirects blob outputs
        = (false, ⟨[], []⟩) ∨
      ∃ encodedLength typeName trailing rewrittenTypeName rewrittenAssemblyNames,
        blob = some (prolog ++ (encodedLength ++ typeName) ++ trailing) ∧
        Reads uncompressData encodedLength typeName.length ∧
        namedArgumentCountSize ≤ trailing.length ∧
        tryRewriteTypeNameAssemblyRedirections toWSTRING redirects typeName
          = some (rewrittenTypeName, rewrittenAssemblyNames) ∧
        rewrittenTypeName.length ≤ maxPackedLength ∧
        tryRewriteUnsafeAccessorTypeAttributeBlobInto toWSTRING redirects blob outputs
          = (true,
            ⟨prolog ++ serString rewrittenTypeName ++ trailing, rewrittenAssemblyNames⟩) := by
  cases blob with
  | none => exact .inl rfl
  | some blob =>
      rw [tryRewriteUnsafeAccessorTypeAttributeBlobInto]
      cases hfind : findTypeName blob with
      | none => exact .inl rfl
      | some position =>
          obtain ⟨encodedLength, typeName, trailing, rfl, hread, htrailing, hbegin, hlength⟩ :=
            findTypeName_spec hfind
          simp only [hbegin, hlength, typeNameOfBlob_eq]
          cases hrewrite : tryRewriteTypeNameAssemblyRedirections toWSTRING redirects typeName with
          | none => exact .inl rfl
          | some rewritten =>
              simp only
              rw [rebuildBlob_eq outputs rewritten.2 htrailing]
              split
              · exact .inl rfl
              · rename_i hfits
                refine .inr ⟨encodedLength, typeName, trailing, rewritten.1, rewritten.2, rfl,
                  hread, htrailing, hrewrite, ?_, rfl⟩
                exact not_lt.mp fun h => hfits (Or.inl h)

/-- **The rewrite of a blob is sound**: where it returns `true`, the original is the prolog,
a type name under its compressed length and the bytes behind it, and what it writes is the
prolog, the rewritten name as a `SerString` and the same bytes behind it; both the format and
the rewrite itself read the rewritten name back from it. Where it returns `false`, it leaves
its outputs empty. -/
theorem tryRewriteUnsafeAccessorTypeAttributeBlob_sound (toWSTRING : List Byte → WString)
    (redirects : AssemblyRedirects) (blob : Option (List Byte)) (outputs : BlobOutputs) :
    let result := tryRewriteUnsafeAccessorTypeAttributeBlobInto toWSTRING redirects blob outputs
    let written := result.2
    (result.1 = true →
      ∃ encodedLength typeName trailing rewrittenTypeName rewrittenAssemblyNames,
        blob = some (prolog ++ (encodedLength ++ typeName) ++ trailing) ∧
        Reads uncompressData encodedLength typeName.length ∧
        tryRewriteTypeNameAssemblyRedirections toWSTRING redirects typeName
          = some (rewrittenTypeName, rewrittenAssemblyNames) ∧
        written.rewrittenBlob = prolog ++ serString rewrittenTypeName ++ trailing ∧
        written.redirectedAssemblyNames = rewrittenAssemblyNames ∧
        readTypeName written.rewrittenBlob = some (rewrittenTypeName, trailing) ∧
        (findTypeName written.rewrittenBlob).map (typeNameOfBlob written.rewrittenBlob)
          = some rewrittenTypeName) ∧
    (result.1 = false → written.rewrittenBlob = [] ∧ written.redirectedAssemblyNames = []) := by
  intro result written
  rcases tryRewriteInto_cases toWSTRING redirects blob outputs with hrefused |
    ⟨encodedLength, typeName, trailing, rewrittenTypeName, rewrittenAssemblyNames, hblob, hread,
      htrailing, hrewrite, hpacked, hwritten⟩
  · have hresult : result = (false, ⟨[], []⟩) := hrefused
    refine ⟨fun htrue => ?_, fun _ => ?_⟩
    · rw [hresult] at htrue
      cases htrue
    · rw [show written = ⟨[], []⟩ from congrArg Prod.snd hresult]
      exact ⟨rfl, rfl⟩
  · have hresult : result = (true, _) := hwritten
    refine ⟨fun _ => ?_, fun hfalse => ?_⟩
    · have hserString := uncompressData_compress (Nat.lt_succ_of_le hpacked)
      rw [show written = _ from congrArg Prod.snd hresult]
      refine ⟨encodedLength, typeName, trailing, rewrittenTypeName, rewrittenAssemblyNames, hblob,
        hread, hrewrite, rfl, rfl, readTypeName_serString hpacked trailing, ?_⟩
      simp only [serString]
      rw [findTypeName_eq hserString htrailing, Option.map_some, typeNameOfBlob_eq]
    · rw [hresult] at hfalse
      cases hfalse

end AutoInstrumentation.Redirection
