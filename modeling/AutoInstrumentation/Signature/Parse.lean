import AutoInstrumentation.Lib.Cursor
import AutoInstrumentation.Signature.Grammar

/-!
# AutoInstrumentation.Signature.Parse

The signature parser of `clr_helpers.cpp`.

`pbCur` is the list of the bytes from the cursor to `pbEnd`, so that every test
`pbCur < pbEnd` is a test for a byte ahead. The switch of `ParseType` is a chain of
tests in the order of its cases; it has no default, so a byte that no case names
is consumed as a type of its own. The recursion of `ParseType` runs on fuel; one
unit for each byte ahead is enough (`parseType_eq`).
-/

namespace AutoInstrumentation.Signature

open Lib Lib.Cursor

def parseByte : Cursor Byte Byte := next

/-- `ParseNumber`. -/
def parseNumber : Cursor Byte ℕ := do
  let b1 ← parseByte
  if b1 = 0xff then failure
  else if b1 &&& 0x80 = 0 then pure b1.toNat
  else do
    let b2 ← parseByte
    if b1 &&& 0x40 = 0 then pure ((b1 &&& 0x3f).toNat <<< 8 ||| b2.toNat)
    else if b1 &&& 0x20 ≠ 0 then failure
    else do
      let b3 ← parseByte
      let b4 ← parseByte
      pure ((b1 &&& 0x1f).toNat <<< 24 ||| b2.toNat <<< 16 ||| b3.toNat <<< 8 ||| b4.toNat)

/-- `ParseTypeDefOrRefEncoded`: the table and the row. -/
def parseTypeDefOrRefEncoded : Cursor Byte (ℕ × ℕ) := do
  let encoded ← parseNumber
  pure (encoded &&& 0x3, encoded >>> 2)

/-- The cases of the switch that consume nothing more. -/
def isSimpleType (elemType : Byte) : Bool :=
  [0x02, 0x03, 0x04, 0x05, 0x07, 0x06, 0x08, 0x09, 0x0a, 0x0b, 0x0c, 0x0d, 0x18, 0x19,
    0x0e, 0x1c].contains elemType

def isCustomMod (b : Byte) : Bool :=
  b = elementTypeCModOpt || b = elementTypeCModReqd

/-- The body of `ParseType` over the parser it calls. -/
def parseTypeBody (parseType : Cursor Byte Unit) (elemType : Byte) : Cursor Byte Unit :=
  if isSimpleType elemType then pure ()
  else if elemType = elementTypePtr then failure
  else if elemType = elementTypeClass then do
    let _ ← parseTypeDefOrRefEncoded
  else if elemType = elementTypeValueType then do
    let _ ← parseTypeDefOrRefEncoded
  else if elemType = elementTypeFnPtr then failure
  else if elemType = elementTypeArray then failure
  else if elemType = elementTypeSzArray then do
    let b ← peek
    if isCustomMod b then failure else parseType
  else if elemType = elementTypeGenericInst then do
    let elemType ← parseByte
    if elemType ≠ elementTypeClass ∧ elemType ≠ elementTypeValueType then failure
    else do
      let _ ← parseTypeDefOrRefEncoded
      let number ← parseNumber
      times parseType number
  else if elemType = elementTypeVar then do
    let _ ← parseNumber
  else if elemType = elementTypeMVar then do
    let _ ← parseNumber
  else pure ()

def parseTypeFuel : ℕ → Cursor Byte Unit
  | 0 => failure
  | fuel + 1 => do
      let elemType ← parseByte
      parseTypeBody (parseTypeFuel fuel) elemType

/-- `ParseType`. -/
def parseType : Cursor Byte Unit := fun pbCur => parseTypeFuel pbCur.length pbCur

/-- Step over the byte ahead if it is `b`; there must be one. -/
def skip (b : Byte) : Cursor Byte Unit := do
  let ahead ← peek
  if ahead = b then do
    let _ ← next
  else pure ()

/-- `ParseParamOrLocal`. -/
def parseParamOrLocal : Cursor Byte Unit := do
  let b ← peek
  if isCustomMod b then failure
  else if b = elementTypeTypedByRef then failure
  else do
    skip elementTypeByRef
    skip elementTypePtr
    parseType

/-- `ParseRetType`. -/
def parseRetType : Cursor Byte Unit := do
  let b ← peek
  if isCustomMod b then failure
  else if b = elementTypeTypedByRef then failure
  else if b = elementTypeVoid then do
    let _ ← next
  else do
    skip elementTypeByRef
    parseType

/-- What a parser consumes, as a span of a blob of `len` bytes. -/
def spanOf (len : ℕ) (p : Cursor Byte Unit) : Cursor Byte TypeSignature := do
  let before ← remaining
  p
  let after ← remaining
  pure ⟨len - before, before - after⟩

/-- The loop of `TryParse` over the `n` parameters still to come. -/
def parseParams (len : ℕ) : ℕ → Bool → Cursor Byte (List TypeSignature)
  | 0, _ => pure []
  | n + 1, encounteredSentinel => do
      let b ← peek
      if b = elementTypeSentinel then
        if encounteredSentinel then failure
        else do
          let _ ← next
          let argument ← spanOf len parseParamOrLocal
          let arguments ← parseParams len n true
          pure (argument :: arguments)
      else do
        let argument ← spanOf len parseParamOrLocal
        let arguments ← parseParams len n encounteredSentinel
        pure (argument :: arguments)

/-- `FunctionMethodSignature`, without its blob. -/
structure FunctionMethodSignature where
  numberOfTypeArguments : ℕ
  numberOfArguments : ℕ
  returnValue : TypeSignature
  params : List TypeSignature
  deriving DecidableEq, Repr

/-- The count of type parameters, which only a generic signature has. -/
def parseGenParamCount (elemType : Byte) : Cursor Byte ℕ :=
  if elemType &&& callConvGeneric ≠ 0 then parseNumber else pure 0

def parseMethodSignature (len : ℕ) : Cursor Byte FunctionMethodSignature := do
  let elemType ← parseByte
  let numberOfTypeArguments ← parseGenParamCount elemType
  let paramCount ← parseNumber
  let returnValue ← spanOf len parseRetType
  let params ← parseParams len paramCount false
  pure {
    numberOfTypeArguments
    numberOfArguments := paramCount
    returnValue
    params }

/-- `FunctionMethodSignature::TryParse`; `none` is `E_FAIL`. -/
def tryParse (blob : List Byte) : Option FunctionMethodSignature :=
  (parseMethodSignature blob.length blob).map Prod.fst

end AutoInstrumentation.Signature
