import AutoInstrumentation.Signature.Compression
import AutoInstrumentation.Signature.Locals

/-!
# AutoInstrumentation.Signature.ModifyLocalSig

`CallTargetTokens::ModifyLocalSig` with the additional locals of `TracerTokens`: the
local-variable signature of a rewritten method, written piece by piece into a fixed buffer
under a size that is computed ahead.

The buffer is the list of the bytes that are written to it, in the order in which they are
written, so that its length is the offset. Every way to leave the function keeps the buffer.
-/

namespace AutoInstrumentation.Signature

open Lib

/-! ### Tokens -/

/-- `mdToken`. -/
abbrev MdToken := BitVec 32

def mdTokenNil : MdToken := 0
def mdTypeRefNil : MdToken := 0x01000000
def mdTypeSpecNil : MdToken := 0x1b000000

def ridFromToken (tk : MdToken) : ℕ := (tk &&& 0x00ffffff).toNat

/-- The place of the token's table in `CorSigDecodeTokenType`; it is 0 for a table that is not
in there. -/
def encodedTokenType (tk : MdToken) : ℕ :=
  let ulTyp := tk &&& 0xff000000
  if ulTyp = 0x01000000 then 1
  else if ulTyp = 0x1b000000 then 2
  else if ulTyp = 0x72000000 then 3
  else 0

/-- The number that `CorSigCompressToken` writes. A row has 24 bits, so none is too big. -/
def encodedToken (tk : MdToken) : ℕ := ridFromToken tk <<< 2 ||| encodedTokenType tk

/-- `CorSigCompressToken`. -/
def corSigCompressToken (tk : MdToken) : List Byte := corSigCompressData (encodedToken tk)

/-! ### Flags of a type -/

def typeFlagByRef : ℕ := 0x01
def typeFlagVoid : ℕ := 0x02
def typeFlagBoxedType : ℕ := 0x04
def typeFlagPinnedType : ℕ := 0x08

/-- Step over `elementType`, if it stands at the cursor, and set a flag for it. -/
def stepOver (elementType : Byte) (flag : ℕ) (cur : List Byte × ℕ) : List Byte × ℕ :=
  if cur.1.head? = some elementType then (cur.1.tail, cur.2 ||| flag) else cur

/-- The element types whose values are boxed. -/
def isBoxedType (elementType : Byte) : Bool :=
  [0x02, 0x03, 0x04, 0x05, 0x06, 0x07, 0x08, 0x09, 0x0a, 0x0b, 0x0c, 0x0d, 0x18, 0x19, 0x11, 0x1e,
    0x13].contains elementType

/-- `TypeSignature::GetElementTypeAndFlags`. -/
def getElementTypeAndFlags (signature : List Byte) : Byte × ℕ :=
  let cur := stepOver elementTypePtr typeFlagByRef (signature, 0)
  let cur := stepOver elementTypePinned typeFlagPinnedType cur
  let cur := if cur.1.head? = some elementTypeVoid then (cur.1, cur.2 ||| typeFlagVoid) else cur
  let cur := stepOver elementTypeByRef typeFlagByRef cur
  let elementType := cur.1.headD 0
  if isBoxedType elementType then (elementType, cur.2 ||| typeFlagBoxedType)
  else if elementType = elementTypeGenericInst ∧ cur.1.tail.head? = some elementTypeValueType then
    (elementType, cur.2 ||| typeFlagBoxedType)
  else (elementType, cur.2)

/-! ### The module -/

/-- What the metadata interfaces of the module answer. A signature that was stored is found
again under its token. -/
structure ModuleMetadata where
  getSigFromToken : MdToken → Option (List Byte)
  getTokenFromTypeSpec : List Byte → Option MdToken
  getTypeSpecFromToken : MdToken → Option (List Byte)
  typeSpec_nil : getTypeSpecFromToken mdTypeSpecNil = none
  typeSpec_eq : ∀ {signature stored tk}, getTokenFromTypeSpec signature = some tk →
    getTypeSpecFromToken tk = some stored → stored = signature

/-- The type references of the module once `EnsureBaseCalltargetTokens` has succeeded; the
two that are defined on demand may fail to be. -/
structure CallTargetTokens where
  callTargetStateTypeRef : MdToken
  exTypeRef : MdToken
  callTargetRefStructTypeRef : MdToken
  callTargetReturnVoidTypeRef : Option MdToken
  callTargetReturnTypeRef : Option MdToken

/-- One call of `ModifyLocalSig`: the method, and what the function is answered. -/
structure LocalSigCall where
  /-- `none` where `EnsureBaseCalltargetTokens` fails -/
  tokens : Option CallTargetTokens
  metadata : ModuleMetadata
  /-- `IsTypeByRefLike`; `none` where it fails -/
  isTypeByRefLike : List Byte → Option Bool
  /-- what `GetTokenFromSig` answers -/
  newLocalVarSig : Option MdToken
  tkLocalVarSig : MdToken
  methodReturnValue : List Byte
  methodTypeArguments : List (List Byte)

def signatureBufferSize : ℕ := 500

def variableNumber : ℕ := 3

/-- `static_cast<ULONG>(ULONG_MAX)`. -/
def noIndex : ℕ := 2 ^ 32 - 1

namespace LocalSigCall

variable (c : LocalSigCall)

def isRefStruct (argument : List Byte) : Bool := c.isTypeByRefLike argument == some true

/-- `TracerTokens::GetAdditionalLocalsCount`. -/
def getAdditionalLocalsCount : ℕ := 2 + c.methodTypeArguments.countP c.isRefStruct

/-- `GetTargetReturnValueTypeRef`. -/
def getTargetReturnValueTypeRef (tokens : CallTargetTokens) : MdToken :=
  match tokens.callTargetReturnTypeRef with
  | none => mdTypeSpecNil
  | some callTargetReturnTypeRef =>
      let signature := elementTypeGenericInst :: elementTypeValueType ::
        (corSigCompressToken callTargetReturnTypeRef ++ 0x01 :: c.methodReturnValue)
      if signature.length > signatureBufferSize then mdTypeSpecNil
      else (c.metadata.getTokenFromTypeSpec signature).getD mdTypeSpecNil

end LocalSigCall

/-- `GetTargetVoidReturnTypeRef`. -/
def CallTargetTokens.getTargetVoidReturnTypeRef (tokens : CallTargetTokens) : MdToken :=
  tokens.callTargetReturnVoidTypeRef.getD mdTypeRefNil

/-! ### The rewrite -/

/-- The ways to leave the function. -/
inductive LocalSigExit
  | noTokens
  | noOriginalSignature
  | alreadyModified
  | noTypeSpec
  /-- at the first or the second comparison with the size of the buffer -/
  | exceedsBuffer
  | sizeMismatch
  | notEmitted
  | modified
  deriving DecidableEq, Repr

/-- The indices and tokens that a successful call writes for its caller. -/
structure LocalIndices where
  returnValueIndex : ℕ
  exceptionIndex : ℕ
  callTargetReturnIndex : ℕ
  additionalLocalIndices : List ℕ
  callTargetStateIndex : ℕ
  callTargetStateToken : MdToken
  exceptionToken : MdToken
  callTargetReturnToken : MdToken

structure LocalSigOutcome where
  exit : LocalSigExit
  /-- what was written to `newSignatureBuffer` -/
  buffer : List Byte
  /-- the token of the rewriter afterwards -/
  tkLocalVarSig : MdToken
  indices : Option LocalIndices

/-- The last local of the original signature is the state of a call target. -/
def isAlreadyModified (callTargetStateTypeRef : MdToken) (originalSignature : List Byte) : Bool :=
  let temp := corSigCompressToken callTargetStateTypeRef
  originalSignature.length > temp.length &&
    originalSignature[originalSignature.length - temp.length - 1]? == some elementTypeValueType &&
    originalSignature.drop (originalSignature.length - temp.length) == temp

/-- The loop of `TracerTokens::AddAdditionalLocals` over the arguments, on the buffer and the
signature size. -/
def addRefStructs (isRefStruct : List Byte → Bool) (refStruct : List Byte) :
    List (List Byte) → List Byte × ℕ → List Byte × ℕ
  | [], s => s
  | argument :: arguments, (buffer, size) =>
      if isRefStruct argument then
        let size := size + refStruct.length
        if size > signatureBufferSize then (buffer, size)
        else addRefStructs isRefStruct refStruct arguments (buffer ++ refStruct, size)
      else addRefStructs isRefStruct refStruct arguments (buffer, size)

/-- `TracerTokens::AddAdditionalLocals`. -/
def addAdditionalLocals (c : LocalSigCall) (tokens : CallTargetTokens) :
    List Byte × ℕ → List Byte × ℕ
  | (buffer, size) =>
      let exception := elementTypeClass :: corSigCompressToken tokens.exTypeRef
      let size := size + 2 * exception.length
      if size > signatureBufferSize then (buffer, size)
      else
        addRefStructs c.isRefStruct
          (elementTypeValueType :: corSigCompressToken tokens.callTargetRefStructTypeRef)
          c.methodTypeArguments (buffer ++ exception ++ exception, size)

/-- The pieces of the new signature that the types of the method decide. -/
structure NewLocals where
  /-- the type of the local for the return value; empty where there is none -/
  returnSignature : List Byte
  callTargetReturn : MdToken
  callTargetReturnSignature : List Byte
  hasReturnValue : Bool

/-- What the function finds out about the return type; `none` where it gives up. -/
def newLocalsOf (c : LocalSigCall) (tokens : CallTargetTokens) : Option NewLocals :=
  if (getElementTypeAndFlags c.methodReturnValue).2 ≠ typeFlagVoid then
    let callTargetReturn := c.getTargetReturnValueTypeRef tokens
    match c.metadata.getTypeSpecFromToken callTargetReturn with
    | none => none
    | some callTargetReturnSignature =>
        some ⟨c.methodReturnValue, callTargetReturn, callTargetReturnSignature, true⟩
  else
    let callTargetReturn := tokens.getTargetVoidReturnTypeRef
    some ⟨[], callTargetReturn, elementTypeValueType :: corSigCompressToken callTargetReturn, false⟩

/-- The function once the original signature, empty if there is none, and the return type
are known. -/
def writeLocalSig (c : LocalSigCall) (tokens : CallTargetTokens) (originalSignature : List Byte)
    (locals : NewLocals) : LocalSigOutcome :=
  let failed := fun exit buffer =>
    ({ exit, buffer, tkLocalVarSig := c.tkLocalVarSig, indices := none } : LocalSigOutcome)
  let additionalLocalsCount := c.getAdditionalLocalsCount
  let newLocalsCount :=
    variableNumber + additionalLocalsCount + if locals.hasReturnValue then 1 else 0
  let exception := elementTypeClass :: corSigCompressToken tokens.exTypeRef
  let state := elementTypeValueType :: corSigCompressToken tokens.callTargetStateTypeRef
  let newSignatureSize := originalSignature.length + locals.returnSignature.length +
    exception.length + locals.callTargetReturnSignature.length + state.length
  -- the count and the length of the old count, for which no original signature has none
  let oldLocals :=
    if originalSignature.isEmpty then (0, 0)
    else (corSigUncompressData originalSignature.tail).getD (0, 2 ^ 32 - 1)
  let newLocalsCount := newLocalsCount + oldLocals.1
  let newLocalsBuffer := corSigCompressData newLocalsCount
  let newSignatureSize :=
    if originalSignature.isEmpty then newSignatureSize + 2
    else newSignatureSize + newLocalsBuffer.length - oldLocals.2
  if newSignatureSize > signatureBufferSize then failed .exceedsBuffer []
  else
    let buffer := localVarSig :: newLocalsBuffer ++ originalSignature.drop (1 + oldLocals.2) ++
      locals.returnSignature ++ exception ++ locals.callTargetReturnSignature
    let (buffer, newSignatureSize) := addAdditionalLocals c tokens (buffer, newSignatureSize)
    if newSignatureSize > signatureBufferSize then failed .exceedsBuffer buffer
    else
      let buffer := buffer ++ state
      if buffer.length ≠ newSignatureSize then failed .sizeMismatch buffer
      else
        match c.newLocalVarSig with
        | none => failed .notEmitted buffer
        | some newLocalVarSig =>
            let indexStart := variableNumber + additionalLocalsCount
            { exit := .modified
              buffer
              tkLocalVarSig := newLocalVarSig
              indices := some {
                returnValueIndex :=
                  if locals.hasReturnValue then newLocalsCount - (indexStart + 1) else noIndex
                exceptionIndex := newLocalsCount - indexStart
                callTargetReturnIndex := newLocalsCount - (indexStart - 1)
                additionalLocalIndices :=
                  (List.range additionalLocalsCount).map fun i =>
                    newLocalsCount - (indexStart - 2 - i)
                callTargetStateIndex := newLocalsCount - 1
                callTargetStateToken := tokens.callTargetStateTypeRef
                exceptionToken := tokens.exTypeRef
                callTargetReturnToken := locals.callTargetReturn } }

/-- `CallTargetTokens::ModifyLocalSig`, with as many `additionalLocalIndices` as the caller
asks for, the additional locals. -/
def modifyLocalSig (c : LocalSigCall) : LocalSigOutcome :=
  let failed := fun exit =>
    ({ exit, buffer := [], tkLocalVarSig := c.tkLocalVarSig, indices := none } : LocalSigOutcome)
  match c.tokens with
  | none => failed .noTokens
  | some tokens =>
      let originalSignature :=
        if c.tkLocalVarSig ≠ mdTokenNil then c.metadata.getSigFromToken c.tkLocalVarSig
        else some []
      match originalSignature with
      | none => failed .noOriginalSignature
      | some originalSignature =>
          if isAlreadyModified tokens.callTargetStateTypeRef originalSignature then
            failed .alreadyModified
          else
            match newLocalsOf c tokens with
            | none => failed .noTypeSpec
            | some locals => writeLocalSig c tokens originalSignature locals

end AutoInstrumentation.Signature
