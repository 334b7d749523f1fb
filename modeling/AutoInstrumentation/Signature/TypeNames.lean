import AutoInstrumentation.Signature.Compression

/-!
# AutoInstrumentation.Signature.TypeNames

The two printers of type names: `GetSigTypeTokName` of `clr_helpers.cpp`, for matching
signatures, and `GetSigTypeTokNameNew` of `continuous_profiler_clr_helpers.cpp`.

They walk over the signature once more, without a look at its end: reading behind the end
of the blob is a failure here. The two differ in the separator of generic arguments and in
the names of type variables. What names a token comes from the metadata, by `GetTypeInfo`.
-/

namespace AutoInstrumentation.Signature

open Lib Lib.Cursor

/-- What a printer writes that the signature does not say: the names of tokens (a table and
a row) and of type variables, and the punctuation of generic arguments. -/
structure TypeNaming where
  typeInfoName : ℕ × ℕ → String
  mvar : ℕ → String
  var : ℕ → String
  openingBrace : String
  separator : String
  closingBrace : String

/-- The names of the element types that stand alone. -/
def systemTypeName (elemType : Byte) : Option String :=
  if elemType = 0x02 then some "System.Boolean"
  else if elemType = 0x03 then some "System.Char"
  else if elemType = 0x04 then some "System.SByte"
  else if elemType = 0x05 then some "System.Byte"
  else if elemType = 0x07 then some "System.UInt16"
  else if elemType = 0x06 then some "System.Int16"
  else if elemType = 0x08 then some "System.Int32"
  else if elemType = 0x09 then some "System.UInt32"
  else if elemType = 0x0a then some "System.Int64"
  else if elemType = 0x0b then some "System.UInt64"
  else if elemType = 0x0c then some "System.Single"
  else if elemType = 0x0d then some "System.Double"
  else if elemType = 0x18 then some "System.IntPtr"
  else if elemType = 0x19 then some "System.UIntPtr"
  else if elemType = 0x0e then some "System.String"
  else if elemType = 0x1c then some "System.Object"
  else none

/-- Step over the byte at the cursor if it is `b`, and say whether it was. -/
def skipFlag (b : Byte) : Cursor Byte Bool := do
  let ahead ← peek
  if ahead = b then do
    let _ ← next
    pure true
  else pure false

/-- The loop over `num` generic arguments. -/
def printArguments (print : Cursor Byte String) (separator : String) : ℕ → Cursor Byte String
  | 0 => pure ""
  | n + 1 => do
      let argument ← print
      let arguments ← printArguments print separator n
      pure (argument ++ (if n = 0 then "" else separator) ++ arguments)

/-- The switch of both printers over the printer itself. An element type that no case names
is left at the cursor, without a name. -/
def printElement (names : TypeNaming) (print : Cursor Byte String) : Cursor Byte String := do
  let elemType ← peek
  if elemType = elementTypeClass ∨ elemType = elementTypeValueType then do
    let _ ← next
    let token ← uncompressToken
    pure (names.typeInfoName token)
  else if elemType = elementTypeSzArray then do
    let _ ← next
    let element ← print
    pure (element ++ "[]")
  else if elemType = elementTypeGenericInst then do
    let _ ← next
    let generic ← print
    let num ← uncompressData
    let arguments ← printArguments print names.separator num
    pure (generic ++ names.openingBrace ++ arguments ++ names.closingBrace)
  else if elemType = elementTypeMVar then do
    let _ ← next
    let num ← uncompressData
    pure (names.mvar num)
  else if elemType = elementTypeVar then do
    let _ ← next
    let num ← uncompressData
    pure (names.var num)
  else
    match systemTypeName elemType with
    | some tokenName => do
        let _ ← next
        pure tokenName
    | none => pure ""

/-- The suffixes, in the order in which the printers append them. -/
def flagSuffix (refFlag pointerFlag : Bool) : String :=
  (if refFlag then "&" else "") ++ (if pointerFlag then "*" else "")

/-- The body of both printers. -/
def printTypeBody (names : TypeNaming) (print : Cursor Byte String) : Cursor Byte String := do
  let refFlag ← skipFlag elementTypeByRef
  let pointerFlag ← skipFlag elementTypePtr
  let tokenName ← printElement names print
  pure (tokenName ++ flagSuffix refFlag pointerFlag)

/-- The printers call themselves behind a byte, so the bytes ahead bound the recursion. -/
def printTypeFuel (names : TypeNaming) : ℕ → Cursor Byte String
  | 0 => failure
  | fuel + 1 => printTypeBody names (printTypeFuel names fuel)

def printType (names : TypeNaming) : Cursor Byte String := do
  let fuel ← remaining
  printTypeFuel names fuel

/-- The names that `GetSigTypeTokName` gives. -/
def rejitNaming (typeInfoName : ℕ × ℕ → String) : TypeNaming where
  typeInfoName := typeInfoName
  mvar num := "!!" ++ toString num
  var num := "!" ++ toString num
  openingBrace := "["
  separator := ","
  closingBrace := "]"

/-- `GetSigTypeTokName`. -/
def getSigTypeTokName (typeInfoName : ℕ × ℕ → String) : Cursor Byte String :=
  printType (rejitNaming typeInfoName)

def kGenericParamsMaxLen : ℕ := 20
def kUnknown : String := "Unknown"

/-- The name in `ExtractParameterName`, of the parameter `num`; `genericParameters` is what
`GetGenericParamProps` says of the tokens. -/
def extractParameterName (genericParameters : ℕ → Option String) (num : ℕ) : String :=
  if kGenericParamsMaxLen ≤ num then kUnknown else (genericParameters num).getD kUnknown

/-- The names that `GetSigTypeTokNameNew` gives. -/
def profilerNaming (typeInfoName : ℕ × ℕ → String)
    (classParams methodParams : ℕ → Option String) : TypeNaming where
  typeInfoName := typeInfoName
  mvar := extractParameterName methodParams
  var := extractParameterName classParams
  openingBrace := "["
  separator := ", "
  closingBrace := "]"

/-- `GetSigTypeTokNameNew`. -/
def getSigTypeTokNameNew (typeInfoName : ℕ × ℕ → String)
    (classParams methodParams : ℕ → Option String) : Cursor Byte String :=
  printType (profilerNaming typeInfoName classParams methodParams)

/-! ### The names of types

What a type is called: not translated from the source, but by recursion on the type. -/

def Primitive.netName : Primitive → String
  | .boolean => "System.Boolean"
  | .char => "System.Char"
  | .i1 => "System.SByte"
  | .u1 => "System.Byte"
  | .i2 => "System.Int16"
  | .u2 => "System.UInt16"
  | .i4 => "System.Int32"
  | .u4 => "System.UInt32"
  | .i8 => "System.Int64"
  | .u8 => "System.UInt64"
  | .r4 => "System.Single"
  | .r8 => "System.Double"
  | .string => "System.String"
  | .i => "System.IntPtr"
  | .u => "System.UIntPtr"
  | .object => "System.Object"

/-- The names of generic arguments, one after the other. -/
def joinNames (separator : String) : List String → String
  | [] => ""
  | [name] => name
  | name :: rest => name ++ separator ++ joinNames separator rest

mutual

/-- The name of a type. A function pointer has none. -/
def SigType.netName (names : TypeNaming) : SigType → String
  | .primitive p => p.netName
  | .valueType token => names.typeInfoName token.token
  | .classType token => names.typeInfoName token.token
  | .var number => names.var number.value
  | .mvar number => names.mvar number.value
  | .ptrVoid _ => "System.Void" ++ "*"
  | .ptr _ target => target.netName names ++ "*"
  | .fnPtr _ => ""
  | .array element shape =>
      element.netName names ++ "[" ++ String.ofList (List.replicate (shape.rank.value - 1) ',')
        ++ "]"
  | .szArray _ element => element.netName names ++ "[]"
  | .genericInst _ token _ args =>
      names.typeInfoName token.token ++ names.openingBrace
        ++ joinNames names.separator (typesNetNames names args) ++ names.closingBrace

def typesNetNames (names : TypeNaming) : List SigType → List String
  | [] => []
  | t :: ts => t.netName names :: typesNetNames names ts

end

/-- The name of a parameter's type, with `&` behind it for a reference. -/
def Param.netName (names : TypeNaming) : Param → String
  | .typedByRef _ => "System.TypedReference"
  | .type _ byRef t => t.netName names ++ if byRef then "&" else ""

end AutoInstrumentation.Signature
