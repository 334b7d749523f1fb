import AutoInstrumentation.Signature.Compression

/-!
# AutoInstrumentation.NoCode.TypeNames

How the parameters of a method are compared with those of a configured target: by the
profiler when it selects methods (`GetSigTypeTokName` of `clr_helpers.cpp` and
`CheckExactSignatureMatch` of `rejit_preprocessor.cpp`), and by managed code at run time
(`CheckParameters` and `GetParameterTypeNameDefinition` of `NoCodeIntegrationHelper.cs`).

The profiler names a type while it reads its encoding in the signature blob. Managed
code asks reflection, whose naming (`fullName`) follows its documentation. What the
metadata says of the types that a signature refers to is the parameter `metadata`.
-/

namespace AutoInstrumentation.NoCode

open Lib Lib.Cursor
open Signature

/-- `WSTRING`, `string`. -/
abbrev WString := List Char

/-! ### Types -/

/-- A type definition or reference: the types it is nested in, the outermost first, its own
name with its namespace, and the display name of its assembly. -/
structure TypeName where
  enclosing : List WString
  name : WString
  assembly : WString
  name_ne_nil : name ≠ []

abbrev Metadata := ℕ × ℕ → TypeName

/-- The types of parameters. Tokens and numbers are compressed. `void` is the target of a
pointer. -/
inductive ClrType
  | primitive (p : Primitive)
  | void
  | named (isValueType : Bool) (token : Number)
  | szArray (element : ClrType)
  | ptr (target : ClrType)
  | genericInst (isValueType : Bool) (token : Number) (genArgCount : Number) (args : List ClrType)
  | var (number : Number)
  | mvar (number : Number)

/-- A parameter of a method. -/
structure Parameter where
  byRef : Bool
  type : ClrType

/-! ### Signatures -/

mutual

/-- The encoding of a type (ECMA-335, II.23.2.12). -/
def ClrType.bytes : ClrType → List Byte
  | .primitive p => [p.byte]
  | .void => [elementTypeVoid]
  | .named isValueType token =>
      (if isValueType then elementTypeValueType else elementTypeClass) :: token.bytes
  | .szArray element => elementTypeSzArray :: element.bytes
  | .ptr target => elementTypePtr :: target.bytes
  | .genericInst isValueType token genArgCount args =>
      elementTypeGenericInst :: ((if isValueType then elementTypeValueType else elementTypeClass) ::
        token.bytes ++ (genArgCount.bytes ++ ClrType.bytesAll args))
  | .var number => elementTypeVar :: number.bytes
  | .mvar number => elementTypeMVar :: number.bytes

def ClrType.bytesAll : List ClrType → List Byte
  | [] => []
  | t :: ts => t.bytes ++ ClrType.bytesAll ts

end

mutual

/-- The counts are the numbers of the arguments, and a generic type has some. -/
def ClrType.WellFormed : ClrType → Prop
  | .genericInst _ _ genArgCount args =>
      genArgCount.value = args.length ∧ args ≠ [] ∧ ClrType.WellFormedAll args
  | .szArray element => element.WellFormed
  | .ptr target => target.WellFormed
  | _ => True

def ClrType.WellFormedAll : List ClrType → Prop
  | [] => True
  | t :: ts => t.WellFormed ∧ ClrType.WellFormedAll ts

end

def Parameter.bytes (p : Parameter) : List Byte := byRefBytes p.byRef ++ p.type.bytes

/-- The bytes from each parameter on (`&pbBase[offset]`), to the end of the blob. -/
def argumentsAt (tail : List Byte) : List Parameter → List (List Byte)
  | [] => []
  | p :: ps => (p.bytes ++ (ps.flatMap Parameter.bytes ++ tail)) :: argumentsAt tail ps

/-! ### The profiler -/

/-- A name in the namespace `System`. -/
def system (name : WString) : WString := ['S', 'y', 's', 't', 'e', 'm', '.'] ++ name

def typeName : Primitive → WString
  | .boolean => system ['B', 'o', 'o', 'l', 'e', 'a', 'n']
  | .char => system ['C', 'h', 'a', 'r']
  | .i1 => system ['S', 'B', 'y', 't', 'e']
  | .u1 => system ['B', 'y', 't', 'e']
  | .i2 => system ['I', 'n', 't', '1', '6']
  | .u2 => system ['U', 'I', 'n', 't', '1', '6']
  | .i4 => system ['I', 'n', 't', '3', '2']
  | .u4 => system ['U', 'I', 'n', 't', '3', '2']
  | .i8 => system ['I', 'n', 't', '6', '4']
  | .u8 => system ['U', 'I', 'n', 't', '6', '4']
  | .r4 => system ['S', 'i', 'n', 'g', 'l', 'e']
  | .r8 => system ['D', 'o', 'u', 'b', 'l', 'e']
  | .string => system ['S', 't', 'r', 'i', 'n', 'g']
  | .i => system ['I', 'n', 't', 'P', 't', 'r']
  | .u => system ['U', 'I', 'n', 't', 'P', 't', 'r']
  | .object => system ['O', 'b', 'j', 'e', 'c', 't']

/-- The cases of the switch for the element types that stand alone. -/
def primitiveOf (elemType : Byte) : Option Primitive :=
  [.boolean, .char, .i1, .u1, .u2, .i2, .i4, .u4, .i8, .u8, .r4, .r8, .i, .u, .string,
    Primitive.object].find? (·.byte == elemType)

/-- `if (*pbCur == b) { pbCur++; flag = true; }` -/
def flag (b : Byte) : Cursor Byte Bool := do
  let elemType ← peek
  if elemType = b then do
    let _ ← next
    pure true
  else pure false

/-- `std::to_string`. -/
def toText (n : ℕ) : WString := Nat.toDigits 10 n

/-- Run a reader a number of times. -/
def collect (p : Cursor Byte WString) : ℕ → Cursor Byte (List WString)
  | 0 => pure []
  | n + 1 => do
      let name ← p
      let names ← collect p n
      pure (name :: names)

/-- The switch of `GetSigTypeTokName`; what no case names is not read. -/
def sigTypeTokName (metadata : Metadata) (getSigTypeTokName : Cursor Byte WString)
    (elemType : Byte) : Cursor Byte WString :=
  match primitiveOf elemType with
  | some p => do
      let _ ← next
      pure (typeName p)
  | none =>
      if elemType = elementTypeClass ∨ elemType = elementTypeValueType then do
        let _ ← next
        let token ← uncompressToken
        pure (metadata token).name
      else if elemType = elementTypeSzArray then do
        let _ ← next
        let tokenName ← getSigTypeTokName
        pure (tokenName ++ ['[', ']'])
      else if elemType = elementTypeGenericInst then do
        let _ ← next
        let tokenName ← getSigTypeTokName
        let num ← uncompressData
        let names ← collect getSigTypeTokName num
        pure (tokenName ++ ['['] ++ [','].intercalate names ++ [']'])
      else if elemType = elementTypeMVar then do
        let _ ← next
        let num ← uncompressData
        pure (['!', '!'] ++ toText num)
      else if elemType = elementTypeVar then do
        let _ ← next
        let num ← uncompressData
        pure (['!'] ++ toText num)
      else pure []

/-- The body of `GetSigTypeTokName` over the recursive call. -/
def getSigTypeTokNameBody (metadata : Metadata) (getSigTypeTokName : Cursor Byte WString) :
    Cursor Byte WString := do
  let refFlag ← flag elementTypeByRef
  let pointerFlag ← flag elementTypePtr
  let elemType ← peek
  let tokenName ← sigTypeTokName metadata getSigTypeTokName elemType
  let tokenName := if refFlag then tokenName ++ ['&'] else tokenName
  pure (if pointerFlag then tokenName ++ ['*'] else tokenName)

def getSigTypeTokNameFuel (metadata : Metadata) : ℕ → Cursor Byte WString
  | 0 => failure
  | fuel + 1 => getSigTypeTokNameBody metadata (getSigTypeTokNameFuel metadata fuel)

/-- `TypeSignature::GetTypeTokName`, at the offset of the argument. -/
def getTypeTokName (metadata : Metadata) (pbCur : List Byte) : Option WString :=
  (getSigTypeTokNameFuel metadata (pbCur.length + 1) pbCur).map Prod.fst

/-- The loop over the arguments; `none` when one is read past the end of the blob. -/
def argumentsMatch (metadata : Metadata) : List (List Byte) → List WString → Option Bool
  | methodArgument :: methodArguments, integrationArgumentTypeName :: signatureTypes => do
      let argumentTypeName ← getTypeTokName metadata methodArgument
      if argumentTypeName ≠ integrationArgumentTypeName ∧
          integrationArgumentTypeName ≠ ['_'] then
        pure false
      else argumentsMatch metadata methodArguments signatureTypes
  | _, _ => pure true

/-- `CheckExactSignatureMatch`. For no signature types at all `size() - 1` wraps around and
equals no number of arguments. -/
def checkExactSignatureMatch (metadata : Metadata) (methodArguments : List (List Byte))
    (signatureTypes : List WString) : Option Bool :=
  if methodArguments.length + 1 ≠ signatureTypes.length then some false
  else argumentsMatch metadata methodArguments signatureTypes.tail

/-! ### Reflection -/

/-- The characters that stand with a backslash in a full name. -/
def isSpecial (c : Char) : Bool := c ∈ [',', '+', '&', '*', '[', ']', '\\']

def escape (name : WString) : WString :=
  name.flatMap fun c => if isSpecial c then ['\\', c] else [c]

/-- The names of the enclosing types and the own one, with `+` between them. -/
def TypeName.fullName (t : TypeName) : WString :=
  t.enclosing.foldr (fun name rest => escape name ++ '+' :: rest) (escape t.name)

/-- The assembly of a type; that of a constructed type is the one of its element or
generic type. -/
def ClrType.assembly (metadata : Metadata) (coreLibrary : WString) : ClrType → WString
  | .named _ token | .genericInst _ token _ _ => (metadata token.token).assembly
  | .szArray element => element.assembly metadata coreLibrary
  | .ptr target => target.assembly metadata coreLibrary
  | _ => coreLibrary

mutual

/-- `Type.FullName`: null for a type that contains type variables. The generic arguments
are assembly-qualified. -/
def ClrType.fullName (metadata : Metadata) (coreLibrary : WString) : ClrType → Option WString
  | .primitive p => some (typeName p)
  | .void => some (system ['V', 'o', 'i', 'd'])
  | .named _ token => some (metadata token.token).fullName
  | .szArray element => (element.fullName metadata coreLibrary).map (· ++ ['[', ']'])
  | .ptr target => (target.fullName metadata coreLibrary).map (· ++ ['*'])
  | .genericInst _ token _ args =>
      (ClrType.qualifiedNames metadata coreLibrary args).map fun names =>
        (metadata token.token).fullName ++ ['['] ++ [','].intercalate names ++ [']']
  | .var _ => none
  | .mvar _ => none

/-- The arguments of a generic type, each in brackets. -/
def ClrType.qualifiedNames (metadata : Metadata) (coreLibrary : WString) :
    List ClrType → Option (List WString)
  | [] => some []
  | t :: ts =>
      match t.fullName metadata coreLibrary, ClrType.qualifiedNames metadata coreLibrary ts with
      | some name, some names =>
          some ((['['] ++ name ++ [',', ' '] ++ t.assembly metadata coreLibrary ++ [']'])
            :: names)
      | _, _ => none

end

/-- `ParameterInfo.ParameterType.FullName`. -/
def Parameter.fullName (metadata : Metadata) (coreLibrary : WString) (p : Parameter) :
    Option WString :=
  (p.type.fullName metadata coreLibrary).map fun name => if p.byRef then name ++ ['&'] else name

/-- `DeclaringMethod != null` and `GenericParameterPosition`, which throws unless the type is a
type variable. -/
def Parameter.genericParameter (p : Parameter) : Option (Bool × ℕ) :=
  if p.byRef then none
  else
    match p.type with
    | .var number => some (false, number.value)
    | .mvar number => some (true, number.value)
    | _ => none

/-! ### Managed code -/

/-- The exception of `GenericParameterPosition`. -/
inductive InvalidOperation
  | genericParameterPosition
  deriving DecidableEq, Repr

/-- `GetParameterTypeNameDefinition`. The cases of its switch are the texts that the
default case formats. -/
def getParameterTypeNameDefinition (metadata : Metadata) (coreLibrary : WString)
    (parameterInfo : Parameter) : Except InvalidOperation WString :=
  match parameterInfo.fullName metadata coreLibrary with
  | some (c :: name) => .ok (c :: name)
  | _ =>
      match parameterInfo.genericParameter with
      | none => .error .genericParameterPosition
      | some (definedOnMethod, genericParameterPosition) =>
          .ok ((if definedOnMethod then ['!', '!'] else ['!'])
            ++ toText genericParameterPosition)

/-- The loop of `CheckParameters`. -/
def parametersMatch (metadata : Metadata) (coreLibrary : WString) :
    List WString → List Parameter → Except InvalidOperation Bool
  | targetSignatureType :: targetSignatureTypes, parameter :: parameters => do
      let parameterTypeNameDefinition ←
        getParameterTypeNameDefinition metadata coreLibrary parameter
      if targetSignatureType ≠ parameterTypeNameDefinition then pure false
      else parametersMatch metadata coreLibrary targetSignatureTypes parameters
  | _, _ => pure true

def checkParameters (metadata : Metadata) (coreLibrary : WString)
    (targetSignatureTypes : List WString) (parameters : List Parameter) :
    Except InvalidOperation Bool :=
  if targetSignatureTypes.length ≠ parameters.length + 1 then .ok false
  else parametersMatch metadata coreLibrary targetSignatureTypes.tail parameters

end AutoInstrumentation.NoCode
