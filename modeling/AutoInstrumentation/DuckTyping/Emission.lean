import AutoInstrumentation.DuckTyping.ProxyTypes
import AutoInstrumentation.DuckTyping.StackMachine

/-!
# AutoInstrumentation.DuckTyping.Emission

`DuckType.Methods.cs`: the body of a proxy method, for the forward and for the reverse
direction.

What reflection says of types is a parameter. The inner method is the one that was selected,
with its generic arguments chosen. The body of the dynamic method behind a delegate and the
texts of the errors are left out.
-/

namespace AutoInstrumentation.DuckTyping

/-! ### Types and methods -/

/-- What reflection says of types. -/
structure TypeSystem (τ : Type) where
  object : τ
  /-- `object&`. -/
  objectByRef : τ
  void : τ
  /-- `IDuckType`. -/
  duckType : τ
  isValueType : τ → Bool
  isEnum : τ → Bool
  isByRef : τ → Bool
  isGenericParameter : τ → Bool
  getElementType : τ → Option τ
  getEnumUnderlyingType : τ → τ
  isAssignableFrom : τ → τ → Bool
  hasDuckCopyAttribute : τ → Bool
  /-- The type is of the module of `string`. -/
  isClrType : τ → Bool
  /-- The argument of a `Nullable<>`. -/
  nullableArgument : τ → Option τ
  /-- The argument of a `ValueWithType<>`. -/
  valueWithTypeArgument : τ → Option τ
  useDirectAccessTo : τ → Bool
  objectByRef_element : getElementType objectByRef = some object
  object_ne_void : object ≠ void
  useDirectAccessTo_void : useDirectAccessTo void = true
  isGenericParameter_void : isGenericParameter void = false
  valueWithTypeArgument_void : valueWithTypeArgument void = none
  valueWithTypeArgument_ne_void : ∀ type, valueWithTypeArgument type ≠ some void

structure Parameter (τ : Type) where
  parameterType : τ
  isOut : Bool
  isIn : Bool
  isOptional : Bool
  deriving DecidableEq, Repr

structure Method (τ : Type) where
  parameters : List (Parameter τ)
  returnType : τ
  isStatic : Bool
  isPublic : Bool
  isGenericMethod : Bool
  /-- The declaring type is a value type. -/
  ofValueType : Bool
  genericArguments : List τ
  /-- The return type behind `MakeGenericMethod`. -/
  constructedReturnType : List τ → τ

/-- `MakeGenericMethod`. -/
def Method.makeGenericMethod {τ : Type} (method : Method τ) (arguments : List τ) : Method τ :=
  { method with
    returnType := method.constructedReturnType arguments
    isGenericMethod := true }

/-- The instance and the parameters. -/
def Method.argumentCount {τ : Type} (method : Method τ) : ℕ :=
  (if method.isStatic then 0 else 1) + method.parameters.length

/-- What ends the creation of a method. -/
inductive DuckTypeError (τ : Type)
  | proxyMethodParameterIsMissing (parameter : Parameter τ)
  | proxyAndTargetMethodParameterSignatureMismatch
  | proxyAndTargetMethodReturnTypeMismatch
  | proxyMethodsWithGenericParametersNotSupportedInNonPublicInstances
  | reverseProxyMustImplementGenericMethodAsGeneric
  | targetMethodAmbiguousMatch
  | invalidTypeConversion (actualType expectedType : τ)
  | indexOutOfRange
  | badInstructionOrIndexOutOfBound
  deriving DecidableEq, Repr

/-! ### `LazyILGenerator` -/

/-- The instructions so far, and the labels and the locals that were made. -/
structure LazyIL (τ : Type) where
  instructions : List (Instr τ)
  labels : ℕ
  locals : ℕ

namespace LazyIL

variable {τ : Type}

def empty : LazyIL τ := ⟨[], 0, 0⟩

def emit (il : LazyIL τ) (code : List (Instr τ)) : LazyIL τ :=
  { il with instructions := il.instructions ++ code }

/-- An instruction at offset zero. -/
def emitFirst (il : LazyIL τ) (i : Instr τ) : LazyIL τ :=
  { il with instructions := i :: il.instructions }

def writeLoadArgument (il : LazyIL τ) (index : ℕ) (isStatic : Bool) : LazyIL τ :=
  let index := if isStatic then index else index + 1
  il.emit [if index ≤ 3 then .ldarg index else .ldargS index]

def writeLoadLocal (il : LazyIL τ) (index : ℕ) : LazyIL τ :=
  il.emit [if index ≤ 3 then .ldloc index else .ldlocS index]

def writeStoreLocal (il : LazyIL τ) (index : ℕ) : LazyIL τ :=
  il.emit [if index ≤ 3 then .stloc index else .stlocS index]

end LazyIL

section

variable {τ : Type} [DecidableEq τ] (S : TypeSystem τ)

/-! ### Conversions -/

/-- `NeedsDuckChaining`. -/
def needsDuckChaining (targetType proxyType : τ) : Bool :=
  S.hasDuckCopyAttribute proxyType
    || (proxyType ≠ targetType && !S.isValueType proxyType && !S.isGenericParameter proxyType
      && !S.isAssignableFrom proxyType targetType && !S.isClrType proxyType)
    || (S.nullableArgument proxyType).any S.hasDuckCopyAttribute

/-- The underlying type of an enumeration, and any other type itself. -/
def underlyingType (type : τ) : τ :=
  if S.isEnum type then S.getEnumUnderlyingType type else type

def writeTypeConversion (il : LazyIL τ) (actualType expectedType : τ) :
    Except (DuckTypeError τ) (LazyIL τ) :=
  let actualUnderlyingType := underlyingType S actualType
  let expectedUnderlyingType := underlyingType S expectedType
  if actualUnderlyingType = expectedUnderlyingType then .ok il
  else if S.isValueType actualUnderlyingType then
    if S.isValueType expectedUnderlyingType then
      .error (.invalidTypeConversion actualType expectedType)
    else if expectedUnderlyingType = S.object then .ok (il.emit [.box actualType])
    else if S.isAssignableFrom expectedUnderlyingType actualUnderlyingType then
      .ok (il.emit [.box actualType, .castclass expectedType])
    else .error (.invalidTypeConversion actualType expectedType)
  else if S.isValueType expectedUnderlyingType then
    if actualUnderlyingType = S.object
        || S.isAssignableFrom actualUnderlyingType expectedUnderlyingType then
      let isExpected := il.labels
      .ok ({ il with labels := il.labels + 1 }.emit
        [.dup, .isinst expectedType, .brtrueS isExpected, .pop, .throwException,
          .markLabel isExpected, .unboxAny expectedType])
    else .error (.invalidTypeConversion actualType expectedType)
  else if expectedUnderlyingType ≠ S.object then
    .ok (il.emit [.castclass expectedUnderlyingType])
  else .ok il

def writeSafeTypeConversion (il : LazyIL τ) (actualType expectedType : τ) :
    Except (DuckTypeError τ) (LazyIL τ) :=
  if S.isGenericParameter actualType && S.isGenericParameter expectedType then .ok il
  else writeTypeConversion S il actualType expectedType

/-- `AddIlToExtractDuckType`. -/
def addIlToExtractDuckType (il : LazyIL τ) (_toType _fromType : τ) :
    Except (DuckTypeError τ) (LazyIL τ) :=
  .ok (il.emit [.castclass S.duckType, .call .getInstance])

/-- `AddIlToDuckChain`. The generator refuses the short form of an index that a byte does not
hold. -/
def addIlToDuckChain (il : LazyIL τ) (genericType fromType : τ) :
    Except (DuckTypeError τ) (LazyIL τ) :=
  if S.isValueType fromType then .ok (il.emit [.call (.createFrom genericType fromType)])
  else
    match S.nullableArgument genericType with
    | some innerType =>
        let instanceIsNotNull := il.labels
        let returnValue := il.labels + 1
        let local' := il.locals
        if local' ≤ 255 then
          .ok ({ il with labels := il.labels + 2, locals := il.locals + 1 }.emit
            [.dup, .brtrueS instanceIsNotNull, .pop, .ldloca local', .initobj genericType,
              .ldloc local', .brS returnValue, .markLabel instanceIsNotNull,
              .call (.create innerType), .newobj genericType, .markLabel returnValue])
        else .error .badInstructionOrIndexOutOfBound
    | none => .ok (il.emit [.call (.create genericType)])

/-- `AddIlToDuckChainReverse`. -/
def addIlToDuckChainReverse (il : LazyIL τ) (genericType _originalType : τ) :
    Except (DuckTypeError τ) (LazyIL τ) :=
  .ok (il.emit [.call (.createReverse genericType)])

/-! ### What the directions do differently -/

/-- `needsDuckChaining`, which the reverse direction asks the other way round. -/
def Direction.needsDuckChaining : Direction → τ → τ → Bool
  | .forward, targetType, proxyType => DuckTyping.needsDuckChaining S targetType proxyType
  | .reverse, targetType, proxyType => DuckTyping.needsDuckChaining S proxyType targetType

/-- `duckCastParameterFunc`. -/
def Direction.duckCastParameter :
    Direction → LazyIL τ → τ → τ → Except (DuckTypeError τ) (LazyIL τ)
  | .forward => addIlToExtractDuckType S
  | .reverse => addIlToDuckChain S

/-- `duckChainFunc`, for what is written back. -/
def Direction.duckChain : Direction → LazyIL τ → τ → τ → Except (DuckTypeError τ) (LazyIL τ)
  | .forward => addIlToDuckChain S
  | .reverse => addIlToExtractDuckType S

/-- `addDuckChainIlFunc`, for what is returned. -/
def Direction.addDuckChainIl :
    Direction → LazyIL τ → τ → τ → Except (DuckTypeError τ) (LazyIL τ)
  | .forward => addIlToDuckChain S
  | .reverse => addIlToDuckChainReverse

/-! ### `AddIlToLoadArguments` -/

structure OutputAndRefParameterData (τ : Type) where
  localIndex : ℕ
  localType : τ
  proxyArgumentIndex : ℕ
  proxyArgumentType : τ
  deriving DecidableEq, Repr

/-- An output parameter. -/
def loadOut (il : LazyIL τ) (outerType innerType : τ) (idx : ℕ) :
    LazyIL τ × Option (OutputAndRefParameterData τ) :=
  if outerType ≠ innerType then
    ({ il with locals := il.locals + 1 }.emit [.ldlocaS il.locals],
      some ⟨il.locals, innerType, idx, outerType⟩)
  else (il.writeLoadArgument idx false, none)

/-- The cast of the value inside a reference, if it is not null. -/
def loadRefCast (direction : Direction) (il : LazyIL τ) (innerElementType outerElementType : τ) :
    Except (DuckTypeError τ) (LazyIL τ) :=
  if direction.needsDuckChaining S innerElementType outerElementType then do
    let callGetInstance := il.labels
    let afterGetInstance := il.labels + 1
    let il := { il with labels := il.labels + 2 }.emit
      [.dup, .brtrueS callGetInstance, .pop, .ldnull, .brS afterGetInstance,
        .markLabel callGetInstance]
    let il ← direction.duckCastParameter S il innerElementType outerElementType
    return il.emit [.markLabel afterGetInstance]
  else .ok il

/-- A by ref parameter. -/
def loadRef (direction : Direction) (il : LazyIL τ) (outerType innerType : τ) (idx : ℕ) :
    Except (DuckTypeError τ) (LazyIL τ × Option (OutputAndRefParameterData τ)) :=
  if outerType ≠ innerType then do
    let outerElementType := (S.getElementType outerType).getD outerType
    let innerElementType := (S.getElementType innerType).getD innerType
    let (innerType, innerElementType) :=
      if S.useDirectAccessTo innerElementType then (innerType, innerElementType)
      else (S.objectByRef, S.object)
    let localIndex := il.locals
    let il := { il with locals := il.locals + 1 }
    let il := (il.writeLoadArgument idx false).emit [.ldindRef]
    let il ← loadRefCast S direction il innerElementType outerElementType
    let il ← writeSafeTypeConversion S il outerElementType innerElementType
    let il := (il.writeStoreLocal localIndex).emit [.ldlocaS localIndex]
    return (il, some ⟨localIndex, innerType, idx, outerType⟩)
  else .ok (il.writeLoadArgument idx false, none)

/-- Any other parameter. -/
def loadValue (direction : Direction) (il : LazyIL τ) (outerType innerType : τ) (idx : ℕ) :
    Except (DuckTypeError τ) (LazyIL τ) := do
  let il ←
    if direction.needsDuckChaining S innerType outerType then
      direction.duckCastParameter S (il.writeLoadArgument idx false) innerType outerType
    else .ok (il.writeLoadArgument idx false)
  writeSafeTypeConversion S il outerType
    (if S.useDirectAccessTo innerType then innerType else S.object)

/-- A parameter that both methods have. -/
def loadParameter (direction : Direction) (outerGenericArguments : List τ) (il : LazyIL τ)
    (outer inner : Parameter τ) (idx : ℕ) :
    Except (DuckTypeError τ) (LazyIL τ × Option (OutputAndRefParameterData τ)) :=
  if outer.isOut ≠ inner.isOut || outer.isIn ≠ inner.isIn then
    .error .proxyAndTargetMethodParameterSignatureMismatch
  else if S.isByRef outer.parameterType ≠ S.isByRef inner.parameterType then
    .error .proxyAndTargetMethodParameterSignatureMismatch
  else if S.isGenericParameter outer.parameterType ≠ S.isGenericParameter inner.parameterType
      && outerGenericArguments ≠ [] then
    .error .proxyAndTargetMethodParameterSignatureMismatch
  else if outer.isOut then .ok (loadOut il outer.parameterType inner.parameterType idx)
  else if S.isByRef outer.parameterType then
    loadRef S direction il outer.parameterType inner.parameterType idx
  else do
    return (← loadValue S direction il outer.parameterType inner.parameterType idx, none)

/-- `AddIlToLoadArguments`, from the parameters with the index `idx` on. For an optional
parameter of the inner method that the outer one lacks nothing is loaded. -/
def addIlToLoadArguments (direction : Direction) (outerGenericArguments : List τ) (idx : ℕ)
    (il : LazyIL τ) : List (Parameter τ) → List (Parameter τ) →
    Except (DuckTypeError τ) (LazyIL τ × List (OutputAndRefParameterData τ))
  | [], [] => .ok (il, [])
  | _ :: _, [] => .error .indexOutOfRange
  | [], inner :: inners =>
      if !inner.isOptional then .error (.proxyMethodParameterIsMissing inner)
      else addIlToLoadArguments direction outerGenericArguments (idx + 1) il [] inners
  | outer :: outers, inner :: inners => do
      let (il, data) ← loadParameter S direction outerGenericArguments il outer inner idx
      let (il, datas) ←
        addIlToLoadArguments direction outerGenericArguments (idx + 1) il outers inners
      return (il, data.toList ++ datas)

/-! ### The call, and what comes behind it -/

/-- `AddIlForDirectMethodCall`. -/
def addIlForDirectMethodCall (il : LazyIL τ) (targetMethod : Method τ) (genericArguments : List τ) :
    LazyIL τ × Method τ :=
  let targetMethod :=
    if genericArguments ≠ [] then targetMethod.makeGenericMethod genericArguments
    else targetMethod
  let returns : Bool := targetMethod.returnType ≠ S.void
  if targetMethod.isPublic || targetMethod.isGenericMethod then
    (il.emit [.call (.target (!(targetMethod.isStatic || targetMethod.ofValueType))
      targetMethod.argumentCount returns)], targetMethod)
  else (il.emit [.ldcI8, .convI, .call (.pointer targetMethod.argumentCount returns)], targetMethod)

/-- `AddIlForDynamicMethodCall`: the delegate is loaded in front of all arguments. -/
def addIlForDynamicMethodCall (il : LazyIL τ) (targetMethod : Method τ) : LazyIL τ × τ :=
  let returnType :=
    if S.useDirectAccessTo targetMethod.returnType
        && !S.isGenericParameter targetMethod.returnType then targetMethod.returnType
    else S.object
  ((il.emitFirst (.call .getDelegate)).emit
    [.call (.invoke targetMethod.argumentCount (returnType ≠ S.void))], returnType)

/-- One step of `AddIlToSetOutputAndRefParameters`. -/
def setOutputOrRefParameter (direction : Direction) (il : LazyIL τ)
    (data : OutputAndRefParameterData τ) : Except (DuckTypeError τ) (LazyIL τ) := do
  let proxyArgumentType := (S.getElementType data.proxyArgumentType).getD data.proxyArgumentType
  let localType := (S.getElementType data.localType).getD data.localType
  let il := (il.writeLoadArgument data.proxyArgumentIndex false).writeLoadLocal data.localIndex
  let il ←
    if direction.needsDuckChaining S localType proxyArgumentType then
      direction.duckChain S il proxyArgumentType localType
    else writeSafeTypeConversion S il localType proxyArgumentType
  return il.emit [.stindRef]

/-- `AddIlToSetOutputAndRefParameters`. -/
def addIlToSetOutputAndRefParameters (direction : Direction) (il : LazyIL τ) :
    List (OutputAndRefParameterData τ) → Except (DuckTypeError τ) (LazyIL τ)
  | [] => .ok il
  | data :: datas => do
      let il ← setOutputOrRefParameter S direction il data
      addIlToSetOutputAndRefParameters direction il datas

/-- `TryAddReturnIl`. Both callers throw where it fails. -/
def tryAddReturnIl (direction : Direction) (il : LazyIL τ)
    (currentReturnType innerReturnType outerReturnType : τ) :
    Except (DuckTypeError τ) (LazyIL τ) :=
  let valueType := S.valueWithTypeArgument outerReturnType
  let expectedType := valueType.getD outerReturnType
  if (innerReturnType = S.void ∧ expectedType ≠ S.void)
      ∨ (innerReturnType ≠ S.void ∧ expectedType = S.void) then
    .error .proxyAndTargetMethodReturnTypeMismatch
  else do
    let il ←
      if innerReturnType ≠ S.void then
        if direction.needsDuckChaining S innerReturnType expectedType then
          direction.addDuckChainIl S il expectedType innerReturnType
        else if currentReturnType ≠ expectedType then
          writeSafeTypeConversion S il currentReturnType expectedType
        else .ok il
      else .ok il
    let il :=
      if valueType.isSome then
        il.emit [.ldtoken innerReturnType, .call .getTypeFromHandle,
          .call (.valueWithType outerReturnType)]
      else il
    return il.emit [.ret]

/-! ### Methods -/

/-- `InitialiseProxyMethod`. A field of the instance holds a value type or not. -/
def initialiseProxyMethod (targetMethod : Method τ) (instanceField : Option Bool) : LazyIL τ :=
  if targetMethod.isStatic then .empty
  else
    LazyIL.empty.emit (.ldarg 0 ::
      match instanceField with
      | some true => [.ldflda]
      | some false => [.ldfld]
      | none => [])

/-- The body that `CreateMethods` gives a method of a proxy. -/
def createMethod (proxyMethod targetMethod : Method τ) (targetType : τ)
    (instanceField : Option Bool) : Except (DuckTypeError τ) (List (Instr τ)) := do
  let il := initialiseProxyMethod targetMethod instanceField
  let (il, datas) ← addIlToLoadArguments S .forward proxyMethod.genericArguments 0 il
    proxyMethod.parameters targetMethod.parameters
  let (il, targetMethod, returnType) ←
    if S.useDirectAccessTo targetType then
      let (il, constructed) := addIlForDirectMethodCall S il targetMethod proxyMethod.genericArguments
      .ok (il, constructed, targetMethod.returnType)
    else if proxyMethod.genericArguments ≠ [] then
      .error .proxyMethodsWithGenericParametersNotSupportedInNonPublicInstances
    else
      let (il, returnType) := addIlForDynamicMethodCall S il targetMethod
      .ok (il, targetMethod, returnType)
  let il ← addIlToSetOutputAndRefParameters S .forward il datas
  let il ← tryAddReturnIl S .forward il returnType targetMethod.returnType proxyMethod.returnType
  return il.instructions

/-- The body that `CreateReverseProxyMethods` gives a method that is overridden. -/
def createReverseProxyMethod (implementationMethod overriddenMethod : Method τ)
    (instanceField : Option Bool) : Except (DuckTypeError τ) (List (Instr τ)) :=
  if overriddenMethod.genericArguments.length > 0
      ∧ implementationMethod.genericArguments.length ≠ overriddenMethod.genericArguments.length then
    .error .reverseProxyMustImplementGenericMethodAsGeneric
  else if implementationMethod.parameters.length > overriddenMethod.parameters.length then
    .error .proxyAndTargetMethodParameterSignatureMismatch
  else do
    let il := initialiseProxyMethod implementationMethod instanceField
    let (il, datas) ← addIlToLoadArguments S .reverse implementationMethod.genericArguments 0 il
      overriddenMethod.parameters implementationMethod.parameters
    let (il, implementationMethod) :=
      addIlForDirectMethodCall S il implementationMethod overriddenMethod.genericArguments
    let il ← addIlToSetOutputAndRefParameters S .reverse il datas
    let il ← tryAddReturnIl S .reverse il implementationMethod.returnType
      implementationMethod.returnType overriddenMethod.returnType
    return il.instructions

end

end AutoInstrumentation.DuckTyping
