import Mathlib.Algebra.Ring.Nat
import Mathlib.Data.List.ReduceOption

/-!
# AutoInstrumentation.Integration

The definitions of integrations (`integration.h`, `tracer_integration_definition.cpp`)
and how the entry points of the profiler make them from what they are given: the
arrays of call target definitions and the configuration string of trace methods.

A null pointer is `none`. An assembly reference stays the text it is parsed from.
-/

namespace AutoInstrumentation.Integration

/-- `WSTRING`. -/
abbrev WString := List Char

structure Version where
  major : BitVec 16
  minor : BitVec 16
  build : BitVec 16
  revision : BitVec 16
  deriving DecidableEq, Repr

/-- `Version(0, 0, 0, 0)`. -/
def Version.min : Version := ⟨0, 0, 0, 0⟩

/-- `Version(USHRT_MAX, USHRT_MAX, USHRT_MAX, USHRT_MAX)`. -/
def Version.max : Version := ⟨0xffff, 0xffff, 0xffff, 0xffff⟩

/-- `TypeReference(assembly, name, {}, {})` has the versions 0.0.0.0. -/
structure TypeReference where
  assembly : WString
  name : WString
  minVersion : Version := .min
  maxVersion : Version := .min
  deriving DecidableEq, Repr

structure MethodReference where
  type : TypeReference
  methodName : WString
  signatureTypes : List WString
  deriving DecidableEq, Repr

structure IntegrationDefinition where
  targetMethod : MethodReference
  integrationType : TypeReference
  isDerived : Bool
  isInterface : Bool
  isExactSignatureMatch : Bool
  categories : BitVec 32
  enabledCategories : BitVec 32
  deriving DecidableEq, Repr

/-- The constructor: of the enabled categories only those of the definition count. -/
def IntegrationDefinition.new (targetMethod : MethodReference) (integrationType : TypeReference)
    (isDerived isInterface isExactSignatureMatch : Bool) (categories : BitVec 32 := 1)
    (enabledCategories : BitVec 32 := -1) : IntegrationDefinition :=
  { targetMethod, integrationType, isDerived, isInterface, isExactSignatureMatch, categories
    enabledCategories := categories &&& enabledCategories }

/-! ### Call target definitions -/

structure CallTargetDefinition where
  targetAssembly : WString
  targetType : WString
  targetMethod : WString
  signatureTypes : List (Option WString)
  targetMinimumMajor : BitVec 16
  targetMinimumMinor : BitVec 16
  targetMinimumPatch : BitVec 16
  targetMaximumMajor : BitVec 16
  targetMaximumMinor : BitVec 16
  targetMaximumPatch : BitVec 16
  integrationAssembly : WString
  integrationType : WString
  deriving DecidableEq, Repr

/-- The body of the loop of `InternalAddInstrumentation`. -/
def CallTargetDefinition.integration (current : CallTargetDefinition)
    (isDerived isInterface : Bool) : IntegrationDefinition :=
  let minVersion : Version :=
    ⟨current.targetMinimumMajor, current.targetMinimumMinor, current.targetMinimumPatch, 0⟩
  let maxVersion : Version :=
    ⟨current.targetMaximumMajor, current.targetMaximumMinor, current.targetMaximumPatch, 0⟩
  .new ⟨⟨current.targetAssembly, current.targetType, minVersion, maxVersion⟩,
      current.targetMethod, current.signatureTypes.reduceOption⟩
    { assembly := current.integrationAssembly, name := current.integrationType }
    isDerived isInterface true

/-- The byte of `CallTargetDefinition2` that says what the target is. -/
structure CallTargetKind where
  value : BitVec 8
  deriving DecidableEq, Repr

namespace CallTargetKind

def default : CallTargetKind := ⟨0⟩
def derived : CallTargetKind := ⟨1⟩
def interface : CallTargetKind := ⟨2⟩

end CallTargetKind

structure CallTargetDefinition2 where
  targetAssembly : Option WString
  targetType : Option WString
  targetMethod : Option WString
  signatureTypes : Option (List (Option WString))
  signatureTypesLength : BitVec 16
  targetMinimumMajor : BitVec 16
  targetMinimumMinor : BitVec 16
  targetMinimumPatch : BitVec 16
  targetMaximumMajor : BitVec 16
  targetMaximumMinor : BitVec 16
  targetMaximumPatch : BitVec 16
  integrationAssembly : Option WString
  integrationType : Option WString
  kind : CallTargetKind
  categories : BitVec 32
  deriving DecidableEq, Repr

/-- The body of the loop of `RegisterCallTargetDefinitions`; `none` for a definition
that is skipped as invalid. -/
def CallTargetDefinition2.integration (current : CallTargetDefinition2)
    (enabledCategories : BitVec 32) : Option IntegrationDefinition := do
  let targetAssembly ← current.targetAssembly
  let targetType ← current.targetType
  let targetMethod ← current.targetMethod
  let integrationAssembly ← current.integrationAssembly
  let integrationType ← current.integrationType
  guard ¬ (current.signatureTypesLength > 0 ∧ current.signatureTypes.isNone)
  guard (current.categories ≠ 0)
  guard (current.kind = .default ∨ current.kind = .derived ∨ current.kind = .interface)
  let signatureTypes := (current.signatureTypes.getD []).take current.signatureTypesLength.toNat
  let minVersion : Version :=
    ⟨current.targetMinimumMajor, current.targetMinimumMinor, current.targetMinimumPatch, 0⟩
  let maxVersion : Version :=
    ⟨current.targetMaximumMajor, current.targetMaximumMinor, current.targetMaximumPatch, 0⟩
  return .new ⟨⟨targetAssembly, targetType, minVersion, maxVersion⟩, targetMethod,
      signatureTypes.reduceOption⟩
    { assembly := integrationAssembly, name := integrationType }
    (current.kind = .derived) (current.kind = .interface) true current.categories
    enabledCategories

/-! ### Trace methods -/

/-- `tracemethodintegration_assemblyname`. -/
def traceMethodAssemblyName : WString := "#TraceMethodFeature".toList

/-- The text between the first bracket and its closing one, empty when there is none or
another bracket opens before. -/
def methodDefinitions (traceMethodType : WString) : WString :=
  match traceMethodType.idxOf? '[' with
  | none => []
  | some firstOpenBracket =>
      let rest := traceMethodType.drop (firstOpenBracket + 1)
      match rest.idxOf? ']', rest.idxOf? '[' with
      | none, _ => []
      | some firstCloseBracket, none => rest.take firstCloseBracket
      | some firstCloseBracket, some secondOpenBracket =>
          if firstCloseBracket < secondOpenBracket then rest.take firstCloseBracket else []

/-- `GetIntegrationsFromTraceMethodsConfiguration`. -/
def getIntegrationsFromTraceMethodsConfiguration (integrationType : TypeReference)
    (configurationString : WString) : List IntegrationDefinition :=
  (configurationString.splitOn ';').flatMap fun traceMethodType =>
    let methods := methodDefinitions traceMethodType
    if methods.isEmpty then []
    else
      let typeName := traceMethodType.takeWhile (· ≠ '[')
      (methods.splitOn ',').map fun methodDefinition =>
        .new ⟨⟨traceMethodAssemblyName, typeName, .min, .max⟩, methodDefinition, []⟩
          integrationType false false false

end AutoInstrumentation.Integration
