import AutoInstrumentation.Enumerator
import AutoInstrumentation.Integration

/-!
# AutoInstrumentation.RejitPreprocessor

Which methods of a type are enqueued for rejit for an integration definition
(`RejitPreprocessor::ProcessTypeDefForRejit`).

One loop goes over two enumerators: first over the explicit implementations of an interface
method, if there can be any, and then over the methods of the name. It compares its iterator
with the end of the second one and looks for the end of the first one in its body. A method
is enqueued through the rejit handler, which gives no module any more once it is shut down.
-/

namespace AutoInstrumentation.RejitPreprocessor

open Integration

abbrev MethodDef := BitVec 32

/-- What `GetFunctionInfo` and `TryParse` say of a method. -/
structure FunctionInfo where
  name : WString
  /-- The names of the argument types, if the signature can be parsed. -/
  methodArguments : Option (List WString)
  deriving DecidableEq, Repr

/-- The metadata of a type definition. -/
structure TypeDef where
  methods : List MethodDef
  nodup : methods.Nodup
  name : MethodDef → WString
  /-- The properties of a method, if they are valid. -/
  functionInfo : MethodDef → Option FunctionInfo
  functionInfo_name : ∀ m info, functionInfo m = some info → info.name = name m
  /-- `EnumMethods`: all methods, in batches. -/
  enumMethods : Enumerator MethodDef
  enumMethods_elements : enumMethods.elements = methods
  /-- `EnumMethodsWithName`: the methods of a name, in batches. -/
  enumMethodsWithName : WString → Enumerator MethodDef
  enumMethodsWithName_elements : ∀ n,
    (enumMethodsWithName n).elements = methods.filter fun m => name m = n

def wildcardMethodName : WString := ['*']
def setterPrefix : WString := ['s', 'e', 't', '_']
def getterPrefix : WString := ['g', 'e', 't', '_']

def wildcardIgnoredMethods : List WString :=
  [['.', 'c', 't', 'o', 'r'], ['.', 'c', 'c', 't', 'o', 'r'], ['E', 'q', 'u', 'a', 'l', 's'],
    ['F', 'i', 'n', 'a', 'l', 'i', 'z', 'e'],
    ['G', 'e', 't', 'H', 'a', 's', 'h', 'C', 'o', 'd', 'e'],
    ['T', 'o', 'S', 't', 'r', 'i', 'n', 'g']]

/-- The rejit handler and its module. -/
structure Handler where
  /-- How often `GetOrAddModule` still gives a module, if a shutdown ends that. -/
  shutdownAfter : Option ℕ
  hasMetadata : Bool
  /-- The methods the module knows. -/
  methods : List MethodDef
  rejitRequests : List MethodDef
  deriving DecidableEq, Repr

/-- The enqueuing of a method, unless there is no module. -/
def Handler.enqueue (h : Handler) (methodDef : MethodDef) : Option Handler :=
  match h.shutdownAfter with
  | some 0 => none
  | shutdownAfter => some
      { shutdownAfter := shutdownAfter.map (· - 1)
        hasMetadata := true
        methods := if h.methods.contains methodDef then h.methods else h.methods ++ [methodDef]
        rejitRequests := h.rejitRequests ++ [methodDef] }

/-- `CheckExactSignatureMatch`. The first of the signature types is the one of the result. -/
def checkExactSignatureMatch (methodArguments : List WString) (targetMethod : MethodReference) :
    Bool :=
  if targetMethod.signatureTypes.length ≠ methodArguments.length + 1 then false
  else
    (methodArguments.zip targetMethod.signatureTypes.tail).all fun (argument, target) =>
      argument = target || target = ['_']

/-- The tests that a method has to pass. -/
def accepts (definition : IntegrationDefinition) (typeDef : TypeDef) (methodDef : MethodDef) :
    Bool :=
  match typeDef.functionInfo methodDef with
  | none => false
  | some caller =>
      match caller.methodArguments with
      | none => false
      | some methodArguments =>
          if definition.targetMethod.methodName = wildcardMethodName
              ∧ (wildcardIgnoredMethods.contains caller.name
                ∨ setterPrefix.isPrefixOf caller.name ∨ getterPrefix.isPrefixOf caller.name) then
            false
          else
            !definition.isExactSignatureMatch
              || checkExactSignatureMatch methodArguments definition.targetMethod

/-- The two enumerators of the function. -/
inductive Source
  | explicitInterfaceMethods
  | methods
  deriving DecidableEq, Repr

/-- The variables of the loop. -/
structure Loop where
  enumIterator : EnumeratorIterator Source MethodDef
  explicitInterfaceMethods : Enumerator MethodDef
  methods : Enumerator MethodDef
  explicitMode : Bool
  handler : Handler

/-- The increment of the iterator, with the enumerator it points to. -/
def Loop.increment (l : Loop) : Loop :=
  match l.enumIterator.enumerator with
  | .explicitInterfaceMethods =>
      let next := l.enumIterator.increment l.explicitInterfaceMethods
      { l with enumIterator := next.1, explicitInterfaceMethods := next.2 }
  | .methods =>
      let next := l.enumIterator.increment l.methods
      { l with enumIterator := next.1, methods := next.2 }

/-- The part of the body behind the switch: the loop goes on or breaks. -/
def Loop.visit (definition : IntegrationDefinition) (typeDef : TypeDef) (l : Loop) :
    Option (Loop ⊕ Handler) := do
  let methodDef ← l.enumIterator.deref
  if accepts definition typeDef methodDef then
    match l.handler.enqueue methodDef with
    | none => pure (.inr l.handler)
    | some handler =>
        if l.explicitMode then pure (.inr handler)
        else pure (.inl { l with handler := handler }.increment)
  else pure (.inl l.increment)

/-- One round of the loop. -/
def Loop.round (definition : IntegrationDefinition) (typeDef : TypeDef)
    (iterateExplicitInterfaceMethods : Bool) (l : Loop) : Option (Loop ⊕ Handler) :=
  if !l.enumIterator.differs (.stop .methods) then some (.inr l.handler)
  else if iterateExplicitInterfaceMethods
      && !l.enumIterator.differs (.stop .explicitInterfaceMethods) then
    let first := EnumeratorIterator.start .methods l.methods
    let l := { l with enumIterator := first.1, methods := first.2, explicitMode := false }
    if !l.enumIterator.differs (.stop .methods) then some (.inr l.handler)
    else l.visit definition typeDef
  else l.visit definition typeDef

/-- The loop. -/
def Loop.run (definition : IntegrationDefinition) (typeDef : TypeDef)
    (iterateExplicitInterfaceMethods : Bool) : ℕ → Loop → Option Handler
  | 0, _ => none
  | fuel + 1, l => do
      match ← l.round definition typeDef iterateExplicitInterfaceMethods with
      | .inl l => Loop.run definition typeDef iterateExplicitInterfaceMethods fuel l
      | .inr handler => pure handler

/-- `RejitPreprocessor::ProcessTypeDefForRejit`, with a round for each method there can be. -/
def processTypeDefForRejit (definition : IntegrationDefinition) (typeDef : TypeDef)
    (handler : Handler) : Option Handler :=
  let target := definition.targetMethod
  let wildcardEnabled : Bool := target.methodName = wildcardMethodName
  let iterateExplicitInterfaceMethods := definition.isInterface && !wildcardEnabled
  let enumMethods :=
    if target.methodName = wildcardMethodName then typeDef.enumMethods
    else typeDef.enumMethodsWithName target.methodName
  let enumExplicitInterfaceMethods :=
    typeDef.enumMethodsWithName (target.type.name ++ ['.'] ++ target.methodName)
  let fuel := 2 * typeDef.methods.length + 1
  if iterateExplicitInterfaceMethods then
    let first := EnumeratorIterator.start .explicitInterfaceMethods enumExplicitInterfaceMethods
    Loop.run definition typeDef true fuel ⟨first.1, first.2, enumMethods, true, handler⟩
  else
    let first := EnumeratorIterator.start .methods enumMethods
    Loop.run definition typeDef false fuel
      ⟨first.1, enumExplicitInterfaceMethods, first.2, false, handler⟩

end AutoInstrumentation.RejitPreprocessor
