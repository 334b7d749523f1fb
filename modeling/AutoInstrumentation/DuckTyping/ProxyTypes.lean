import AutoInstrumentation.Lib.Memo

/-!
# AutoInstrumentation.DuckTyping.ProxyTypes

`DuckType`: the proxy types of both directions, the cache of all of them and the fast path of
each proxy definition.

What the reflection and the emitted members make of two types is a parameter: the cache is
about any such computation. The names of the dynamic types, which count up, are left out.
-/

namespace AutoInstrumentation.DuckTyping

open Lib

/-- A proxy derives from the proxy definition, or the target is what the proxy implements. -/
inductive Direction
  | forward
  | reverse
  deriving DecidableEq, Repr

section

variable (τ ι β π δ ω ε : Type)

/-- What ends the creation of a member or of a type. -/
inductive Fault
  | duckTypeException (e : ε)
  | exception (e : ε)
  deriving DecidableEq, Repr

/-- The exceptions that a caller sees. -/
inductive Thrown
  | proxyTypeDefinitionIsNull
  | targetObjectInstanceIsNull
  | reverseProxyBaseIsStruct (type : τ)
  | reverseProxyImplementorIsAbstractOrInterface (type : τ)
  /-- A `DuckTypeException` of the creation of a member. -/
  | duckTypeException (e : ε)
  /-- Any other exception, which is wrapped. -/
  | creating (targetType proxyType : τ) (inner : ε)
  | nullReference
  /-- `TargetInvocationException`: `DynamicInvoke` wraps what the activator throws. -/
  | targetInvocation (inner : Thrown)
  deriving DecidableEq, Repr

/-- The types of a program, and what the creation of a proxy does with them: `β` are the
builders, `π` the proxy types, `δ` their activators and `ω` the instances. -/
structure Reflection where
  isValueType : τ → Bool
  isInterface : τ → Bool
  isAbstract : τ → Bool
  fullName : τ → String
  getType : ι → τ
  createTypeAndModuleBuilder : τ → τ → Except (Fault ε) β
  createPropertiesFromStruct : Option β → τ → τ → Except (Fault ε) (Option β)
  createProperties : Option β → τ → τ → Except (Fault ε) (Option β)
  createMethods : Option β → τ → τ → Except (Fault ε) (Option β)
  createReverseProxyProperties : Option β → τ → τ → Except (Fault ε) (Option β)
  createReverseProxyMethods : Option β → τ → τ → Except (Fault ε) (Option β)
  addCustomAttributes : Option β → τ → Except (Fault ε) (Option β)
  createTypeInfo : Option β → Except (Fault ε) π
  createStructCopyMethod : Option β → τ → π → τ → Except (Fault ε) δ
  getCreateProxyInstanceDelegate : Option β → τ → π → τ → Except (Fault ε) δ
  invoke : δ → ι → Except (Thrown τ ε) ω

end

variable {τ ι β π δ ω ε : Type}

/-- The text of an exception. -/
def Thrown.message (fullName : τ → String) (text : ε → String) : Thrown τ ε → String
  | .proxyTypeDefinitionIsNull => "The proxy type definition is null."
  | .targetObjectInstanceIsNull => "The target object instance is null."
  | .reverseProxyBaseIsStruct type =>
      "Cannot derive from struct type '" ++ fullName type ++ "' for reverse proxy"
  | .reverseProxyImplementorIsAbstractOrInterface type =>
      "The implementation type '" ++ fullName type
        ++ "' must not be an interface or abstract type for reverse proxy"
  | .duckTypeException e => text e
  | .creating targetType proxyType _ =>
      "Error creating duck type for type: '" ++ fullName targetType ++ "' using proxy: '"
        ++ fullName proxyType ++ "'"
  | .nullReference =>
      "The activator for this proxy type is null, check if the type can be created by calling "
        ++ "'CanCreate()'"
  | .targetInvocation _ => "Exception has been thrown by the target of an invocation."

/-! ### `CreateTypeResult` -/

/-- `_activator`: what makes an instance, or the throwing of the error. -/
inductive Activator (τ δ ε : Type)
  | proxy (activator : δ)
  | throwOnError (e : Thrown τ ε)
  deriving DecidableEq, Repr

structure CreateTypeResult (τ π δ ε : Type) where
  success : Bool
  targetType : τ
  proxyType : Option π
  activator : Option (Activator τ δ ε)
  exceptionInfo : Option (Thrown τ ε)
  deriving DecidableEq, Repr

/-- The constructor of `CreateTypeResult`. -/
def CreateTypeResult.new (proxyType : Option π) (targetType : τ) (activator : Option δ)
    (exceptionInfo : Option (Thrown τ ε)) : CreateTypeResult τ π δ ε where
  success := proxyType.isSome && exceptionInfo.isNone
  targetType := targetType
  proxyType := proxyType
  activator :=
    match exceptionInfo with
    | some e => some (.throwOnError e)
    | none => activator.map .proxy
  exceptionInfo := exceptionInfo

def CreateTypeResult.canCreate (result : CreateTypeResult τ π δ ε) : Bool :=
  result.exceptionInfo.isNone

/-- `CreateInstance<T>`. -/
def CreateTypeResult.createInstance (R : Reflection τ ι β π δ ω ε)
    (result : CreateTypeResult τ π δ ε) (instance' : ι) : Except (Thrown τ ε) ω :=
  match result.activator with
  | none => .error .nullReference
  | some (.proxy activator) => R.invoke activator instance'
  | some (.throwOnError e) => .error e

/-- `CreateInstance`, which calls the activator through `DynamicInvoke`. -/
def CreateTypeResult.dynamicCreateInstance (R : Reflection τ ι β π δ ω ε)
    (result : CreateTypeResult τ π δ ε) (instance' : ι) : Except (Thrown τ ε) ω :=
  match result.activator with
  | none => .error .nullReference
  | some (.proxy activator) => (R.invoke activator instance').mapError .targetInvocation
  | some (.throwOnError e) => .error (.targetInvocation e)

/-! ### Uncached proxy types -/

/-- The `catch` clauses of `CreateProxyType` and `CreateReverseProxyType`. -/
def result (proxyDefinitionType targetType : τ) :
    Except (Thrown τ ε ⊕ Fault ε) (Option (π × δ)) → CreateTypeResult τ π δ ε
  | .ok none => .new none targetType none none
  | .ok (some (proxyType, activator)) => .new (some proxyType) targetType (some activator) none
  | .error (.inl e) => .new none targetType none (some e)
  | .error (.inr (.duckTypeException e)) =>
      .new none targetType none (some (.duckTypeException e))
  | .error (.inr (.exception e)) =>
      .new none targetType none (some (.creating targetType proxyDefinitionType e))

/-- The `try` block of `CreateProxyType`. -/
def tryCreateProxyType (R : Reflection τ ι β π δ ω ε) (proxyDefinitionType targetType : τ)
    (dryRun : Bool) : Except (Fault ε) (Option (π × δ)) := do
  let mut builder := none
  if !dryRun then
    builder := some (← R.createTypeAndModuleBuilder proxyDefinitionType targetType)
  if R.isValueType proxyDefinitionType then
    builder ← R.createPropertiesFromStruct builder proxyDefinitionType targetType
    if dryRun then return none
    let proxyType ← R.createTypeInfo builder
    return some (proxyType,
      ← R.createStructCopyMethod builder proxyDefinitionType proxyType targetType)
  else
    builder ← R.createProperties builder proxyDefinitionType targetType
    builder ← R.createMethods builder proxyDefinitionType targetType
    if dryRun then return none
    let proxyType ← R.createTypeInfo builder
    return some (proxyType,
      ← R.getCreateProxyInstanceDelegate builder proxyDefinitionType proxyType targetType)

def createProxyType (R : Reflection τ ι β π δ ω ε) (proxyDefinitionType targetType : τ)
    (dryRun : Bool) : CreateTypeResult τ π δ ε :=
  result proxyDefinitionType targetType
    ((tryCreateProxyType R proxyDefinitionType targetType dryRun).mapError .inr)

/-- The members and the type of a reverse proxy. -/
def tryCreateReverseMembers (R : Reflection τ ι β π δ ω ε) (typeToDeriveFrom typeToDelegateTo : τ)
    (dryRun : Bool) : Except (Fault ε) (Option (π × δ)) := do
  let mut builder := none
  if !dryRun then
    builder := some (← R.createTypeAndModuleBuilder typeToDeriveFrom typeToDelegateTo)
  builder ← R.createReverseProxyProperties builder typeToDeriveFrom typeToDelegateTo
  builder ← R.createReverseProxyMethods builder typeToDeriveFrom typeToDelegateTo
  builder ← R.addCustomAttributes builder typeToDelegateTo
  if dryRun then return none
  let proxyType ← R.createTypeInfo builder
  return some (proxyType,
    ← R.getCreateProxyInstanceDelegate builder typeToDeriveFrom proxyType typeToDelegateTo)

/-- The `try` block of `CreateReverseProxyType`. The error names the other type in each of the
two checks. -/
def tryCreateReverseProxyType (R : Reflection τ ι β π δ ω ε)
    (typeToDeriveFrom typeToDelegateTo : τ) (dryRun : Bool) :
    Except (Thrown τ ε ⊕ Fault ε) (Option (π × δ)) :=
  if R.isValueType typeToDeriveFrom then
    .error (.inl (.reverseProxyBaseIsStruct typeToDelegateTo))
  else if R.isInterface typeToDelegateTo || R.isAbstract typeToDelegateTo then
    .error (.inl (.reverseProxyImplementorIsAbstractOrInterface typeToDeriveFrom))
  else (tryCreateReverseMembers R typeToDeriveFrom typeToDelegateTo dryRun).mapError .inr

def createReverseProxyType (R : Reflection τ ι β π δ ω ε) (typeToDeriveFrom typeToDelegateTo : τ)
    (dryRun : Bool) : CreateTypeResult τ π δ ε :=
  result typeToDeriveFrom typeToDelegateTo
    (tryCreateReverseProxyType R typeToDeriveFrom typeToDelegateTo dryRun)

/-- What is looked up: a direction and a pair of types. -/
structure Lookup (τ : Type) where
  direction : Direction
  proxyDefinitionType : τ
  targetType : τ

/-- `TypesTuple`: the key of the cache, without the direction. -/
def Lookup.typesTuple (q : Lookup τ) : τ × τ := (q.proxyDefinitionType, q.targetType)

/-- The value factory of the cache: a dry run, and the proxy type if it can be created. -/
def createTypeResult (R : Reflection τ ι β π δ ω ε) (q : Lookup τ) : CreateTypeResult τ π δ ε :=
  let create :=
    match q.direction with
    | .forward => createProxyType R q.proxyDefinitionType q.targetType
    | .reverse => createReverseProxyType R q.proxyDefinitionType q.targetType
  let dryResult := create true
  if dryResult.canCreate then create false else dryResult

/-! ### The cache and the fast paths -/

/-- `DuckTypeCache`, and `_fastPath` of the `CreateCache` of each proxy definition. -/
structure State (τ π δ ε : Type) [DecidableEq τ] where
  duckTypeCache : Dictionary (id : τ × τ → τ × τ) (CreateTypeResult τ π δ ε)
  fastPath : τ → Option (CreateTypeResult τ π δ ε)

variable [DecidableEq τ]

def State.initial : State τ π δ ε where
  duckTypeCache := .empty
  fastPath _ := none

/-- The lookup in the cache. -/
def getOrAdd (R : Reflection τ ι β π δ ω ε) (s : State τ π δ ε) (q : Lookup τ) :
    State τ π δ ε × CreateTypeResult τ π δ ε :=
  let (duckTypeCache, result) :=
    s.duckTypeCache.getOrAdd q.typesTuple (createTypeResult R q)
  ({ s with duckTypeCache }, result)

def getOrCreateProxyType (R : Reflection τ ι β π δ ω ε) (s : State τ π δ ε)
    (proxyType targetType : τ) : State τ π δ ε × CreateTypeResult τ π δ ε :=
  getOrAdd R s ⟨.forward, proxyType, targetType⟩

def getOrCreateReverseProxyType (R : Reflection τ ι β π δ ω ε) (s : State τ π δ ε)
    (typeToDeriveFrom delegationType : τ) : State τ π δ ε × CreateTypeResult τ π δ ε :=
  getOrAdd R s ⟨.reverse, typeToDeriveFrom, delegationType⟩

/-- The slow path of `CreateCache`: the first result of the proxy definition becomes the fast
path. -/
def slowPath (R : Reflection τ ι β π δ ω ε) (s : State τ π δ ε) (q : Lookup τ) :
    State τ π δ ε × CreateTypeResult τ π δ ε :=
  let (s, result) := getOrAdd R s q
  match s.fastPath q.proxyDefinitionType with
  | some _ => (s, result)
  | none =>
      ({ s with fastPath := Function.update s.fastPath q.proxyDefinitionType (some result) },
        result)

/-- The lookup of `CreateCache`. -/
def getFast (R : Reflection τ ι β π δ ω ε) (s : State τ π δ ε) (q : Lookup τ) :
    State τ π δ ε × CreateTypeResult τ π δ ε :=
  match s.fastPath q.proxyDefinitionType with
  | some fastPath =>
      if fastPath.targetType = q.targetType then (s, fastPath) else slowPath R s q
  | none => slowPath R s q

/-- `CreateCache<T>.GetProxy`. -/
def getProxy (R : Reflection τ ι β π δ ω ε) (s : State τ π δ ε) (type targetType : τ) :
    State τ π δ ε × CreateTypeResult τ π δ ε :=
  getFast R s ⟨.forward, type, targetType⟩

/-- `CreateCache<T>.GetReverseProxy`. -/
def getReverseProxy (R : Reflection τ ι β π δ ω ε) (s : State τ π δ ε) (type targetType : τ) :
    State τ π δ ε × CreateTypeResult τ π δ ε :=
  getFast R s ⟨.reverse, type, targetType⟩

/-! ### Requests -/

/-- `EnsureArguments`. -/
def ensureArguments (proxyType : Option τ) (instance' : Option ι) : Except (Thrown τ ε) (τ × ι) :=
  match proxyType, instance' with
  | none, _ => .error .proxyTypeDefinitionIsNull
  | some _, none => .error .targetObjectInstanceIsNull
  | some proxyType, some instance' => .ok (proxyType, instance')

/-- The entry points. A null argument is `none`. -/
inductive Request (τ ι : Type)
  | getOrCreateProxyType (proxyType targetType : τ)
  | getOrCreateReverseProxyType (typeToDeriveFrom delegationType : τ)
  | create (proxyType : Option τ) (instance' : Option ι)
  | canCreate (proxyType : Option τ) (instance' : Option ι)
  | createReverse (typeToDeriveFrom : Option τ) (delegationInstance : Option ι)
  -- of `CreateCache<T>`
  | getProxy (type targetType : τ)
  | getReverseProxy (type targetType : τ)
  | cacheCreate (type : τ) (instance' : Option ι)
  | cacheCreateFrom (type original : τ) (instance' : Option ι)
  | cacheCanCreate (type : τ) (instance' : Option ι)
  | cacheCreateReverse (type : τ) (instance' : Option ι)

/-- What a request returns. -/
inductive Answer (τ π δ ω ε : Type)
  | result (result : CreateTypeResult τ π δ ε)
  | created (proxy : Except (Thrown τ ε) ω)
  | canCreate (answer : Bool)
  /-- `default`, for a null instance. -/
  | null
  deriving Repr

/-- A request is performed. -/
def perform (R : Reflection τ ι β π δ ω ε) (s : State τ π δ ε) :
    Request τ ι → State τ π δ ε × Answer τ π δ ω ε
  | .getOrCreateProxyType proxyType targetType =>
      (getOrCreateProxyType R s proxyType targetType).map id .result
  | .getOrCreateReverseProxyType typeToDeriveFrom delegationType =>
      (getOrCreateReverseProxyType R s typeToDeriveFrom delegationType).map id .result
  | .create proxyType instance' =>
      match ensureArguments proxyType instance' with
      | .error e => (s, .created (.error e))
      | .ok (proxyType, instance') =>
          (getOrCreateProxyType R s proxyType (R.getType instance')).map id
            fun result => .created (result.dynamicCreateInstance R instance')
  | .canCreate proxyType instance' =>
      match ensureArguments proxyType instance' with
      | .error e => (s, .created (.error e))
      | .ok (proxyType, instance') =>
          (getOrCreateProxyType R s proxyType (R.getType instance')).map id
            fun result => .canCreate result.canCreate
  | .createReverse typeToDeriveFrom delegationInstance =>
      match ensureArguments typeToDeriveFrom delegationInstance with
      | .error e => (s, .created (.error e))
      | .ok (typeToDeriveFrom, delegationInstance) =>
          (getOrCreateReverseProxyType R s typeToDeriveFrom (R.getType delegationInstance)).map id
            fun result => .created (result.dynamicCreateInstance R delegationInstance)
  | .getProxy type targetType => (getProxy R s type targetType).map id .result
  | .getReverseProxy type targetType => (getReverseProxy R s type targetType).map id .result
  | .cacheCreate _ none => (s, .null)
  | .cacheCreate type (some instance') =>
      (getProxy R s type (R.getType instance')).map id
        fun result => .created (result.createInstance R instance')
  | .cacheCreateFrom _ _ none => (s, .null)
  | .cacheCreateFrom type original (some instance') =>
      (getProxy R s type original).map id
        fun result => .created (result.createInstance R instance')
  | .cacheCanCreate _ none => (s, .canCreate false)
  | .cacheCanCreate type (some instance') =>
      (getProxy R s type (R.getType instance')).map id
        fun result => .canCreate result.canCreate
  | .cacheCreateReverse _ none => (s, .null)
  | .cacheCreateReverse type (some instance') =>
      (getReverseProxy R s type (R.getType instance')).map id
        fun result => .created (result.createInstance R instance')

/-- The answers to a sequence of requests. -/
def answers (R : Reflection τ ι β π δ ω ε) :
    State τ π δ ε → List (Request τ ι) → List (Answer τ π δ ω ε)
  | _, [] => []
  | s, r :: requests => (perform R s r).2 :: answers R (perform R s r).1 requests

end AutoInstrumentation.DuckTyping
