import AutoInstrumentation.RejitQueue.Scripts

/-!
# AutoInstrumentation.RejitQueue.Calls

The functions that share the rejit handler and its work queue, as scripts
(`rejit_handler.cpp`, `rejit_preprocessor.cpp`, `cor_profiler.cpp`).

A function takes the script of what comes after it, and hands its result on. One
preprocessor is registered with the handler. What a call finds out about its own
arguments, and what the CLR tells it about modules and methods, is data of the call;
`found` lists the methods of a module that the definitions select
(`ProcessTypeDefForRejit`).
-/

namespace AutoInstrumentation.RejitQueue

open Lib Integration
open NgenInliners (ModuleId MethodDef)

variable {ι : Type}

/-- The methods of a module that definitions select, in order. -/
abbrev Found := ModuleId → List IntegrationDefinition → List MethodDef

/-! ### The handler -/

/-- `promise->set_value`, unless the promise is null. -/
def setPromise (promise : Option ι) (value : ℕ) (rest : Script ι) : Script ι :=
  match promise with
  | none => rest
  | some p => .setValue p value rest

/-- `RejitHandler::RequestRejit`. -/
def requestRejit (modulesVector : List ModuleId) (modulesMethodDef : List MethodDef)
    (callRevertExplicitly : Bool) (rest : Script ι) : Script ι :=
  .ifShutdownRequested rest <|
    if modulesVector.isEmpty then rest
    else
      let requestReJIT : Script ι :=
        .ifProfilerInfo12
          (.request (.requestReJIT .profilerInfo12 modulesVector modulesMethodDef) rest)
          (.request (.requestReJIT .profilerInfo modulesVector modulesMethodDef) rest)
      if callRevertExplicitly then
        .request (.requestRevert modulesVector modulesMethodDef) requestReJIT
      else requestReJIT

/-- `RejitHandler::EnqueueForRejit`. -/
def enqueueForRejit (modulesVector : List ModuleId) (modulesMethodDef : List MethodDef)
    (promise : Option ι) (callRevertExplicitly : Bool) (rest : Script ι) : Script ι :=
  .ifShutdownRequested (setPromise promise 0 rest) <|
    if modulesVector.isEmpty || modulesMethodDef.isEmpty then setPromise promise 0 rest
    else
      .push (.func (.requestRejit modulesVector modulesMethodDef promise callRevertExplicitly))
        rest

/-- `RejitHandler::EnqueueRequestRejit`. -/
def enqueueRequestRejit (rejitRequests : List (ModuleId × MethodDef)) (promise : Option ι)
    (callRevertExplicitly : Bool) (rest : Script ι) : Script ι :=
  enqueueForRejit (rejitRequests.map (·.1)) (rejitRequests.map (·.2)) promise
    callRevertExplicitly rest

/-- `RejitHandlerModuleMethod::RequestRejitForInlinersInModule`, when the CLR lists these
inliners. -/
def requestRejitForInlinersInModule (inliners : List (ModuleId × MethodDef))
    (rest : Script ι) : Script ι :=
  .ifProfilerInfo
    (if inliners.isEmpty then rest
      else enqueueForRejit (inliners.map (·.1)) (inliners.map (·.2)) none false rest)
    rest

/-- `RejitPreprocessor::Shutdown`. -/
def preprocessorShutdown (rest : Script ι) : Script ι :=
  .lock .rejitModules <| .lock .ngenInliners <| .unlock .ngenInliners <| .unlock .rejitModules rest

/-- `RejitHandler::Shutdown`. -/
def handlerShutdown (rest : Script ι) : Script ι :=
  .push .terminating <| .join <| .lock .shutdown <| .setShutdown <|
    preprocessorShutdown <| .clearInterfaces <| .unlock .shutdown rest

/-! ### The preprocessor -/

/-- What `ProcessTypeDefForRejit` does for the methods it selects: `GetOrAddModule`
refuses them once the handler is shut down. -/
def collect (module : ModuleId) : List MethodDef → List (ModuleId × MethodDef) →
    (List (ModuleId × MethodDef) → Script ι) → Script ι
  | [], rejitRequests, rest => rest rejitRequests
  | method :: methods, rejitRequests, rest =>
      .ifShutdownRequested (collect module methods rejitRequests rest) <|
        .lock .rejitModules <| .unlock .rejitModules <|
          collect module methods (rejitRequests ++ [(module, method)]) rest

/-- The loop over the modules of `RequestRejitForLoadedModules`. -/
def analyse (found : Found) (definitions : List IntegrationDefinition) :
    List ModuleId → List (ModuleId × MethodDef) →
    (List (ModuleId × MethodDef) → Script ι) → Script ι
  | [], rejitRequests, rest => rest rejitRequests
  | module :: modules, rejitRequests, rest =>
      .useProfilerInfo <|
        collect module (found module definitions) rejitRequests fun rejitRequests =>
          analyse found definitions modules rejitRequests rest

/-- `RejitPreprocessor::RequestRejitForLoadedModules`. -/
def requestRejitForLoadedModules (found : Found) (modules : List ModuleId)
    (definitions : List IntegrationDefinition) (enqueueInSameThread : Bool)
    (rest : ℕ → Script ι) : Script ι :=
  .ifShutdownRequested (rest 0) <|
    analyse found definitions modules [] fun rejitRequests =>
      let rejitCount := rejitRequests.length
      if rejitCount > 0 then
        if enqueueInSameThread then
          requestRejit (rejitRequests.map (·.1)) (rejitRequests.map (·.2)) false (rest rejitCount)
        else enqueueRequestRejit rejitRequests none false (rest rejitCount)
      else rest rejitCount

/-- `RejitPreprocessor::EnqueueRequestRejitForLoadedModules`. -/
def enqueueRequestRejitForLoadedModules (modulesVector : List ModuleId)
    (definitions : List IntegrationDefinition) (promise : Option ι) (rest : Script ι) :
    Script ι :=
  .ifShutdownRequested (setPromise promise 0 rest) <|
    if modulesVector.isEmpty || definitions.isEmpty then setPromise promise 0 rest
    else .push (.func (.requestRejitForLoadedModules modulesVector definitions promise)) rest

/-- The bodies of the lambdas. -/
def Action.code (found : Found) : Action ι → Script ι
  | requestRejit modules methods promise callRevertExplicitly =>
      RejitQueue.requestRejit modules methods callRevertExplicitly (setPromise promise 0 .ret)
  | requestRejitForLoadedModules modules definitions promise =>
      RejitQueue.requestRejitForLoadedModules found modules definitions true fun rejitCount =>
        setPromise promise rejitCount .ret

/-- `RejitHandler::AddNGenInlinerModule`, with the inliners that each enumeration lists. -/
def addNGenInlinerModule (enumerations : List (List (ModuleId × MethodDef)))
    (rest : Script ι) : Script ι :=
  .ifShutdownRequested rest <| .ifShutdownRequested rest <|
    .lock .rejitModules <| .lock .ngenInliners <|
      enumerations.foldr requestRejitForInlinersInModule <|
        .unlock .ngenInliners <| .unlock .rejitModules rest

/-- `RejitHandler::RemoveModule`. -/
def removeModule (rest : Script ι) : Script ι :=
  .ifShutdownRequested rest <| .ifShutdownRequested rest <|
    .lock .rejitModules <| .lock .ngenInliners <|
      .unlock .ngenInliners <| .unlock .rejitModules rest

/-- `RejitHandler::HasModuleAndMethod`. -/
def hasModuleAndMethod (rest : Script ι) : Script ι :=
  .ifShutdownRequested rest <| .ifShutdownRequested rest <|
    .lock .rejitModules <| .unlock .rejitModules rest

/-! ### The profiler -/

/-- What `TryRejitModule` finds out about a module. -/
structure LoadedModule where
  moduleId : ModuleId
  isValid : Bool
  /-- With the inliners that the enumerations list. -/
  isNGEN : Option (List (List (ModuleId × MethodDef)))
  /-- One of the tests between makes it return: the module is skipped by name, it is a
  dynamic or a resource module, and so on. -/
  skipped : Bool
  isManagedProfiler : Bool
  /-- `integration_definitions_` at the time of the call. -/
  definitions : List IntegrationDefinition

/-- The calls, by the thread that makes them. -/
inductive Call
  | moduleLoadFinished (succeeded : Bool) (module : LoadedModule)
  | moduleUnloadStarted
  | jitInlining (functionInfo : Bool)
  | jitCachedFunctionSearchStarted (functionInfo : Bool)
      (enumerations : List (List (ModuleId × MethodDef)))
  | internalAddInstrumentation (processed items : Bool) (modules : List ModuleId)
      (integrationDefinitions : List IntegrationDefinition)
  | registerCallTargetDefinitions (valid processed : Bool) (modules : List ModuleId)
      (integrationDefinitions : List IntegrationDefinition)
  | initializeTraceMethods (processed : Bool) (modules : List ModuleId)
      (integrationDefinitions : List IntegrationDefinition)
  | appDomainShutdownFinished
  | profilerDetachSucceeded
  | shutdown

/-- `CorProfiler::TryRejitModule`. -/
def tryRejitModule (thread : ι) (m : LoadedModule) (rest : Script ι) : Script ι :=
  if !m.isValid then rest
  else
    let tail : Script ι :=
      if m.skipped || m.isManagedProfiler || m.definitions.isEmpty then rest
      else
        enqueueRequestRejitForLoadedModules [m.moduleId] m.definitions (some thread) <|
          .awaitFor thread rest
    match m.isNGEN with
    | none => tail
    | some enumerations => addNGenInlinerModule enumerations tail

def moduleLoadFinished (thread : ι) (succeeded : Bool) (m : LoadedModule) : Script ι :=
  .ifAttached
    (if !succeeded then .ret
      else
        .lock .moduleIds <|
          let leave : Script ι := .unlock .moduleIds .ret
          .ifAttached (.ifHandler (tryRejitModule thread m leave) leave) leave)
    .ret

def moduleUnloadStarted : Script ι :=
  .ifAttached
    (.lock .moduleIds <|
      let leave : Script ι := .unlock .moduleIds .ret
      .ifAttached (.ifHandler (removeModule leave) leave) leave)
    .ret

def jitInlining (functionInfo : Bool) : Script ι :=
  .ifAttached
    (.ifHandler
      (if !functionInfo then .ret
        else .ifAttached (.ifHandler (hasModuleAndMethod .ret) .ret) .ret)
      .ret)
    .ret

def jitCachedFunctionSearchStarted (functionInfo : Bool)
    (enumerations : List (List (ModuleId × MethodDef))) : Script ι :=
  .ifAttached
    (.tryLock .moduleIds
      (let leave : Script ι := .unlock .moduleIds .ret
        if !functionInfo then leave
        else .ifHandler (addNGenInlinerModule enumerations leave) leave)
      .ret)
    .ret

def internalAddInstrumentation (thread : ι) (processed items : Bool) (modules : List ModuleId)
    (integrationDefinitions : List IntegrationDefinition) : Script ι :=
  .lock .definitionsIds <|
    let leave : Script ι := .unlock .definitionsIds .ret
    if processed || !items then leave
    else
      .ifHandler
        (.lock .moduleIds <|
          let leave : Script ι := .unlock .moduleIds leave
          if integrationDefinitions.isEmpty then leave
          else
            .ifHandler
              (enqueueRequestRejitForLoadedModules modules integrationDefinitions (some thread) <|
                .awaitFor thread leave)
              leave)
        leave

def registerCallTargetDefinitions (thread : ι) (valid processed : Bool)
    (modules : List ModuleId) (integrationDefinitions : List IntegrationDefinition) :
    Script ι :=
  if !valid then .ret
  else
    .lock .definitionsIds <|
      let leave : Script ι := .unlock .definitionsIds .ret
      if processed then leave
      else
        .ifHandler
          (.lock .moduleIds <|
            if integrationDefinitions.isEmpty then .unlock .moduleIds leave
            else
              enqueueRequestRejitForLoadedModules modules integrationDefinitions (some thread) <|
                -- the wait holds the lock of the ids only
                .unlock .moduleIds <| .await thread leave)
          leave

def initializeTraceMethods (thread : ι) (processed : Bool) (modules : List ModuleId)
    (integrationDefinitions : List IntegrationDefinition) : Script ι :=
  .lock .definitionsIds <|
    let leave : Script ι := .unlock .definitionsIds .ret
    if processed then leave
    else
      .ifHandler
        (.lock .moduleIds <|
          let leave : Script ι := .unlock .moduleIds leave
          .ifHandler
            (enqueueRequestRejitForLoadedModules modules integrationDefinitions (some thread) <|
              .await thread leave)
            leave)
        leave

def appDomainShutdownFinished : Script ι :=
  .lock .moduleIds <| .ifAttached (.unlock .moduleIds .ret) (.unlock .moduleIds .ret)

def profilerDetachSucceeded : Script ι :=
  .ifAttached
    (.lock .moduleIds <|
      .ifAttached (.detach <| .unlock .moduleIds .ret) (.unlock .moduleIds .ret))
    .ret

/-- `CorProfiler::Shutdown`, behind the shutdown of the runtime sampler. -/
def shutdown : Script ι :=
  .detach <| .lock .definitionsIds <| .lock .moduleIds <|
    let leave : Script ι := .unlock .moduleIds <| .unlock .definitionsIds .ret
    .ifHandler (handlerShutdown <| .clearHandler leave) leave

def Call.script (thread : ι) : Call → Script ι
  | .moduleLoadFinished succeeded module => RejitQueue.moduleLoadFinished thread succeeded module
  | .moduleUnloadStarted => RejitQueue.moduleUnloadStarted
  | .jitInlining functionInfo => RejitQueue.jitInlining functionInfo
  | .jitCachedFunctionSearchStarted functionInfo enumerations =>
      RejitQueue.jitCachedFunctionSearchStarted functionInfo enumerations
  | .internalAddInstrumentation processed items modules integrationDefinitions =>
      RejitQueue.internalAddInstrumentation thread processed items modules integrationDefinitions
  | .registerCallTargetDefinitions valid processed modules integrationDefinitions =>
      RejitQueue.registerCallTargetDefinitions thread valid processed modules
        integrationDefinitions
  | .initializeTraceMethods processed modules integrationDefinitions =>
      RejitQueue.initializeTraceMethods thread processed modules integrationDefinitions
  | .appDomainShutdownFinished => RejitQueue.appDomainShutdownFinished
  | .profilerDetachSucceeded => RejitQueue.profilerDetachSucceeded
  | .shutdown => RejitQueue.shutdown

/-! ### The system -/

/-- After `Initialize`; `info12` says whether the CLR has the newer interface. -/
def Shared.initial (info12 : Bool) : Shared ι where
  locks := Locks.free
  isAttached := true
  rejitHandler := true
  shutdown := false
  profilerInfo := true
  profilerInfo12 := info12
  queue := []
  exited := false
  promises := fun _ => none
  faulted := false
  pushed := []
  requests := []

def State.initial (info12 : Bool) (calls : ι → Call) : State ι where
  shared := Shared.initial info12
  threads := fun i => (calls i).script i
  worker := none

variable [DecidableEq ι]

/-- The profiler, with one thread for each of the calls. -/
def profiler (found : Found) (info12 : Bool) (calls : ι → Call) : System (State ι) (Act ι) :=
  .ofStep (· = State.initial info12 calls) (step (Action.code found))

end AutoInstrumentation.RejitQueue
