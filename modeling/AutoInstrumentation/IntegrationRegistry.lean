import AutoInstrumentation.Integration
import AutoInstrumentation.Lib.Transition

/-!
# AutoInstrumentation.IntegrationRegistry

How loaded modules and integration definitions meet in `CorProfiler`, as a labelled
transition system.

Modules come and go through CLR callbacks, definitions come from managed code through
three entry points. A callback is one section under the lock of `module_ids`. A
call of an entry point takes the lock of `definitions_ids` for its whole duration: it
first looks its id up and reads its payload, and later crosses the new definitions
with the modules in one section under both locks; callbacks may run in between. A
run is one interleaving before shutdown, when `is_attached_` is set and the handler
and the preprocessor exist.

Beside the variables of the profiler a state keeps what was enqueued for each module
since it was loaded, what was stored for each id, and the ids of the calls that went
through.
-/

namespace AutoInstrumentation.IntegrationRegistry

open Lib Integration

abbrev ModuleId := BitVec 64

/-- The entry points with their payloads. -/
inductive Call
  | internalAddInstrumentation (id : WString) (items : Option (List CallTargetDefinition))
      (size : ℤ) (isDerived isInterface : Bool)
  | registerCallTargetDefinitions (id : Option WString)
      (items : Option (List CallTargetDefinition2)) (size : ℤ) (enabledCategories : BitVec 32)
  | initializeTraceMethods (id integrationAssemblyName integrationTypeName
      configurationString : WString)
  deriving DecidableEq, Repr

/-- The id of a call, unless it is null. -/
def Call.id : Call → Option WString
  | internalAddInstrumentation id _ _ _ _ => some id
  | registerCallTargetDefinitions id _ _ _ => id
  | initializeTraceMethods id _ _ _ => some id

/-- A call between its two sections: it holds the lock of `definitions_ids`. -/
structure Pending where
  call : Call
  definitionsId : WString
  integrationDefinitions : List IntegrationDefinition
  deriving DecidableEq, Repr

structure State where
  /-- The modules the CLR has loaded. -/
  loaded : List ModuleId
  moduleIds : List ModuleId
  definitionsIds : List WString
  integrationDefinitions : List IntegrationDefinition
  /-- The call that holds the lock of `definitions_ids`. -/
  pending : Option Pending
  /-- The definitions enqueued for a module since it was loaded. -/
  enqueued : ModuleId → List IntegrationDefinition
  /-- The definitions stored, with the id they came with. -/
  stored : List (WString × List IntegrationDefinition)
  /-- The calls that went through. -/
  processed : List Call

/-! ### The first section: the id and the payload -/

/-- What a call brings, unless its id was processed or its payload is rejected. -/
def receive (call : Call) (definitionsIds : List WString) : Option Pending :=
  match call with
  | .internalAddInstrumentation id items size isDerived isInterface => do
      guard (id ∉ definitionsIds)
      let items ← items
      return ⟨call, id, (items.take size.toNat).map (·.integration isDerived isInterface)⟩
  | .registerCallTargetDefinitions id items size enabledCategories => do
      let id ← id
      guard ¬ (size < 0 ∨ size > 0 ∧ items.isNone)
      guard (id ∉ definitionsIds)
      let items := (items.getD []).take size.toNat
      return ⟨call, id, items.filterMap (·.integration enabledCategories)⟩
  | .initializeTraceMethods id integrationAssemblyName integrationTypeName configurationString => do
      guard (id ∉ definitionsIds)
      let integrationType : TypeReference :=
        { assembly := integrationAssemblyName, name := integrationTypeName }
      return ⟨call, id,
        getIntegrationsFromTraceMethodsConfiguration integrationType configurationString⟩

/-! ### The second section: modules and definitions -/

/-- `EnqueueRequestRejitForLoadedModules`. A module that is listed twice is analysed
twice. -/
def enqueueRequestRejitForLoadedModules (modulesVector : List ModuleId)
    (definitions : List IntegrationDefinition) (s : State) : State :=
  if modulesVector.isEmpty || definitions.isEmpty then s
  else
    { s with
      enqueued := fun m =>
        s.enqueued m ++ (List.replicate (modulesVector.count m) definitions).flatten }

/-- `definitions->emplace(definitionsId)`. -/
def emplace (definitionsId : WString) (s : State) : State :=
  { s with definitionsIds := definitionsId :: s.definitionsIds }

/-- Append to `integration_definitions_`. -/
def store (definitionsId : WString) (definitions : List IntegrationDefinition) (s : State) :
    State :=
  { s with
    integrationDefinitions := s.integrationDefinitions ++ definitions
    stored := if definitions.isEmpty then s.stored else s.stored ++ [(definitionsId, definitions)] }

/-- The section of a call under both locks. -/
def commit (p : Pending) (s : State) : State :=
  match p.call with
  | .internalAddInstrumentation .. =>
      let s := emplace p.definitionsId s
      if p.integrationDefinitions.isEmpty then s
      else
        store p.definitionsId p.integrationDefinitions
          (enqueueRequestRejitForLoadedModules s.moduleIds p.integrationDefinitions s)
  | .registerCallTargetDefinitions .. =>
      let s := emplace p.definitionsId s
      let s := store p.definitionsId p.integrationDefinitions s
      if p.integrationDefinitions.isEmpty then s
      else enqueueRequestRejitForLoadedModules s.moduleIds p.integrationDefinitions s
  | .initializeTraceMethods .. =>
      store p.definitionsId p.integrationDefinitions
        (enqueueRequestRejitForLoadedModules s.moduleIds p.integrationDefinitions s)

/-! ### The callbacks -/

/-- The end of `TryRejitModule`, reached by the modules that are tracked. -/
def tryRejitModule (moduleId : ModuleId) (s : State) : State :=
  let s := { s with moduleIds := s.moduleIds ++ [moduleId] }
  if s.integrationDefinitions.isEmpty then s
  else enqueueRequestRejitForLoadedModules [moduleId] s.integrationDefinitions s

def moduleUnloadStarted (moduleId : ModuleId) (s : State) : State :=
  { s with moduleIds := s.moduleIds.filter (· ≠ moduleId) }

/-! ### The system -/

inductive Act
  | call (call : Call)
  | commit
  /-- The CLR reports a module that it has loaded; a tracked one passes the tests of
  `TryRejitModule` (it is no dynamic or resource module, not skipped by name, and so on). -/
  | moduleLoadFinished (moduleId : ModuleId) (tracked : Bool)
  | moduleUnloadStarted (moduleId : ModuleId)
  deriving DecidableEq, Repr

/-- One step; `none` when it cannot be taken. A module is reported as loaded when it is
not, and as unloading when it is loaded. -/
def step (s : State) : Act → Option State
  | .call call =>
      match s.pending with
      | some _ => none
      | none => some { s with pending := receive call s.definitionsIds }
  | .commit =>
      match s.pending with
      | none => none
      | some p => some { commit p s with pending := none, processed := s.processed ++ [p.call] }
  | .moduleLoadFinished moduleId tracked =>
      if moduleId ∈ s.loaded then none
      else
        let s := { s with
          loaded := moduleId :: s.loaded
          enqueued := Function.update s.enqueued moduleId [] }
        some (if tracked then tryRejitModule moduleId s else s)
  | .moduleUnloadStarted moduleId =>
      if moduleId ∈ s.loaded then
        some { moduleUnloadStarted moduleId s with loaded := s.loaded.filter (· ≠ moduleId) }
      else none

def State.initial : State where
  loaded := []
  moduleIds := []
  definitionsIds := []
  integrationDefinitions := []
  pending := none
  enqueued := fun _ => []
  stored := []
  processed := []

/-- The profiler before shutdown, with any number of threads calling it. -/
def profiler : System State Act :=
  .ofStep (· = .initial) step

end AutoInstrumentation.IntegrationRegistry
