import AutoInstrumentation.Lib.Transition

/-!
# AutoInstrumentation.RuntimeSampler

The controller of the runtime sampler (`runtime_sampler_service.cpp`,
`runtime_sampler_configuration.cpp`) and the parts of `continuous_profiler.cpp`
it drives: the mailbox of the periodic sampling thread, the target of the
allocation sub-sampler and the allocation event session.

`ApplyConfiguration` is one function from the outcomes of its fallible steps
(`Env`) and the state of the service to the next state and the result, with the
early returns of the code. `configurationMutex_` serializes the calls, so a run is
a sequence of calls, of failures of the sampling worker, and of `Shutdown`.
-/

namespace AutoInstrumentation.RuntimeSampler

open Lib

/-! ### Configurations -/

inductive RuntimeSamplerAuthority
  | none
  | seed
  | controlPlane
  /-- A value that names no enumerator. -/
  | other (value : BitVec 32)
  deriving DecidableEq, Repr

inductive RuntimeSamplerApplyResult
  | applied
  | noChange
  | ignoredSeedAlreadyCommitted
  | ignoredLowerAuthority
  | rejectedInvalidArgument
  | rejectedInvalidConfiguration
  | activationFailed
  | shuttingDown
  deriving DecidableEq, Repr

structure RuntimeSamplerConfiguration where
  structureSize : BitVec 32 := 16
  cpuSamplingIntervalMilliseconds : BitVec 32 := 0
  selectiveThreadSamplingIntervalMilliseconds : BitVec 32 := 0
  maxAllocationSamplesPerMinute : BitVec 32 := 0
  deriving DecidableEq, Repr

namespace RuntimeSamplerConfiguration

def isValid (c : RuntimeSamplerConfiguration) : Bool :=
  !(c.cpuSamplingIntervalMilliseconds ≠ 0 && c.selectiveThreadSamplingIntervalMilliseconds ≠ 0 &&
    (c.cpuSamplingIntervalMilliseconds ≤ c.selectiveThreadSamplingIntervalMilliseconds ||
      c.cpuSamplingIntervalMilliseconds % c.selectiveThreadSamplingIntervalMilliseconds ≠ 0))

def cpuEnabled (c : RuntimeSamplerConfiguration) : Bool :=
  c.cpuSamplingIntervalMilliseconds ≠ 0

def selectiveEnabled (c : RuntimeSamplerConfiguration) : Bool :=
  c.selectiveThreadSamplingIntervalMilliseconds ≠ 0

def threadSamplingEnabled (c : RuntimeSamplerConfiguration) : Bool :=
  c.cpuEnabled || c.selectiveEnabled

def allocationEnabled (c : RuntimeSamplerConfiguration) : Bool :=
  c.maxAllocationSamplesPerMinute ≠ 0

def anyFeatureEnabled (c : RuntimeSamplerConfiguration) : Bool :=
  c.threadSamplingEnabled || c.allocationEnabled

/-- `operator==`, which leaves the structure size out. -/
def same (c d : RuntimeSamplerConfiguration) : Bool :=
  c.cpuSamplingIntervalMilliseconds = d.cpuSamplingIntervalMilliseconds &&
    c.selectiveThreadSamplingIntervalMilliseconds =
      d.selectiveThreadSamplingIntervalMilliseconds &&
    c.maxAllocationSamplesPerMinute = d.maxAllocationSamplesPerMinute

end RuntimeSamplerConfiguration

/-! ### The outcomes of the fallible steps -/

/-- What the CLR, the allocator and the threads answer during one call. -/
structure Env where
  /-- `EnsureSamplerCreated` builds the sampler. -/
  createSampler : Bool := true
  /-- The selective sampling buffers can be reserved. -/
  prepareBuffers : Bool := true
  /-- A running sampling worker fails before `StartThreadSampling` looks at it. -/
  workerFails : Bool := false
  /-- The new worker's `InitializeCurrentThread` handshake succeeds. -/
  startWorker : Bool := true
  /-- Reading and setting the event masks succeeds. -/
  enableEvents : Bool := true
  /-- The allocation sub-sampler can be allocated. -/
  createSubSampler : Bool := true
  /-- The result of starting the event session, and the handle it wrote. -/
  startSession : Bool × BitVec 64 := (true, 1)
  /-- Stopping the event session succeeds. -/
  stopSession : Bool := true

/-! ### The sampler (`ContinuousProfiler`) -/

inductive AllocationSamplingSessionState
  | none
  | active
  | permanentlyDisabled
  deriving DecidableEq, Repr

structure ThreadSamplingConfiguration where
  cpuSamplingIntervalMilliseconds : BitVec 32 := 0
  selectiveSamplingIntervalMilliseconds : BitVec 32 := 0
  version : BitVec 64 := 0
  deriving DecidableEq, Repr

structure Sampler where
  desiredThreadSamplingConfiguration : ThreadSamplingConfiguration := {}
  /-- The target per cycle of the allocation sub-sampler, once there is one. -/
  allocationSubSampler : Option (BitVec 32) := none
  session : BitVec 64 := 0
  allocationSamplingSessionState : AllocationSamplingSessionState := .none
  /-- `thread_sampling_thread_ != nullptr`. -/
  threadSamplingThread : Bool := false
  threadSamplingWorkerFailed : Bool := false
  shutdownRequested : Bool := false
  deriving DecidableEq, Repr

namespace Sampler

def stageThreadSamplingConfiguration (p : Sampler) (cpu selective : BitVec 32) : Sampler :=
  { p with desiredThreadSamplingConfiguration := {
      cpuSamplingIntervalMilliseconds := cpu
      selectiveSamplingIntervalMilliseconds := selective
      version := p.desiredThreadSamplingConfiguration.version + 1 } }

def startThreadSampling (env : Env) (p : Sampler) : Sampler × Bool :=
  let p := { p with threadSamplingWorkerFailed :=
    p.threadSamplingWorkerFailed || (p.threadSamplingThread && env.workerFails) }
  if p.shutdownRequested || p.threadSamplingWorkerFailed then (p, false)
  else if p.threadSamplingThread then (p, true)
  else if env.startWorker then ({ p with threadSamplingThread := true }, true)
  else (p, false)

def updateAllocationSamplingTarget (p : Sampler) (maxMemorySamplesPerMinute : BitVec 32) :
    Sampler :=
  { p with allocationSubSampler := p.allocationSubSampler.map fun _ => maxMemorySamplesPerMinute }

def startAllocationSamplingSession (env : Env) (p : Sampler) : Sampler × Bool :=
  if p.allocationSamplingSessionState = .permanentlyDisabled then (p, false)
  else if p.allocationSubSampler.isNone && !env.createSubSampler then (p, false)
  else
    -- admission starts closed
    let p := { p with allocationSubSampler := some (p.allocationSubSampler.getD 0) }
    if p.allocationSamplingSessionState = .active then (p, true)
    else
      let (succeeded, candidateSession) := env.startSession
      if !succeeded || candidateSession = 0 then
        ({ p with
          session := candidateSession
          allocationSamplingSessionState := .permanentlyDisabled }, false)
      else
        ({ p with session := candidateSession, allocationSamplingSessionState := .active }, true)

def stopAllocationSamplingSession (env : Env) (p : Sampler) : Sampler × Bool :=
  let p := p.updateAllocationSamplingTarget 0
  match p.allocationSamplingSessionState with
  | .permanentlyDisabled => (p, false)
  | .none => (p, true)
  | .active =>
      if env.stopSession then
        ({ p with session := 0, allocationSamplingSessionState := .none }, true)
      else ({ p with allocationSamplingSessionState := .permanentlyDisabled }, false)

/-- `Shutdown`: a second caller only waits for the first. -/
def shutdown (env : Env) (p : Sampler) : Sampler :=
  if p.shutdownRequested then p
  else
    let p := { p with shutdownRequested := true }
    let p := p.updateAllocationSamplingTarget 0
    let p := (p.stopAllocationSamplingSession env).1
    { p with threadSamplingThread := false }

end Sampler

/-! ### The service -/

structure Service where
  authority : RuntimeSamplerAuthority := .none
  committedConfiguration : RuntimeSamplerConfiguration := {}
  shutdownStarted : Bool := false
  activationFailed : Bool := false
  requiredClrEventsEnabled : Bool := false
  selectiveSamplingBuffersPrepared : Bool := false
  sampler : Option Sampler := none
  deriving DecidableEq, Repr

/-- Why `ApplyConfiguration` could not activate a candidate. -/
inductive Failure
  /-- `failActivation`. -/
  | activation
  /-- Only the allocation branch is lost. -/
  | allocationBranch
  deriving DecidableEq, Repr

namespace Service

def ensureSamplerCreated (env : Env) (s : Service) : Service × Bool :=
  if s.sampler.isSome then (s, true)
  else if env.createSampler then ({ s with sampler := some {} }, true)
  else (s, false)

def ensureSelectiveSamplingBuffersPrepared (env : Env) (s : Service) : Service × Bool :=
  if s.selectiveSamplingBuffersPrepared then (s, true)
  else if env.prepareBuffers then ({ s with selectiveSamplingBuffersPrepared := true }, true)
  else (s, false)

def ensureRequiredClrEventsEnabled (env : Env) (s : Service) : Service × Bool :=
  if s.requiredClrEventsEnabled then (s, true)
  else if env.enableEvents then ({ s with requiredClrEventsEnabled := true }, true)
  else (s, false)

/-- Run an operation on the sampler. -/
def onSampler (s : Service) (f : Sampler → Sampler × Bool) : Service × Bool :=
  match s.sampler with
  | none => (s, false)
  | some p => ({ s with sampler := some (f p).1 }, (f p).2)

def isAllocationSamplingPermanentlyDisabled (s : Service) : Bool :=
  match s.sampler with
  | none => false
  | some p => p.allocationSamplingSessionState = .permanentlyDisabled

/-- A step that only some configurations take. -/
def whenNeeded (needed : Bool) (f : Service → Service × Bool) (s : Service) : Service × Bool :=
  if needed then f s else (s, true)

/-- `if (!step) return failActivation();` -/
def orFail (r : Service × Bool) (next : Service → Service × Option Failure) :
    Service × Option Failure :=
  if r.2 then next r.1 else (r.1, some .activation)

/-- The step that opens the event session; a branch that is lost for good is
told from a failure that a later call may retry. -/
def openSession (env : Env) (configuration : RuntimeSamplerConfiguration) (s : Service) :
    Service × Option Failure :=
  let r := s.whenNeeded
    (configuration.allocationEnabled && !s.committedConfiguration.allocationEnabled)
    (onSampler · (Sampler.startAllocationSamplingSession env))
  if r.2 then (r.1, none)
  else if r.1.isAllocationSamplingPermanentlyDisabled then (r.1, some .allocationBranch)
  else (r.1, some .activation)

/-- The fallible steps that bring up the producers of a candidate, in order. -/
def activate (env : Env) (configuration : RuntimeSamplerConfiguration) (s : Service) :
    Service × Option Failure :=
  orFail (s.ensureSamplerCreated env) fun s =>
  orFail (s.whenNeeded configuration.selectiveEnabled
    (ensureSelectiveSamplingBuffersPrepared env)) fun s =>
  orFail (s.whenNeeded configuration.threadSamplingEnabled
    (onSampler · (Sampler.startThreadSampling env))) fun s =>
  orFail (s.ensureRequiredClrEventsEnabled env) fun s =>
  s.openSession env configuration

/-- The sampler, if there is one, is shut down. -/
def shutdownSampler (env : Env) (s : Service) : Service :=
  { s with sampler := s.sampler.map (Sampler.shutdown env) }

/-- `failActivation`: a candidate that fails over a committed producer is
dropped; without one the service is poisoned and the sampler torn down. -/
def failActivation (env : Env) (hasCommittedProducer : Bool) (s : Service) : Service :=
  if hasCommittedProducer then s
  else { s with activationFailed := true }.shutdownSampler env

def publishCommittedConfiguration (previous configuration : RuntimeSamplerConfiguration)
    (p : Sampler) : Sampler :=
  let p :=
    if previous.cpuSamplingIntervalMilliseconds ≠ configuration.cpuSamplingIntervalMilliseconds ||
        previous.selectiveThreadSamplingIntervalMilliseconds ≠
          configuration.selectiveThreadSamplingIntervalMilliseconds then
      p.stageThreadSamplingConfiguration configuration.cpuSamplingIntervalMilliseconds
        configuration.selectiveThreadSamplingIntervalMilliseconds
    else p
  if configuration.allocationEnabled then
    p.updateAllocationSamplingTarget configuration.maxAllocationSamplesPerMinute
  else p

/-- The part of `ApplyConfiguration` that cannot fail: the commit and its
publication to the sampler, and the cleanup of the event session. -/
def commit (env : Env) (source : RuntimeSamplerAuthority)
    (configuration : RuntimeSamplerConfiguration) (s : Service) : Service :=
  let previousConfiguration := s.committedConfiguration
  { s with
    authority := source
    committedConfiguration := configuration
    sampler := s.sampler.map fun p =>
      let p := if configuration.allocationEnabled then p else p.updateAllocationSamplingTarget 0
      let p := publishCommittedConfiguration previousConfiguration configuration p
      if configuration.allocationEnabled then p else (p.stopAllocationSamplingSession env).1 }

/-- The committed producer has lost its worker. -/
def hasThreadSamplingWorkerFailed (s : Service) : Bool :=
  match s.sampler with
  | none => false
  | some p => p.threadSamplingWorkerFailed

def applyConfiguration (env : Env) (source : RuntimeSamplerAuthority)
    (configuration : RuntimeSamplerConfiguration) (s : Service) :
    Service × RuntimeSamplerApplyResult :=
  let hasCommittedProducer := s.committedConfiguration.anyFeatureEnabled
  if s.shutdownStarted then (s, .shuttingDown)
  else if s.activationFailed then (s, .activationFailed)
  else if s.hasThreadSamplingWorkerFailed then
    ({ s with activationFailed := true }.shutdownSampler env, .activationFailed)
  else if source ≠ .seed ∧ source ≠ .controlPlane then (s, .rejectedInvalidArgument)
  else if !configuration.isValid then (s, .rejectedInvalidConfiguration)
  else if source = .seed ∧ s.authority = .seed then (s, .ignoredSeedAlreadyCommitted)
  else if source = .seed ∧ s.authority = .controlPlane then (s, .ignoredLowerAuthority)
  else if configuration.same s.committedConfiguration then
    if source = s.authority then (s, .noChange)
    else ({ s with authority := source }, .applied)
  else if configuration.anyFeatureEnabled then
    match s.activate env configuration with
    | (s, none) => (s.commit env source configuration, .applied)
    | (s, some .activation) => (s.failActivation env hasCommittedProducer, .activationFailed)
    | (s, some .allocationBranch) => (s, .activationFailed)
  else (s.commit env source configuration, .applied)

/-- `RuntimeSamplerService::Shutdown`. -/
def shutdown (env : Env) (s : Service) : Service :=
  { s with shutdownStarted := true }.shutdownSampler env

/-- The sampling worker exits after an exception. -/
def workerFails (s : Service) : Option Service :=
  match s.sampler with
  | none => none
  | some p =>
      if p.threadSamplingThread then
        some { s with sampler := some { p with threadSamplingWorkerFailed := true } }
      else none

end Service

/-! ### Runs -/

inductive Act
  | applyConfiguration (env : Env) (source : RuntimeSamplerAuthority)
      (configuration : RuntimeSamplerConfiguration)
  | workerFails
  | shutdown (env : Env)

def step (s : Service) : Act → Option Service
  | .applyConfiguration env source configuration =>
      some (s.applyConfiguration env source configuration).1
  | .workerFails => s.workerFails
  | .shutdown env => some (s.shutdown env)

/-- The service from its construction on. -/
def service : System Service Act :=
  .ofStep (· = {}) step

/-! ### What the proofs speak about -/

/-- The settings that decide at which rates the producers sample. -/
structure Settings where
  cpuInterval : BitVec 32
  selectiveInterval : BitVec 32
  allocationTarget : BitVec 32
  sessionActive : Bool
  deriving DecidableEq, Repr

def Sampler.target (p : Sampler) : BitVec 32 := p.allocationSubSampler.getD 0

def Sampler.settings (p : Sampler) : Settings where
  cpuInterval := p.desiredThreadSamplingConfiguration.cpuSamplingIntervalMilliseconds
  selectiveInterval := p.desiredThreadSamplingConfiguration.selectiveSamplingIntervalMilliseconds
  allocationTarget := p.target
  sessionActive := p.allocationSamplingSessionState = .active

/-- The settings in force; without a sampler nothing samples. -/
def Service.settings (s : Service) : Settings :=
  match s.sampler with
  | none => ⟨0, 0, 0, false⟩
  | some p => p.settings

/-- The settings a configuration asks for. -/
def RuntimeSamplerConfiguration.settings (c : RuntimeSamplerConfiguration) : Settings where
  cpuInterval := c.cpuSamplingIntervalMilliseconds
  selectiveInterval := c.selectiveThreadSamplingIntervalMilliseconds
  allocationTarget := c.maxAllocationSamplesPerMinute
  sessionActive := c.allocationEnabled

/-- The settings with the allocation branch closed. -/
def Settings.closed (t : Settings) : Settings :=
  { t with allocationTarget := 0, sessionActive := false }

/-- The sampler has been shut down. -/
def Service.samplerShutDown (s : Service) : Bool :=
  match s.sampler with
  | none => false
  | some p => p.shutdownRequested

/-- The next call to `ApplyConfiguration` finds the committed worker failed. -/
def Service.findsWorkerFailed (s : Service) : Bool :=
  !s.shutdownStarted && !s.activationFailed && s.hasThreadSamplingWorkerFailed

end AutoInstrumentation.RuntimeSampler
