import AutoInstrumentation.RuntimeSampler

/-!
# AutoInstrumentation.SamplingCadence

The worker of thread sampling (`continuous_profiler.cpp`): the configuration it waits with,
the iterations it counts, and whether a cohort is continuous or selective.

Configurations are staged by the service and pulled by the worker at the boundary of a
cohort. The version that tells them apart is a number here: 2^64 of them are not staged
between two pulls.
-/

namespace AutoInstrumentation.SamplingCadence

open Lib RuntimeSampler

structure ThreadSamplingConfiguration where
  cpuSamplingIntervalMilliseconds : BitVec 32 := 0
  selectiveSamplingIntervalMilliseconds : BitVec 32 := 0
  version : ℕ := 0
  deriving DecidableEq, Repr

namespace ThreadSamplingConfiguration

def cpuEnabled (c : ThreadSamplingConfiguration) : Bool :=
  c.cpuSamplingIntervalMilliseconds ≠ 0

def selectiveEnabled (c : ThreadSamplingConfiguration) : Bool :=
  c.selectiveSamplingIntervalMilliseconds ≠ 0

def isEnabled (c : ThreadSamplingConfiguration) : Bool := c.cpuEnabled || c.selectiveEnabled

def bothEnabled (c : ThreadSamplingConfiguration) : Bool := c.cpuEnabled && c.selectiveEnabled

/-- What `StageThreadSamplingConfiguration` makes of the intervals of the service. -/
def staged (configuration : RuntimeSamplerConfiguration) (version : ℕ) :
    ThreadSamplingConfiguration where
  cpuSamplingIntervalMilliseconds := configuration.cpuSamplingIntervalMilliseconds
  selectiveSamplingIntervalMilliseconds :=
    configuration.selectiveThreadSamplingIntervalMilliseconds
  version := version

end ThreadSamplingConfiguration

inductive SamplingType
  | continuous
  | selectedThreads
  deriving DecidableEq, Repr

/-- `GetNextSamplingType`: with both modes, the iteration of the ratio is continuous. -/
def getNextSamplingType (configuration : ThreadSamplingConfiguration) (iteration : BitVec 32) :
    SamplingType :=
  if !configuration.selectiveEnabled then .continuous
  else if !configuration.cpuEnabled then .selectedThreads
  else
    let ratio := configuration.cpuSamplingIntervalMilliseconds
      / configuration.selectiveSamplingIntervalMilliseconds
    if iteration ≠ ratio then .selectedThreads else .continuous

/-- `ShouldTrackIterations`. -/
def shouldTrackIterations (configuration : ThreadSamplingConfiguration) : Bool :=
  configuration.bothEnabled

/-- A cohort: the configuration it was admitted under, the iteration it was decided in, and
the decision. -/
structure Cohort where
  configuration : ThreadSamplingConfiguration
  iteration : BitVec 32
  samplingType : SamplingType
  deriving DecidableEq, Repr

/-- The staged configuration, what the worker holds, and the cohorts so far, the latest first.
`previousConfigurationVersion` is the version before the wait that goes on. -/
structure State where
  desired : ThreadSamplingConfiguration
  configuration : ThreadSamplingConfiguration
  previousConfigurationVersion : ℕ
  iteration : BitVec 32 := 0
  cohorts : List Cohort := []
  deriving DecidableEq, Repr

namespace State

/-- The worker starts with the configuration that is staged. -/
def initial (desired : ThreadSamplingConfiguration) : State where
  desired := desired
  configuration := desired
  previousConfigurationVersion := desired.version

/-- `StageThreadSamplingConfiguration`. -/
def stage (s : State) (configuration : RuntimeSamplerConfiguration) : State :=
  { s with desired := .staged configuration (s.desired.version + 1) }

/-- The worker that waits (`WaitForNextThreadSamplingCycle`) sees another version. -/
def pull (s : State) : State :=
  if s.configuration.version ≠ s.desired.version then { s with configuration := s.desired }
  else s

/-- The iteration that is counted when a wait is over. -/
def countedIteration (s : State) : BitVec 32 :=
  let iteration :=
    if s.configuration.version ≠ s.previousConfigurationVersion then 0 else s.iteration
  if shouldTrackIterations s.configuration then iteration + 1 else 0

/-- The turn of the sampling loop whose wait is over. -/
def admitCohort (s : State) : State :=
  let iteration := s.countedIteration
  let samplingType := getNextSamplingType s.configuration iteration
  { s with
    previousConfigurationVersion := s.configuration.version
    iteration :=
      if samplingType = .continuous ∧ shouldTrackIterations s.configuration then 0 else iteration
    cohorts := ⟨s.configuration, iteration, samplingType⟩ :: s.cohorts }

end State

inductive Act
  | stage (configuration : RuntimeSamplerConfiguration)
  | pull
  | cohort

/-- The service stages what `IsValid` accepts. A wait is over when its time has passed and no
other version is staged; a disabled worker waits on. -/
def step (s : State) : Act → Option State
  | .stage configuration => if configuration.isValid then some (s.stage configuration) else none
  | .pull => some s.pull
  | .cohort =>
      if s.configuration.version = s.desired.version ∧ s.configuration.isEnabled then
        some s.admitCohort
      else none

/-- The sampling worker with the changes of its configuration. -/
def samplingWorker : System State Act :=
  .ofStep (fun s => ∃ configuration version,
    configuration.isValid = true ∧ s = .initial (.staged configuration version)) step

end AutoInstrumentation.SamplingCadence
