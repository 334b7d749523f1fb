import AutoInstrumentation.Lib.Table
import AutoInstrumentation.Lib.Transition

/-!
# AutoInstrumentation.SelectiveSampling

The traces that are selected for frequent sampling (`continuous_profiler.cpp`).

A trace is selected until it is stopped or its deadline is over. The preparation of a sample
looks for outdated traces when the time of the next scan has come. Times are milliseconds
of `steady_clock`; a step does not come before the one before it.
-/

namespace AutoInstrumentation.SelectiveSampling

open Lib

def kSelectiveSamplingMaxTraces : ℕ := 50

/-- `kSelectiveSamplingMaxAgeMinutes` in milliseconds. -/
def maxAge : ℕ := 15 * 60 * 1000

structure TraceContext where
  traceIdHigh : BitVec 64
  traceIdLow : BitVec 64
  deriving DecidableEq

/-- `IsDefault`: the trace of no activity. -/
def TraceContext.isDefault (context : TraceContext) : Bool :=
  context.traceIdHigh = 0 && context.traceIdLow = 0

/-- `selective_sampling_trace_map` with the deadlines, `nextOutdatedEntriesScan_`, and
whether the configuration of the sampling worker enables selective sampling. `clock` is the
time of the last step: the code does not store it. -/
structure State where
  traceMap : Table TraceContext ℕ
  nextOutdatedEntriesScan : ℕ
  selectiveEnabled : Bool
  clock : ℕ

namespace State

/-- `TryAddSelectiveSamplingTrace`. -/
def tryAddSelectiveSamplingTrace (s : State) (context : TraceContext) (now : ℕ) : Bool × State :=
  if kSelectiveSamplingMaxTraces ≤ s.traceMap.size then (false, s)
  else (true, { s with traceMap := s.traceMap.set context (now + maxAge) })

/-- `RemoveSelectiveSamplingTrace`. -/
def removeSelectiveSamplingTrace (s : State) (context : TraceContext) : State :=
  { s with traceMap := s.traceMap.erase context }

/-- `SelectiveSamplingStart`: a request for too many traces only leaves a warning. -/
def selectiveSamplingStart (s : State) (context : TraceContext) (now : ℕ) : State :=
  if context.isDefault then s else (s.tryAddSelectiveSamplingTrace context now).2

/-- `SelectiveSamplingStop`. -/
def selectiveSamplingStop (s : State) (context : TraceContext) : State :=
  if context.isDefault then s else s.removeSelectiveSamplingTrace context

/-- The scan of `HasActiveSelectiveSamplingEntries`. -/
def scan (s : State) (now : ℕ) : State :=
  let kept := s.traceMap.keep fun entry => now < entry.2
  { s with
    traceMap := kept
    nextOutdatedEntriesScan := kept.entries.foldl
      (fun nextScan entry => if entry.2 < nextScan then entry.2 else nextScan) (now + maxAge) }

/-- `HasActiveSelectiveSamplingEntries`. -/
def hasActiveSelectiveSamplingEntries (s : State) (now : ℕ) : Bool × State :=
  let s := if s.nextOutdatedEntriesScan ≤ now then s.scan now else s
  (s.traceMap.size ≠ 0, s)

/-- `TryPrepareSelectedThreadSampling`, with the answer of the managed callback. -/
def tryPrepareSelectedThreadSampling (s : State) (shouldProduceThreadSample : Bool) (now : ℕ) :
    Bool × State :=
  let active := s.hasActiveSelectiveSamplingEntries now
  (shouldProduceThreadSample && active.1, active.2)

/-- The worker takes a new configuration (`WaitForNextThreadSamplingCycle`). -/
def configure (s : State) (selectiveEnabled : Bool) (now : ℕ) : State :=
  { s with
    selectiveEnabled := selectiveEnabled
    nextOutdatedEntriesScan :=
      if !s.selectiveEnabled && selectiveEnabled then now else s.nextOutdatedEntriesScan }

/-- Nothing is selected or enabled at first. -/
def initial (clock : ℕ) : State where
  traceMap := .empty
  nextOutdatedEntriesScan := 0
  selectiveEnabled := false
  clock := clock

end State

inductive Act
  | start (context : TraceContext)
  | stop (context : TraceContext)
  | configure (selectiveEnabled : Bool)
  | prepare (shouldProduceThreadSample : Bool)

/-- What is done now. Only a cohort of selective sampling is prepared. -/
def act (s : State) : Act → Option State
  | .start context => some (s.selectiveSamplingStart context s.clock)
  | .stop context => some (s.selectiveSamplingStop context)
  | .configure selectiveEnabled => some (s.configure selectiveEnabled s.clock)
  | .prepare shouldProduceThreadSample =>
      if s.selectiveEnabled then
        some (s.tryPrepareSelectedThreadSampling shouldProduceThreadSample s.clock).2
      else none

/-- A step at a time that is not before the last one. -/
def step (s : State) (a : ℕ × Act) : Option State :=
  if s.clock ≤ a.1 then act { s with clock := a.1 } a.2 else none

/-- Selective sampling under a clock that does not go back. -/
def selectiveSampling : System State (ℕ × Act) :=
  .ofStep (fun s => ∃ clock, s = .initial clock) step

end AutoInstrumentation.SelectiveSampling
