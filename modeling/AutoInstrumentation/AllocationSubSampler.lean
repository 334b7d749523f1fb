import AutoInstrumentation.Lib.Transition

/-!
# AutoInstrumentation.AllocationSubSampler

The rate control of the allocation samples (`AllocationSubSampler` in
`continuous_profiler.cpp`).

The system clock counts milliseconds and begins the cycles; the steady clock counts
nanoseconds and spaces the samples of the first cycles. What was accepted is kept in a
trace, with the number of its cycle and of its pacing epoch: these are bookkeeping for the
proofs, and no step reads them.
-/

namespace AutoInstrumentation.Allocation

open Lib

def kStartupAllocationPacedCycles : ℕ := 10

/-- The members of `AllocationSubSampler`. Of the counters only `seenThisCycle` may come to
the end of its 32 bits. -/
structure AllocationSubSampler where
  targetPerCycle : ℕ
  secondsPerCycle : ℕ
  seenThisCycle : BitVec 32
  sampledThisCycle : ℕ
  seenLastCycle : BitVec 32
  startupCyclesRemaining : ℕ
  startupNextSampleAllowedAt : ℕ
  nextCycleStartMillis : ℕ

/-- What the clocks show: `system_clock` in milliseconds and `steady_clock` in nanoseconds. -/
structure Clock where
  system : ℕ
  steady : ℕ

/-- `minimumSampleSpacing` in nanoseconds: whole milliseconds. -/
def minimumSampleSpacing (secondsPerCycle targetPerCycle : ℕ) : ℕ :=
  secondsPerCycle * 1000 / targetPerCycle * 1000000

namespace AllocationSubSampler

/-- The constructor. -/
def create (targetPerCycle secondsPerCycle : ℕ) (clock : Clock) : AllocationSubSampler where
  targetPerCycle := targetPerCycle
  secondsPerCycle := secondsPerCycle
  seenThisCycle := 0
  sampledThisCycle := 0
  seenLastCycle := 0
  startupCyclesRemaining := kStartupAllocationPacedCycles
  startupNextSampleAllowedAt := clock.steady
  nextCycleStartMillis := clock.system

/-- The reset of `SetTargetPerCycle`: a pacing epoch begins. -/
def beginEpoch (s : AllocationSubSampler) (clock : Clock) : AllocationSubSampler :=
  { s with
    seenThisCycle := 0
    sampledThisCycle := 0
    seenLastCycle := 0
    startupCyclesRemaining := kStartupAllocationPacedCycles
    startupNextSampleAllowedAt := clock.steady
    nextCycleStartMillis := clock.system + s.secondsPerCycle * 1000 }

def setTargetPerCycle (s : AllocationSubSampler) (target : ℕ) (clock : Clock) :
    AllocationSubSampler :=
  if s.targetPerCycle = target then s
  else
    let s := if target ≠ 0 then s.beginEpoch clock else s
    { s with targetPerCycle := target }

def advanceCycle (s : AllocationSubSampler) (now : ℕ) : AllocationSubSampler :=
  { s with
    nextCycleStartMillis := now + s.secondsPerCycle * 1000
    seenLastCycle := s.seenThisCycle
    seenThisCycle := 0
    sampledThisCycle := 0
    startupCyclesRemaining := s.startupCyclesRemaining - 1 }

/-- The cycle that a tick is in. -/
def enterCycle (s : AllocationSubSampler) (now : ℕ) : AllocationSubSampler :=
  if s.nextCycleStartMillis < now then s.advanceCycle now else s

/-- A tick that is sampled. -/
def sample (s : AllocationSubSampler) (steadyNow : ℕ) : AllocationSubSampler :=
  { s with
    sampledThisCycle := s.sampledThisCycle + 1
    startupNextSampleAllowedAt :=
      if 0 < s.startupCyclesRemaining then
        steadyNow + minimumSampleSpacing s.secondsPerCycle s.targetPerCycle
      else s.startupNextSampleAllowedAt }

/-- The roll of a die with the numbers from 1 to `sides`, where `sides` is 1 at least. -/
def roll (die : (n : ℕ) → Fin (n + 1)) (sides : ℕ) : ℕ := (die (sides - 1)).val + 1

/-- `ShouldSample` in the cycle of the tick. -/
def sampleInCycle (s : AllocationSubSampler) (steadyNow : ℕ) (die : (n : ℕ) → Fin (n + 1)) :
    Bool × AllocationSubSampler :=
  let s := { s with seenThisCycle := s.seenThisCycle + 1 }
  if s.targetPerCycle ≤ s.sampledThisCycle then (false, s)
  else if 0 < s.startupCyclesRemaining && steadyNow < s.startupNextSampleAllowedAt then (false, s)
  else if roll die (max s.seenLastCycle.toNat 1) ≤ s.targetPerCycle then (true, s.sample steadyNow)
  else (false, s)

def shouldSample (s : AllocationSubSampler) (clock : Clock) (die : (n : ℕ) → Fin (n + 1)) :
    Bool × AllocationSubSampler :=
  if s.targetPerCycle = 0 then (false, s)
  else (s.enterCycle clock.system).sampleInCycle clock.steady die

end AllocationSubSampler

/-! ### Runs -/

/-- An accepted sample: the steady clock, the target then, whether the cycle is one of the
first ones of its epoch, and the numbers of the cycle and of the epoch. -/
structure Sample where
  steady : ℕ
  target : ℕ
  startup : Bool
  cycle : ℕ
  epoch : ℕ
  deriving DecidableEq

structure State where
  sampler : AllocationSubSampler
  /-- The numbers of the current cycle and pacing epoch. -/
  cycle : ℕ
  epoch : ℕ
  /-- What was accepted, newest first. -/
  accepted : List Sample

inductive Act
  | setTargetPerCycle (target : ℕ) (clock : Clock)
  | tick (clock : Clock) (die : (n : ℕ) → Fin (n + 1))

/-- Whether a target begins a pacing epoch. -/
def beginsEpoch (s : AllocationSubSampler) (target : ℕ) : Bool :=
  s.targetPerCycle ≠ target && target ≠ 0

/-- Whether a tick begins a cycle. -/
def beginsCycle (s : AllocationSubSampler) (clock : Clock) : Bool :=
  s.targetPerCycle ≠ 0 && s.nextCycleStartMillis < clock.system

def step (s : State) : Act → State
  | .setTargetPerCycle target clock =>
      { s with
        sampler := s.sampler.setTargetPerCycle target clock
        cycle := if beginsEpoch s.sampler target then s.cycle + 1 else s.cycle
        epoch := if beginsEpoch s.sampler target then s.epoch + 1 else s.epoch }
  | .tick clock die =>
      let sampled := s.sampler.shouldSample clock die
      let cycle := if beginsCycle s.sampler clock then s.cycle + 1 else s.cycle
      { s with
        sampler := sampled.2
        cycle := cycle
        accepted :=
          if sampled.1 then
            { steady := clock.steady
              target := sampled.2.targetPerCycle
              startup := 0 < sampled.2.startupCyclesRemaining
              cycle := cycle
              epoch := s.epoch } :: s.accepted
          else s.accepted }

def State.initial (targetPerCycle secondsPerCycle : ℕ) (clock : Clock) : State where
  sampler := .create targetPerCycle secondsPerCycle clock
  cycle := 0
  epoch := 0
  accepted := []

/-- The sampler with whatever target and length of a cycle it is created with. -/
def subSampler (secondsPerCycle : ℕ) : System State Act :=
  .ofStep (fun s => ∃ targetPerCycle clock, s = .initial targetPerCycle secondsPerCycle clock)
    fun s act => some (step s act)

end AutoInstrumentation.Allocation
