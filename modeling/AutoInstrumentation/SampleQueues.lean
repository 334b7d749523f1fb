import AutoInstrumentation.Lib.Transition
import AutoInstrumentation.ThreadSamples.Buffer

/-!
# AutoInstrumentation.SampleQueues

The queues between the sampling threads and the managed readers
(`continuous_profiler.cpp`, `BufferProcessor.cs`), as a labelled transition system.

Thread samples go through two slots, allocation samples and the samples of selected
threads through one byte buffer each. Publishing and consuming are one section under
the mutex of the queue; what a function does outside of it concerns its own batch and
the caller's buffer only. So one call is one step, and a run is one interleaving of
any number of publishing and reading threads. Beside the queues a state keeps what
has been published and what the readers were given, in the order of the sections.
-/

namespace AutoInstrumentation.SampleQueues

open Lib ThreadSamples

/-- The kinds of samples, each with its own queue (`SampleType`). -/
inductive SampleType
  | continuous
  | selectedThreads
  | allocation
  deriving DecidableEq, Repr

/-- `ThreadSampleBatch`. The other queues have no sampling interval; theirs is 0. -/
structure ThreadSampleBatch where
  buffer : List Byte
  samplingInterval : BitVec 32
  deriving DecidableEq, Repr

/-- The shared variables. A slot with a null buffer is `none`. -/
structure Queues where
  cpuBufferA : Option ThreadSampleBatch
  cpuBufferB : Option ThreadSampleBatch
  allocationBuffer : List Byte
  selectiveSamplingBuffer : List Byte
  selectiveSamplingBufferSaturated : Bool
  deriving DecidableEq, Repr

def Queues.empty : Queues where
  cpuBufferA := none
  cpuBufferB := none
  allocationBuffer := []
  selectiveSamplingBuffer := []
  selectiveSamplingBufferSaturated := false

/-! ### Publishing

Each function also says whether it has stored the batch; the source only logs. -/

def threadSamplingShouldProduceThreadSample (q : Queues) : Bool :=
  q.cpuBufferA.isNone || q.cpuBufferB.isNone

def threadSamplingRecordProducedThreadSample (buf : List Byte) (samplingInterval : BitVec 32)
    (q : Queues) : Queues × Bool :=
  if q.cpuBufferA.isNone then
    ({ q with cpuBufferA := some ⟨buf, samplingInterval⟩ }, true)
  else if q.cpuBufferB.isNone then
    ({ q with cpuBufferB := some ⟨buf, samplingInterval⟩ }, true)
  else
    -- "Unexpected buffer drop in ThreadSampling_RecordProducedThreadSample"
    (q, false)

def selectiveSamplingShouldProduceThreadSample (q : Queues) : Bool :=
  !q.selectiveSamplingBufferSaturated

/-- The batch does not fit in the remaining buffer capacity. -/
def selectiveSamplingOverflows (q : Queues) (appendSize : ℕ) : Bool :=
  q.selectiveSamplingBuffer.length > kSamplesBufferMaximumSize
    || appendSize > kSamplesBufferMaximumSize - q.selectiveSamplingBuffer.length

def selectiveSamplingRecordProducedThreadSample (appendBuf : List Byte) (q : Queues) :
    Queues × Bool :=
  if appendBuf.isEmpty then
    (q, true)
  else if q.selectiveSamplingBufferSaturated then
    (q, false)
  else if selectiveSamplingOverflows q appendBuf.length then
    ({ q with selectiveSamplingBufferSaturated := true }, false)
  else
    let buffer := q.selectiveSamplingBuffer ++ appendBuf
    ({ q with
        selectiveSamplingBuffer := buffer
        selectiveSamplingBufferSaturated := buffer.length = kSamplesBufferMaximumSize }, true)

/-- "Allocation buffer is full." -/
def allocationBufferIsFull (q : Queues) (appendLen : ℕ) : Bool :=
  q.allocationBuffer.length + appendLen ≥ kSamplesBufferMaximumSize

def allocationSamplingAppendToBuffer (appendBuf : List Byte) (q : Queues) : Queues × Bool :=
  if appendBuf.isEmpty then
    (q, true)
  else if allocationBufferIsFull q appendBuf.length then
    (q, false)
  else
    ({ q with allocationBuffer := q.allocationBuffer ++ appendBuf }, true)

/-! ### Consuming

A call gets the length of the caller's buffer and whether the pointers it was given
are non-null. It yields the bytes copied to the buffer (the result of the call is their
number) and the sampling interval. -/

def threadSamplingConsumeOneThreadSample (len : ℤ) (nonNull : Bool) (q : Queues) :
    (List Byte × BitVec 32) × Queues :=
  if len ≤ 0 || !nonNull then
    (([], 0), q)
  else
    match q.cpuBufferA with
    | none => (([], 0), q)
    | some batch =>
        let q := { q with cpuBufferA := q.cpuBufferB, cpuBufferB := none }
        -- a batch that is too large is gone all the same
        if batch.buffer.length > len then (([], 0), q)
        else ((batch.buffer, batch.samplingInterval), q)

def allocationSamplingConsumeAndReplaceBuffer (len : ℤ) (nonNull : Bool) (q : Queues) :
    List Byte × Queues :=
  if len ≤ 0 || !nonNull then
    ([], q)
  else
    (q.allocationBuffer.take len.toNat, { q with allocationBuffer := [] })

def selectiveSamplingConsumeAndClearBuffer (len : ℤ) (nonNull : Bool) (q : Queues) :
    List Byte × Queues :=
  if len ≤ 0 || !nonNull then
    ([], q)
  else
    (q.selectiveSamplingBuffer.take len.toNat,
      { q with selectiveSamplingBuffer := [], selectiveSamplingBufferSaturated := false })

/-- `BufferProcessor.ReadBuffer` with a buffer of `len` bytes. -/
def readBuffer (sampleType : SampleType) (len : ℤ) (q : Queues) :
    (List Byte × BitVec 32) × Queues :=
  match sampleType with
  | .continuous => threadSamplingConsumeOneThreadSample len true q
  | .selectedThreads =>
      let (read, q) := selectiveSamplingConsumeAndClearBuffer len true q
      ((read, 0), q)
  | .allocation =>
      let (read, q) := allocationSamplingConsumeAndReplaceBuffer len true q
      ((read, 0), q)

/-- `BufferProcessor.BufferSize`. -/
def bufferSize : ℕ := 200 * 1024

/-! ### The batches -/

/-- What a sampling thread publishes. -/
inductive Sample
  | continuous (selectiveSamplingEnabled : Bool) (ms : BitVec 64)
      (threads : List (SampledThread NamedFrame)) (stats : SamplingStatistics)
      (samplingInterval : BitVec 32)
  | selectedThreads (threads : List SelectedThread)
  | allocation (tick : AllocationTick)
  deriving DecidableEq, Repr

namespace Sample

def sampleType : Sample → SampleType
  | continuous .. => .continuous
  | selectedThreads .. => .selectedThreads
  | allocation .. => .allocation

/-- The writer at the publication. -/
def writer : Sample → ThreadSamplesBuffer
  | continuous selectiveSamplingEnabled ms threads stats _ =>
      writeBatch selectiveSamplingEnabled ms threads stats
  | selectedThreads threads => writeSelectedBatch threads
  | allocation tick => writeAllocation tick

def samplingInterval : Sample → BitVec 32
  | continuous _ _ _ _ samplingInterval => samplingInterval
  | _ => 0

def batch (sample : Sample) : ThreadSampleBatch :=
  ⟨sample.writer.buffer, sample.samplingInterval⟩

end Sample

/-- The queue of a sample takes its batch. -/
def record (sample : Sample) (q : Queues) : Queues × Bool :=
  match sample.sampleType with
  | .continuous =>
      threadSamplingRecordProducedThreadSample sample.batch.buffer sample.batch.samplingInterval q
  | .selectedThreads => selectiveSamplingRecordProducedThreadSample sample.batch.buffer q
  | .allocation => allocationSamplingAppendToBuffer sample.batch.buffer q

/-- The queue of a sample has no room for it: both slots are taken; the selected
threads' buffer is marked saturated or what remains of its capacity is too small; the
allocation buffer is full. -/
def saturated (sample : Sample) (q : Queues) : Bool :=
  match sample.sampleType with
  | .continuous => !threadSamplingShouldProduceThreadSample q
  | .selectedThreads =>
      !selectiveSamplingShouldProduceThreadSample q
        || selectiveSamplingOverflows q sample.batch.buffer.length
  | .allocation => allocationBufferIsFull q sample.batch.buffer.length

/-! ### The system -/

/-- One publication: the batch, whether the queue was saturated then, and whether it
was stored. -/
structure Publication where
  batch : ThreadSampleBatch
  saturated : Bool
  stored : Bool
  deriving DecidableEq, Repr

structure State where
  queues : Queues
  /-- The publications, oldest first. -/
  published : SampleType → List Publication
  /-- What each call was given, oldest first. -/
  consumed : SampleType → List (List Byte × BitVec 32)

/-- The steps. A batch is not published after a shutdown has been requested, or when
the shutdown gate does not admit the publication. -/
inductive Act
  | publish (admitted : Bool) (sample : Sample)
  | read (sampleType : SampleType) (len : ℤ)
  deriving DecidableEq, Repr

/-- Append to the list of one queue. -/
def logAt {α : Type} (log : SampleType → List α) (t : SampleType) (a : α) :
    SampleType → List α :=
  Function.update log t (log t ++ [a])

/-- One step. A batch whose writer has overflowed, or that is not admitted, is
discarded before the publication (`PublishBuffer` and its siblings). -/
def step (s : State) : Act → State
  | .publish admitted sample =>
      if !admitted || sample.writer.overflowed then s
      else
        let (queues, stored) := record sample s.queues
        { s with
          queues := queues
          published := logAt s.published sample.sampleType
            ⟨sample.batch, saturated sample s.queues, stored⟩ }
  | .read sampleType len =>
      let (data, queues) := readBuffer sampleType len s.queues
      { s with queues := queues, consumed := logAt s.consumed sampleType data }

def State.initial : State where
  queues := .empty
  published := fun _ => []
  consumed := fun _ => []

/-- The readers pass buffers of at least `bufferSize` bytes. -/
def Act.Valid : Act → Prop
  | .publish .. => True
  | .read _ len => bufferSize ≤ len

/-- The queues with any number of publishers and readers. -/
def sampleQueues : System State Act where
  init := (· = .initial)
  step s a t := a.Valid ∧ t = step s a

end AutoInstrumentation.SampleQueues
