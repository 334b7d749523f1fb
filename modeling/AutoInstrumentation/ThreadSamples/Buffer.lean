import AutoInstrumentation.Lib.Bytes

/-!
# AutoInstrumentation.ThreadSamples.Buffer

The writer of thread samples: `ThreadSamplesBuffer` of `continuous_profiler.cpp`,
and what is written with it: the batch of `ResolveSymbolsAndPublishBufferForAllThreads`,
the batch of the selected threads and the sample of an allocation.

The buffer never grows past `kSamplesBufferMaximumSize`: every write asks
`CanWrite` first, and the first refusal sets `overflowed_`, after which nothing is
written. Frames are named once: the first time a function is recorded in a batch
its name follows a fresh (negated) code, later only the code is written. The table
of codes stops growing one short of `kMaxCodesPerBuffer`; from then on a function
that is not in it is written with its name every time.
-/

namespace AutoInstrumentation.ThreadSamples

open Lib

/-- A UTF-16 code unit. -/
abbrev WChar := BitVec 16

def kMaxStringLength : ℕ := 512
def kMaxCodesPerBuffer : ℕ := 10 * 1000
def kSamplesBufferMaximumSize : ℕ := 200 * 1024

def kThreadSamplesStartBatch : Byte := 0x01
def kThreadSamplesStartSample : Byte := 0x02
def kThreadSamplesEndBatch : Byte := 0x06
def kThreadSamplesFinalStats : Byte := 0x07
def kAllocationSample : Byte := 0x08
def kSelectedThreadSample : Byte := 0x09
def kSelectedThreadsStartBatch : Byte := 0x0A
def kSelectedThreadsEndBatch : Byte := 0x0B

def kCurrentThreadSamplesBufferVersion : BitVec 32 := 1

structure FunctionIdentifier where
  functionToken : BitVec 32
  moduleId : BitVec 64
  isValid : Bool
  nativeIp : BitVec 64
  deriving DecidableEq, Repr

structure ThreadSpanContext where
  traceIdHigh : BitVec 64
  traceIdLow : BitVec 64
  spanId : BitVec 64
  deriving DecidableEq, Repr

structure SamplingStatistics where
  microsSuspended : BitVec 32
  numThreads : BitVec 32
  totalFrames : BitVec 32
  nameCacheMisses : BitVec 32
  deriving DecidableEq, Repr

/-- `codes` is the hash map `codes_` as an association list. -/
structure ThreadSamplesBuffer where
  buffer : List Byte
  codes : List (FunctionIdentifier × ℕ)
  overflowed : Bool
  deriving DecidableEq, Repr

namespace ThreadSamplesBuffer

/-- A new writer over an empty vector (`AllocateBuffer`). -/
def empty : ThreadSamplesBuffer := { buffer := [], codes := [], overflowed := false }

/-- The test of `CanWrite`. -/
def canWrite (b : ThreadSamplesBuffer) (byteCount : ℕ) : Bool :=
  !(b.overflowed || b.buffer.length > kSamplesBufferMaximumSize
    || byteCount > kSamplesBufferMaximumSize - b.buffer.length)

/-- `if (!CanWrite(byteCount)) return;` in front of `write`. A refusal is remembered. -/
def ifCanWrite (byteCount : ℕ) (write : ThreadSamplesBuffer → ThreadSamplesBuffer)
    (b : ThreadSamplesBuffer) : ThreadSamplesBuffer :=
  if b.canWrite byteCount then write b else { b with overflowed := true }

def pushBack (bytes : List Byte) (b : ThreadSamplesBuffer) : ThreadSamplesBuffer :=
  { b with buffer := b.buffer ++ bytes }

/-- `CHECK_SAMPLES_BUFFER_LENGTH`. -/
def checkSamplesBufferLength (write : ThreadSamplesBuffer → ThreadSamplesBuffer) :
    ThreadSamplesBuffer → ThreadSamplesBuffer :=
  ifCanWrite 1 write

/-! ### Values -/

def writeByte (b : Byte) : ThreadSamplesBuffer → ThreadSamplesBuffer :=
  ifCanWrite 1 (pushBack [b])

def writeShort (val : BitVec 16) : ThreadSamplesBuffer → ThreadSamplesBuffer :=
  ifCanWrite 2 (pushBack [byteAt val 1, byteAt val 0])

def writeInt (val : BitVec 32) : ThreadSamplesBuffer → ThreadSamplesBuffer :=
  ifCanWrite 4 (pushBack [byteAt val 3, byteAt val 2, byteAt val 1, byteAt val 0])

def writeUInt64 (val : BitVec 64) : ThreadSamplesBuffer → ThreadSamplesBuffer :=
  ifCanWrite 8 (pushBack
    [byteAt val 7, byteAt val 6, byteAt val 5, byteAt val 4,
      byteAt val 3, byteAt val 2, byteAt val 1, byteAt val 0])

/-- The code units of a string as they lie in memory on a little-endian machine. -/
def memoryBytes (str : List WChar) : List Byte :=
  str.flatMap fun c => [byteAt c 0, byteAt c 1]

def writeString (str : List WChar) : ThreadSamplesBuffer → ThreadSamplesBuffer :=
  let usedLen := min str.length kMaxStringLength
  ifCanWrite (2 + usedLen * 2) fun b =>
    (b.writeShort (.ofNat 16 usedLen)).pushBack (memoryBytes (str.take usedLen))

/-- `WriteCurrentTimeMillis` at the time `ms`. -/
def writeCurrentTimeMillis (ms : BitVec 64) : ThreadSamplesBuffer → ThreadSamplesBuffer :=
  writeUInt64 ms

def writeSpanContext (spanContext : ThreadSpanContext) (b : ThreadSamplesBuffer) :
    ThreadSamplesBuffer :=
  b |>.writeUInt64 spanContext.traceIdHigh
    |>.writeUInt64 spanContext.traceIdLow
    |>.writeUInt64 spanContext.spanId

def writeCodedFrameString (fid : FunctionIdentifier) (str : List WChar)
    (b : ThreadSamplesBuffer) : ThreadSamplesBuffer :=
  match b.codes.lookup fid with
  | some code => b.writeShort (.ofNat 16 code)
  | none =>
      let code := b.codes.length + 1
      let b := if b.codes.length + 1 < kMaxCodesPerBuffer
        then { b with codes := (fid, code) :: b.codes } else b
      b |>.writeShort (.ofInt 16 (-code)) |>.writeString str

/-! ### Records -/

def startBatch (ms : BitVec 64) : ThreadSamplesBuffer → ThreadSamplesBuffer :=
  checkSamplesBufferLength fun b =>
    b |>.writeByte kThreadSamplesStartBatch
      |>.writeInt kCurrentThreadSamplesBufferVersion
      |>.writeCurrentTimeMillis ms

def startSample (threadName : List WChar) (spanContext : ThreadSpanContext) :
    ThreadSamplesBuffer → ThreadSamplesBuffer :=
  checkSamplesBufferLength fun b =>
    b |>.writeByte kThreadSamplesStartSample
      |>.writeString threadName
      |>.writeSpanContext spanContext

def startSelectedThreadsBatch : ThreadSamplesBuffer → ThreadSamplesBuffer :=
  checkSamplesBufferLength (writeByte kSelectedThreadsStartBatch)

def endSelectedThreadsBatch : ThreadSamplesBuffer → ThreadSamplesBuffer :=
  checkSamplesBufferLength (writeByte kSelectedThreadsEndBatch)

def startSampleForSelectedThread (ms : BitVec 64) (threadName : List WChar)
    (spanContext : ThreadSpanContext) : ThreadSamplesBuffer → ThreadSamplesBuffer :=
  checkSamplesBufferLength fun b =>
    b |>.writeByte kSelectedThreadSample
      |>.writeCurrentTimeMillis ms
      |>.writeString threadName
      |>.writeSpanContext spanContext

def allocationSample (ms allocSize : BitVec 64) (allocType threadName : List WChar)
    (spanContext : ThreadSpanContext) : ThreadSamplesBuffer → ThreadSamplesBuffer :=
  checkSamplesBufferLength fun b =>
    b |>.writeByte kAllocationSample
      |>.writeCurrentTimeMillis ms
      |>.writeUInt64 allocSize
      |>.writeString allocType
      |>.writeString threadName
      |>.writeSpanContext spanContext

def markSelectedForFrequentSampling (value : Bool) : ThreadSamplesBuffer → ThreadSamplesBuffer :=
  checkSamplesBufferLength (writeByte (if value then 1 else 0))

def recordFrame (fid : FunctionIdentifier) (frame : List WChar) :
    ThreadSamplesBuffer → ThreadSamplesBuffer :=
  checkSamplesBufferLength (writeCodedFrameString fid frame)

def endSample : ThreadSamplesBuffer → ThreadSamplesBuffer :=
  checkSamplesBufferLength (writeShort 0)

def endBatch : ThreadSamplesBuffer → ThreadSamplesBuffer :=
  checkSamplesBufferLength (writeByte kThreadSamplesEndBatch)

def writeFinalStats (stats : SamplingStatistics) : ThreadSamplesBuffer → ThreadSamplesBuffer :=
  checkSamplesBufferLength fun b =>
    b |>.writeByte kThreadSamplesFinalStats
      |>.writeInt stats.microsSuspended
      |>.writeInt stats.numThreads
      |>.writeInt stats.totalFrames
      |>.writeInt stats.nameCacheMisses

end ThreadSamplesBuffer

/-! ### A batch -/

/-- What a batch says about a thread: its name, its span context, whether its trace is
selected for frequent sampling, and the frames of its stack. -/
structure SampledThread (Frame : Type) where
  threadName : List WChar
  spanContext : ThreadSpanContext
  selected : Bool
  frames : List Frame
  deriving DecidableEq, Repr

/-- A frame with its name. -/
abbrev NamedFrame := FunctionIdentifier × List WChar

open ThreadSamplesBuffer in
/-- The body of the loop over the threads. The mark is written only when selective
sampling is enabled. -/
def writeSample (selectiveSamplingEnabled : Bool) (b : ThreadSamplesBuffer)
    (thread : SampledThread NamedFrame) : ThreadSamplesBuffer :=
  let b := b.startSample thread.threadName thread.spanContext
  let b := if selectiveSamplingEnabled
    then b.markSelectedForFrequentSampling thread.selected else b
  let b := thread.frames.foldl (fun b frame => b.recordFrame frame.1 frame.2) b
  b.endSample

/-- A whole batch, written at the time `ms`. -/
def writeBatch (selectiveSamplingEnabled : Bool) (ms : BitVec 64)
    (threads : List (SampledThread NamedFrame)) (stats : SamplingStatistics) :
    ThreadSamplesBuffer :=
  let b := ThreadSamplesBuffer.empty.startBatch ms
  let b := threads.foldl (writeSample selectiveSamplingEnabled) b
  b.endBatch.writeFinalStats stats

/-- `ResolveFrames`: the names come from the naming helper. -/
def resolveFrames (lookup : FunctionIdentifier → List WChar)
    (thread : SampledThread FunctionIdentifier) : SampledThread NamedFrame :=
  { thread with frames := thread.frames.map fun fid => (fid, lookup fid) }

/-- `ResolveSymbolsAndPublishBufferForAllThreads` up to the publication: threads
without frames are left out. -/
def resolveSymbolsForAllThreads (lookup : FunctionIdentifier → List WChar)
    (selectiveSamplingEnabled : Bool) (ms : BitVec 64)
    (threadStacks : List (SampledThread FunctionIdentifier)) (stats : SamplingStatistics) :
    ThreadSamplesBuffer :=
  let threads := threadStacks.filter fun thread => !thread.frames.isEmpty
  writeBatch selectiveSamplingEnabled ms (threads.map (resolveFrames lookup)) stats

/-! ### Selected threads and allocations -/

/-- A thread of a batch of selected threads, with the time its sample is written at. -/
structure SelectedThread where
  ms : BitVec 64
  threadName : List WChar
  spanContext : ThreadSpanContext
  frames : List NamedFrame
  deriving DecidableEq, Repr

/-- What `AllocationTick` reports about one allocation. -/
structure AllocationTick where
  ms : BitVec 64
  allocatedSize : BitVec 64
  typeName : List WChar
  threadName : List WChar
  spanContext : ThreadSpanContext
  frames : List NamedFrame
  deriving DecidableEq, Repr

open ThreadSamplesBuffer in
/-- The body of the loop of `ResolveSymbolsAndPublishBufferForSelectedThreads`. -/
def writeSelectedSample (b : ThreadSamplesBuffer) (thread : SelectedThread) :
    ThreadSamplesBuffer :=
  let b := b.startSampleForSelectedThread thread.ms thread.threadName thread.spanContext
  let b := thread.frames.foldl (fun b frame => b.recordFrame frame.1 frame.2) b
  b.endSample

/-- `ResolveSymbolsAndPublishBufferForSelectedThreads` up to the publication: threads
without frames are left out. -/
def writeSelectedBatch (threads : List SelectedThread) : ThreadSamplesBuffer :=
  let b := ThreadSamplesBuffer.empty.startSelectedThreadsBatch
  let b := (threads.filter fun thread => !thread.frames.isEmpty).foldl writeSelectedSample b
  b.endSelectedThreadsBatch

/-- The local buffer of `AllocationTick`, up to the publication. -/
def writeAllocation (tick : AllocationTick) : ThreadSamplesBuffer :=
  let b := ThreadSamplesBuffer.empty.allocationSample tick.ms tick.allocatedSize tick.typeName
    tick.threadName tick.spanContext
  let b := tick.frames.foldl (fun b frame => b.recordFrame frame.1 frame.2) b
  b.endSample

end AutoInstrumentation.ThreadSamples
