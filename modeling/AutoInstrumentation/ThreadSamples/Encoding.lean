import AutoInstrumentation.Lib.Writer
import AutoInstrumentation.ThreadSamples.Buffer

/-!
# AutoInstrumentation.ThreadSamples.Encoding

The bytes of a batch.

Each method of the buffer emits an encoding that depends on its arguments and on the
table of codes, and moves the table, unless it overflows; either way it keeps the
buffer within its maximum size. `batchBytes` is the encoding of a whole batch.
-/

namespace AutoInstrumentation.ThreadSamples

open Lib

abbrev CodeTable := List (FunctionIdentifier × ℕ)

/-! ### Encodings -/

def shortBytes (val : BitVec 16) : List Byte := [byteAt val 1, byteAt val 0]

def intBytes (val : BitVec 32) : List Byte :=
  [byteAt val 3, byteAt val 2, byteAt val 1, byteAt val 0]

def uint64Bytes (val : BitVec 64) : List Byte :=
  [byteAt val 7, byteAt val 6, byteAt val 5, byteAt val 4,
    byteAt val 3, byteAt val 2, byteAt val 1, byteAt val 0]

def stringBytes (str : List WChar) : List Byte :=
  shortBytes (.ofNat 16 (min str.length kMaxStringLength))
    ++ ThreadSamplesBuffer.memoryBytes (str.take kMaxStringLength)

def spanContextBytes (spanContext : ThreadSpanContext) : List Byte :=
  uint64Bytes spanContext.traceIdHigh ++ uint64Bytes spanContext.traceIdLow
    ++ uint64Bytes spanContext.spanId

/-- The code that announces a frame: its own, or the negation of the next one. -/
def frameCode (codes : CodeTable) (fid : FunctionIdentifier) : BitVec 16 :=
  match codes.lookup fid with
  | some code => .ofNat 16 code
  | none => .ofInt 16 (-(codes.length + 1 : ℕ))

/-- What follows the code of a frame. -/
def framePayload (codes : CodeTable) (frame : NamedFrame) : List Byte :=
  match codes.lookup frame.1 with
  | some _ => []
  | none => stringBytes frame.2

def frameBytes (frame : NamedFrame) (codes : CodeTable) : List Byte :=
  shortBytes (frameCode codes frame.1) ++ framePayload codes frame

/-- The table after a frame. -/
def codesAfterFrame (frame : NamedFrame) (codes : CodeTable) : CodeTable :=
  match codes.lookup frame.1 with
  | some _ => codes
  | none =>
      if codes.length + 1 < kMaxCodesPerBuffer then (frame.1, codes.length + 1) :: codes
      else codes

def markBytes (selectiveSamplingEnabled selected : Bool) : List Byte :=
  if selectiveSamplingEnabled then [if selected then 1 else 0] else []

def sampleHeadBytes (selectiveSamplingEnabled : Bool) (thread : SampledThread NamedFrame) :
    List Byte :=
  kThreadSamplesStartSample :: (stringBytes thread.threadName
    ++ spanContextBytes thread.spanContext
    ++ markBytes selectiveSamplingEnabled thread.selected)

def stackBytes (frames : List NamedFrame) (codes : CodeTable) : List Byte :=
  encodeList frameBytes codesAfterFrame frames codes ++ shortBytes 0

def codesAfterFrames (frames : List NamedFrame) (codes : CodeTable) : CodeTable :=
  frames.foldl (fun codes frame => codesAfterFrame frame codes) codes

def sampleBytes (selectiveSamplingEnabled : Bool) (thread : SampledThread NamedFrame)
    (codes : CodeTable) : List Byte :=
  sampleHeadBytes selectiveSamplingEnabled thread ++ stackBytes thread.frames codes

def startBatchBytes (ms : BitVec 64) : List Byte :=
  kThreadSamplesStartBatch :: (intBytes kCurrentThreadSamplesBufferVersion ++ uint64Bytes ms)

def finalStatsBytes (stats : SamplingStatistics) : List Byte :=
  kThreadSamplesFinalStats :: (intBytes stats.microsSuspended ++ intBytes stats.numThreads
    ++ intBytes stats.totalFrames ++ intBytes stats.nameCacheMisses)

/-- The encoding of a whole batch. -/
def batchBytes (selectiveSamplingEnabled : Bool) (ms : BitVec 64)
    (threads : List (SampledThread NamedFrame)) (stats : SamplingStatistics) : List Byte :=
  startBatchBytes ms
    ++ encodeList (sampleBytes selectiveSamplingEnabled)
      (fun thread => codesAfterFrames thread.frames) threads []
    ++ [kThreadSamplesEndBatch] ++ finalStatsBytes stats

/-! ### What the methods emit -/

namespace ThreadSamplesBuffer

/-- The buffer as an output with the table of codes as its encoder state. -/
def output : Output ThreadSamplesBuffer Byte CodeTable where
  bytes := buffer
  state := codes
  failed := overflowed
  limit := kSamplesBufferMaximumSize

theorem canWrite_iff {b : ThreadSamplesBuffer} {n : ℕ} : b.canWrite n = true ↔
    b.overflowed = false ∧ b.buffer.length + n ≤ kSamplesBufferMaximumSize := by
  unfold canWrite
  cases b.overflowed with
  | true => simp only [Bool.true_or, Bool.not_true, Bool.false_eq_true, false_and,
      Bool.true_eq_false]
  | false =>
      simp only [Bool.false_or, Bool.not_eq_true', Bool.or_eq_false_iff, decide_eq_false_iff_not,
        true_and]
      omega

/-- Bytes that the guard in front of them has counted. -/
theorem writes_pushBack {n : ℕ} {bytes : List Byte} (h : bytes.length ≤ n) :
    Writes output (ifCanWrite n (pushBack bytes)) (fun _ => bytes) fun codes => codes where
  fits b hb := by
    rw [ifCanWrite]
    by_cases hc : b.canWrite n
    · have hfit := (canWrite_iff.mp hc).2
      rw [if_pos hc]
      show (b.buffer ++ bytes).length ≤ kSamplesBufferMaximumSize
      rw [List.length_append]
      omega
    · rw [if_neg hc]
      exact hb
  written b hb := by
    rw [ifCanWrite] at hb ⊢
    by_cases hc : b.canWrite n
    · rw [if_pos hc]
      exact ⟨(canWrite_iff.mp hc).1, rfl, rfl⟩
    · rw [if_neg hc] at hb
      cases hb

theorem writes_ifCanWrite {w : ThreadSamplesBuffer → ThreadSamplesBuffer}
    {e : CodeTable → List Byte} {m : CodeTable → CodeTable} (h : Writes output w e m) (n : ℕ) :
    Writes output (ifCanWrite n w) e m :=
  h.guard (canWrite · n) (fun _ => rfl) fun _ => rfl

theorem writes_writeByte (b : Byte) : Writes output (writeByte b) (fun _ => [b]) fun codes => codes :=
  writes_pushBack (Nat.le_refl _)

theorem writes_writeShort (val : BitVec 16) :
    Writes output (writeShort val) (fun _ => shortBytes val) fun codes => codes :=
  writes_pushBack (Nat.le_refl _)

theorem writes_writeInt (val : BitVec 32) :
    Writes output (writeInt val) (fun _ => intBytes val) fun codes => codes :=
  writes_pushBack (Nat.le_refl _)

theorem writes_writeUInt64 (val : BitVec 64) :
    Writes output (writeUInt64 val) (fun _ => uint64Bytes val) fun codes => codes :=
  writes_pushBack (Nat.le_refl _)

theorem length_memoryBytes (str : List WChar) : (memoryBytes str).length = str.length * 2 := by
  induction str with
  | nil => rfl
  | cons c str ih =>
      show (memoryBytes str).length + 2 = (str.length + 1) * 2
      rw [ih, Nat.succ_mul]

/-- The guard of `writeString` also covers the guard of the length inside it. -/
theorem writeString_eq (str : List WChar) : writeString str
    = ifCanWrite (2 + min str.length kMaxStringLength * 2) (pushBack (stringBytes str)) := by
  funext b
  rw [writeString]
  simp only [ifCanWrite]
  by_cases hc : b.canWrite (2 + min str.length kMaxStringLength * 2)
  · have hshort : b.canWrite 2 = true := by
      obtain ⟨hflag, hfit⟩ := canWrite_iff.mp hc
      exact canWrite_iff.mpr ⟨hflag, by omega⟩
    have htake : str.take (min str.length kMaxStringLength) = str.take kMaxStringLength := by
      rw [Nat.min_comm, ← List.take_eq_take_min]
    rw [if_pos hc, if_pos hc, writeShort, ifCanWrite, if_pos hshort, stringBytes, pushBack,
      pushBack, pushBack, List.append_assoc, Nat.min_comm, ← List.take_eq_take_min]
    rfl
  · rw [if_neg hc, if_neg hc]

theorem writes_writeString (str : List WChar) :
    Writes output (writeString str) (fun _ => stringBytes str) fun codes => codes := by
  rw [writeString_eq]
  refine writes_pushBack ?_
  rw [stringBytes, List.length_append, length_memoryBytes, List.length_take, Nat.min_comm]
  exact Nat.le_refl _

theorem writes_writeSpanContext (spanContext : ThreadSpanContext) :
    Writes output (writeSpanContext spanContext) (fun _ => spanContextBytes spanContext)
      fun codes => codes :=
  ((writes_writeUInt64 _).comp (writes_writeUInt64 _)).comp (writes_writeUInt64 _)

theorem writes_startBatch (ms : BitVec 64) :
    Writes output (startBatch ms) (fun _ => startBatchBytes ms) fun codes => codes :=
  writes_ifCanWrite (((writes_writeByte _).comp (writes_writeInt _)).comp (writes_writeUInt64 _)) 1

theorem writes_startSample (threadName : List WChar) (spanContext : ThreadSpanContext) :
    Writes output (startSample threadName spanContext)
      (fun _ => kThreadSamplesStartSample ::
        (stringBytes threadName ++ spanContextBytes spanContext)) fun codes => codes :=
  writes_ifCanWrite
    (((writes_writeByte _).comp (writes_writeString _)).comp (writes_writeSpanContext _)) 1

theorem writes_mark (selectiveSamplingEnabled selected : Bool) :
    Writes output
      (fun b => if selectiveSamplingEnabled then b.markSelectedForFrequentSampling selected else b)
      (fun _ => markBytes selectiveSamplingEnabled selected) fun codes => codes := by
  cases selectiveSamplingEnabled with
  | false => exact Writes.skip
  | true => exact writes_ifCanWrite (writes_writeByte _) 1

/-- Recording a frame updates the table first, then writes. -/
theorem writes_recordFrame (frame : NamedFrame) :
    Writes output (recordFrame frame.1 frame.2) (frameBytes frame) (codesAfterFrame frame) := by
  refine writes_ifCanWrite ?_ 1
  refine ⟨fun b hb => ?_, fun b hb => ?_⟩
  · rw [writeCodedFrameString]
    cases b.codes.lookup frame.1 with
    | some code => exact (writes_writeShort _).fits b hb
    | none =>
        refine ((writes_writeShort _).comp (writes_writeString _)).fits _ ?_
        split <;> exact hb
  · rw [writeCodedFrameString] at hb ⊢
    show _ ∧ _ = b.buffer ++ frameBytes frame b.codes ∧ _ = codesAfterFrame frame b.codes
    rw [frameBytes, frameCode, framePayload, codesAfterFrame]
    cases hlookup : b.codes.lookup frame.1 with
    | some code =>
        rw [hlookup] at hb
        rw [List.append_nil]
        exact (writes_writeShort _).written b hb
    | none =>
        rw [hlookup] at hb
        have h := ((writes_writeShort _).comp (writes_writeString _)).written _ hb
        by_cases hroom : b.codes.length + 1 < kMaxCodesPerBuffer
        · simp only [if_pos hroom] at h ⊢
          exact h
        · simp only [if_neg hroom] at h ⊢
          exact h

theorem writes_endSample :
    Writes output endSample (fun _ => shortBytes 0) fun codes => codes :=
  writes_ifCanWrite (writes_writeShort _) 1

theorem writes_endBatch :
    Writes output endBatch (fun _ => [kThreadSamplesEndBatch]) fun codes => codes :=
  writes_ifCanWrite (writes_writeByte _) 1

theorem writes_writeFinalStats (stats : SamplingStatistics) :
    Writes output (writeFinalStats stats) (fun _ => finalStatsBytes stats) fun codes => codes :=
  writes_ifCanWrite (((((writes_writeByte _).comp (writes_writeInt _)).comp
    (writes_writeInt _)).comp (writes_writeInt _)).comp (writes_writeInt _)) 1

end ThreadSamplesBuffer

open ThreadSamplesBuffer

theorem writes_writeSample (selectiveSamplingEnabled : Bool) (thread : SampledThread NamedFrame) :
    Writes output (fun b => writeSample selectiveSamplingEnabled b thread)
      (sampleBytes selectiveSamplingEnabled thread) (codesAfterFrames thread.frames) := by
  have hhead := (writes_startSample thread.threadName thread.spanContext).comp
    (writes_mark selectiveSamplingEnabled thread.selected)
  have hframes := Writes.foldl writes_recordFrame thread.frames
  refine ((hhead.comp hframes).comp writes_endSample).congr (fun codes => ?_) fun _ => rfl
  rw [sampleBytes, sampleHeadBytes, stackBytes, List.append_assoc]
  rfl

/-- **The bytes of a batch.** The buffer stays within its maximum size, and unless it
overflows it holds the encoding of the batch. -/
theorem writeBatch_spec (selectiveSamplingEnabled : Bool) (ms : BitVec 64)
    (threads : List (SampledThread NamedFrame)) (stats : SamplingStatistics) :
    let b := writeBatch selectiveSamplingEnabled ms threads stats
    b.buffer.length ≤ kSamplesBufferMaximumSize
      ∧ (b.overflowed = false →
        b.buffer = batchBytes selectiveSamplingEnabled ms threads stats) := by
  have h := (((writes_startBatch ms).comp
    (Writes.foldl (writes_writeSample selectiveSamplingEnabled) threads)).comp
      writes_endBatch).comp (writes_writeFinalStats stats)
  refine ⟨h.fits empty (Nat.zero_le _), fun hflag => ?_⟩
  exact (h.written empty hflag).2.1

/-! ### Selected threads and allocations -/

/-- The bytes of a selected thread in front of its stack. -/
def selectedHeadBytes (thread : SelectedThread) : List Byte :=
  kSelectedThreadSample :: (uint64Bytes thread.ms ++ stringBytes thread.threadName
    ++ spanContextBytes thread.spanContext)

def selectedSampleBytes (thread : SelectedThread) (codes : CodeTable) : List Byte :=
  selectedHeadBytes thread ++ stackBytes thread.frames codes

/-- The bytes of an allocation in front of its stack. -/
def allocationHeadBytes (tick : AllocationTick) : List Byte :=
  kAllocationSample :: (uint64Bytes tick.ms ++ uint64Bytes tick.allocatedSize
    ++ stringBytes tick.typeName ++ stringBytes tick.threadName
    ++ spanContextBytes tick.spanContext)

def allocationBytes (tick : AllocationTick) : List Byte :=
  allocationHeadBytes tick ++ stackBytes tick.frames []

theorem writes_writeSelectedSample (thread : SelectedThread) :
    Writes output (fun b => writeSelectedSample b thread) (selectedSampleBytes thread)
      (codesAfterFrames thread.frames) := by
  have hhead := writes_ifCanWrite ((((writes_writeByte kSelectedThreadSample).comp
    (writes_writeUInt64 thread.ms)).comp (writes_writeString thread.threadName)).comp
      (writes_writeSpanContext thread.spanContext)) 1
  have hframes := Writes.foldl writes_recordFrame thread.frames
  refine ((hhead.comp hframes).comp writes_endSample).congr (fun codes => ?_) fun _ => rfl
  rw [selectedSampleBytes, stackBytes, List.append_assoc]
  rfl

theorem writeSelectedBatch_spec (threads : List SelectedThread) :
    (writeSelectedBatch threads).buffer.length ≤ kSamplesBufferMaximumSize := by
  have h := ((writes_ifCanWrite (writes_writeByte kSelectedThreadsStartBatch) 1).comp
    (Writes.foldl writes_writeSelectedSample
      (threads.filter fun thread => !thread.frames.isEmpty))).comp
        (writes_ifCanWrite (writes_writeByte kSelectedThreadsEndBatch) 1)
  exact h.fits empty (Nat.zero_le _)

theorem writeAllocation_spec (tick : AllocationTick) :
    let b := writeAllocation tick
    b.buffer.length ≤ kSamplesBufferMaximumSize
      ∧ (b.overflowed = false → b.buffer = allocationBytes tick) := by
  have hhead := writes_ifCanWrite ((((((writes_writeByte kAllocationSample).comp
    (writes_writeUInt64 tick.ms)).comp (writes_writeUInt64 tick.allocatedSize)).comp
      (writes_writeString tick.typeName)).comp (writes_writeString tick.threadName)).comp
        (writes_writeSpanContext tick.spanContext)) 1
  have h := (hhead.comp (Writes.foldl writes_recordFrame tick.frames)).comp writes_endSample
  refine ⟨h.fits empty (Nat.zero_le _), fun hflag => ?_⟩
  rw [allocationBytes, stackBytes, ← List.append_assoc]
  exact (h.written empty hflag).2.1

end AutoInstrumentation.ThreadSamples
