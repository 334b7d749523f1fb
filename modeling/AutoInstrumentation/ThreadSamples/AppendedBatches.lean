import AutoInstrumentation.Lib.Records
import AutoInstrumentation.ThreadSamples.RoundTrip

/-!
# AutoInstrumentation.ThreadSamples.AppendedBatches

`ParseAllocationSamples` and `ParseSelectiveSamplerSamples`: the parsers of the buffers
that several batches are appended to.

An allocation has codes of its own; the threads of a batch of selected threads share
theirs. Whatever number of batches is in a buffer, each is read as it was written, and the
selected threads are counted across all of them.
-/

namespace AutoInstrumentation.ThreadSamples

open Lib Lib.Cursor

/-! ### The parsers -/

structure AllocationSample where
  allocationSizeBytes : BitVec 64
  typeName : List WChar
  threadSample : ThreadSample
  deriving DecidableEq, Repr

/-- The body of the loop of `ParseAllocationSamples`. -/
def parseAllocation (allocationSamples : List AllocationSample) :
    Cursor Byte (Turn (List AllocationSample)) := do
  let operationCode ← readByte
  if operationCode = 0x08 then do
    let timestampMillis ← readInt64
    let allocatedSize ← readInt64
    let typeName ← readString
    let threadName ← readString
    let traceIdHigh ← readInt64
    let traceIdLow ← readInt64
    let spanId ← readInt64
    let threadSample := ThreadSample.new timestampMillis traceIdHigh traceIdLow spanId threadName
      "allocation" 0 false
    let code ← readShort
    let (threadSample, _) ← readStackFrames code threadSample fun _ => none
    if threadName = backgroundThreadName then pure (.next allocationSamples)
    else pure (.next (allocationSamples ++ [⟨allocatedSize, typeName, threadSample⟩]))
  else pure (.stop allocationSamples)

def parseAllocationSamples (buffer : List Byte) (read : ℕ) : List AllocationSample :=
  readRecords parseAllocation [] buffer read

/-- The locals of `ParseSelectiveSamplerSamples`. -/
structure SelectiveState where
  threadIndex : BitVec 32
  codeDictionary : CodeDictionary
  selectiveSamplerSamples : List ThreadSample

/-- The body of the loop of `ParseSelectiveSamplerSamples`. -/
def parseSelective (st : SelectiveState) : Cursor Byte (Turn SelectiveState) := do
  let operationCode ← readByte
  if operationCode = 0x0A then pure (.next { st with codeDictionary := fun _ => none })
  else if operationCode = 0x09 then do
    let timestampMillis ← readInt64
    let threadName ← readString
    let traceIdHigh ← readInt64
    let traceIdLow ← readInt64
    let spanId ← readInt64
    let threadSample := ThreadSample.new timestampMillis traceIdHigh traceIdLow spanId threadName
      "selective-sampler" st.threadIndex true
    let code ← readShort
    let (threadSample, codeDictionary) ← readStackFrames code threadSample st.codeDictionary
    pure (.next { threadIndex := st.threadIndex + 1
                  codeDictionary := codeDictionary
                  selectiveSamplerSamples := st.selectiveSamplerSamples ++ [threadSample] })
  else if operationCode = 0x0B then pure (.next st)
  else pure (.stop st)

def parseSelectiveSamplerSamples (buffer : List Byte) (read : ℕ) : List ThreadSample :=
  (readRecords parseSelective ⟨0, fun _ => none, []⟩ buffer read).selectiveSamplerSamples

/-! ### What is written -/

/-- The threads of a batch that have frames. -/
def framedThreads (threads : List SelectedThread) : List SelectedThread :=
  threads.filter fun thread => !thread.frames.isEmpty

def selectedThreadsBytes (threads : List SelectedThread) (codes : CodeTable) : List Byte :=
  encodeList selectedSampleBytes (fun thread => codesAfterFrames thread.frames) threads codes

def selectedBatchBytes (threads : List SelectedThread) : List Byte :=
  [kSelectedThreadsStartBatch] ++ selectedThreadsBytes (framedThreads threads) []
    ++ [kSelectedThreadsEndBatch]

open ThreadSamplesBuffer in
theorem writeSelectedBatch_written {threads : List SelectedThread}
    (h : (writeSelectedBatch threads).overflowed = false) :
    (writeSelectedBatch threads).buffer = selectedBatchBytes threads := by
  have hwrites := ((writes_ifCanWrite (writes_writeByte kSelectedThreadsStartBatch) 1).comp
    (Writes.foldl writes_writeSelectedSample (framedThreads threads))).comp
      (writes_ifCanWrite (writes_writeByte kSelectedThreadsEndBatch) 1)
  exact (hwrites.written ThreadSamplesBuffer.empty h).2.1

/-! ### What is received -/

/-- The samples of an allocation; there is none for the sampler's own thread. -/
def receivedAllocation (tick : AllocationTick) : List AllocationSample :=
  if transmitted tick.threadName = backgroundThreadName then []
  else [{ allocationSizeBytes := tick.allocatedSize
          typeName := transmitted tick.typeName
          threadSample := {
            timestampNanoseconds := tick.ms * 1000000
            traceIdHigh := tick.spanContext.traceIdHigh
            traceIdLow := tick.spanContext.traceIdLow
            spanId := tick.spanContext.spanId
            threadName := transmitted tick.threadName
            source := "allocation"
            threadIndex := 0
            selectedForFrequentSampling := false
            frames := (nameFrames [] tick.frames).1 } }]

/-- The sample of a selected thread, the `index`th of the buffer. -/
def receivedSelected (index : ℕ) (thread : SelectedThread) (frames : List (List WChar)) :
    ThreadSample where
  timestampNanoseconds := thread.ms * 1000000
  traceIdHigh := thread.spanContext.traceIdHigh
  traceIdLow := thread.spanContext.traceIdLow
  spanId := thread.spanContext.spanId
  threadName := transmitted thread.threadName
  source := "selective-sampler"
  threadIndex := .ofNat 32 index
  selectedForFrequentSampling := true
  frames := frames

/-- The samples of the threads of a batch, given the names recorded before. -/
def receivedThreads : List NamedFrame → ℕ → List SelectedThread → List ThreadSample
  | _, _, [] => []
  | names, index, thread :: threads =>
      receivedSelected index thread (nameFrames names thread.frames).1
        :: receivedThreads (nameFrames names thread.frames).2 (index + 1) threads

/-- The samples of the batches of a buffer. -/
def receivedBatches : ℕ → List (List SelectedThread) → List ThreadSample
  | _, [] => []
  | index, threads :: batches =>
      receivedThreads [] index (framedThreads threads)
        ++ receivedBatches (index + (framedThreads threads).length) batches

/-! ### Round trips -/

/-- A stack, with its first code, at the end of a record. -/
theorem readStack_reads {names : List NamedFrame} {codes : CodeTable}
    {dictionary : CodeDictionary} (h : InStep names codes dictionary) (frames : List NamedFrame) :
    ∃ dictionary', InStep (nameFrames names frames).2 (codesAfterFrames frames codes) dictionary'
      ∧ ∀ (sample : ThreadSample) {γ : Type} {k : ThreadSample × CodeDictionary → Cursor Byte γ}
        {c : γ},
        Reads (k ({ sample with frames := sample.frames ++ (nameFrames names frames).1 },
          dictionary')) [] c →
        Reads (readShort >>= fun code => readStackFrames code sample dictionary >>= k)
          (stackBytes frames codes) c := by
  cases frames with
  | nil =>
      refine ⟨dictionary, h, fun sample γ k c hk => ?_⟩
      have hbytes : stackBytes [] codes = shortBytes 0 ++ [] := (List.append_nil _).symm
      rw [hbytes]
      refine (readShort_reads 0).bind ?_
      have hsample : ({ sample with frames := sample.frames ++ [] } : ThreadSample) = sample := by
        rw [List.append_nil]
      rw [← hsample]
      exact hk
  | cons frame frames =>
      obtain ⟨dictionary', hstep, hread⟩ := readStackFrames_reads h frame frames
      refine ⟨dictionary', hstep, fun sample γ k c hk => ?_⟩
      rw [stackBytes_cons]
      refine (readShort_reads _).bind ?_
      rw [← List.append_nil (framePayload codes frame ++ _)]
      exact (hread sample).bind hk

theorem allocation_passes (tick : AllocationTick) (allocationSamples : List AllocationSample) :
    Passes parseAllocation allocationSamples (allocationBytes tick)
      (allocationSamples ++ receivedAllocation tick) := by
  refine Reads.passes ?_ (Nat.succ_pos _)
  have hbytes : allocationBytes tick = [kAllocationSample] ++ (uint64Bytes tick.ms
      ++ (uint64Bytes tick.allocatedSize ++ (stringBytes tick.typeName
      ++ (stringBytes tick.threadName ++ (uint64Bytes tick.spanContext.traceIdHigh
      ++ (uint64Bytes tick.spanContext.traceIdLow ++ (uint64Bytes tick.spanContext.spanId
      ++ stackBytes tick.frames []))))))) := by
    simp only [allocationBytes, allocationHeadBytes, spanContextBytes, List.append_assoc,
      List.cons_append, List.nil_append]
  obtain ⟨dictionary, -, hstack⟩ := readStack_reads (inStep_nil fun _ => none) tick.frames
  rw [hbytes]
  refine (reads_next kAllocationSample).bind ?_
  rw [if_pos (show kAllocationSample = 0x08 from rfl)]
  refine (readInt64_reads _).bind ?_
  refine (readInt64_reads _).bind ?_
  refine (readString_reads _).bind ?_
  refine (readString_reads _).bind ?_
  refine (readInt64_reads _).bind ?_
  refine (readInt64_reads _).bind ?_
  refine (readInt64_reads _).bind ?_
  refine hstack _ ?_
  dsimp only
  rw [receivedAllocation]
  by_cases hname : transmitted tick.threadName = backgroundThreadName
  · rw [if_pos hname, if_pos hname, List.append_nil]
    exact reads_pure _
  · rw [if_neg hname, if_neg hname]
    exact reads_pure _

/-- The allocations of a buffer. -/
theorem allocations_pass (ticks : List AllocationTick) (allocationSamples : List AllocationSample) :
    Passes parseAllocation allocationSamples (ticks.flatMap allocationBytes)
      (allocationSamples ++ ticks.flatMap receivedAllocation) := by
  induction ticks generalizing allocationSamples with
  | nil =>
      rw [List.flatMap_nil, List.flatMap_nil, List.append_nil]
      exact passes_nil _ _
  | cons tick ticks ih =>
      rw [List.flatMap_cons, List.flatMap_cons, ← List.append_assoc]
      exact (allocation_passes tick allocationSamples).append (ih _)

/-- **The parser of allocations** reads every allocation of a buffer, in order. -/
theorem parseAllocationSamples_appended (ticks : List AllocationTick) (unused : List Byte) :
    parseAllocationSamples (ticks.flatMap allocationBytes ++ unused)
        (ticks.flatMap allocationBytes).length
      = ticks.flatMap receivedAllocation :=
  (allocations_pass ticks []).readRecords unused

/-- The parser's state behind a thread of a batch. -/
structure SelectiveAfter (samples : List ThreadSample) (names : List NamedFrame)
    (codes : CodeTable) (index : ℕ) (st : SelectiveState) : Prop where
  inStep : InStep names codes st.codeDictionary
  index : st.threadIndex = .ofNat 32 index
  samples : st.selectiveSamplerSamples = samples

theorem selectedSample_passes {samples : List ThreadSample} {names : List NamedFrame}
    {codes : CodeTable} {index : ℕ} {st : SelectiveState}
    (h : SelectiveAfter samples names codes index st) (thread : SelectedThread) :
    ∃ st', SelectiveAfter
        (samples ++ [receivedSelected index thread (nameFrames names thread.frames).1])
        (nameFrames names thread.frames).2 (codesAfterFrames thread.frames codes) (index + 1) st'
      ∧ Passes parseSelective st (selectedSampleBytes thread codes) st' := by
  have hindex : BitVec.ofNat 32 index + 1 = BitVec.ofNat 32 (index + 1) :=
    (BitVec.ofNat_add ..).symm
  have hbytes : selectedSampleBytes thread codes = [kSelectedThreadSample]
      ++ (uint64Bytes thread.ms ++ (stringBytes thread.threadName
      ++ (uint64Bytes thread.spanContext.traceIdHigh
      ++ (uint64Bytes thread.spanContext.traceIdLow ++ (uint64Bytes thread.spanContext.spanId
      ++ stackBytes thread.frames codes))))) := by
    simp only [selectedSampleBytes, selectedHeadBytes, spanContextBytes, List.append_assoc,
      List.cons_append, List.nil_append]
  obtain ⟨dictionary', hstep, hstack⟩ := readStack_reads h.inStep thread.frames
  refine ⟨⟨.ofNat 32 (index + 1), dictionary', _⟩, ⟨hstep, rfl, rfl⟩,
    Reads.passes ?_ (Nat.succ_pos _)⟩
  rw [hbytes]
  refine (reads_next kSelectedThreadSample).bind ?_
  rw [if_neg (by decide), if_pos (show kSelectedThreadSample = 0x09 from rfl)]
  refine (readInt64_reads _).bind ?_
  refine (readString_reads _).bind ?_
  refine (readInt64_reads _).bind ?_
  refine (readInt64_reads _).bind ?_
  refine (readInt64_reads _).bind ?_
  refine hstack _ ?_
  dsimp only
  rw [h.index, h.samples, hindex]
  exact reads_pure _

theorem selectedThreads_pass (threads : List SelectedThread) {samples : List ThreadSample}
    {names : List NamedFrame} {codes : CodeTable} {index : ℕ} {st : SelectiveState}
    (h : SelectiveAfter samples names codes index st) :
    ∃ st' names' codes', SelectiveAfter (samples ++ receivedThreads names index threads) names'
        codes' (index + threads.length) st'
      ∧ Passes parseSelective st (selectedThreadsBytes threads codes) st' := by
  induction threads generalizing samples names codes index st with
  | nil =>
      refine ⟨st, names, codes, ?_, passes_nil _ _⟩
      rw [receivedThreads, List.append_nil]
      exact h
  | cons thread threads ih =>
      obtain ⟨st₁, h₁, hpasses₁⟩ := selectedSample_passes h thread
      obtain ⟨st₂, names₂, codes₂, h₂, hpasses₂⟩ := ih h₁
      refine ⟨st₂, names₂, codes₂, ?_, hpasses₁.append hpasses₂⟩
      rw [List.append_assoc, Nat.add_assoc, Nat.add_comm 1] at h₂
      exact h₂

/-- A batch forgets the codes of the ones before it. -/
theorem selectedBatch_passes (threads : List SelectedThread) {samples : List ThreadSample}
    {index : ℕ} {st : SelectiveState} (hindex : st.threadIndex = .ofNat 32 index)
    (hsamples : st.selectiveSamplerSamples = samples) :
    ∃ st', st'.threadIndex = .ofNat 32 (index + (framedThreads threads).length)
      ∧ st'.selectiveSamplerSamples
        = samples ++ receivedThreads [] index (framedThreads threads)
      ∧ Passes parseSelective st (selectedBatchBytes threads) st' := by
  have hstart : Passes parseSelective st [kSelectedThreadsStartBatch]
      { st with codeDictionary := fun _ => none } :=
    Reads.passes (fun _ => rfl) (Nat.succ_pos _)
  obtain ⟨st', names, codes, h, hthreads⟩ := selectedThreads_pass (framedThreads threads)
    (⟨inStep_nil _, hindex, hsamples⟩ : SelectiveAfter samples [] [] index
      { st with codeDictionary := fun _ => none })
  have hend : Passes parseSelective st' [kSelectedThreadsEndBatch] st' :=
    Reads.passes (fun _ => rfl) (Nat.succ_pos _)
  exact ⟨st', h.index, h.samples, (hstart.append hthreads).append hend⟩

theorem selectedBatches_pass (batches : List (List SelectedThread)) {samples : List ThreadSample}
    {index : ℕ} {st : SelectiveState} (hindex : st.threadIndex = .ofNat 32 index)
    (hsamples : st.selectiveSamplerSamples = samples) :
    ∃ st', st'.selectiveSamplerSamples = samples ++ receivedBatches index batches
      ∧ Passes parseSelective st (batches.flatMap selectedBatchBytes) st' := by
  induction batches generalizing samples index st with
  | nil =>
      refine ⟨st, ?_, passes_nil _ _⟩
      rw [receivedBatches, List.append_nil]
      exact hsamples
  | cons threads batches ih =>
      obtain ⟨st₁, hindex₁, hsamples₁, hpasses₁⟩ := selectedBatch_passes threads hindex hsamples
      obtain ⟨st₂, hsamples₂, hpasses₂⟩ := ih hindex₁ hsamples₁
      refine ⟨st₂, ?_, ?_⟩
      · rw [hsamples₂, List.append_assoc]
        rfl
      · rw [List.flatMap_cons]
        exact hpasses₁.append hpasses₂

/-- **The parser of selected threads** reads every batch of a buffer, in order, and counts the
threads across the batches. -/
theorem parseSelectiveSamplerSamples_appended (batches : List (List SelectedThread))
    (unused : List Byte) :
    parseSelectiveSamplerSamples (batches.flatMap selectedBatchBytes ++ unused)
        (batches.flatMap selectedBatchBytes).length
      = receivedBatches 0 batches := by
  obtain ⟨st', hsamples, hpasses⟩ := selectedBatches_pass batches
    (show (⟨0, fun _ => none, []⟩ : SelectiveState).threadIndex = .ofNat 32 0 from rfl) rfl
  rw [parseSelectiveSamplerSamples, hpasses.readRecords unused, hsamples]
  rfl

end AutoInstrumentation.ThreadSamples
