import AutoInstrumentation.Lib.Fifo
import AutoInstrumentation.SampleQueues
import AutoInstrumentation.ThreadSamples.Encoding
import Mathlib.Data.List.Chain

/-!
# AutoInstrumentation.SampleQueuesSound

Every queue of samples refines a `Fifo` of batches: publishing pushes the batch or
drops it, and a read with a full-size buffer delivers some of the oldest batches as a
whole. What was published and consumed over a run is read off the history of the `Fifo`.

A batch is dropped only when its queue is saturated, and no queue is saturated right
after it has been read. For the allocation queue, which counts as full one byte before
its capacity, the latter rests on the format: a sample has an odd number of bytes, so
that no single sample is as long as the maximum.
-/

namespace AutoInstrumentation.SampleQueues

open Lib ThreadSamples

/-! ### The sizes of the batches -/

theorem length_stringBytes (str : List WChar) :
    (stringBytes str).length = 2 + 2 * min kMaxStringLength str.length := by
  rw [stringBytes, List.length_append, ThreadSamplesBuffer.length_memoryBytes, List.length_take,
    Nat.mul_comm]
  rfl

/-- A frame takes an even number of bytes. -/
theorem even_frameBytes (frame : NamedFrame) (codes : CodeTable) :
    (frameBytes frame codes).length % 2 = 0 := by
  have hcode : (shortBytes (frameCode codes frame.1)).length = 2 := rfl
  rw [frameBytes, framePayload, List.length_append, hcode]
  cases codes.lookup frame.1 with
  | some code => simp
  | none =>
      have hname := length_stringBytes frame.2
      show (2 + (stringBytes frame.2).length) % 2 = 0
      omega

theorem even_encodeFrames (frames : List NamedFrame) (codes : CodeTable) :
    (encodeList frameBytes codesAfterFrame frames codes).length % 2 = 0 := by
  induction frames generalizing codes with
  | nil => rfl
  | cons frame frames ih =>
      have hframe := even_frameBytes frame codes
      have hrest := ih (codesAfterFrame frame codes)
      rw [encodeList, List.length_append]
      omega

/-- An allocation sample takes an odd number of bytes. -/
theorem odd_allocationBytes (tick : AllocationTick) : (allocationBytes tick).length % 2 = 1 := by
  have hname := length_stringBytes tick.threadName
  have htype := length_stringBytes tick.typeName
  have hframes := even_encodeFrames tick.frames []
  have h64 : ∀ val, (uint64Bytes val).length = 8 := fun _ => rfl
  have hend : (shortBytes 0).length = 2 := rfl
  simp only [allocationBytes, allocationHeadBytes, stackBytes, spanContextBytes,
    List.length_append, List.length_cons, h64, hend]
  omega

/-- Every batch fits into the readers' buffers. -/
theorem length_batch_le (sample : Sample) : sample.batch.buffer.length ≤ bufferSize := by
  cases sample with
  | continuous enabled ms threads stats interval =>
      exact (writeBatch_spec enabled ms threads stats).1
  | selectedThreads threads => exact writeSelectedBatch_spec threads
  | allocation tick => exact (writeAllocation_spec tick).1

/-- An allocation sample that is published stays below the maximum. -/
theorem length_allocation_lt {tick : AllocationTick}
    (h : (writeAllocation tick).overflowed = false) :
    (writeAllocation tick).buffer.length < kSamplesBufferMaximumSize := by
  obtain ⟨hle, hbytes⟩ := writeAllocation_spec tick
  have hodd := odd_allocationBytes tick
  rw [← hbytes h] at hodd
  have hmax : kSamplesBufferMaximumSize % 2 = 0 := rfl
  omega

/-! ### What a queue holds -/

/-- The bytes of some batches, one after the other. -/
def bytesOf (batches : List ThreadSampleBatch) : List Byte :=
  (batches.map ThreadSampleBatch.buffer).flatten

@[simp] theorem bytesOf_nil : bytesOf [] = [] := rfl

@[simp] theorem bytesOf_append (l m : List ThreadSampleBatch) :
    bytesOf (l ++ m) = bytesOf l ++ bytesOf m := by
  simp only [bytesOf, List.map_append, List.flatten_append]

@[simp] theorem bytesOf_singleton (b : ThreadSampleBatch) : bytesOf [b] = b.buffer := by
  simp only [bytesOf, List.map_cons, List.map_nil, List.flatten_cons, List.flatten_nil,
    List.append_nil]

/-- The queue holds exactly the batches `l`, oldest first, and nothing in it is too
large for a reader. -/
def Holds (q : Queues) : SampleType → List ThreadSampleBatch → Prop
  | .continuous, l =>
      l = q.cpuBufferA.toList ++ q.cpuBufferB.toList ∧
        (q.cpuBufferB.isSome → q.cpuBufferA.isSome) ∧ ∀ b ∈ l, b.buffer.length ≤ bufferSize
  | .selectedThreads, l =>
      q.selectiveSamplingBuffer = bytesOf l ∧
        q.selectiveSamplingBuffer.length ≤ kSamplesBufferMaximumSize
  | .allocation, l =>
      q.allocationBuffer = bytesOf l ∧ q.allocationBuffer.length < kSamplesBufferMaximumSize

/-- What a call hands out for the batches `l`: their bytes as a whole, and for a batch
of thread samples the sampling interval it was captured with. -/
structure Delivers (t : SampleType) (l : List ThreadSampleBatch) (data : List Byte × BitVec 32) :
    Prop where
  bytes : data.1 = bytesOf l
  interval : data.2 = (match t, l with
    | .continuous, [b] => b.samplingInterval
    | _, _ => 0)
  single : t = .continuous → l.length ≤ 1

/-! ### Publishing -/

/-- A publication leaves the other queues alone. -/
theorem holds_record_other {sample : Sample} {q : Queues} {t : SampleType}
    {l : List ThreadSampleBatch} (ht : t ≠ sample.sampleType) (h : Holds q t l) :
    Holds (record sample q).1 t l := by
  cases sample <;> cases t <;>
    first
    | exact absurd rfl ht
    | (simp only [record, Sample.sampleType, threadSamplingRecordProducedThreadSample,
        selectiveSamplingRecordProducedThreadSample, allocationSamplingAppendToBuffer]
       split_ifs <;> exact h)

theorem threadSamplingRecord_spec {buf : List Byte} {interval : BitVec 32} {q : Queues}
    {l : List ThreadSampleBatch} (h : Holds q .continuous l) (hbuf : buf.length ≤ bufferSize) :
    let r := threadSamplingRecordProducedThreadSample buf interval q
    Holds r.1 .continuous (if r.2 then l ++ [⟨buf, interval⟩] else l) ∧
      (r.2 = false → threadSamplingShouldProduceThreadSample q = false) := by
  obtain ⟨rfl, horder, hsize⟩ := h
  cases ha : q.cpuBufferA with
  | none =>
      have hb : q.cpuBufferB = none := by
        cases hb : q.cpuBufferB with
        | none => rfl
        | some b => simp [ha, hb] at horder
      simp [threadSamplingRecordProducedThreadSample, Holds, ha, hb, hbuf]
  | some a =>
      rw [ha] at hsize
      cases hb : q.cpuBufferB with
      | none =>
          rw [hb] at hsize
          have ha' : a.buffer.length ≤ bufferSize := hsize a (by simp)
          simp [threadSamplingRecordProducedThreadSample, Holds, ha, hb, hbuf, ha']
      | some b =>
          rw [hb] at hsize
          have ha' : a.buffer.length ≤ bufferSize := hsize a (by simp)
          have hb' : b.buffer.length ≤ bufferSize := hsize b (by simp)
          simp [threadSamplingRecordProducedThreadSample, threadSamplingShouldProduceThreadSample,
            Holds, ha, hb, ha', hb']

theorem selectiveSamplingRecord_spec {buf : List Byte} {q : Queues} {l : List ThreadSampleBatch}
    {interval : BitVec 32} (h : Holds q .selectedThreads l) :
    let r := selectiveSamplingRecordProducedThreadSample buf q
    Holds r.1 .selectedThreads (if r.2 then l ++ [⟨buf, interval⟩] else l) ∧
      (r.2 = false → q.selectiveSamplingBufferSaturated = true ∨
        selectiveSamplingOverflows q buf.length = true) := by
  obtain ⟨hbytes, hsize⟩ := h
  rw [selectiveSamplingRecordProducedThreadSample]
  split_ifs with hempty hflag hfull
  · obtain rfl := List.isEmpty_iff.mp hempty
    exact ⟨⟨by simp [hbytes], hsize⟩, fun hstored => nomatch hstored⟩
  · exact ⟨⟨hbytes, hsize⟩, fun _ => .inl hflag⟩
  · exact ⟨⟨hbytes, hsize⟩, fun _ => .inr hfull⟩
  · refine ⟨⟨by simp [hbytes], ?_⟩, fun hstored => nomatch hstored⟩
    simp only [selectiveSamplingOverflows, Bool.or_eq_true, decide_eq_true_eq, not_or] at hfull
    simp only [List.length_append]
    omega

theorem allocationSamplingAppend_spec {buf : List Byte} {q : Queues} {l : List ThreadSampleBatch}
    {interval : BitVec 32} (h : Holds q .allocation l) :
    let r := allocationSamplingAppendToBuffer buf q
    Holds r.1 .allocation (if r.2 then l ++ [⟨buf, interval⟩] else l) ∧
      (r.2 = false → allocationBufferIsFull q buf.length = true) := by
  obtain ⟨hbytes, hsize⟩ := h
  rw [allocationSamplingAppendToBuffer]
  split_ifs with hempty hfull
  · obtain rfl := List.isEmpty_iff.mp hempty
    exact ⟨⟨by simp [hbytes], hsize⟩, fun hstored => nomatch hstored⟩
  · exact ⟨⟨hbytes, hsize⟩, fun _ => hfull⟩
  · refine ⟨⟨by simp [hbytes], ?_⟩, fun hstored => nomatch hstored⟩
    simp only [allocationBufferIsFull, decide_eq_true_eq, not_le] at hfull
    simpa only [List.length_append] using hfull

/-- **Publishing.** The queue of the sample takes the batch at its back, or stays as it
is, which happens only when it is saturated. -/
theorem record_spec {sample : Sample} {q : Queues} {l : List ThreadSampleBatch}
    (h : Holds q sample.sampleType l) :
    Holds (record sample q).1 sample.sampleType
        (if (record sample q).2 then l ++ [sample.batch] else l) ∧
      ((record sample q).2 = false → saturated sample q = true) := by
  have hsize := length_batch_le sample
  cases sample with
  | continuous enabled ms threads stats interval =>
      obtain ⟨hholds, hfull⟩ := threadSamplingRecord_spec h hsize
      exact ⟨hholds, fun hstored => by simp [saturated, Sample.sampleType, hfull hstored]⟩
  | selectedThreads threads =>
      obtain ⟨hholds, hfull⟩ := selectiveSamplingRecord_spec h
      refine ⟨hholds, fun hstored => ?_⟩
      simpa [saturated, Sample.sampleType, selectiveSamplingShouldProduceThreadSample]
        using hfull hstored
  | allocation tick =>
      obtain ⟨hholds, hfull⟩ := allocationSamplingAppend_spec h
      exact ⟨hholds, hfull⟩

/-! ### Consuming -/

/-- A read leaves the other queues alone. -/
theorem holds_readBuffer_other {t u : SampleType} {len : ℤ} {q : Queues}
    {l : List ThreadSampleBatch} (hu : u ≠ t) (h : Holds q u l) :
    Holds (readBuffer t len q).2 u l := by
  cases t <;> cases u <;>
    first
    | exact absurd rfl hu
    | (simp only [readBuffer, threadSamplingConsumeOneThreadSample,
        selectiveSamplingConsumeAndClearBuffer, allocationSamplingConsumeAndReplaceBuffer]
       split_ifs <;> first | exact h | (split <;> first | exact h | (split_ifs <;> exact h)))

theorem threadSamplingConsume_spec {len : ℤ} {q : Queues} {l : List ThreadSampleBatch}
    (hlen : (bufferSize : ℤ) ≤ len) (h : Holds q .continuous l) :
    let r := threadSamplingConsumeOneThreadSample len true q
    Holds r.2 .continuous (l.drop 1) ∧ Delivers .continuous (l.take 1) r.1 := by
  obtain ⟨rfl, horder, hsize⟩ := h
  have hpos : ¬ len ≤ 0 := by
    have : (0 : ℤ) < bufferSize := by decide
    omega
  cases ha : q.cpuBufferA with
  | none =>
      have hb : q.cpuBufferB = none := by
        cases hb : q.cpuBufferB with
        | none => rfl
        | some b => simp [ha, hb] at horder
      simp only [threadSamplingConsumeOneThreadSample, hpos, decide_false, Bool.not_true,
        Bool.or_self, Bool.false_eq_true, if_false, ha, hb]
      exact ⟨⟨by simp [ha, hb], by simp [hb], by simp⟩, ⟨rfl, rfl, fun _ => by simp⟩⟩
  | some a =>
      have hfits : ¬ (a.buffer.length : ℤ) > len := by
        have ha' : a.buffer.length ≤ bufferSize := hsize a (by simp [ha])
        omega
      simp only [threadSamplingConsumeOneThreadSample, hpos, decide_false, Bool.not_true,
        Bool.or_self, Bool.false_eq_true, if_false, ha, hfits]
      refine ⟨⟨by simp, by simp, fun b hb => hsize b ?_⟩, ⟨by simp, rfl, fun _ => by simp⟩⟩
      simpa [ha] using Or.inr hb

theorem selectiveSamplingConsume_spec {len : ℤ} {q : Queues} {l : List ThreadSampleBatch}
    (hlen : (bufferSize : ℤ) ≤ len) (h : Holds q .selectedThreads l) :
    let r := selectiveSamplingConsumeAndClearBuffer len true q
    Holds r.2 .selectedThreads (l.drop l.length) ∧
      Delivers .selectedThreads (l.take l.length) (r.1, 0) := by
  obtain ⟨hbytes, hsize⟩ := h
  have hpos : ¬ len ≤ 0 := by
    have : (0 : ℤ) < bufferSize := by decide
    omega
  have hall : q.selectiveSamplingBuffer.length ≤ len.toNat := by
    have : kSamplesBufferMaximumSize = bufferSize := rfl
    omega
  simp only [selectiveSamplingConsumeAndClearBuffer, hpos, decide_false, Bool.not_true,
    Bool.or_self, Bool.false_eq_true, if_false, List.take_of_length_le hall]
  exact ⟨⟨by simp, Nat.zero_le _⟩, ⟨by simp [hbytes], rfl, fun ht => nomatch ht⟩⟩

theorem allocationSamplingConsume_spec {len : ℤ} {q : Queues} {l : List ThreadSampleBatch}
    (hlen : (bufferSize : ℤ) ≤ len) (h : Holds q .allocation l) :
    let r := allocationSamplingConsumeAndReplaceBuffer len true q
    Holds r.2 .allocation (l.drop l.length) ∧
      Delivers .allocation (l.take l.length) (r.1, 0) := by
  obtain ⟨hbytes, hsize⟩ := h
  have hpos : ¬ len ≤ 0 := by
    have : (0 : ℤ) < bufferSize := by decide
    omega
  have hall : q.allocationBuffer.length ≤ len.toNat := by
    have : kSamplesBufferMaximumSize = bufferSize := rfl
    omega
  simp only [allocationSamplingConsumeAndReplaceBuffer, hpos, decide_false, Bool.not_true,
    Bool.or_self, Bool.false_eq_true, if_false, List.take_of_length_le hall]
  exact ⟨⟨by simp, Nat.zero_lt_succ _⟩, ⟨by simp [hbytes], rfl, fun ht => nomatch ht⟩⟩

/-- **Consuming.** A read with a full-size buffer hands out some of the oldest batches
as a whole and leaves the others. -/
theorem readBuffer_spec {t : SampleType} {len : ℤ} {q : Queues} {l : List ThreadSampleBatch}
    (hlen : (bufferSize : ℤ) ≤ len) (h : Holds q t l) :
    ∃ n, Holds (readBuffer t len q).2 t (l.drop n) ∧
      Delivers t (l.take n) (readBuffer t len q).1 := by
  cases t with
  | continuous => exact ⟨1, threadSamplingConsume_spec hlen h⟩
  | selectedThreads => exact ⟨l.length, selectiveSamplingConsume_spec hlen h⟩
  | allocation => exact ⟨l.length, allocationSamplingConsume_spec hlen h⟩

/-- **Reading ends the saturation.** No batch of the queue's kind is refused right
after a read. -/
theorem not_saturated_readBuffer {sample : Sample} {len : ℤ} {q : Queues}
    {l : List ThreadSampleBatch} (hlen : (bufferSize : ℤ) ≤ len)
    (h : Holds q sample.sampleType l) (hwriter : sample.writer.overflowed = false) :
    saturated sample (readBuffer sample.sampleType len q).2 = false := by
  have hpos : ¬ len ≤ 0 := by
    have : (0 : ℤ) < bufferSize := by decide
    omega
  cases sample with
  | continuous enabled ms threads stats interval =>
      -- whatever the second slot held is in the first one now
      cases ha : q.cpuBufferA with
      | none =>
          simp [saturated, Sample.sampleType, readBuffer, threadSamplingConsumeOneThreadSample,
            threadSamplingShouldProduceThreadSample, hpos, ha]
      | some a =>
          simp only [saturated, Sample.sampleType, readBuffer,
            threadSamplingConsumeOneThreadSample, threadSamplingShouldProduceThreadSample, hpos, ha,
            decide_false, Bool.not_true, Bool.or_self, Bool.false_eq_true, if_false]
          split_ifs <;> simp
  | selectedThreads threads =>
      have hsize := length_batch_le (.selectedThreads threads)
      have hmax : kSamplesBufferMaximumSize = bufferSize := rfl
      simp only [saturated, Sample.sampleType, readBuffer, selectiveSamplingConsumeAndClearBuffer,
        selectiveSamplingShouldProduceThreadSample, selectiveSamplingOverflows, hpos]
      simp [hmax, hsize]
  | allocation tick =>
      have hsize := length_allocation_lt hwriter
      simp only [saturated, Sample.sampleType, readBuffer,
        allocationSamplingConsumeAndReplaceBuffer, allocationBufferIsFull, hpos]
      simpa [Sample.batch, Sample.writer] using hsize

/-! ### Runs -/

/-- The batches a queue has stored, oldest first. -/
def stored (publications : List Publication) : List ThreadSampleBatch :=
  (publications.filter Publication.stored).map Publication.batch

/-- One queue of a state, with its history, refines the queue of batches `f`. -/
structure Refines (s : State) (t : SampleType) (f : Fifo ThreadSampleBatch) : Prop where
  holds : Holds s.queues t f.pending
  accepted : f.accepted = stored (s.published t)
  delivered : List.Forall₂ (Delivers t) f.delivered (s.consumed t)
  dropped : ∀ p ∈ s.published t, p.stored = false → p.saturated = true

def Inv (s : State) : Prop := ∀ t, ∃ f, Refines s t f

theorem inv_initial : Inv .initial := by
  intro t
  refine ⟨.empty, ?_, rfl, .nil, by simp [State.initial]⟩
  cases t with
  | continuous => exact ⟨rfl, by simp [State.initial, Queues.empty], by simp [Fifo.empty]⟩
  | selectedThreads => exact ⟨rfl, Nat.zero_le _⟩
  | allocation => exact ⟨rfl, by decide⟩

theorem logAt_same {α : Type} (log : SampleType → List α) (t : SampleType) (a : α) :
    logAt log t a t = log t ++ [a] :=
  Function.update_self ..

theorem logAt_other {α : Type} (log : SampleType → List α) {t u : SampleType} (h : u ≠ t) (a : α) :
    logAt log t a u = log u :=
  Function.update_of_ne h ..

/-- A publication pushes the batch, or drops it and changes nothing. -/
theorem Inv.publish {s : State} (hI : Inv s) (admitted : Bool) (sample : Sample) :
    Inv (step s (.publish admitted sample)) := by
  rw [step]
  split_ifs with hdiscard
  · exact hI
  intro t
  obtain ⟨f, hf⟩ := hI t
  by_cases ht : t = sample.sampleType
  · subst ht
    obtain ⟨hholds, hfull⟩ := record_spec hf.holds
    refine ⟨if (record sample s.queues).2 then f.push sample.batch else f, ?_, ?_, ?_, ?_⟩
    · cases hstored : (record sample s.queues).2 <;> simpa [hstored] using hholds
    · cases hstored : (record sample s.queues).2 <;>
        simp [hstored, logAt_same, stored, hf.accepted]
    · cases hstored : (record sample s.queues).2 <;> simpa using hf.delivered
    · intro p hp
      simp only [logAt_same, List.mem_append, List.mem_singleton] at hp
      rcases hp with hp | rfl
      · exact hf.dropped p hp
      · exact hfull
  · refine ⟨f, holds_record_other ht hf.holds, ?_, hf.delivered, ?_⟩
    · simpa [logAt_other _ ht] using hf.accepted
    · simpa [logAt_other _ ht] using hf.dropped

/-- A read delivers the oldest batches. -/
theorem Inv.read {s : State} (hI : Inv s) (u : SampleType) {len : ℤ}
    (hlen : (bufferSize : ℤ) ≤ len) : Inv (step s (.read u len)) := by
  rw [step]
  intro t
  obtain ⟨f, hf⟩ := hI t
  by_cases ht : t = u
  · subst ht
    obtain ⟨n, hholds, hdata⟩ := readBuffer_spec hlen hf.holds
    refine ⟨f.deliver n, hholds, hf.accepted, ?_, hf.dropped⟩
    simp only [logAt_same, Fifo.deliver_delivered]
    exact List.rel_append hf.delivered (.cons hdata .nil)
  · refine ⟨f, holds_readBuffer_other ht hf.holds, hf.accepted, ?_, hf.dropped⟩
    simpa [logAt_other _ ht] using hf.delivered

theorem inductive_inv : System.Inductive sampleQueues Inv where
  init := by
    rintro s rfl
    exact inv_initial
  step := by
    rintro s a t hI ⟨hvalid, rfl⟩
    cases a with
    | publish admitted sample => exact hI.publish admitted sample
    | read u len => exact hI.read u hvalid

/-- **The sample queues.** In every reachable state of every interleaving of publishing
threads and readers with full-size buffers:
* for each queue, the calls were handed out groups of batches as a whole, and the
  groups, in order, are the oldest ones of the batches that the queue has stored, in
  the order of their publication; so no batch is delivered twice or split;
* the second slot for thread samples is full only if the first one is;
* a batch was dropped only when its queue was saturated at the publication;
* after a read no batch of that kind finds its queue saturated. -/
theorem sampleQueues_sound {s : State} (h : sampleQueues.Reachable s) :
    (∀ t, ∃ groups : List (List ThreadSampleBatch),
      List.Forall₂ (Delivers t) groups (s.consumed t) ∧
        groups.flatten <+: stored (s.published t)) ∧
    (s.queues.cpuBufferB.isSome → s.queues.cpuBufferA.isSome) ∧
    (∀ t, ∀ p ∈ s.published t, p.stored = false → p.saturated = true) ∧
    (∀ t len s', sampleQueues.step s (.read t len) s' →
      ∀ sample : Sample, sample.sampleType = t → sample.writer.overflowed = false →
        saturated sample s'.queues = false) := by
  have hI : Inv s := inductive_inv.reachable h
  refine ⟨fun t => ?_, ?_, fun t => ?_, ?_⟩
  · obtain ⟨f, hf⟩ := hI t
    refine ⟨f.delivered, hf.delivered, ?_⟩
    rw [← hf.accepted, ← f.balanced]
    exact List.prefix_append _ _
  · obtain ⟨f, hf⟩ := hI .continuous
    exact hf.holds.2.1
  · obtain ⟨f, hf⟩ := hI t
    exact hf.dropped
  · rintro t len s' ⟨hlen, rfl⟩ sample rfl hwriter
    obtain ⟨f, hf⟩ := hI sample.sampleType
    exact not_saturated_readBuffer hlen hf.holds hwriter

/-- One sample of selected threads is published and read. -/
theorem sampleQueues_sound_one_batch :
    ∃ s : State, ∃ data, s.consumed .selectedThreads = [(data, 0)] ∧ data = [0x0A, 0x0B] ∧
      (∃ groups : List (List ThreadSampleBatch),
        List.Forall₂ (Delivers .selectedThreads) groups (s.consumed .selectedThreads) ∧
          groups.flatten <+: stored (s.published .selectedThreads)) ∧
      ∀ sample : Sample, sample.sampleType = .selectedThreads → sample.writer.overflowed = false →
        saturated sample (step s (.read .selectedThreads bufferSize)).queues = false := by
  let acts : List Act := [.publish true (.selectedThreads []), .read .selectedThreads bufferSize]
  let s : State := acts.foldl step .initial
  have hrun : sampleQueues.Reachable s :=
    ⟨_, acts, rfl, .cons ⟨trivial, rfl⟩ (.cons ⟨Int.le_refl _, rfl⟩ (.nil _))⟩
  obtain ⟨hwhole, -, -, hread⟩ := sampleQueues_sound hrun
  exact ⟨s, [0x0A, 0x0B], by decide, rfl, hwhole .selectedThreads,
    hread .selectedThreads bufferSize _ ⟨Int.le_refl _, rfl⟩⟩

end AutoInstrumentation.SampleQueues
