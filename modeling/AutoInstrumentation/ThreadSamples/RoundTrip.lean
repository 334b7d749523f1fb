import AutoInstrumentation.ThreadSamples.Encoding
import AutoInstrumentation.ThreadSamples.Parser

/-!
# AutoInstrumentation.ThreadSamples.RoundTrip

What the parser makes of a batch that the buffer wrote.

The meaning of a batch is told without bytes and codes: `nameFrame` resolves a frame
against the names of the functions recorded so far, and `receivedSamples` is the list
of samples. The two stateful tables, the writer's codes and the parser's dictionary,
are kept in step with the names by `InStep`. Every record is read back exactly
(`reads_*`), and `parseThreadSamples_writeBatch` puts the batch together.
-/

namespace AutoInstrumentation.ThreadSamples

open Lib Lib.Cursor

/-! ### The meaning of a batch -/

/-- A string as it arrives: cut at the maximum length, and decoded. -/
def transmitted (str : List WChar) : List WChar := replaceUnpaired (str.take kMaxStringLength)

/-- The name that stands for a frame, and the names known after it: the first name that
was recorded for the function, as long as there is room to remember it. -/
def nameFrame (names : List NamedFrame) (frame : NamedFrame) : List WChar × List NamedFrame :=
  match names.lookup frame.1 with
  | some name => (name, names)
  | none => (frame.2, if names.length + 1 < kMaxCodesPerBuffer then frame :: names else names)

def nameFrames : List NamedFrame → List NamedFrame → List (List WChar) × List NamedFrame
  | names, [] => ([], names)
  | names, frame :: frames =>
      let rest := nameFrames (nameFrame names frame).2 frames
      (transmitted (nameFrame names frame).1 :: rest.1, rest.2)

/-- The sample of a thread, the `index`th of the batch. -/
def receivedSample (frequentSamplingEnabled : Bool) (ms : BitVec 64) (index : ℕ)
    (thread : SampledThread NamedFrame) (frames : List (List WChar)) : ThreadSample where
  timestampNanoseconds := ms * 1000000
  traceIdHigh := thread.spanContext.traceIdHigh
  traceIdLow := thread.spanContext.traceIdLow
  spanId := thread.spanContext.spanId
  threadName := transmitted thread.threadName
  source := "continuous-profiler"
  threadIndex := .ofNat 32 index
  selectedForFrequentSampling := frequentSamplingEnabled && thread.selected
  frames := frames

/-- A thread that the parser leaves out: one without frames, or its own thread. -/
def isDropped (thread : SampledThread NamedFrame) : Bool :=
  thread.frames.isEmpty || transmitted thread.threadName == backgroundThreadName

/-- The samples of a batch, given the names recorded before and the threads counted. -/
def receivedSamples (frequentSamplingEnabled : Bool) (ms : BitVec 64) :
    List NamedFrame → ℕ → List (SampledThread NamedFrame) → List ThreadSample
  | _, _, [] => []
  | names, index, thread :: threads =>
      let (frames, names) := nameFrames names thread.frames
      let samples := receivedSamples frequentSamplingEnabled ms names (index + 1) threads
      if isDropped thread then samples
      else receivedSample frequentSamplingEnabled ms index thread frames :: samples

/-! ### Values -/

theorem readShort_reads (val : BitVec 16) : Reads readShort (shortBytes val) val := by
  intro rest
  show some (byteTo 16 (byteAt val 1) 1 + byteTo 16 (byteAt val 0) 0, rest) = some (val, rest)
  rw [word16_of_bytes]

theorem readInt_reads (val : BitVec 32) : Reads readInt (intBytes val) val := by
  intro rest
  show some (byteTo 32 (byteAt val 3) 3 + byteTo 32 (byteAt val 2) 2 + byteTo 32 (byteAt val 1) 1
    + byteTo 32 (byteAt val 0) 0, rest) = some (val, rest)
  rw [word32_of_bytes]

theorem readInt64_reads (val : BitVec 64) : Reads readInt64 (uint64Bytes val) val := by
  intro rest
  show some (byteTo 64 (byteAt val 7) 7 + byteTo 64 (byteAt val 6) 6 + byteTo 64 (byteAt val 5) 5
    + byteTo 64 (byteAt val 4) 4 + byteTo 64 (byteAt val 3) 3 + byteTo 64 (byteAt val 2) 2
    + byteTo 64 (byteAt val 1) 1 + byteTo 64 (byteAt val 0) 0, rest) = some (val, rest)
  rw [word64_of_bytes]

theorem codeUnits_memoryBytes (str : List WChar) :
    codeUnits (ThreadSamplesBuffer.memoryBytes str) = str := by
  induction str with
  | nil => rfl
  | cons c str ih =>
      show (byteTo 16 (byteAt c 0) 0 + byteTo 16 (byteAt c 1) 1)
        :: codeUnits (ThreadSamplesBuffer.memoryBytes str) = c :: str
      rw [ih, BitVec.add_comm, word16_of_bytes]

/-- A short that holds a small number is not negative. -/
theorem toInt_ofNat_short {n : ℕ} (h : n < 2 ^ 15) : (BitVec.ofNat 16 n).toInt = n := by
  rw [BitVec.toInt_eq_toNat_of_lt] <;> rw [BitVec.toNat_ofNat, Nat.mod_eq_of_lt] <;> omega

theorem readString_reads (str : List WChar) :
    Reads readString (stringBytes str) (transmitted str) := by
  have hlen : min str.length kMaxStringLength ≤ 512 := Nat.min_le_right _ _
  have hnat : (BitVec.ofNat 16 (min str.length kMaxStringLength)).toNat
      = (str.take kMaxStringLength).length := by
    rw [BitVec.toNat_ofNat, Nat.mod_eq_of_lt (by omega), List.length_take, Nat.min_comm]
  refine (readShort_reads _).bind ?_
  rw [toInt_ofNat_short (by omega), if_neg (by omega), hnat,
    ← ThreadSamplesBuffer.length_memoryBytes]
  have h := (reads_takeN (ThreadSamplesBuffer.memoryBytes (str.take kMaxStringLength))).bind_pure
    getString
  rwa [getString, codeUnits_memoryBytes] at h

/-! ### The code tables -/

/-- The writer's codes and the parser's dictionary both stand for `names`. -/
structure InStep (names : List NamedFrame) (codes : CodeTable) (dictionary : CodeDictionary) :
    Prop where
  size : codes.length = names.length
  limit : codes.length < kMaxCodesPerBuffer
  unnamed : ∀ fid, codes.lookup fid = none → names.lookup fid = none
  named : ∀ fid code, codes.lookup fid = some code → 0 < code ∧ code ≤ codes.length
    ∧ ∃ name, names.lookup fid = some name ∧ dictionary code = some (transmitted name)

theorem inStep_nil (dictionary : CodeDictionary) : InStep [] [] dictionary where
  size := rfl
  limit := by decide
  unnamed _ _ := rfl
  named _ _ h := by cases h

/-- A new code, one past the table: the old entries are not overwritten. -/
theorem InStep.define {names : List NamedFrame} {codes : CodeTable} {dictionary : CodeDictionary}
    (h : InStep names codes dictionary) {frame : NamedFrame} (hnew : codes.lookup frame.1 = none) :
    InStep (nameFrame names frame).2 (codesAfterFrame frame codes)
      (Function.update dictionary (codes.length + 1 : ℕ) (some (transmitted frame.2))) := by
  have hkeep : ∀ code : ℕ, code ≤ codes.length →
      Function.update dictionary ((codes.length + 1 : ℕ) : ℤ) (some (transmitted frame.2)) code
        = dictionary code := by
    intro code hcode
    refine Function.update_of_ne ?_ _ _
    omega
  rw [nameFrame, h.unnamed _ hnew, codesAfterFrame, hnew, ← h.size]
  by_cases hroom : codes.length + 1 < kMaxCodesPerBuffer
  · simp only [if_pos hroom]
    refine ⟨?_, hroom, fun fid hfid => ?_, fun fid code hcode => ?_⟩
    · rw [List.length_cons, List.length_cons, h.size]
    · rw [List.lookup_cons] at hfid ⊢
      by_cases heq : fid == frame.1
      · rw [heq] at hfid
        cases hfid
      · rw [Bool.eq_false_iff.mpr heq] at hfid ⊢
        exact h.unnamed fid hfid
    · rw [List.lookup_cons] at hcode ⊢
      by_cases heq : fid == frame.1
      · rw [heq] at hcode ⊢
        obtain rfl := Option.some.inj hcode
        exact ⟨Nat.succ_pos _, Nat.le_refl _, frame.2, rfl, Function.update_self _ _ _⟩
      · rw [Bool.eq_false_iff.mpr heq] at hcode ⊢
        obtain ⟨hpos, hle, name, hname, hdict⟩ := h.named fid code hcode
        exact ⟨hpos, Nat.le_succ_of_le hle, name, hname, (hkeep code hle).trans hdict⟩
  · simp only [if_neg hroom]
    refine ⟨h.size, h.limit, h.unnamed, fun fid code hcode => ?_⟩
    obtain ⟨hpos, hle, name, hname, hdict⟩ := h.named fid code hcode
    exact ⟨hpos, hle, name, hname, (hkeep code hle).trans hdict⟩

/-- A negated code of the table's range, read as a short. -/
theorem toInt_ofInt_short {n : ℕ} (h : n ≤ 2 ^ 15) : (BitVec.ofInt 16 (-(n : ℤ))).toInt = -n := by
  rw [BitVec.toInt_ofInt]
  exact Int.bmod_eq_of_le (by omega) (by omega)

/-- A frame is read back under its name, and leaves the tables in step. -/
theorem readFrame_reads {names : List NamedFrame} {codes : CodeTable}
    {dictionary : CodeDictionary} (h : InStep names codes dictionary) (frame : NamedFrame) :
    frameCode codes frame.1 ≠ 0 ∧ ∃ dictionary',
      InStep (nameFrame names frame).2 (codesAfterFrame frame codes) dictionary'
      ∧ Reads (readFrame (frameCode codes frame.1) dictionary) (framePayload codes frame)
        (transmitted (nameFrame names frame).1, dictionary') := by
  have hlimit : codes.length < 10000 := h.limit
  have hzero : (0 : BitVec 16).toInt = 0 := rfl
  cases hlookup : codes.lookup frame.1 with
  | some code =>
      obtain ⟨hpos, hle, name, hname, hdict⟩ := h.named _ _ hlookup
      have hint : (BitVec.ofNat 16 code).toInt = code := toInt_ofNat_short (by omega)
      rw [frameCode, framePayload, codesAfterFrame, nameFrame, hlookup, hname]
      refine ⟨fun h0 => ?_, dictionary, h, ?_⟩
      · have := congrArg BitVec.toInt h0
        rw [hint, hzero] at this
        omega
      · rw [readFrame, hint, if_neg (by omega), hdict]
        exact reads_pure _
  | none =>
      have hint : (BitVec.ofInt 16 (-((codes.length + 1 : ℕ) : ℤ))).toInt
          = -((codes.length + 1 : ℕ) : ℤ) := toInt_ofInt_short (by omega)
      refine ⟨fun h0 => ?_, _, h.define hlookup, ?_⟩
      · rw [frameCode, hlookup] at h0
        have := congrArg BitVec.toInt h0
        rw [hint, hzero] at this
        omega
      · rw [frameCode, framePayload, nameFrame, hlookup, h.unnamed _ hlookup, readFrame, hint,
          if_pos (by omega), Int.neg_neg]
        exact (readString_reads frame.2).bind_pure _

/-! ### Stacks -/

theorem stackBytes_cons (frame : NamedFrame) (frames : List NamedFrame) (codes : CodeTable) :
    stackBytes (frame :: frames) codes = shortBytes (frameCode codes frame.1)
      ++ (framePayload codes frame ++ stackBytes frames (codesAfterFrame frame codes)) := by
  simp only [stackBytes, encodeList, frameBytes, List.append_assoc]

theorem readStackFramesLoop_reads {names : List NamedFrame} {codes : CodeTable}
    {dictionary : CodeDictionary} (h : InStep names codes dictionary) (frames : List NamedFrame) :
    ∃ dictionary', InStep (nameFrames names frames).2 (codesAfterFrames frames codes) dictionary'
      ∧ ∀ sample fuel, frames.length < fuel →
        Reads (readShort >>= fun code => readStackFramesLoop fuel code sample dictionary)
          (stackBytes frames codes)
          ({ sample with frames := sample.frames ++ (nameFrames names frames).1 },
            dictionary') := by
  induction frames generalizing names codes dictionary with
  | nil =>
      refine ⟨dictionary, h, fun sample fuel hfuel => ?_⟩
      obtain ⟨fuel, rfl⟩ : ∃ n, fuel = n + 1 := ⟨fuel - 1, (Nat.sub_add_cancel hfuel).symm⟩
      show Reads _ (shortBytes 0) ({ sample with frames := sample.frames ++ [] }, dictionary)
      rw [List.append_nil]
      intro rest
      rw [bind_apply, readShort_reads 0 rest]
      rfl
  | cons frame frames ih =>
      obtain ⟨hcode, dictionary₁, hstep, hframe⟩ := readFrame_reads h frame
      obtain ⟨dictionary₂, hstep', hrest⟩ := ih hstep
      refine ⟨dictionary₂, hstep', fun sample fuel hfuel => ?_⟩
      obtain ⟨fuel, rfl⟩ : ∃ n, fuel = n + 1 := ⟨fuel - 1, by omega⟩
      rw [stackBytes_cons]
      refine (readShort_reads _).bind ?_
      rw [readStackFramesLoop, if_neg hcode]
      refine hframe.bind ?_
      have hend := hrest (sample.addFrame (transmitted (nameFrame names frame).1)) fuel
        (Nat.lt_of_succ_lt_succ hfuel)
      simp only [ThreadSample.addFrame, List.append_assoc, List.singleton_append] at hend
      exact hend

theorem length_lt_stackBytes (frames : List NamedFrame) (codes : CodeTable) :
    frames.length + 2 ≤ (stackBytes frames codes).length := by
  induction frames generalizing codes with
  | nil => exact Nat.le_refl _
  | cons frame frames ih =>
      have := ih (codesAfterFrame frame codes)
      rw [stackBytes_cons, List.length_append, List.length_append, List.length_cons]
      have hshort : (shortBytes (frameCode codes frame.1)).length = 2 := rfl
      omega

/-- A stack that is not empty, behind its first code. -/
theorem readStackFrames_reads {names : List NamedFrame} {codes : CodeTable}
    {dictionary : CodeDictionary} (h : InStep names codes dictionary) (frame : NamedFrame)
    (frames : List NamedFrame) :
    ∃ dictionary', InStep (nameFrames names (frame :: frames)).2
        (codesAfterFrames (frame :: frames) codes) dictionary'
      ∧ ∀ sample, Reads (readStackFrames (frameCode codes frame.1) sample dictionary)
        (framePayload codes frame ++ stackBytes frames (codesAfterFrame frame codes))
        ({ sample with frames := sample.frames ++ (nameFrames names (frame :: frames)).1 },
          dictionary') := by
  obtain ⟨dictionary', hstep, hread⟩ := readStackFramesLoop_reads h (frame :: frames)
  refine ⟨dictionary', hstep, fun sample => reads_remaining fun ahead hahead => ?_⟩
  have hlength := length_lt_stackBytes frames (codesAfterFrame frame codes)
  rw [List.length_append] at hahead
  have hfuel : (frame :: frames).length < ahead + 1 := by
    rw [List.length_cons]
    omega
  have hloop := hread sample (ahead + 1) hfuel
  rw [stackBytes_cons] at hloop
  exact (readShort_reads _).unbind hloop

/-! ### Records -/

/-- The parser's state between two threads of a batch. -/
def stateAfter (ms : BitVec 64) (dictionary : CodeDictionary) (index : ℕ)
    (samples : List ThreadSample) : ParserState where
  batchThreadIndex := .ofNat 32 index
  samples := samples
  sampleStartMillis := ms
  codeDictionary := dictionary

theorem startBatch_reads (frequentSamplingEnabled : Bool) (st : ParserState) (ms : BitVec 64) :
    Reads (parseOperation frequentSamplingEnabled st) (startBatchBytes ms)
      (.next { st with sampleStartMillis := ms }) := by
  refine (reads_next kThreadSamplesStartBatch).bind ?_
  rw [if_pos (show kThreadSamplesStartBatch = 0x01 from rfl)]
  refine (readInt_reads kCurrentThreadSamplesBufferVersion).bind ?_
  rw [if_neg (show ¬kCurrentThreadSamplesBufferVersion ≠ 1 from fun h => h rfl)]
  exact (readInt64_reads ms).bind_pure _

theorem endBatch_reads (frequentSamplingEnabled : Bool) (st : ParserState) :
    Reads (parseOperation frequentSamplingEnabled st) [kThreadSamplesEndBatch] (.next st) :=
  fun _ => rfl

theorem finalStats_reads (frequentSamplingEnabled : Bool) (st : ParserState)
    (stats : SamplingStatistics) :
    Reads (parseOperation frequentSamplingEnabled st) (finalStatsBytes stats) (.next st) := by
  rw [finalStatsBytes, List.append_assoc, List.append_assoc]
  refine (reads_next kThreadSamplesFinalStats).bind ?_
  rw [if_neg (by decide), if_neg (by decide), if_neg (by decide),
    if_pos (show kThreadSamplesFinalStats = 0x07 from rfl), readBatchStats]
  refine (readInt_reads _).bind ?_
  refine (readInt_reads _).bind ?_
  refine (readInt_reads _).bind ?_
  exact (readInt_reads _).bind_pure _

theorem mark_reads (frequentSamplingEnabled selected : Bool) :
    Reads (readSelectedForFrequentSampling frequentSamplingEnabled)
      (markBytes frequentSamplingEnabled selected) (frequentSamplingEnabled && selected) := by
  cases frequentSamplingEnabled with
  | false => exact reads_pure false
  | true => cases selected <;> exact fun _ => rfl

/-- The head of a sample is read the same way whatever the stack. -/
theorem sampleHead_reads (frequentSamplingEnabled : Bool) (ms : BitVec 64)
    (dictionary : CodeDictionary) (index : ℕ) (samples : List ThreadSample)
    (thread : SampledThread NamedFrame) {codes : CodeTable} {outcome : Outcome}
    (h : Reads (readSampleFrames (stateAfter ms dictionary (index + 1) samples)
        (receivedSample frequentSamplingEnabled ms index thread []))
      (stackBytes thread.frames codes) outcome) :
    Reads (parseOperation frequentSamplingEnabled (stateAfter ms dictionary index samples))
      (sampleBytes frequentSamplingEnabled thread codes) outcome := by
  have hindex : BitVec.ofNat 32 index + 1 = BitVec.ofNat 32 (index + 1) :=
    (BitVec.ofNat_add ..).symm
  have hbytes : sampleBytes frequentSamplingEnabled thread codes
      = [kThreadSamplesStartSample] ++ (stringBytes thread.threadName
        ++ (uint64Bytes thread.spanContext.traceIdHigh
        ++ (uint64Bytes thread.spanContext.traceIdLow
        ++ (uint64Bytes thread.spanContext.spanId
        ++ (markBytes frequentSamplingEnabled thread.selected
        ++ stackBytes thread.frames codes))))) := by
    simp only [sampleBytes, sampleHeadBytes, spanContextBytes, List.append_assoc,
      List.cons_append, List.nil_append]
  rw [hbytes]
  refine (reads_next kThreadSamplesStartSample).bind ?_
  rw [if_neg (by decide), if_pos (show kThreadSamplesStartSample = 0x02 from rfl)]
  refine (readString_reads _).bind ?_
  refine (readInt64_reads _).bind ?_
  refine (readInt64_reads _).bind ?_
  refine (readInt64_reads _).bind ?_
  refine (mark_reads frequentSamplingEnabled thread.selected).bind ?_
  simp only [stateAfter, hindex]
  exact h

theorem addSample_received (frequentSamplingEnabled : Bool) (ms : BitVec 64)
    (dictionary : CodeDictionary) (index count : ℕ) (samples : List ThreadSample)
    (thread : SampledThread NamedFrame) (frames : List (List WChar)) :
    (stateAfter ms dictionary count samples).addSample
        (receivedSample frequentSamplingEnabled ms index thread frames)
      = stateAfter ms dictionary count (samples ++
          if transmitted thread.threadName == backgroundThreadName then []
          else [receivedSample frequentSamplingEnabled ms index thread frames]) := by
  rw [ParserState.addSample]
  show (if transmitted thread.threadName = backgroundThreadName then _ else _) = _
  by_cases hname : transmitted thread.threadName = backgroundThreadName
  · rw [if_pos hname, if_pos (beq_iff_eq.mpr hname), List.append_nil]
  · rw [if_neg hname, if_neg (mt beq_iff_eq.mp hname)]
    rfl

/-- A thread is read back as its sample, or dropped. -/
theorem sample_reads (frequentSamplingEnabled : Bool) (ms : BitVec 64) {names : List NamedFrame}
    {codes : CodeTable} {dictionary : CodeDictionary} (h : InStep names codes dictionary)
    (index : ℕ) (samples : List ThreadSample) (thread : SampledThread NamedFrame) :
    ∃ dictionary', InStep (nameFrames names thread.frames).2
        (codesAfterFrames thread.frames codes) dictionary'
      ∧ Reads (parseOperation frequentSamplingEnabled (stateAfter ms dictionary index samples))
        (sampleBytes frequentSamplingEnabled thread codes)
        (.next (stateAfter ms dictionary' (index + 1) (samples ++
          if isDropped thread then []
          else [receivedSample frequentSamplingEnabled ms index thread
            (nameFrames names thread.frames).1]))) := by
  cases hframes : thread.frames with
  | nil =>
      refine ⟨dictionary, h, sampleHead_reads _ _ _ _ _ _ ?_⟩
      rw [isDropped, hframes, List.isEmpty_nil, Bool.true_or, if_pos rfl, List.append_nil]
      intro rest
      rw [readSampleFrames, bind_apply, stackBytes, encodeList, List.nil_append,
        readShort_reads 0 rest]
      rfl
  | cons frame frames =>
      obtain ⟨dictionary', hstep, hread⟩ := readStackFrames_reads h frame frames
      obtain ⟨hcode, -⟩ := readFrame_reads h frame
      refine ⟨dictionary', hstep, sampleHead_reads _ _ _ _ _ _ ?_⟩
      rw [hframes, stackBytes_cons, isDropped, hframes, List.isEmpty_cons, Bool.false_or]
      refine (readShort_reads _).bind ?_
      rw [if_neg hcode, ← addSample_received]
      have hstack := hread (receivedSample frequentSamplingEnabled ms index thread [])
      exact hstack.bind_pure fun r => Outcome.next
        ((stateAfter ms r.2 (index + 1) samples).addSample r.1)

/-! ### The batch -/

/-- An iteration of the loop over a record that is read exactly. -/
theorem parseLoop_reads {frequentSamplingEnabled : Bool} {st st' : ParserState}
    {bytes : List Byte}
    (hread : Reads (parseOperation frequentSamplingEnabled st) bytes (.next st'))
    (hbytes : 0 < bytes.length) {slack fuel : ℕ} {rest : List Byte}
    (hslack : slack ≤ rest.length) (hfuel : bytes.length + rest.length ≤ fuel) :
    ∃ fuel', rest.length ≤ fuel'
      ∧ parseLoop frequentSamplingEnabled slack fuel st (bytes ++ rest)
        = parseLoop frequentSamplingEnabled slack fuel' st' rest := by
  obtain ⟨fuel, rfl⟩ : ∃ n, fuel = n + 1 := ⟨fuel - 1, by omega⟩
  refine ⟨fuel, by omega, ?_⟩
  rw [parseLoop, if_neg (by rw [List.length_append]; omega), hread rest]

/-- The loop over the threads: by induction, with the tables in step at each of them. -/
theorem parseLoop_threads (frequentSamplingEnabled : Bool) (ms : BitVec 64)
    (threads : List (SampledThread NamedFrame)) {names : List NamedFrame} {codes : CodeTable}
    {dictionary : CodeDictionary} (h : InStep names codes dictionary) (index : ℕ)
    (samples : List ThreadSample) {slack fuel : ℕ} {rest : List Byte}
    (hslack : slack ≤ rest.length)
    (hfuel : (encodeList (sampleBytes frequentSamplingEnabled)
      (fun thread => codesAfterFrames thread.frames) threads codes).length + rest.length ≤ fuel) :
    ∃ fuel' dictionary', rest.length ≤ fuel'
      ∧ parseLoop frequentSamplingEnabled slack fuel (stateAfter ms dictionary index samples)
          (encodeList (sampleBytes frequentSamplingEnabled)
            (fun thread => codesAfterFrames thread.frames) threads codes ++ rest)
        = parseLoop frequentSamplingEnabled slack fuel'
          (stateAfter ms dictionary' (index + threads.length)
            (samples ++ receivedSamples frequentSamplingEnabled ms names index threads)) rest := by
  induction threads generalizing names codes dictionary index samples fuel with
  | nil =>
      refine ⟨fuel, dictionary, Nat.le_trans (Nat.le_add_left _ _) hfuel, ?_⟩
      rw [receivedSamples, List.append_nil]
      rfl
  | cons thread threads ih =>
      obtain ⟨dictionary₁, hstep, hread⟩ := sample_reads frequentSamplingEnabled ms h index
        samples thread
      rw [encodeList, List.length_append, Nat.add_assoc, ← List.length_append] at hfuel
      have hpos : 0 < (sampleBytes frequentSamplingEnabled thread codes).length := Nat.succ_pos _
      obtain ⟨fuel₁, hfuel₁, hloop₁⟩ := parseLoop_reads hread hpos
        (Nat.le_trans hslack (by rw [List.length_append]; exact Nat.le_add_left _ _)) hfuel
      rw [List.length_append] at hfuel₁
      obtain ⟨fuel₂, dictionary₂, hfuel₂, hloop₂⟩ := ih hstep (index + 1) _ hfuel₁
      refine ⟨fuel₂, dictionary₂, hfuel₂, ?_⟩
      rw [encodeList, List.append_assoc, hloop₁, hloop₂, receivedSamples, List.append_assoc,
        List.length_cons, Nat.add_assoc, Nat.add_comm 1]
      cases isDropped thread <;> rfl

/-- The parser on the encoding of a batch, with any bytes behind it. -/
theorem parseThreadSamples_batchBytes (frequentSamplingEnabled : Bool) (ms : BitVec 64)
    (threads : List (SampledThread NamedFrame)) (stats : SamplingStatistics)
    (unused : List Byte) :
    parseThreadSamples frequentSamplingEnabled
        (batchBytes frequentSamplingEnabled ms threads stats ++ unused)
        (batchBytes frequentSamplingEnabled ms threads stats).length
      = some (receivedSamples frequentSamplingEnabled ms [] 0 threads) := by
  have hslack : (batchBytes frequentSamplingEnabled ms threads stats ++ unused).length
      - (batchBytes frequentSamplingEnabled ms threads stats).length = unused.length := by
    rw [List.length_append, Nat.add_sub_cancel_left]
  rw [parseThreadSamples, hslack]
  generalize hfuel : (batchBytes frequentSamplingEnabled ms threads stats ++ unused).length = fuel
  rw [batchBytes, List.append_assoc, List.append_assoc, List.append_assoc] at hfuel ⊢
  rw [List.length_append] at hfuel
  have hbehind : ∀ bytes : List Byte, unused.length ≤ (bytes ++ unused).length := fun bytes => by
    rw [List.length_append]
    exact Nat.le_add_left _ _
  obtain ⟨fuel₁, hfuel₁, hloop₁⟩ := parseLoop_reads
    (startBatch_reads frequentSamplingEnabled .init ms) (Nat.succ_pos _)
    (show unused.length ≤ _ by rw [← List.append_assoc, ← List.append_assoc]; exact hbehind _)
    (Nat.le_of_eq hfuel)
  rw [List.length_append] at hfuel₁
  obtain ⟨fuel₂, dictionary, hfuel₂, hloop₂⟩ := parseLoop_threads frequentSamplingEnabled ms
    threads (inStep_nil fun _ => none) 0 []
    (show unused.length ≤ _ by rw [← List.append_assoc]; exact hbehind _) hfuel₁
  rw [List.length_append] at hfuel₂
  obtain ⟨fuel₃, hfuel₃, hloop₃⟩ := parseLoop_reads
    (endBatch_reads frequentSamplingEnabled _) (Nat.succ_pos _) (hbehind _) hfuel₂
  rw [List.length_append] at hfuel₃
  obtain ⟨fuel₄, hfuel₄, hloop₄⟩ := parseLoop_reads
    (finalStats_reads frequentSamplingEnabled _ stats) (Nat.succ_pos _)
    (Nat.le_refl unused.length) hfuel₃
  rw [hloop₁]
  refine hloop₂.trans (hloop₃.trans (hloop₄.trans ?_))
  cases fuel₄ with
  | zero => rfl
  | succ fuel => rw [parseLoop, if_pos (Nat.le_refl _)]; rfl

/-- **A batch survives the format.** The buffer never holds more than its maximum size,
and unless it overflows the parser, given the same flag and the number of bytes in use,
returns the samples of the batch in order. -/
theorem parseThreadSamples_writeBatch (selectiveSamplingEnabled : Bool) (ms : BitVec 64)
    (threads : List (SampledThread NamedFrame)) (stats : SamplingStatistics)
    (unused : List Byte) :
    let b := writeBatch selectiveSamplingEnabled ms threads stats
    b.buffer.length ≤ kSamplesBufferMaximumSize ∧ (b.overflowed = true
      ∨ parseThreadSamples selectiveSamplingEnabled (b.buffer ++ unused) b.buffer.length
        = some (receivedSamples selectiveSamplingEnabled ms [] 0 threads)) := by
  intro b
  obtain ⟨hfits, hwritten⟩ := writeBatch_spec selectiveSamplingEnabled ms threads stats
  refine ⟨hfits, ?_⟩
  cases hflag : b.overflowed with
  | true => exact .inl rfl
  | false =>
      right
      rw [hwritten hflag]
      exact parseThreadSamples_batchBytes selectiveSamplingEnabled ms threads stats unused

/-! ### Frames named by their functions

The sampler's naming helper gives a function the same name wherever it occurs; then no
name stands for another, and each frame arrives under its own. -/

theorem nameFrame_of_lookup (lookup : FunctionIdentifier → List WChar) {names : List NamedFrame}
    (hnames : ∀ fid name, names.lookup fid = some name → name = lookup fid)
    (fid : FunctionIdentifier) :
    (nameFrame names (fid, lookup fid)).1 = lookup fid
      ∧ ∀ fid' name, (nameFrame names (fid, lookup fid)).2.lookup fid' = some name →
        name = lookup fid' := by
  rw [nameFrame]
  cases hfid : names.lookup fid with
  | some name => exact ⟨hnames fid name hfid, hnames⟩
  | none =>
      refine ⟨rfl, fun fid' name h => ?_⟩
      by_cases hroom : names.length + 1 < kMaxCodesPerBuffer
      · simp only [if_pos hroom, List.lookup_cons] at h
        by_cases heq : fid' == fid
        · rw [heq] at h
          rw [← Option.some.inj h, beq_iff_eq.mp heq]
        · rw [Bool.eq_false_iff.mpr heq] at h
          exact hnames fid' name h
      · simp only [if_neg hroom] at h
        exact hnames fid' name h

theorem nameFrames_of_lookup (lookup : FunctionIdentifier → List WChar)
    (fids : List FunctionIdentifier) {names : List NamedFrame}
    (hnames : ∀ fid name, names.lookup fid = some name → name = lookup fid) :
    (nameFrames names (fids.map fun fid => (fid, lookup fid))).1
        = fids.map (fun fid => transmitted (lookup fid))
      ∧ ∀ fid' name, (nameFrames names (fids.map fun fid => (fid, lookup fid))).2.lookup fid'
        = some name → name = lookup fid' := by
  induction fids generalizing names with
  | nil => exact ⟨rfl, hnames⟩
  | cons fid fids ih =>
      obtain ⟨hname, hnext⟩ := nameFrame_of_lookup lookup hnames fid
      obtain ⟨hrest, hlast⟩ := ih hnext
      refine ⟨?_, hlast⟩
      show transmitted (nameFrame names (fid, lookup fid)).1 :: (nameFrames _ _).1 = _
      rw [hname, hrest, List.map_cons]

/-- The samples of threads whose frames are named by `lookup`, the first one the
`index`th of the batch. -/
def resolvedSamples (lookup : FunctionIdentifier → List WChar) (frequentSamplingEnabled : Bool)
    (ms : BitVec 64) (index : ℕ) (threads : List (SampledThread FunctionIdentifier)) :
    List ThreadSample :=
  (threads.zipIdx index).filterMap fun (thread, index) =>
    if transmitted thread.threadName == backgroundThreadName then none
    else some (receivedSample frequentSamplingEnabled ms index (resolveFrames lookup thread)
      (thread.frames.map fun fid => transmitted (lookup fid)))

theorem receivedSamples_of_lookup (lookup : FunctionIdentifier → List WChar)
    (frequentSamplingEnabled : Bool) (ms : BitVec 64)
    (threads : List (SampledThread FunctionIdentifier))
    (hframes : ∀ thread ∈ threads, thread.frames.isEmpty = false) (index : ℕ)
    {names : List NamedFrame}
    (hnames : ∀ fid name, names.lookup fid = some name → name = lookup fid) :
    receivedSamples frequentSamplingEnabled ms names index (threads.map (resolveFrames lookup))
      = resolvedSamples lookup frequentSamplingEnabled ms index threads := by
  induction threads generalizing names index with
  | nil => rfl
  | cons thread threads ih =>
      obtain ⟨hnamed, hnext⟩ := nameFrames_of_lookup lookup thread.frames hnames
      have hrest := ih (fun t ht => hframes t (List.mem_cons_of_mem _ ht)) (index + 1) hnext
      have hempty : (resolveFrames lookup thread).frames.isEmpty = false := by
        rw [resolveFrames, List.isEmpty_map]
        exact hframes thread List.mem_cons_self
      rw [List.map_cons, receivedSamples, isDropped, hempty, Bool.false_or, resolvedSamples,
        List.zipIdx_cons, List.filterMap_cons]
      rw [resolvedSamples] at hrest
      by_cases hname : transmitted thread.threadName == backgroundThreadName
      · simp only [resolveFrames, hname, if_true]
        exact hrest
      · simp only [resolveFrames, hname, Bool.false_eq_true, if_false]
        rw [← hnamed]
        exact congrArg (_ :: ·) hrest

/-- **What the sampler publishes arrives.** Unless the buffer overflows, the parser returns a
sample for each thread with frames other than the sampler's own, under its own names. -/
theorem parseThreadSamples_resolveSymbols (lookup : FunctionIdentifier → List WChar)
    (selectiveSamplingEnabled : Bool) (ms : BitVec 64)
    (threadStacks : List (SampledThread FunctionIdentifier)) (stats : SamplingStatistics)
    (unused : List Byte) :
    let b := resolveSymbolsForAllThreads lookup selectiveSamplingEnabled ms threadStacks stats
    b.overflowed = true
      ∨ parseThreadSamples selectiveSamplingEnabled (b.buffer ++ unused) b.buffer.length
        = some (resolvedSamples lookup selectiveSamplingEnabled ms 0
          (threadStacks.filter fun thread => !thread.frames.isEmpty)) := by
  intro b
  have hframes : ∀ thread ∈ threadStacks.filter fun thread => !thread.frames.isEmpty,
      thread.frames.isEmpty = false := fun thread hthread => by
    rw [List.mem_filter, Bool.not_eq_true'] at hthread
    exact hthread.2
  obtain ⟨-, hwritten⟩ := writeBatch_spec selectiveSamplingEnabled ms
    ((threadStacks.filter fun thread => !thread.frames.isEmpty).map (resolveFrames lookup)) stats
  have hnone : ∀ fid name, List.lookup fid ([] : List NamedFrame) = some name →
      name = lookup fid := fun _ _ h => by cases h
  cases hflag : b.overflowed with
  | true => exact .inl rfl
  | false =>
      right
      rw [← receivedSamples_of_lookup lookup selectiveSamplingEnabled ms _ hframes 0
        hnone, ← parseThreadSamples_batchBytes _ ms _ stats unused,
        ← hwritten hflag]
      rfl

/-! ### Batches that do not arrive as they were written -/

/-- The samples with the strings as they were written. -/
def writtenSamples (frequentSamplingEnabled : Bool) (ms : BitVec 64)
    (threads : List (SampledThread NamedFrame)) : List ThreadSample :=
  threads.zipIdx.map fun (thread, index) =>
    { receivedSample frequentSamplingEnabled ms index thread
        (thread.frames.map fun frame => frame.2.take kMaxStringLength) with
      threadName := thread.threadName.take kMaxStringLength }

def oneThread (threadName : List WChar) (frames : List NamedFrame) :
    List (SampledThread NamedFrame) :=
  [{ threadName, spanContext := ⟨1, 2, 3⟩, selected := false, frames }]

def someFunction : FunctionIdentifier := ⟨0x06000001, 1, true, 0⟩

/-- A thread without frames, the sampler's own thread, a name with half of a surrogate
pair, and a function that is recorded under two names. -/
def exceptionalBatches : List (List (SampledThread NamedFrame)) :=
  [oneThread [0x41] [],
    oneThread backgroundThreadName [(someFunction, [0x46])],
    oneThread [0xd800] [(someFunction, [0x46])],
    oneThread [0x41] [(someFunction, [0x46]), (someFunction, [0x47])]]

theorem parseThreadSamples_exceptional : ¬∃ threads ∈ exceptionalBatches,
    let b := writeBatch false 0 threads ⟨0, 0, 0, 0⟩
    b.overflowed = true ∨ parseThreadSamples false b.buffer b.buffer.length
      = some (writtenSamples false 0 threads) := by
  decide +kernel

end AutoInstrumentation.ThreadSamples
