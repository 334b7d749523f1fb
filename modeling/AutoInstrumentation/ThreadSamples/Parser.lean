import AutoInstrumentation.Lib.Cursor
import AutoInstrumentation.ThreadSamples.Buffer

/-!
# AutoInstrumentation.ThreadSamples.Parser

`SampleNativeFormatParser.ParseThreadSamples`, which reads a batch back.

`position` is the list of the bytes from there to the end of the array, so that
indexing past the array is a read that fails, which is the exception of the source.
The array may be longer than the `read` bytes in use; `slack` counts the others, and
the loop runs while more than these are ahead. Loops take fuel: a turn of either
consumes a byte, so that the bytes ahead are enough of it (`readStackFramesLoop_fuel`,
`parseLoop_fuel`).
-/

namespace AutoInstrumentation.ThreadSamples

open Lib Lib.Cursor

/-! ### Values -/

def readByte : Cursor Byte Byte := next

def readShort : Cursor Byte (BitVec 16) := do
  let s1 ← readByte
  let s2 ← readByte
  pure (byteTo 16 s1 1 + byteTo 16 s2 0)

def readInt : Cursor Byte (BitVec 32) := do
  let i1 ← readByte
  let i2 ← readByte
  let i3 ← readByte
  let i4 ← readByte
  pure (byteTo 32 i1 3 + byteTo 32 i2 2 + byteTo 32 i3 1 + byteTo 32 i4 0)

def readInt64 : Cursor Byte (BitVec 64) := do
  let l1 ← readByte
  let l2 ← readByte
  let l3 ← readByte
  let l4 ← readByte
  let l5 ← readByte
  let l6 ← readByte
  let l7 ← readByte
  let l8 ← readByte
  pure (byteTo 64 l1 7 + byteTo 64 l2 6 + byteTo 64 l3 5 + byteTo 64 l4 4
    + byteTo 64 l5 3 + byteTo 64 l6 2 + byteTo 64 l7 1 + byteTo 64 l8 0)

/-- Two bytes to a code unit, the low one first. -/
def codeUnits : List Byte → List WChar
  | lo :: hi :: bytes => (byteTo 16 lo 0 + byteTo 16 hi 1) :: codeUnits bytes
  | _ => []

def isHighSurrogate (c : WChar) : Bool := 0xd800 ≤ c && c ≤ 0xdbff

def isLowSurrogate (c : WChar) : Bool := 0xdc00 ≤ c && c ≤ 0xdfff

def replacementCharacter : WChar := 0xfffd

/-- What decoding makes of code units: a surrogate that is not half of a pair is
replaced. -/
def replaceUnpaired : List WChar → List WChar
  | [] => []
  | [c] => [if isHighSurrogate c || isLowSurrogate c then replacementCharacter else c]
  | c :: d :: str =>
      if isHighSurrogate c then
        if isLowSurrogate d then c :: d :: replaceUnpaired str
        else replacementCharacter :: replaceUnpaired (d :: str)
      else if isLowSurrogate c then replacementCharacter :: replaceUnpaired (d :: str)
      else c :: replaceUnpaired (d :: str)

/-- `UnicodeEncoding.GetString` of a whole number of code units. -/
def getString (bytes : List Byte) : List WChar := replaceUnpaired (codeUnits bytes)

/-- A negative length is refused by `GetString`. -/
def readString : Cursor Byte (List WChar) := do
  let length ← readShort
  if length.toInt < 0 then failure
  else do
    let bytes ← takeN (length.toNat * 2)
    pure (getString bytes)

/-! ### Samples -/

structure ThreadSample where
  timestampNanoseconds : BitVec 64
  traceIdHigh : BitVec 64
  traceIdLow : BitVec 64
  spanId : BitVec 64
  threadName : List WChar
  source : String
  threadIndex : BitVec 32
  selectedForFrequentSampling : Bool
  frames : List (List WChar)
  deriving DecidableEq, Repr

/-- The constructor of `ThreadSample`. -/
def ThreadSample.new (timestampMilliseconds traceIdHigh traceIdLow spanId : BitVec 64)
    (threadName : List WChar) (source : String) (threadIndex : BitVec 32)
    (selectedForFrequentSampling : Bool) : ThreadSample where
  timestampNanoseconds := timestampMilliseconds * 1000000
  traceIdHigh := traceIdHigh
  traceIdLow := traceIdLow
  spanId := spanId
  threadName := threadName
  source := source
  threadIndex := threadIndex
  selectedForFrequentSampling := selectedForFrequentSampling
  frames := []

/-- `Frames.Add`. -/
def ThreadSample.addFrame (sample : ThreadSample) (value : List WChar) : ThreadSample :=
  { sample with frames := sample.frames ++ [value] }

/-- A dictionary from codes to strings. -/
abbrev CodeDictionary := ℤ → Option (List WChar)

/-- The string of a frame: a negative code defines one. -/
def readFrame (code : BitVec 16) (dictionary : CodeDictionary) :
    Cursor Byte (List WChar × CodeDictionary) :=
  if code.toInt < 0 then do
    let value ← readString
    pure (value, Function.update dictionary (-code.toInt) (some value))
  else
    match dictionary code.toInt with
    | some value => pure (value, dictionary)
    | none => failure

/-- The loop of `ReadStackFrames`. -/
def readStackFramesLoop : ℕ → BitVec 16 → ThreadSample → CodeDictionary →
    Cursor Byte (ThreadSample × CodeDictionary)
  | 0, _, _, _ => failure
  | fuel + 1, code, threadSample, dictionary =>
      if code = 0 then pure (threadSample, dictionary)
      else do
        let (value, dictionary) ← readFrame code dictionary
        let code ← readShort
        readStackFramesLoop fuel code (threadSample.addFrame value) dictionary

def readStackFrames (code : BitVec 16) (threadSample : ThreadSample)
    (dictionary : CodeDictionary) : Cursor Byte (ThreadSample × CodeDictionary) := do
  let ahead ← remaining
  readStackFramesLoop (ahead + 1) code threadSample dictionary

/-! ### The batch -/

/-- The locals of `ParseThreadSamples`. -/
structure ParserState where
  batchThreadIndex : BitVec 32
  samples : List ThreadSample
  sampleStartMillis : BitVec 64
  codeDictionary : CodeDictionary

def ParserState.init : ParserState where
  batchThreadIndex := 0
  samples := []
  sampleStartMillis := 0
  codeDictionary := fun _ => none

/-- How an iteration ends: `continue`, the end of the loop, or `return null`. -/
inductive Outcome
  | next (state : ParserState)
  | stop (state : ParserState)
  | null

def backgroundThreadName : List WChar :=
  "OpenTelemetry Continuous Profiler Thread".toList.map fun c => .ofNat 16 c.toNat

/-- `samples.Add`, but for the sample of the sampler's own thread. -/
def ParserState.addSample (st : ParserState) (threadSample : ThreadSample) : ParserState :=
  if threadSample.threadName = backgroundThreadName then st
  else { st with samples := st.samples ++ [threadSample] }

def readStartBatch (st : ParserState) : Cursor Byte Outcome := do
  let version ← readInt
  if version ≠ 1 then pure .null
  else do
    let sampleStartMillis ← readInt64
    pure (.next { st with sampleStartMillis })

/-- `buffer[position++] == 1`, only when frequent sampling is enabled. -/
def readSelectedForFrequentSampling (frequentSamplingEnabled : Bool) : Cursor Byte Bool :=
  if frequentSamplingEnabled then do
    let b ← readByte
    pure (b == 1)
  else pure false

/-- The rest of `StartSample`, once the head of the sample is read. -/
def readSampleFrames (st : ParserState) (threadSample : ThreadSample) : Cursor Byte Outcome := do
  let code ← readShort
  -- an empty stack: the sample is skipped
  if code = 0 then pure (.next st)
  else do
    let (threadSample, codeDictionary) ← readStackFrames code threadSample st.codeDictionary
    pure (.next ({ st with codeDictionary }.addSample threadSample))

def readStartSample (frequentSamplingEnabled : Bool) (st : ParserState) :
    Cursor Byte Outcome := do
  let threadName ← readString
  let traceIdHigh ← readInt64
  let traceIdLow ← readInt64
  let spanId ← readInt64
  let selectedForFrequentSampling ← readSelectedForFrequentSampling frequentSamplingEnabled
  let threadIndex := st.batchThreadIndex
  readSampleFrames { st with batchThreadIndex := threadIndex + 1 }
    (ThreadSample.new st.sampleStartMillis traceIdHigh traceIdLow spanId threadName
      "continuous-profiler" threadIndex selectedForFrequentSampling)

def readBatchStats (st : ParserState) : Cursor Byte Outcome := do
  let _microsSuspended ← readInt
  let _numThreads ← readInt
  let _totalFrames ← readInt
  let _numCacheMisses ← readInt
  pure (.next st)

/-- The body of the loop of `ParseThreadSamples`. -/
def parseOperation (frequentSamplingEnabled : Bool) (st : ParserState) : Cursor Byte Outcome := do
  let operationCode ← readByte
  if operationCode = 0x01 then readStartBatch st
  else if operationCode = 0x02 then readStartSample frequentSamplingEnabled st
  else if operationCode = 0x06 then pure (.next st)
  else if operationCode = 0x07 then readBatchStats st
  else pure (.stop st)

/-- The loop. An exception ends it, and what was read before it is returned. -/
def parseLoop (frequentSamplingEnabled : Bool) (slack : ℕ) :
    ℕ → ParserState → List Byte → Option (List ThreadSample)
  | 0, st, _ => some st.samples
  | fuel + 1, st, position =>
      if position.length ≤ slack then some st.samples
      else
        match parseOperation frequentSamplingEnabled st position with
        | some (.next st, position) => parseLoop frequentSamplingEnabled slack fuel st position
        | some (.stop st, _) => some st.samples
        | some (.null, _) => none
        | none => some st.samples

def parseThreadSamples (frequentSamplingEnabled : Bool) (buffer : List Byte) (read : ℕ) :
    Option (List ThreadSample) :=
  parseLoop frequentSamplingEnabled (buffer.length - read) buffer.length .init buffer

/-! ### Fuel -/

theorem readShort_consumes : Consumes readShort :=
  consumes_next.bind fun _ => shrinks_next.bind fun _ => shrinks_pure _

theorem readInt_shrinks : Shrinks readInt :=
  shrinks_next.bind fun _ => shrinks_next.bind fun _ => shrinks_next.bind fun _ =>
    shrinks_next.bind fun _ => shrinks_pure _

theorem readInt64_shrinks : Shrinks readInt64 :=
  shrinks_next.bind fun _ => shrinks_next.bind fun _ => shrinks_next.bind fun _ =>
    shrinks_next.bind fun _ => shrinks_next.bind fun _ => shrinks_next.bind fun _ =>
      shrinks_next.bind fun _ => shrinks_next.bind fun _ => shrinks_pure _

theorem readString_shrinks : Shrinks readString :=
  readShort_consumes.shrinks.bind fun _ =>
    shrinks_ite shrinks_failure ((shrinks_takeN _).bind fun _ => shrinks_pure _)

theorem readFrame_shrinks (code : BitVec 16) (dictionary : CodeDictionary) :
    Shrinks (readFrame code dictionary) := by
  refine shrinks_ite (readString_shrinks.bind fun _ => shrinks_pure _) ?_
  cases dictionary code.toInt with
  | none => exact shrinks_failure
  | some value => exact shrinks_pure _

theorem readStackFramesLoop_shrinks (fuel : ℕ) (code : BitVec 16) (threadSample : ThreadSample)
    (dictionary : CodeDictionary) :
    Shrinks (readStackFramesLoop fuel code threadSample dictionary) := by
  induction fuel generalizing code threadSample dictionary with
  | zero => exact shrinks_failure
  | succ fuel ih =>
      refine shrinks_ite (c := code = 0) (shrinks_pure _) ?_
      exact (readFrame_shrinks _ _).bind fun _ => readShort_consumes.shrinks.bind fun _ => ih _ _ _

/-- A turn of the loop reads a code, so one unit of fuel more than there are bytes is as
good as any more. -/
theorem readStackFramesLoop_fuel {n fuel fuel' : ℕ} (h : n < fuel) (h' : n < fuel')
    (code : BitVec 16) (threadSample : ThreadSample) (dictionary : CodeDictionary) :
    AgreeUpTo n (readStackFramesLoop fuel code threadSample dictionary)
      (readStackFramesLoop fuel' code threadSample dictionary) := by
  induction fuel generalizing n fuel' code threadSample dictionary with
  | zero => omega
  | succ fuel ih =>
      obtain ⟨fuel', rfl⟩ : ∃ k, fuel' = k + 1 := ⟨fuel' - 1, by omega⟩
      refine agree_ite (c := code = 0) (.refl _ _)
        (.bind (readFrame_shrinks _ _) fun ⟨value, dictionary⟩ => ?_)
      exact .consume readShort_consumes fun m hm code => ih (by omega) (by omega) _ _ _

theorem readStackFrames_shrinks (code : BitVec 16) (threadSample : ThreadSample)
    (dictionary : CodeDictionary) : Shrinks (readStackFrames code threadSample dictionary) :=
  fun bs _ _ h => readStackFramesLoop_shrinks _ _ _ _ bs _ _ h

theorem readSampleFrames_shrinks (st : ParserState) (threadSample : ThreadSample) :
    Shrinks (readSampleFrames st threadSample) := by
  refine readShort_consumes.shrinks.bind fun code => ?_
  split
  · exact shrinks_pure _
  · exact (readStackFrames_shrinks _ _ _).bind fun _ => shrinks_pure _

theorem readStartBatch_shrinks (st : ParserState) : Shrinks (readStartBatch st) := by
  refine readInt_shrinks.bind fun version => ?_
  split
  · exact shrinks_pure _
  · exact readInt64_shrinks.bind fun _ => shrinks_pure _

theorem readStartSample_shrinks (frequentSamplingEnabled : Bool) (st : ParserState) :
    Shrinks (readStartSample frequentSamplingEnabled st) := by
  have hmark : Shrinks (readSelectedForFrequentSampling frequentSamplingEnabled) :=
    shrinks_ite (shrinks_next.bind fun _ => shrinks_pure _) (shrinks_pure _)
  refine readString_shrinks.bind fun _ => readInt64_shrinks.bind fun _ => ?_
  refine readInt64_shrinks.bind fun _ => readInt64_shrinks.bind fun _ => ?_
  exact hmark.bind fun _ => readSampleFrames_shrinks _ _

theorem readBatchStats_shrinks (st : ParserState) : Shrinks (readBatchStats st) :=
  readInt_shrinks.bind fun _ => readInt_shrinks.bind fun _ => readInt_shrinks.bind fun _ =>
    readInt_shrinks.bind fun _ => shrinks_pure _

theorem parseOperation_consumes (frequentSamplingEnabled : Bool) (st : ParserState) :
    Consumes (parseOperation frequentSamplingEnabled st) := by
  refine consumes_next.bind fun operationCode => ?_
  exact shrinks_ite (readStartBatch_shrinks st) (shrinks_ite (readStartSample_shrinks _ st)
    (shrinks_ite (shrinks_pure _) (shrinks_ite (readBatchStats_shrinks st) (shrinks_pure _))))

/-- As much fuel as there are bytes is as good as any more. -/
theorem parseLoop_fuel (frequentSamplingEnabled : Bool) (slack n k : ℕ) (st : ParserState)
    (position : List Byte) (h : position.length ≤ n) :
    parseLoop frequentSamplingEnabled slack n st position
      = parseLoop frequentSamplingEnabled slack (n + k) st position := by
  induction n generalizing st position with
  | zero =>
      cases k with
      | zero => rfl
      | succ k =>
          rw [Nat.zero_add, parseLoop, parseLoop, if_pos (Nat.le_trans h (Nat.zero_le _))]
  | succ n ih =>
      rw [Nat.add_right_comm, parseLoop, parseLoop]
      by_cases hend : position.length ≤ slack
      · rw [if_pos hend, if_pos hend]
      · rw [if_neg hend, if_neg hend]
        cases hop : parseOperation frequentSamplingEnabled st position with
        | none => rfl
        | some r =>
            obtain ⟨outcome, rest⟩ := r
            have hrest : rest.length ≤ n := by
              have := parseOperation_consumes _ _ _ _ _ hop
              omega
            cases outcome with
            | next st => exact ih st rest hrest
            | stop st => rfl
            | null => rfl

end AutoInstrumentation.ThreadSamples
