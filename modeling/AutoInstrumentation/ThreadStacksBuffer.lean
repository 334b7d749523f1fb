import AutoInstrumentation.Lib.Table
import AutoInstrumentation.Lib.Transition

/-!
# AutoInstrumentation.ThreadStacksBuffer

The frame storage of the sampling thread (`ThreadStacksBuffer` in `continuous_profiler.cpp`):
one vector of frames for each thread, under a budget for the capacities of all of them.

What `reserve` gives is up to the allocator: at least what was asked, or an exception. A
subtraction that would wrap around and a pointer to a vector that is gone have no result, so
that a step of the model is defined exactly if the code makes no such mistake.
-/

namespace AutoInstrumentation.ThreadStacksBuffer

open Lib

abbrev ThreadId := ℕ

def maximumFramesPerStack : ℕ := 512
def maximumFrameCapacity : ℕ := 32 * 1024
def maximumThreads : ℕ := 1024
def initialStackFrameCapacity : ℕ := 80

/-- A difference of two `size_t`, where it does not wrap around. -/
def checkedSub (a b : ℕ) : Option ℕ := if b ≤ a then some (a - b) else none

variable {Frame : Type}

/-- A `std::vector` of frames. -/
structure FrameVector (Frame : Type) where
  frames : List Frame
  capacity : ℕ
  fits : frames.length ≤ capacity

namespace FrameVector

def empty : FrameVector Frame := ⟨[], 0, Nat.le_refl 0⟩

/-- The frames in storage of a capacity, which grows if they do not fit. -/
def store (frames : List Frame) (capacity : ℕ) : FrameVector Frame :=
  ⟨frames, max capacity frames.length, Nat.le_max_right ..⟩

def pushBack (v : FrameVector Frame) (frame : Frame) : FrameVector Frame :=
  store (v.frames ++ [frame]) v.capacity

def clear (v : FrameVector Frame) : FrameVector Frame := ⟨[], v.capacity, Nat.zero_le _⟩

end FrameVector

/-- What `reserve` gives: a capacity that is at least the one asked for, or an exception. -/
structure Allocator where
  reserve : ThreadId → ℕ → Option ℕ
  enough : ∀ t n capacity, reserve t n = some capacity → n ≤ capacity

/-- What comes of `TryReserveStackFrame`. -/
inductive Reservation (Frame : Type)
  | interrupted
  | refused
  | ready (buffer : FrameVector Frame)

/-- `TryReserveStackFrame`, with what `reserve` gives in this place. -/
def tryReserveStackFrame (reserve : ℕ → Option ℕ) (buffer : FrameVector Frame)
    (maximumCapacity : ℕ) : Reservation Frame :=
  if maximumFramesPerStack ≤ buffer.frames.length then .refused
  else if buffer.frames.length < buffer.capacity then .ready buffer
  else
    let boundedCapacity := min maximumFramesPerStack maximumCapacity
    let nextCapacity :=
      min boundedCapacity (max initialStackFrameCapacity (buffer.capacity * 2))
    if nextCapacity ≤ buffer.capacity then .refused
    else
      match reserve nextCapacity with
      | none => .interrupted
      | some capacity =>
          if boundedCapacity < capacity then .refused
          else .ready (.store buffer.frames capacity)

/-- The state of a buffer. The cached pointer is the thread of the vector it points to. -/
structure State (Frame : Type) where
  threadStacks : Table ThreadId (FrameVector Frame)
  frameCapacity : ℕ
  cachedThread : ThreadId
  cachedStack : Option ThreadId

def State.initial : State Frame where
  threadStacks := .empty
  frameCapacity := 0
  cachedThread := 0
  cachedStack := none

/-- The lookup that fills the cache. -/
def State.findStack (s : State Frame) (threadId : ThreadId) : State Frame × Option ThreadId :=
  if s.cachedStack = none ∨ s.cachedThread ≠ threadId then
    match s.threadStacks.find threadId with
    | none => (s, none)
    | some _ =>
        ({ s with cachedThread := threadId, cachedStack := some threadId }, some threadId)
  else (s, s.cachedStack)

/-- `ThreadStacksBuffer::TryPrepareFrame`, with the thread of the vector that is returned. -/
def State.tryPrepareFrame (allocator : Allocator) (s : State Frame) (threadId : ThreadId) :
    Option (State Frame × Option ThreadId) :=
  match s.findStack threadId with
  | (s, none) => some (s, none)
  | (s, some stack) => do
      let buffer ← s.threadStacks.find stack
      if buffer.frames.length < buffer.capacity then pure (s, some stack)
      else
        let maximumCapacity ←
          checkedSub (buffer.capacity + maximumFrameCapacity) s.frameCapacity
        match tryReserveStackFrame (allocator.reserve stack) buffer maximumCapacity with
        | .interrupted | .refused => pure (s, none)
        | .ready grown =>
            let added ← checkedSub grown.capacity buffer.capacity
            pure ({ s with
              threadStacks := s.threadStacks.update stack grown
              frameCapacity := s.frameCapacity + added }, some stack)

/-- What the callback of the stack walk does with a frame. -/
def State.recordFrame (allocator : Allocator) (s : State Frame) (threadId : ThreadId)
    (frame : Frame) : Option (State Frame) := do
  match ← s.tryPrepareFrame allocator threadId with
  | (s, none) => pure s
  | (s, some stack) =>
      let buffer ← s.threadStacks.find stack
      pure { s with threadStacks := s.threadStacks.update stack (buffer.pushBack frame) }

/-! ### `PrepareForCapture` -/

/-- The capacities of the vectors are given back, one after the other. -/
def release (frameCapacity : ℕ) (buffers : List (ThreadId × FrameVector Frame)) : Option ℕ :=
  buffers.foldlM (fun frameCapacity p => checkedSub frameCapacity p.2.capacity) frameCapacity

/-- The storage of the thread is evicted: it is empty or the thread is not active. -/
def evicted (activeThreads : List ThreadId) (p : ThreadId × FrameVector Frame) : Bool :=
  p.2.capacity = 0 ∨ !activeThreads.contains p.1

/-- The loop that erases the evicted entries. -/
def State.evict (activeThreads : List ThreadId) (s : State Frame) : Option (State Frame) := do
  let frameCapacity ← release s.frameCapacity (s.threadStacks.entries.filter (evicted activeThreads))
  pure { s with
    threadStacks := s.threadStacks.keep fun p => !evicted activeThreads p
    frameCapacity := frameCapacity }

/-- A vector of more than the initial capacity is swapped for one without storage. -/
def reclaimed (initialCapacity : ℕ) (buffer : FrameVector Frame) : FrameVector Frame :=
  if initialCapacity < buffer.capacity then .empty else buffer

/-- The loop that reclaims oversized storage. -/
def State.reclaim (initialCapacity : ℕ) (s : State Frame) : Option (State Frame) := do
  let frameCapacity ← release s.frameCapacity
    (s.threadStacks.entries.filter fun p => initialCapacity < p.2.capacity)
  pure { s with
    threadStacks := s.threadStacks.mapValues (reclaimed initialCapacity)
    frameCapacity := frameCapacity }

/-- The storage reserved for one thread, and whether the loop goes on. -/
def State.reserve (allocator : Allocator) (initialCapacity : ℕ) (threadId : ThreadId)
    (s : State Frame) : Option (State Frame × Bool) :=
  if s.threadStacks.find threadId = none
      ∧ (maximumThreads ≤ s.threadStacks.size ∨ maximumFrameCapacity ≤ s.frameCapacity) then
    some (s, true)
  else do
    let s := { s with threadStacks := s.threadStacks.tryEmplace threadId .empty }
    let buffer ← s.threadStacks.find threadId
    if buffer.capacity = 0 then
      let room ← checkedSub maximumFrameCapacity s.frameCapacity
      match tryReserveStackFrame (allocator.reserve threadId) buffer (min initialCapacity room) with
      | .interrupted => pure (s, false)
      | .refused => pure (s, true)
      | .ready grown =>
          pure ({ s with
            threadStacks := s.threadStacks.update threadId grown
            frameCapacity := s.frameCapacity + grown.capacity }, true)
    else pure (s, true)

/-- The loop that reserves storage for the threads. An exception ends it. -/
def State.reserveAll (allocator : Allocator) (initialCapacity : ℕ) :
    List ThreadId → State Frame → Option (State Frame)
  | [], s => some s
  | threadId :: threads, s => do
      let (s, goesOn) ← s.reserve allocator initialCapacity threadId
      if goesOn then State.reserveAll allocator initialCapacity threads s else pure s

/-- The capacity that each thread is given at first. -/
def initialCapacity (threadCount : ℕ) : ℕ :=
  if threadCount = 0 then initialStackFrameCapacity
  else min initialStackFrameCapacity (maximumFrameCapacity / threadCount)

/-- `ThreadStacksBuffer::PrepareForCapture`, with the threads in the order of the last loop. -/
def State.prepareForCapture (allocator : Allocator) (activeThreads : List ThreadId)
    (s : State Frame) : Option (State Frame) := do
  let s ← { s with cachedStack := none }.evict activeThreads
  let threadCount := min activeThreads.length maximumThreads
  let missingThreads ← checkedSub threadCount s.threadStacks.size
  let room ← checkedSub maximumFrameCapacity s.frameCapacity
  let s ←
    if room < missingThreads * initialCapacity threadCount then
      s.reclaim (initialCapacity threadCount)
    else pure s
  s.reserveAll allocator (initialCapacity threadCount) activeThreads

/-- `ThreadStacksBuffer::Reset`. -/
def State.reset (s : State Frame) : State Frame :=
  { s with threadStacks := s.threadStacks.mapValues FrameVector.clear }

/-- `ThreadStacksBuffer::Clear`. -/
def State.clear (s : State Frame) : State Frame :=
  { s with threadStacks := .empty, frameCapacity := 0, cachedStack := none }

/-! ### Runs -/

inductive Act (Frame : Type)
  | prepareForCapture (allocator : Allocator) (activeThreads : List ThreadId)
      (distinct : activeThreads.Nodup)
  | recordFrame (allocator : Allocator) (threadId : ThreadId) (frame : Frame)
  | reset
  | clear

def State.act (s : State Frame) : Act Frame → Option (State Frame)
  | .prepareForCapture allocator activeThreads _ => s.prepareForCapture allocator activeThreads
  | .recordFrame allocator threadId frame => s.recordFrame allocator threadId frame
  | .reset => some s.reset
  | .clear => some s.clear

def system (Frame : Type) : System (State Frame) (Act Frame) :=
  System.ofStep (· = .initial) State.act

/-- The frames recorded of a thread. -/
def State.recorded (s : State Frame) (t : ThreadId) : List Frame :=
  ((s.threadStacks.find t).map FrameVector.frames).getD []

end AutoInstrumentation.ThreadStacksBuffer
