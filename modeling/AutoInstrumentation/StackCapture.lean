import AutoInstrumentation.Enumerator
import AutoInstrumentation.Lib.Monitored
import AutoInstrumentation.NativeWalk.Service
import AutoInstrumentation.NetFxRuntimeCapture

/-!
# AutoInstrumentation.StackCapture

The capture of a batch of stacks: `StackCaptureImpl::CaptureStacks` with the two runtimes
behind it, `ClrRuntimeCapture` and `NetFxRuntimeCapture`, and the guards that suspend
(`stack_capturer.cpp`, `clr_runtime_capture.cpp`, `netfx_runtime_capture.cpp`,
`suspension_guards.cpp`, `thread_suspend.cpp`).

Each is a program of calls into the operating system, the runtime, the stack walk guard
and the log, whose answers are open, as is the moment at which the capturer is told to
stop. A guard is a scope: what its constructor acquired is released where it ends, by a
return or by an exception. Writing a log line allocates, and can throw; where the source
is `noexcept` that ends the process, which is left out.
-/

namespace AutoInstrumentation.StackCapture

open Lib
open NativeWalk (eFail failed)
open NetFxRuntimeCapture (ThreadId OsThreadId CanarySnapshot)
open StackWalkGuard (ProbeResult)

def eInvalidArg : HResult := 0x80070057

/-- The runtimes and builds; `x64` says whether there is a native walk. -/
inductive Runtime
  | clr (x64 : Bool)
  | netFx (x64 : Bool)
  deriving DecidableEq, Repr

/-- What is called. -/
inductive Call
  /-- `stopping_.load` -/
  | stopping
  /-- the member of the callback context -/
  | cancellationRequested
  | suspendRuntime
  | resumeRuntime
  | snapshotCanary
  | getThreadInfo (managedThreadId : ThreadId)
  | openThread (osThreadId : OsThreadId)
  | suspendThread (osThreadId : OsThreadId)
  | resumeThread (osThreadId : OsThreadId)
  | closeHandle (osThreadId : OsThreadId)
  | getThreadContext (osThreadId : OsThreadId)
  | scheduleRtlFrame0Probe
  | awaitRtlFrame0ProbeResult
  | scheduleDssProbe (managedThreadId : ThreadId)
  | awaitProbeResult
  | doStackSnapshotUnseeded (managedThreadId : ThreadId)
  /-- `IssueSeededDss` -/
  | doStackSnapshot (managedThreadId : ThreadId)
  | invokeCallback
  | walkNativeUntilManaged
  | log
  deriving DecidableEq, Repr

/-- What a call can answer: of a probe of the first frame also whether that is unmanaged,
of a native walk the result, the number of frames and whether there is a seed, and of the
log whether it throws. -/
abbrev Call.Answer : Call → Type
  | .stopping | .cancellationRequested => Bool
  | .suspendRuntime | .resumeRuntime => HResult
  | .snapshotCanary => CanarySnapshot
  | .getThreadInfo _ => HResult × OsThreadId
  | .openThread _ | .suspendThread _ => Bool
  | .resumeThread _ | .closeHandle _ => Unit
  | .getThreadContext _ => Bool
  | .scheduleRtlFrame0Probe | .scheduleDssProbe _ => Bool
  | .awaitRtlFrame0ProbeResult => ProbeResult × Bool
  | .awaitProbeResult => ProbeResult
  | .doStackSnapshotUnseeded _ | .doStackSnapshot _ | .invokeCallback => HResult
  | .walkNativeUntilManaged => HResult × ℕ × Bool
  | .log => Bool

/-- What is thrown: the result of a probe, or a `std::exception`. -/
inductive Thrown
  | probe (result : ProbeResult)
  | exception
  deriving DecidableEq, Repr

abbrev Capture := Prog Call.Answer Thrown

/-- The call, in a program of a capture. -/
def perform (c : Call) : Capture c.Answer := Prog.perform c

def log : Capture Unit :=
  .call .log fun throws => if throws then .throw .exception else .pure ()

/-- A log line of a `noexcept` function. -/
def logNoexcept : Capture Unit := .call .log fun _ => .pure ()

/-! ### Guards -/

/-- The constructor of `ScopedThreadSuspend`: whether the thread was suspended. -/
def scopedThreadSuspend (osThreadId : OsThreadId) : Capture Bool :=
  .call (.openThread osThreadId) fun isValid =>
    if isValid then
      .call (.suspendThread osThreadId) fun suspended =>
        if suspended then .pure true
        else .call (.closeHandle osThreadId) fun _ => .pure false
    else .pure false

/-- The destructor of `ScopedThreadSuspend`. -/
def ScopedThreadSuspend.release (osThreadId : OsThreadId) (suspended : Bool) : Capture Unit :=
  if suspended then
    .call (.resumeThread osThreadId) fun _ => .call (.closeHandle osThreadId) fun _ => .pure ()
  else .pure ()

/-- The scope of a `ThreadGuard`. -/
def threadGuard {α : Type} (osThreadId : OsThreadId) (body : Bool → Capture α) : Capture α :=
  .scope (scopedThreadSuspend osThreadId) (ScopedThreadSuspend.release osThreadId) body

/-- `SuspendRuntime`. -/
def suspendRuntime : Runtime → Capture HResult
  | .clr _ => do
      let hr ← perform .suspendRuntime
      if failed hr then log
      pure hr
  | .netFx _ => pure sOk

/-- `ResumeRuntime`. -/
def resumeRuntime : Runtime → Capture Unit
  | .clr _ => do
      let hr ← perform .resumeRuntime
      if failed hr then logNoexcept
  | .netFx _ => pure ()

/-- The scope of a `RuntimeGuard`. -/
def runtimeGuard {α : Type} (runtime : Runtime) (body : Bool → Capture α) : Capture α :=
  .scope (do
      let hr ← suspendRuntime runtime
      pure (!failed hr))
    (fun active => if active then resumeRuntime runtime else pure ()) body

/-! ### One stack -/

/-- `ContinueFromProbedFrame0`. -/
def continueFromProbedFrame0 (managedThreadId : ThreadId) (isUnmanagedFrame : Bool) :
    Capture HResult := do
  log
  if !isUnmanagedFrame then perform (.doStackSnapshot managedThreadId)
  else
    let cbHr ← perform .invokeCallback
    if cbHr = sFalse then pure sOk
    else if failed cbHr then pure cbHr
    else
      let (walkHr, nativeFrameCount, hasSeed) ← perform .walkNativeUntilManaged
      if failed walkHr ∧ nativeFrameCount = 0 then pure walkHr
      else
        let hr ← if hasSeed then perform (.doStackSnapshot managedThreadId) else pure walkHr
        log
        pure hr

/-- The probe of the first frame of the suspended target, and what follows it. -/
def probeFrame0 (osThreadId : OsThreadId) (next : Bool → Capture HResult) : Capture HResult := do
  if !(← perform (.getThreadContext osThreadId)) then .throw (.probe .failed)
  else if !(← perform .scheduleRtlFrame0Probe) then .throw (.probe .failed)
  else
    let (result, isUnmanagedFrame) ← perform .awaitRtlFrame0ProbeResult
    if result ≠ .success then .throw (.probe result) else next isUnmanagedFrame

/-- The probe of the canary, and what follows it. -/
def probeCanary (canary : CanarySnapshot) (next : Capture HResult) : Capture HResult := do
  if !(← perform (.scheduleDssProbe canary.managedId)) then .throw (.probe .failed)
  else
    let result ← perform .awaitProbeResult
    if result ≠ .success then .throw (.probe result) else next

/-- The handler of a probe that failed. -/
def abandoned (hr : HResult) : Thrown → Capture HResult
  | .probe _ => do
      log
      pure hr
  | .exception => .throw .exception

/-- `ClrRuntimeCapture::CaptureStack`. -/
def clrCaptureStack (x64 : Bool) (managedThreadId : ThreadId) : Capture HResult := do
  let hr ← perform (.doStackSnapshotUnseeded managedThreadId)
  if !failed hr || !x64 then pure hr
  else
    log
    let (osHr, osThreadId) ← perform (.getThreadInfo managedThreadId)
    if failed osHr ∨ osThreadId = 0 then
      log
      pure hr
    else
      Prog.tryCatch
        (threadGuard osThreadId fun isAcquired =>
          if !isAcquired then .throw (.probe .failed)
          else probeFrame0 osThreadId (continueFromProbedFrame0 managedThreadId))
        (abandoned hr)

/-- `NetFxRuntimeCapture::CaptureStack`. -/
def netFxCaptureStack (x64 : Bool) (managedThreadId : ThreadId) : Capture HResult := do
  let canary ← perform .snapshotCanary
  if !canary.isValid then
    log
    pure eFail
  else if canary.managedId = managedThreadId then pure sFalse
  else
    let (hr, osThreadId) ← perform (.getThreadInfo managedThreadId)
    if failed hr ∨ osThreadId = 0 then
      log
      pure (if failed hr then hr else eFail)
    else
      Prog.tryCatch
        (threadGuard osThreadId fun isAcquired =>
          if !isAcquired then .throw (.probe .failed)
          else threadGuard canary.osId fun isAcquired =>
            if !isAcquired then .throw (.probe .failed)
            else if x64 then
              probeFrame0 osThreadId fun isUnmanagedFrame =>
                probeCanary canary (continueFromProbedFrame0 managedThreadId isUnmanagedFrame)
            else probeCanary canary (perform (.doStackSnapshotUnseeded managedThreadId)))
        (abandoned eFail)

/-- `CaptureStack`. -/
def captureStack : Runtime → ThreadId → Capture HResult
  | .clr x64 => clrCaptureStack x64
  | .netFx x64 => netFxCaptureStack x64

/-! ### The batch -/

/-- The loop over the threads. -/
def captureThreads (runtime : Runtime) : List ThreadId → HResult → Capture HResult
  | [], captureResult => pure (if failed captureResult then captureResult else sOk)
  | managedThreadId :: threads, captureResult => do
      if ← perform .stopping then pure sFalse
      else
        let frameHr ← captureStack runtime managedThreadId
        if ← perform .stopping then pure sFalse
        else if ← perform .cancellationRequested then pure sFalse
        else
          captureThreads runtime threads
            (if failed frameHr && !failed captureResult then frameHr else captureResult)

/-- The handler of `CaptureStacks`, of a `std::exception`. -/
def caught : Thrown → Capture HResult
  | .exception => do
      log
      pure eFail
  | .probe result => .throw (.probe result)

/-- `CaptureStacks`; `threads` is the order in which the set is walked, and `hasContext`
says that the client data are there. -/
def captureStacks (runtime : Runtime) (threads : List ThreadId) (hasContext : Bool) :
    Capture HResult := do
  if ← perform .stopping then pure sFalse
  else if threads = [] then pure sOk
  else if !hasContext then pure eInvalidArg
  else
    Prog.tryCatch
      (runtimeGuard runtime fun isActive => do
        if !isActive then
          log
          pure eFail
        else if ← perform .stopping then pure sFalse
        else captureThreads runtime threads sOk)
      caught

end AutoInstrumentation.StackCapture
