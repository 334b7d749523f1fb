import AutoInstrumentation.Lib.Transition

/-!
# AutoInstrumentation.StackWalkGuard

The park-then-pump gate of the stack walker (`stack_walk_guard.cpp`), as a
labelled transition system.

Three parties share the members of the guard: the orchestrator, which schedules a
probe and awaits its verdict; the worker thread, which runs the probe; and
whoever calls `RequestShutdown`. One step is one mutex section, one store of the
stage breadcrumb, or one call into the operating system or the runtime, whose
answer the step's label carries. The waits are steps that are enabled when their
predicate holds, and steps that time out when it does not. The model is the x64
build; the x86 build is the part of it that never schedules an `RtlFrame0` probe.

The caller's memory is part of the state, so that a write into it is a change of
the state. Rounds are numbered and what happened is kept in a trace: both are
bookkeeping for the proofs, and no step reads them.
-/

namespace AutoInstrumentation.StackWalkGuard

open Lib

/-! ### The guard's own types -/

inductive ProbeResult
  | success
  | failed
  | stopping
  | heapOrStlLockTimeout
  | canaryDssTimeout
  | rtlLookupTimeout
  | clrIpMapTimeout
  | loaderLockTimeout
  | rtlUnwindTimeout
  deriving DecidableEq, Repr

inductive ProbeStage
  | none
  | heapOrStlGate
  | canaryDss
  | rtlLookup
  | clrIpMap
  | loaderLock
  | rtlUnwind
  deriving DecidableEq, Repr

inductive ProbeKind
  | none
  | canaryDss
  | rtlFrame0
  deriving DecidableEq, Repr

/-- `StackWalkGuard::State`. -/
inductive GuardState
  | starting
  | idle
  | scheduled
  | running
  | stopping
  deriving DecidableEq, Repr

def timeoutResultForStage : ProbeStage → ProbeResult
  | .heapOrStlGate => .heapOrStlLockTimeout
  | .canaryDss => .canaryDssTimeout
  | .rtlLookup => .rtlLookupTimeout
  | .clrIpMap => .clrIpMapTimeout
  | .loaderLock => .loaderLockTimeout
  | .rtlUnwind => .rtlUnwindTimeout
  | .none => .failed

/-- A thread's `CONTEXT`: the two registers the probe reads, and the others. -/
structure Context (Regs : Type) where
  rip : BitVec 64
  rsp : BitVec 64
  regs : Regs
  deriving Inhabited

structure CapturedFrame where
  functionId : BitVec 64 := 0
  instructionPointer : BitVec 64 := 0
  frameInfo : BitVec 64 := 0
  contextSize : BitVec 32 := 0
  context : BitVec 64 := 0
  threadId : BitVec 64 := 0
  isUnmanagedFrame : Bool := false
  deriving DecidableEq, Inhabited

structure ProbeRequest (Regs Addr : Type) [Inhabited Regs] where
  kind : ProbeKind := .none
  canary : BitVec 64 := 0
  ctxInout : Option Addr := none
  frameOut : Option Addr := none
  stagedCtx : Context Regs := default
  stagedFrame : CapturedFrame := {}

/-- A latched request with the number of its round. The code has no such number. -/
structure Job (Regs Addr : Type) [Inhabited Regs] where
  round : ℕ
  req : ProbeRequest Regs Addr

/-! ### The probes

`RunChecks` and what it calls, cut at every call that leaves the guard and at
every checkpoint, where the mutex is taken to read `abandon_`. -/

/-- Where the worker stands inside `RunChecks`. The arguments are the locals of
`RunRtlFrame0Checks` that are still to be read: `imageBase`, and `rtFuncBegin`
when there is a function entry. -/
inductive Point
  | dispatch
  | canarySnapshot
  | canaryCheckpoint
  | rtlLookupStage
  | rtlLookup
  | rtlLookupCheckpoint (imageBase : BitVec 64) (rtFunc : Option (BitVec 32))
  | clrIpMapStage (imageBase : BitVec 64) (rtFunc : Option (BitVec 32))
  | clrIpMap (imageBase : BitVec 64) (rtFunc : Option (BitVec 32))
  | clrIpMapCheckpoint (imageBase : BitVec 64) (rtFunc : Option (BitVec 32))
      (managedFuncId : Option (BitVec 64))
  | loaderLockStage (imageBase : BitVec 64) (rtFunc : Option (BitVec 32))
  | loaderLock (imageBase : BitVec 64) (rtFunc : Option (BitVec 32))
  | loaderLockCheckpoint (imageBase : BitVec 64) (rtFunc : Option (BitVec 32))
      (isSystemModule : Option Bool)
  | rtlUnwindStage (rtFunc : Option (BitVec 32))
  | rtlUnwind (rtFunc : Option (BitVec 32))
  | finalCheckpoint
  deriving DecidableEq

/-- What a call that leaves the guard comes back with. A structured exception
that the probe catches is `none`. -/
inductive Answer (Regs : Type)
  /-- The step makes no such call. -/
  | silent
  | initializeCurrentThread (succeeded : Bool)
  | allocated (ok : Bool)
  /-- The callback fired, and the result was `CORPROF_E_STACKSNAPSHOT_ABORTED`. -/
  | doStackSnapshot (returned : Option (Bool × Bool))
  | rtlLookupFunctionEntry (found : Option (BitVec 64 × Option (BitVec 32)))
  /-- Whether the result succeeded, and the function id. -/
  | getFunctionFromIP (returned : Option (Bool × BitVec 64))
  /-- `none` when there is no path; then what `IsSystemModuleFromPath` says of it. -/
  | getModuleFileName (path : Option (Option Bool))
  /-- The word at `Rsp`, for a frame without function entry. -/
  | returnAddress (word : Option (BitVec 64))
  | rtlVirtualUnwind (ctx : Option (Context Regs))

variable {Regs Addr : Type} [Inhabited Regs]

/-- How one step of `RunChecks` ends: at the next point, with the stage it
stored, or with the return value. -/
inductive Next (Regs Addr : Type) [Inhabited Regs]
  | at (point : Point) (req : ProbeRequest Regs Addr) (stage : Option ProbeStage)
  | done (ok : Bool) (req : ProbeRequest Regs Addr)

/-- `frameIp` of a native frame: the image base for a module outside the system
directory, the function entry for a system or unclassified one, and the raw
instruction pointer when there is no image or no entry. -/
def frameIp (rip imageBase : BitVec 64) (rtFunc : Option (BitVec 32)) :
    Option Bool → BitVec 64
  | some false => imageBase
  | _ =>
      if imageBase = 0 then rip
      else match rtFunc with
        | some rtFuncBegin => imageBase + rtFuncBegin.setWidth 64
        | none => rip

/-- Step 3 of `RunRtlFrame0Checks`: the decoded frame. -/
def stageFrame (req : ProbeRequest Regs Addr) (functionId : BitVec 64) (isUnmanagedFrame : Bool) :
    ProbeRequest Regs Addr :=
  { req with stagedFrame := { req.stagedFrame with
      frameInfo := 0, contextSize := 0, context := 0
      instructionPointer := req.stagedCtx.rip
      functionId, isUnmanagedFrame } }

def setFrameIp (req : ProbeRequest Regs Addr) (ip : BitVec 64) : ProbeRequest Regs Addr :=
  { req with stagedFrame := { req.stagedFrame with instructionPointer := ip } }

/-- The unwound context goes to the final checkpoint unless the unwind made no
progress. -/
def unwound (req : ProbeRequest Regs Addr) (ctx : Context Regs) : Next Regs Addr :=
  let req' := { req with stagedCtx := ctx }
  if ctx.rip = req.stagedCtx.rip then .done false req' else .at .finalCheckpoint req' none

/-- One step of `RunChecks`. -/
def checkStep (abandon : Bool) (req : ProbeRequest Regs Addr) :
    Point → Answer Regs → Option (Next Regs Addr)
  | .dispatch, .silent =>
      match req.kind with
      | .none => some (.done false req)
      | .canaryDss =>
          if req.canary = 0 then some (.done true req)
          else some (.at .canarySnapshot req (some .canaryDss))
      | .rtlFrame0 =>
          if req.ctxInout.isNone || req.frameOut.isNone then some (.done false req)
          else if req.stagedCtx.rip = 0 then some (.done false req)
          else some (.at .rtlLookupStage req none)
  | .canarySnapshot, .doStackSnapshot none => some (.done false req)
  | .canarySnapshot, .doStackSnapshot (some (fired, aborted)) =>
      if !fired || !aborted then some (.done false req)
      else some (.at .canaryCheckpoint req none)
  | .canaryCheckpoint, .silent => some (.done (!abandon) req)
  | .rtlLookupStage, .silent => some (.at .rtlLookup req (some .rtlLookup))
  | .rtlLookup, .rtlLookupFunctionEntry none => some (.done false req)
  | .rtlLookup, .rtlLookupFunctionEntry (some (imageBase, rtFunc)) =>
      some (.at (.rtlLookupCheckpoint imageBase rtFunc) req none)
  | .rtlLookupCheckpoint imageBase rtFunc, .silent =>
      if abandon then some (.done false req)
      else some (.at (.clrIpMapStage imageBase rtFunc) req none)
  | .clrIpMapStage imageBase rtFunc, .silent =>
      some (.at (.clrIpMap imageBase rtFunc) req (some .clrIpMap))
  | .clrIpMap _ _, .getFunctionFromIP none => some (.done false req)
  | .clrIpMap imageBase rtFunc, .getFunctionFromIP (some (succeeded, id)) =>
      let managedFuncId := if succeeded && id ≠ 0 then some id else none
      some (.at (.clrIpMapCheckpoint imageBase rtFunc managedFuncId) req none)
  | .clrIpMapCheckpoint imageBase rtFunc managedFuncId, .silent =>
      if abandon then some (.done false req)
      else match managedFuncId with
        | some id => some (.at .finalCheckpoint (stageFrame req id false) none)
        | none => some (.at (.loaderLockStage imageBase rtFunc) (stageFrame req 0 true) none)
  | .loaderLockStage imageBase rtFunc, .silent =>
      if imageBase = 0 then
        some (.at (.rtlUnwindStage rtFunc)
          (setFrameIp req (frameIp req.stagedCtx.rip imageBase rtFunc none)) (some .loaderLock))
      else some (.at (.loaderLock imageBase rtFunc) req (some .loaderLock))
  | .loaderLock imageBase rtFunc, .getModuleFileName path =>
      some (.at (.loaderLockCheckpoint imageBase rtFunc path.join) req none)
  | .loaderLockCheckpoint imageBase rtFunc isSystemModule, .silent =>
      if abandon then some (.done false req)
      else some (.at (.rtlUnwindStage rtFunc)
        (setFrameIp req (frameIp req.stagedCtx.rip imageBase rtFunc isSystemModule)) none)
  | .rtlUnwindStage rtFunc, .silent => some (.at (.rtlUnwind rtFunc) req (some .rtlUnwind))
  | .rtlUnwind none, .returnAddress word =>
      if req.stagedCtx.rsp = 0 then some (.done false req)
      else match word with
        | none => some (.done false req)
        | some rip =>
            some (unwound req { req.stagedCtx with rip, rsp := req.stagedCtx.rsp + 8 })
  | .rtlUnwind (some _), .rtlVirtualUnwind none => some (.done false req)
  | .rtlUnwind (some _), .rtlVirtualUnwind (some ctx) => some (unwound req ctx)
  | .finalCheckpoint, .silent => some (.done (!abandon) req)
  | _, _ => none

/-! ### The parties -/

/-- Where the worker thread stands in `WorkerLoop`. -/
inductive Worker (Regs Addr : Type) [Inhabited Regs]
  | starting
  | initializing
  | initialized (succeeded : Bool)
  /-- In the wait at the head of the loop. -/
  | waiting
  /-- The request is consumed; the stage is still to be stored. -/
  | consumed (job : Job Regs Addr)
  /-- In the allocation of the heap and STL gate. -/
  | gate (job : Job Regs Addr)
  | gateThrew (job : Job Regs Addr)
  | gatePassed (job : Job Regs Addr)
  | checking (job : Job Regs Addr) (point : Point)
  | publishing (job : Job Regs Addr) (ok : Bool)
  /-- In the catch block of `WorkerLoop`. -/
  | caught
  | exited

/-- Where the orchestrator stands. -/
inductive Caller (Regs Addr : Type) [Inhabited Regs]
  /-- In neither `Schedule` nor `Await`: its memory is its own. -/
  | free
  /-- In the wait of `Schedule`. -/
  | scheduling (req : ProbeRequest Regs Addr)
  /-- `Schedule` returned true and `Await` has not returned. -/
  | awaiting

/-- What the trace records of a round. -/
inductive Event (Regs Addr : Type)
  /-- `RunChecks` returned true with these values staged. -/
  | passed (round : ℕ) (ctx : Context Regs) (frame : CapturedFrame)
  /-- The outputs were written through these pointers. -/
  | wrote (round : ℕ) (ctxInout frameOut : Addr) (ctx : Context Regs) (frame : CapturedFrame)
  /-- `Await` returned. -/
  | returned (round : ℕ) (verdict : ProbeResult)

structure State (Regs Addr : Type) [Inhabited Regs] where
  state : GuardState
  req : Job Regs Addr
  abandon : Bool
  result : ProbeResult
  activeStage : ProbeStage
  worker : Worker Regs Addr
  caller : Caller Regs Addr
  /-- The caller's context and frame objects. -/
  ctxMem : Addr → Context Regs
  frameMem : Addr → CapturedFrame
  /-- The number of rounds scheduled so far. -/
  round : ℕ
  /-- What happened, newest first. -/
  trace : List (Event Regs Addr)

inductive Act (Regs Addr : Type)
  /-- The orchestrator, between rounds, does what it likes with its own objects. -/
  | callerWrites (ctxMem : Addr → Context Regs) (frameMem : Addr → CapturedFrame)
  | scheduleDssProbe (canary : BitVec 64)
  | scheduleRtlFrame0Probe (ctx frame : Option Addr)
  /-- The section of `Schedule` after its wait. -/
  | schedule
  /-- The wait of `Schedule` reaches `park_timeout_`. -/
  | parkTimeout
  | await
  /-- The wait of `Await` reaches `probe_timeout_`. -/
  | probeTimeout
  | requestShutdown
  /-- The worker's next step. -/
  | work (answer : Answer Regs)
  /-- Taking the mutex or waiting throws out of `WorkerLoopCore`. -/
  | workerThrows
  /-- Taking the mutex throws in the catch block. -/
  | recoveryThrows

variable [DecidableEq Addr]

/-- The section that publishes a verdict; the only code that writes the outputs. -/
def publish (s : State Regs Addr) (job : Job Regs Addr) (ok : Bool) : State Regs Addr :=
  let success := ok && !s.abandon
  let s := { s with
    result := if success then .success else .failed
    state := .idle
    activeStage := .none
    worker := .waiting }
  match success, job.req.kind, job.req.ctxInout, job.req.frameOut with
  | true, .rtlFrame0, some ctxInout, some frameOut =>
      { s with
        ctxMem := Function.update s.ctxMem ctxInout job.req.stagedCtx
        frameMem := Function.update s.frameMem frameOut job.req.stagedFrame
        trace := .wrote job.round ctxInout frameOut job.req.stagedCtx job.req.stagedFrame
          :: s.trace }
  | _, _, _, _ => s

/-- What one step of `RunChecks` does to the state. -/
def afterCheck (s : State Regs Addr) (job : Job Regs Addr) : Next Regs Addr → State Regs Addr
  | .at point req stage =>
      { s with
        activeStage := stage.getD s.activeStage
        worker := .checking { job with req } point }
  | .done true req =>
      { s with
        worker := .publishing { job with req } true
        trace := .passed job.round req.stagedCtx req.stagedFrame :: s.trace }
  | .done false req => { s with worker := .publishing { job with req } false }

/-- One step of the worker. -/
def workerStep (s : State Regs Addr) (answer : Answer Regs) : Option (State Regs Addr) :=
  match s.worker, answer with
  | .starting, .silent =>
      some { s with worker := if s.state = .stopping then .exited else .initializing }
  | .initializing, .initializeCurrentThread succeeded =>
      some { s with worker := .initialized succeeded }
  | .initialized succeeded, .silent =>
      if s.state = .stopping then some { s with worker := .exited }
      else if succeeded then some { s with state := .idle, worker := .waiting }
      else some { s with result := .failed, state := .stopping, worker := .exited }
  | .waiting, .silent =>
      match s.state with
      | .stopping => some { s with worker := .exited }
      | .scheduled => some { s with state := .running, worker := .consumed s.req }
      | _ => none
  | .consumed job, .silent =>
      some { s with activeStage := .heapOrStlGate, worker := .gate job }
  | .gate job, .allocated ok =>
      some { s with worker := if ok then .gatePassed job else .gateThrew job }
  | .gateThrew _, .silent =>
      if s.state = .stopping then some { s with worker := .exited }
      else some { s with
        result := .failed, state := .idle, activeStage := .none, worker := .waiting }
  | .gatePassed job, .silent =>
      if s.abandon then some { s with worker := .publishing job false }
      else some { s with worker := .checking job .dispatch }
  | .checking job point, answer =>
      (checkStep s.abandon job.req point answer).map (afterCheck s job)
  | .publishing job ok, .silent =>
      if s.state = .stopping then some { s with worker := .exited }
      else some (publish s job ok)
  | .caught, .silent =>
      some { s with result := .failed, state := .stopping, activeStage := .none, worker := .exited }
  | _, _ => none

/-- The worker is about to take the mutex in `WorkerLoopCore`. `RunChecks` is
`noexcept`, so its checkpoints are not among these points. -/
def Worker.locks : Worker Regs Addr → Bool
  | .starting | .initialized _ | .waiting | .gateThrew _ | .gatePassed _ | .publishing _ _ => true
  | _ => false

/-- `Await` returns this verdict. -/
def State.returns (s : State Regs Addr) (verdict : ProbeResult) : State Regs Addr :=
  { s with caller := .free, trace := .returned s.round verdict :: s.trace }

/-- The predicate that both of the orchestrator's waits wait for. -/
def State.quiescent (s : State Regs Addr) : Bool :=
  s.state = .idle || s.state = .stopping

/-- One step; `none` when the step is not enabled. -/
def step (s : State Regs Addr) : Act Regs Addr → Option (State Regs Addr)
  | .callerWrites ctxMem frameMem =>
      match s.caller with
      | .free => some { s with ctxMem, frameMem }
      | _ => none
  | .scheduleDssProbe canary =>
      match s.caller with
      | .free => some { s with caller := .scheduling { kind := .canaryDss, canary } }
      | _ => none
  | .scheduleRtlFrame0Probe ctx frame =>
      match s.caller, ctx, frame with
      | .free, some ctx, some frame =>
          some { s with caller := .scheduling {
            kind := .rtlFrame0
            ctxInout := some ctx
            frameOut := some frame
            stagedCtx := s.ctxMem ctx } }
      | .free, _, _ => some s
      | _, _, _ => none
  | .schedule =>
      match s.caller with
      | .scheduling req =>
          if !s.quiescent then none
          else if s.state = .stopping then some { s with caller := .free }
          else some { s with
            req := ⟨s.round + 1, req⟩
            abandon := false
            result := .failed
            activeStage := .none
            state := .scheduled
            caller := .awaiting
            round := s.round + 1 }
      | _ => none
  | .parkTimeout =>
      match s.caller with
      | .scheduling _ => if s.quiescent then none else some { s with caller := .free }
      | _ => none
  | .await =>
      match s.caller with
      | .awaiting =>
          if !s.quiescent then none
          else if s.state = .stopping then
            some ({ s with abandon := true }.returns .stopping)
          else some (s.returns s.result)
      | _ => none
  | .probeTimeout =>
      match s.caller with
      | .awaiting =>
          if s.quiescent then none
          else
            let timeoutResult := timeoutResultForStage s.activeStage
            some ({ s with abandon := true, result := timeoutResult }.returns timeoutResult)
      | _ => none
  | .requestShutdown =>
      if s.state = .stopping then some s
      else some { s with abandon := true, state := .stopping }
  | .work answer => workerStep s answer
  | .workerThrows => if s.worker.locks then some { s with worker := .caught } else none
  | .recoveryThrows =>
      match s.worker with
      | .caught => some { s with worker := .exited }
      | _ => none

/-- The guard is constructed over caller memory with any contents. -/
def State.initial (ctxMem : Addr → Context Regs) (frameMem : Addr → CapturedFrame) :
    State Regs Addr where
  state := .starting
  req := ⟨0, {}⟩
  abandon := false
  result := .failed
  activeStage := .none
  worker := .starting
  caller := .free
  ctxMem := ctxMem
  frameMem := frameMem
  round := 0
  trace := []

/-- The guard with one orchestrator and its worker. -/
def guard (Regs Addr : Type) [Inhabited Regs] [DecidableEq Addr] :
    System (State Regs Addr) (Act Regs Addr) :=
  .ofStep (fun s => ∃ ctxMem frameMem, s = .initial ctxMem frameMem) step

/-! ### What the proofs speak about -/

/-- The values staged when the checks of round `n` passed. -/
def passes (n : ℕ) : List (Event Regs Addr) → List (Context Regs × CapturedFrame) :=
  List.filterMap fun
    | .passed m ctx frame => if m = n then some (ctx, frame) else none
    | _ => none

/-- The values written to the outputs in round `n`. -/
def writes (n : ℕ) : List (Event Regs Addr) → List (Context Regs × CapturedFrame) :=
  List.filterMap fun
    | .wrote m _ _ ctx frame => if m = n then some (ctx, frame) else none
    | _ => none

/-- The rounds reported as successful. -/
def successes : List (Event Regs Addr) → List ℕ :=
  List.filterMap fun
    | .returned m .success => some m
    | _ => none

/-- The trace never has a write of a round after the return of its `Await`. -/
def NoLateWrite : List (Event Regs Addr) → Prop :=
  List.Pairwise fun
    | .wrote m _ _ _ _, .returned n _ => m ≠ n
    | _, _ => True

end AutoInstrumentation.StackWalkGuard
