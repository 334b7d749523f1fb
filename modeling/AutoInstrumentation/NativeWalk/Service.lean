import AutoInstrumentation.NativeWalk.SymbolResolver
import AutoInstrumentation.StackWalkGuard

/-!
# AutoInstrumentation.NativeWalk.Service

The walk over the native frames of a suspended thread (`safe_native_walk_service.cpp`).

`WalkNativeUntilManaged` walks from a context until it reaches managed code, and gives each
native frame to a callback. `ContinueFromProbedFrame0` takes the first frame from the probe
of `StackWalkGuard` instead and walks on behind it. At managed code either hands over to
the snapshot of the runtime, seeded with the context there.

The thread stays suspended, so what the system says of a context does not change, and here
no call faults.
-/

namespace AutoInstrumentation.NativeWalk

open StackWalkGuard (Context CapturedFrame Point Answer ProbeRequest Next checkStep)

abbrev HResult := BitVec 32

def sOk : HResult := 0
def sFalse : HResult := 1
def eFail : HResult := 0x80004005
def corprofEStacksnapshotAborted : HResult := 0x80131361

/-- `FAILED`. -/
def failed (hr : HResult) : Bool := hr.msb

variable {Regs : Type}

/-- The suspended thread and the modules: what the calls of a walk come back with.
`functionEntry` is the image base, which may be 0, with the entry's `BeginAddress`, if
there is an entry; `functionFromIP` is whether the result succeeded, and the id. -/
structure Target (Regs : Type) where
  functionEntry : Context Regs → BitVec 64 × Option (BitVec 32)
  functionFromIP : Context Regs → Bool × BitVec 64
  loader : ModuleLoader
  returnAddress : Context Regs → BitVec 64
  virtualUnwind : Context Regs → Context Regs

/-- The members of `StackSnapshotCallbackContext`, with the frames that its callback has
been given. -/
structure Client where
  frame : CapturedFrame
  cancellationRequested : Bool
  delivered : List CapturedFrame

/-- The client of a capture that begins. -/
def Client.fresh (client : Client) : Client :=
  { client with delivered := [] }

/-- `InvokeCallback`; `answers` are what the callback returns, one after the other. -/
def Client.invokeCallback (answers : ℕ → HResult) (client : Client) : HResult × Client :=
  let result := answers client.delivered.length
  (result, { client with
    cancellationRequested := client.cancellationRequested || result = sFalse
    delivered := client.delivered ++ [client.frame] })

/-- `NativeWalkResult`; there is a seed if `hasSeed`. -/
structure NativeWalkResult (Regs : Type) where
  hr : HResult
  seedCtx : Option (Context Regs)
  nativeFrameCount : ℕ

/-- The variables of `WalkNativeUntilManaged`. -/
structure Walk (Regs : Type) where
  result : NativeWalkResult Regs
  threadCtx : Context Regs
  frameCount : ℕ
  resolver : NativeSymbolResolver
  client : Client

def kMaxDepth : ℕ := 512

section Walk

variable (target : Target Regs) (answers : ℕ → HResult)

/-- `GetFunctionFromIP` finds a managed function. -/
def Target.isManaged (ctx : Context Regs) : Bool :=
  (target.functionFromIP ctx).1 && (target.functionFromIP ctx).2 ≠ 0

/-- The entry of the function, or the instruction pointer of a function without one. -/
def Target.entryIp (ctx : Context Regs) : BitVec 64 :=
  match (target.functionEntry ctx).2 with
  | some beginAddress => (target.functionEntry ctx).1 + beginAddress.setWidth 64
  | none => ctx.rip

/-- The instruction pointer that a native frame is given, and the resolver after it. -/
def Target.frameIp (ctx : Context Regs) (resolver : NativeSymbolResolver) :
    BitVec 64 × NativeSymbolResolver :=
  let imageBase := (target.functionEntry ctx).1
  if imageBase ≠ 0 then
    let sys := resolver.isSystemModule target.loader imageBase
    (if sys.1 = some false then imageBase else target.entryIp ctx, sys.2)
  else (ctx.rip, resolver)

/-- One frame unwound. A function without entry is a leaf, with its return address at
`Rsp`. -/
def Target.unwind (ctx : Context Regs) : Option (Context Regs) :=
  match (target.functionEntry ctx).2 with
  | none =>
      if ctx.rsp = 0 then none
      else some { ctx with rip := target.returnAddress ctx, rsp := ctx.rsp + 8 }
  | some _ => some (target.virtualUnwind ctx)

/-- How a turn of the loop ends: with `break`, or not. -/
inductive Turn (Regs : Type)
  | stop (w : Walk Regs)
  | next (w : Walk Regs)

/-- The turn behind the callback. -/
def afterFrame (w : Walk Regs) : Turn Regs :=
  match target.unwind w.threadCtx with
  | none => .stop w
  | some ctx =>
      -- guard against corrupt unwind data
      if ctx.rip = w.threadCtx.rip then .stop { w with threadCtx := ctx }
      else .next { w with threadCtx := ctx }

/-- One turn of the loop. -/
def walkTurn (w : Walk Regs) : Turn Regs :=
  if target.isManaged w.threadCtx then
    .stop { w with result := { w.result with hr := sOk, seedCtx := some w.threadCtx } }
  else
    let ip := target.frameIp w.threadCtx w.resolver
    let frame := { w.client.frame with
      functionId := 0, instructionPointer := ip.1, frameInfo := 0, contextSize := 0, context := 0
      isUnmanagedFrame := true }
    let called := { w.client with frame := frame }.invokeCallback answers
    let w := { w with resolver := ip.2, client := called.2 }
    if called.1 ≠ sOk then
      .stop { w with
        result := { w.result with hr := if called.1 = sFalse then sOk else called.1 } }
    else afterFrame target { w with frameCount := w.frameCount + 1 }

/-- The loop, for the frames that are left of `kMaxDepth`: a turn that does not end it
counts one. -/
def walkLoop : ℕ → Walk Regs → Walk Regs
  | 0, w => w
  | n + 1, w =>
      if w.threadCtx.rip = 0 then w
      else
        match walkTurn target answers w with
        | .stop w => w
        | .next w => walkLoop n w

/-- Behind the loop. -/
def Walk.finish (w : Walk Regs) : Walk Regs :=
  { w with
    result := { w.result with
      nativeFrameCount := w.frameCount
      hr := if w.result.seedCtx.isNone && 0 < w.frameCount then sOk else w.result.hr } }

/-- The variables before the loop. -/
def Walk.start (initialCtx : Context Regs) (resolver : NativeSymbolResolver) (client : Client) :
    Walk Regs where
  result := { hr := eFail, seedCtx := none, nativeFrameCount := 0 }
  threadCtx := initialCtx
  frameCount := 0
  resolver := resolver
  client := client

/-- `WalkNativeUntilManaged`. -/
def walkNativeUntilManaged (initialCtx : Context Regs) (resolver : NativeSymbolResolver)
    (client : Client) : Walk Regs :=
  (walkLoop target answers kMaxDepth (.start initialCtx resolver client)).finish

/-! ### The continuation from the probe -/

/-- What a capture comes back with: its result, the client, and the context that the
snapshot of the runtime was seeded with, if it was taken. -/
structure Capture (Regs : Type) where
  hr : HResult
  client : Client
  seed : Option (Context Regs)

variable (doStackSnapshot : Context Regs → HResult)

/-- `IssueSeededDss`. -/
def issueSeededDss (seedCtx : Context Regs) : HResult :=
  let hr := doStackSnapshot seedCtx
  if hr = corprofEStacksnapshotAborted then sOk else hr

/-- The part of `ContinueFromProbedFrame0` behind the walk. -/
def seedFromWalk (w : Walk Regs) : Capture Regs :=
  if failed w.result.hr && w.result.nativeFrameCount = 0 then
    { hr := w.result.hr, client := w.client, seed := none }
  else
    match w.result.seedCtx with
    | some seedCtx =>
        { hr := issueSeededDss doStackSnapshot seedCtx, client := w.client, seed := some seedCtx }
    | none => { hr := w.result.hr, client := w.client, seed := none }

/-- `ContinueFromProbedFrame0`. -/
def continueFromProbedFrame0 (managedThreadId : BitVec 64) (ctx : Context Regs)
    (frame0 : CapturedFrame) (resolver : NativeSymbolResolver) (client : Client) : Capture Regs :=
  if !frame0.isUnmanagedFrame then
    let client := { client with frame := { client.frame with threadId := managedThreadId } }
    { hr := issueSeededDss doStackSnapshot ctx, client := client, seed := some ctx }
  else
    let client := { client with frame := { frame0 with threadId := managedThreadId } }
    let called := client.invokeCallback answers
    if called.1 = sFalse then { hr := sOk, client := called.2, seed := none }
    else if failed called.1 then { hr := called.1, client := called.2, seed := none }
    else seedFromWalk doStackSnapshot (walkNativeUntilManaged target answers ctx resolver called.2)

end Walk

/-! ### The probe -/

variable [Inhabited Regs] {Addr : Type}

/-- What `GetModuleFileNameW` comes back with at an image base, and the resolver behind the
classification of the path. -/
def Target.modulePath (target : Target Regs) (imageBase : BitVec 64)
    (resolver : NativeSymbolResolver) : Answer Regs × NativeSymbolResolver :=
  match target.loader.moduleFileName imageBase with
  | none => (.getModuleFileName none, resolver)
  | some path =>
      let sys := resolver.isSystemModuleFromPath target.loader imageBase path.buffer
      (.getModuleFileName (some sys.1), sys.2)

/-- What the call that the probe makes at a point comes back with, and the resolver after
it. -/
def Target.answer (target : Target Regs) (req : ProbeRequest Regs Addr)
    (resolver : NativeSymbolResolver) : Point → Answer Regs × NativeSymbolResolver
  | .rtlLookup =>
      (.rtlLookupFunctionEntry (some (target.functionEntry req.stagedCtx)), resolver)
  | .clrIpMap _ _ => (.getFunctionFromIP (some (target.functionFromIP req.stagedCtx)), resolver)
  | .loaderLock imageBase _ => target.modulePath imageBase resolver
  | .rtlUnwind none => (.returnAddress (some (target.returnAddress req.stagedCtx)), resolver)
  | .rtlUnwind (some _) =>
      (.rtlVirtualUnwind (some (target.virtualUnwind req.stagedCtx)), resolver)
  | _ => (.silent, resolver)

/-- `RunRtlFrame0Checks` runs from a point to its end and succeeds, with what is staged
then and the resolver that it leaves. Whether the orchestrator has abandoned it may be
different at each checkpoint. -/
inductive Succeeds (target : Target Regs) :
    Point → ProbeRequest Regs Addr → NativeSymbolResolver → ProbeRequest Regs Addr →
      NativeSymbolResolver → Prop
  | done {point : Point} {req req' : ProbeRequest Regs Addr} {resolver : NativeSymbolResolver}
      (abandon : Bool) :
      checkStep abandon req point (target.answer req resolver point).1 = some (.done true req') →
      Succeeds target point req resolver req' (target.answer req resolver point).2
  | next {point point' : Point} {req req' req'' : ProbeRequest Regs Addr}
      {resolver resolver' : NativeSymbolResolver} (abandon : Bool)
      {stage : Option StackWalkGuard.ProbeStage} :
      checkStep abandon req point (target.answer req resolver point).1
        = some (.at point' req' stage) →
      Succeeds target point' req' (target.answer req resolver point).2 req'' resolver' →
      Succeeds target point req resolver req'' resolver'

end AutoInstrumentation.NativeWalk
