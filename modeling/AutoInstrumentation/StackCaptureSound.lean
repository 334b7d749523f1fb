import AutoInstrumentation.StackCapture

/-!
# AutoInstrumentation.StackCaptureSound

What a batch of captures never does, and what it leaves.

`watch` is the discipline of suspension as a monitor over the calls: while a thread is
suspended, nothing that may take one of its locks is called before the probes have passed
under the same suspension; only the thread that was suspended for it is walked, and never
the canary; guards are released in the reverse order; and nothing begins once the capturer
was seen to stop. `captureStacks_disciplined` says that no call of a batch is refused,
whatever the calls answer and wherever an exception is thrown, and that nothing stays
suspended or open.
-/

namespace AutoInstrumentation.StackCapture

open Lib
open NativeWalk (eFail failed)
open NetFxRuntimeCapture (ThreadId OsThreadId CanarySnapshot)

/-! ### The discipline -/

/-- What the monitor remembers. The threads that are suspended, and the handles that are
open, are listed with the innermost first; `threadInfo` is the thread that was asked for
last, with what was answered; `framed` and `certified` say that the probe of the first
frame and the one of the canary passed since the last thread was suspended. -/
structure Watch where
  stopped : Bool
  runtimeSuspended : Bool
  handles : List OsThreadId
  suspended : List OsThreadId
  canary : CanarySnapshot
  threadInfo : ThreadId × OsThreadId
  framed : Bool
  certified : Bool
  deriving DecidableEq, Repr

def Watch.initial : Watch where
  stopped := false
  runtimeSuspended := false
  handles := []
  suspended := []
  canary := .none
  threadInfo := (0, 0)
  framed := false
  certified := false

variable (runtime : Runtime)

/-- The target is suspended, and the probes that the runtime needs have passed. -/
def Watch.shielded (w : Watch) : Bool :=
  w.threadInfo.2 ∈ w.suspended && match runtime with
    | .clr _ => w.runtimeSuspended && w.framed
    | .netFx true => w.framed && w.certified
    | .netFx false => w.certified

/-- The thread is the target, and not the canary, which only the .NET Framework has. -/
def Watch.mayWalk (w : Watch) (managedThreadId : ThreadId) : Bool :=
  w.threadInfo.1 = managedThreadId && match runtime with
    | .clr _ => true
    | .netFx _ => managedThreadId ≠ w.canary.managedId

/-- The calls that may be made. -/
def Watch.allows (w : Watch) : Call → Bool
  | .stopping => true
  | .cancellationRequested | .snapshotCanary => w.suspended.isEmpty
  | .suspendRuntime => !w.stopped && !w.runtimeSuspended && w.suspended.isEmpty
  | .resumeRuntime => w.runtimeSuspended && w.suspended.isEmpty && w.handles.isEmpty
  | .getThreadInfo _ => !w.stopped && w.suspended.isEmpty
  | .openThread _ => !w.stopped
  | .suspendThread osThreadId =>
      !w.stopped && w.handles.head? = some osThreadId
        && w.handles.length = w.suspended.length + 1
  | .resumeThread osThreadId =>
      w.suspended.head? = some osThreadId && w.handles.length = w.suspended.length
  | .closeHandle osThreadId =>
      w.handles.head? = some osThreadId && w.handles.length = w.suspended.length + 1
  | .getThreadContext osThreadId =>
      w.threadInfo.2 = osThreadId && osThreadId ∈ w.suspended
  | .scheduleRtlFrame0Probe | .awaitRtlFrame0ProbeResult | .awaitProbeResult =>
      !w.stopped && !w.suspended.isEmpty
  | .scheduleDssProbe managedThreadId =>
      !w.stopped && managedThreadId = w.canary.managedId && w.canary.osId ∈ w.suspended
  | .doStackSnapshotUnseeded managedThreadId =>
      !w.stopped && match runtime with
        | .clr _ => w.runtimeSuspended && w.suspended.isEmpty
        | .netFx _ => w.mayWalk runtime managedThreadId && w.shielded runtime
  | .doStackSnapshot managedThreadId =>
      !w.stopped && w.mayWalk runtime managedThreadId && w.shielded runtime
  | .invokeCallback | .walkNativeUntilManaged => !w.stopped && w.shielded runtime
  | .log => w.suspended.isEmpty || w.shielded runtime

def Watch.next (w : Watch) : (c : Call) → c.Answer → Watch
  | .stopping, stopping => { w with stopped := w.stopped || stopping }
  | .cancellationRequested, requested => { w with stopped := w.stopped || requested }
  | .suspendRuntime, hr => { w with runtimeSuspended := !failed hr }
  | .resumeRuntime, _ => { w with runtimeSuspended := false }
  | .snapshotCanary, canary => { w with canary }
  | .getThreadInfo managedThreadId, info => { w with threadInfo := (managedThreadId, info.2) }
  | .openThread osThreadId, isValid =>
      if isValid then { w with handles := osThreadId :: w.handles } else w
  | .suspendThread osThreadId, suspended =>
      if suspended then
        { w with suspended := osThreadId :: w.suspended, framed := false, certified := false }
      else w
  | .resumeThread _, _ =>
      { w with suspended := w.suspended.tail, framed := false, certified := false }
  | .closeHandle _, _ => { w with handles := w.handles.tail }
  | .awaitRtlFrame0ProbeResult, answer => { w with framed := answer.1 = .success }
  | .awaitProbeResult, result => { w with certified := result = .success }
  | _, _ => w

/-- The discipline. -/
def watch : Monitor Call.Answer Watch := fun w c answer =>
  if w.allows runtime c then some (w.next c answer) else none

/-! ### Rules -/

section
variable {runtime} {α : Type} {Q : α → Watch → Prop} {R : Thrown → Watch → Prop} {w : Watch}

theorem obeys_call {c : Call} {k : c.Answer → Capture α} (hallow : w.allows runtime c = true)
    (h : ∀ answer, Obeys (watch runtime) Q R (k answer) (w.next c answer)) :
    Obeys (watch runtime) Q R (.call c k) w :=
  .call fun answer => ⟨w.next c answer, if_pos hallow, h answer⟩

theorem obeys_perform_bind {c : Call} {f : c.Answer → Capture α}
    (hallow : w.allows runtime c = true)
    (h : ∀ answer, Obeys (watch runtime) Q R (f answer) (w.next c answer)) :
    Obeys (watch runtime) Q R (perform c >>= f) w :=
  obeys_call hallow h

theorem obeys_perform {c : Call} {Q : c.Answer → Watch → Prop}
    (hallow : w.allows runtime c = true) (h : ∀ answer, Q answer (w.next c answer)) :
    Obeys (watch runtime) Q R (perform c) w :=
  .perform fun answer => ⟨w.next c answer, if_pos hallow, h answer⟩

theorem obeys_log {Q : Unit → Watch → Prop} (hallow : w.allows runtime .log = true)
    (hQ : Q () w) (hR : R .exception w) : Obeys (watch runtime) Q R log w := by
  refine obeys_call hallow fun throws => ?_
  cases throws with
  | true => exact hR
  | false => exact hQ

theorem obeys_bind {σ β : Type} {δ : Monitor Call.Answer σ} {Q : α → σ → Prop}
    {R : Thrown → σ → Prop} {s : σ} {p : Capture β} {f : β → Capture α}
    (h : Obeys δ (fun a s => Obeys δ Q R (f a) s) R p s) : Obeys δ Q R (p >>= f) s :=
  h.bind

/-- A log line in front of the rest. -/
theorem obeys_log_bind {f : Unit → Capture α} (hallow : w.allows runtime .log = true)
    (h : Obeys (watch runtime) Q R (f ()) w) (hR : R .exception w) :
    Obeys (watch runtime) Q R (log >>= f) w :=
  obeys_bind (obeys_log hallow h hR)

end

/-! ### Guards -/

/-- The same is suspended and open as before. -/
structure Keeps (w u : Watch) : Prop where
  stopped : u.stopped = w.stopped
  runtimeSuspended : u.runtimeSuspended = w.runtimeSuspended
  handles : u.handles = w.handles
  suspended : u.suspended = w.suspended

theorem Keeps.refl (w : Watch) : Keeps w w := ⟨rfl, rfl, rfl, rfl⟩

theorem Keeps.trans {w u v : Watch} (h : Keeps w u) (h' : Keeps u v) : Keeps w v where
  stopped := h'.stopped.trans h.stopped
  runtimeSuspended := h'.runtimeSuspended.trans h.runtimeSuspended
  handles := h'.handles.trans h.handles
  suspended := h'.suspended.trans h.suspended

/-- With the thread suspended in a scope of its own. -/
def Watch.suspend (w : Watch) (osThreadId : OsThreadId) : Watch :=
  { w with
    handles := osThreadId :: w.handles
    suspended := osThreadId :: w.suspended
    framed := false
    certified := false }

variable {runtime}

theorem release_obeys {w u : Watch} {osThreadId : OsThreadId}
    (hpaired : w.handles.length = w.suspended.length) (h : Keeps (w.suspend osThreadId) u) :
    Obeys (watch runtime) (fun _ => Keeps w) (fun _ => Keeps w)
      (ScopedThreadSuspend.release osThreadId true) u := by
  have hhandles : u.handles = osThreadId :: w.handles := h.handles
  have hsuspended : u.suspended = osThreadId :: w.suspended := h.suspended
  rw [ScopedThreadSuspend.release, if_pos rfl]
  refine obeys_call (by simp [Watch.allows, hhandles, hsuspended, hpaired]) fun _ => ?_
  refine obeys_call (by simp [Watch.allows, Watch.next, hhandles, hsuspended, hpaired]) fun _ => ?_
  refine ⟨h.stopped, h.runtimeSuspended, ?_, ?_⟩
  · simp [Watch.next, hhandles]
  · simp [Watch.next, hsuspended]

/-- **The scope of a guard.** Its body begins with the thread suspended, or as if nothing
had happened; what it leaves suspended is what was suspended before. -/
theorem threadGuard_obeys {α : Type} {w : Watch} {osThreadId : OsThreadId}
    {body : Bool → Capture α} (hstopped : w.stopped = false)
    (hpaired : w.handles.length = w.suspended.length)
    (hrefused : Obeys (watch runtime) (fun _ => Keeps w) (fun _ => Keeps w) (body false) w)
    (hbody : Obeys (watch runtime) (fun _ => Keeps (w.suspend osThreadId))
      (fun _ => Keeps (w.suspend osThreadId)) (body true) (w.suspend osThreadId)) :
    Obeys (watch runtime) (fun _ => Keeps w) (fun _ => Keeps w)
      (threadGuard osThreadId body) w := by
  have hacquire : Obeys (watch runtime)
      (fun suspended u => u = if suspended then w.suspend osThreadId else w)
      (fun _ => Keeps w) (scopedThreadSuspend osThreadId) w := by
    refine obeys_call (by simp [Watch.allows, hstopped]) fun isValid => ?_
    -- a thread that cannot be opened, or not be suspended, leaves nothing open
    cases isValid with
    | false => exact .pure rfl
    | true =>
        refine obeys_call (by simp [Watch.allows, Watch.next, hstopped, hpaired]) fun ok => ?_
        cases ok with
        | true => exact .pure rfl
        | false =>
            refine obeys_call (by simp [Watch.allows, Watch.next, hpaired]) fun _ => ?_
            exact .pure rfl
  refine .scope hacquire fun suspended u hu => ?_
  subst hu
  cases suspended with
  | false => exact hrefused
  | true =>
      refine hbody.mono (fun _ u hu => ?_) fun _ u hu => ?_
      · exact release_obeys hpaired hu
      · exact release_obeys hpaired hu

/-! ### One stack -/

theorem continueFromProbedFrame0_obeys {w u : Watch} {managedThreadId : ThreadId}
    (h : Keeps w u) (hstopped : u.stopped = false)
    (hwalk : u.mayWalk runtime managedThreadId = true) (hshielded : u.shielded runtime = true)
    {isUnmanagedFrame : Bool} :
    Obeys (watch runtime) (fun _ => Keeps w) (fun _ => Keeps w)
      (continueFromProbedFrame0 managedThreadId isUnmanagedFrame) u := by
  -- none of its calls changes what is watched
  have hlog : u.allows runtime .log = true := by simp [Watch.allows, hshielded]
  have hsnapshot : u.allows runtime (.doStackSnapshot managedThreadId) = true := by
    simp [Watch.allows, hstopped, hwalk, hshielded]
  rw [continueFromProbedFrame0]
  refine obeys_log_bind hlog ?_ h
  cases isUnmanagedFrame with
  | false => exact obeys_perform hsnapshot fun _ => h
  | true =>
      refine obeys_perform_bind (by simp [Watch.allows, hstopped, hshielded]) fun cbHr => ?_
      by_cases haborted : cbHr = sFalse
      · rw [if_pos haborted]
        exact .pure h
      rw [if_neg haborted]
      by_cases hfailed : failed cbHr = true
      · rw [if_pos hfailed]
        exact .pure h
      rw [if_neg hfailed]
      refine obeys_perform_bind (by simp [Watch.allows, Watch.next, hstopped, hshielded])
        fun walked => ?_
      obtain ⟨walkHr, nativeFrameCount, hasSeed⟩ := walked
      by_cases hempty : failed walkHr ∧ nativeFrameCount = 0
      · simp only [if_pos hempty]
        exact .pure h
      simp only [if_neg hempty]
      cases hasSeed with
      | false => exact obeys_log_bind hlog h h
      | true =>
          exact obeys_perform_bind hsnapshot fun hr =>
            obeys_log_bind hlog h h

theorem probeFrame0_obeys {w u : Watch} {osThreadId : OsThreadId}
    {next : Bool → Capture HResult} (h : Keeps w u) (hstopped : u.stopped = false)
    (htarget : u.threadInfo.2 = osThreadId) (hmem : osThreadId ∈ u.suspended)
    (hnext : ∀ isUnmanagedFrame, Obeys (watch runtime) (fun _ => Keeps w) (fun _ => Keeps w)
      (next isUnmanagedFrame) { u with framed := true }) :
    Obeys (watch runtime) (fun _ => Keeps w) (fun _ => Keeps w)
      (probeFrame0 osThreadId next) u := by
  have hsuspended : u.suspended ≠ [] := List.ne_nil_of_mem hmem
  rw [probeFrame0]
  refine obeys_perform_bind (by simp [Watch.allows, htarget, hmem]) fun hasContext => ?_
  cases hasContext with
  | false => exact .throw h
  | true =>
      refine obeys_perform_bind (by simp [Watch.allows, Watch.next, hstopped, hsuspended])
        fun scheduled => ?_
      cases scheduled with
      | false => exact .throw h
      | true =>
          refine obeys_perform_bind (by simp [Watch.allows, Watch.next, hstopped, hsuspended])
            fun answer => ?_
          obtain ⟨result, isUnmanagedFrame⟩ := answer
          by_cases hresult : result = .success
          · subst hresult
            exact hnext isUnmanagedFrame
          · simp only [if_pos hresult]
            exact .throw ⟨h.stopped, h.runtimeSuspended, h.handles, h.suspended⟩

theorem probeCanary_obeys {w u : Watch} {canary : CanarySnapshot} {next : Capture HResult}
    (h : Keeps w u) (hstopped : u.stopped = false) (hcanary : u.canary = canary)
    (hmem : canary.osId ∈ u.suspended)
    (hnext : Obeys (watch runtime) (fun _ => Keeps w) (fun _ => Keeps w) next
      { u with certified := true }) :
    Obeys (watch runtime) (fun _ => Keeps w) (fun _ => Keeps w)
      (probeCanary canary next) u := by
  have hsuspended : u.suspended ≠ [] := List.ne_nil_of_mem hmem
  rw [probeCanary]
  refine obeys_perform_bind (by simp [Watch.allows, hstopped, hcanary, hmem])
    fun scheduled => ?_
  cases scheduled with
  | false => exact .throw h
  | true =>
      refine obeys_perform_bind (by simp [Watch.allows, Watch.next, hstopped, hsuspended])
        fun result => ?_
      by_cases hresult : result = .success
      · subst hresult
        exact hnext
      · simp only [if_pos hresult]
        exact .throw ⟨h.stopped, h.runtimeSuspended, h.handles, h.suspended⟩

/-! ### Between two stacks -/

/-- Whether a batch suspends the runtime as a whole. -/
def Runtime.isClr : Runtime → Bool
  | .clr _ => true
  | .netFx _ => false

/-- No thread is suspended and no handle is open; `active` says that the guard of the
runtime is. -/
structure Watch.Idle (runtime : Runtime) (active : Bool) (w : Watch) : Prop where
  runtimeSuspended : w.runtimeSuspended = (active && runtime.isClr)
  handles : w.handles = []
  suspended : w.suspended = []

theorem Keeps.idle {active : Bool} {w u : Watch} (h : Keeps w u) (hw : w.Idle runtime active) :
    u.Idle runtime active where
  runtimeSuspended := h.runtimeSuspended.trans hw.runtimeSuspended
  handles := h.handles.trans hw.handles
  suspended := h.suspended.trans hw.suspended

theorem Watch.Idle.paired {active : Bool} {w : Watch} (h : w.Idle runtime active) :
    w.handles.length = w.suspended.length := by
  simp [h.handles, h.suspended]

/-- Whether the capturer was seen to stop says nothing about what is suspended. -/
theorem Watch.Idle.seen {active : Bool} {w : Watch} (h : w.Idle runtime active)
    (stopped : Bool) : Watch.Idle runtime active { w with stopped } :=
  ⟨h.runtimeSuspended, h.handles, h.suspended⟩

/-- How a part of the batch returns: with `S_FALSE` when the capturer was seen to stop. -/
def Returns (runtime : Runtime) (active : Bool) (hr : HResult) (u : Watch) : Prop :=
  u.Idle runtime active ∧ (hr = sFalse ↔ u.stopped = true)

/-- How a part of the batch throws. -/
def Throws (runtime : Runtime) (active : Bool) (x : Thrown) (u : Watch) : Prop :=
  u.Idle runtime active ∧ u.stopped = false ∧ x = .exception

theorem abandoned_obeys {w u : Watch} (hsuspended : w.suspended = []) (h : Keeps w u)
    (hr : HResult) (x : Thrown) :
    Obeys (watch runtime) (fun _ => Keeps w) (fun x u => Keeps w u ∧ x = .exception)
      (abandoned hr x) u := by
  cases x with
  | exception => exact .throw ⟨h, rfl⟩
  | probe result =>
      refine obeys_log_bind ?_ h ⟨h, rfl⟩
      simp [Watch.allows, h.suspended, hsuspended]

/-- A capture of the target under its guards, with the handler. -/
theorem guarded_obeys {w u : Watch} {guarded : Capture HResult} (hsuspended : w.suspended = [])
    (h : Keeps w u)
    (hguarded : Obeys (watch runtime) (fun _ => Keeps u) (fun _ => Keeps u) guarded u)
    (hr : HResult) :
    Obeys (watch runtime) (fun _ => Keeps w) (fun x v => Keeps w v ∧ x = .exception)
      (guarded.tryCatch (abandoned hr)) u :=
  .tryCatch (hguarded.mono (fun _ _ hv => h.trans hv) fun x _ hv =>
    abandoned_obeys hsuspended (h.trans hv) hr x)

theorem clrCaptureStack_obeys {w : Watch} {x64 : Bool} (hw : w.Idle (.clr x64) true)
    (hstopped : w.stopped = false) (managedThreadId : ThreadId) :
    Obeys (watch (.clr x64)) (fun _ => Keeps w) (fun x u => Keeps w u ∧ x = .exception)
      (clrCaptureStack x64 managedThreadId) w := by
  have hruntime : w.runtimeSuspended = true := hw.runtimeSuspended
  rw [clrCaptureStack]
  refine obeys_perform_bind ?_ fun hr => ?_
  · simp [Watch.allows, hstopped, hruntime, hw.suspended]
  by_cases hdone : (!failed hr || !x64) = true
  · rw [if_pos hdone]
    exact .pure (Keeps.refl w)
  rw [if_neg hdone]
  refine obeys_log_bind (by simp [Watch.allows, Watch.next, hw.suspended]) ?_
    ⟨Keeps.refl w, rfl⟩
  refine obeys_perform_bind (by simp [Watch.allows, Watch.next, hstopped, hw.suspended])
    fun info => ?_
  obtain ⟨osHr, osThreadId⟩ := info
  have hinfo : Keeps w (w.next (.getThreadInfo managedThreadId) (osHr, osThreadId)) :=
    ⟨rfl, rfl, rfl, rfl⟩
  by_cases hunknown : failed osHr = true ∨ osThreadId = 0
  · simp only [if_pos hunknown]
    refine obeys_log_bind ?_ hinfo ⟨hinfo, rfl⟩
    simp [Watch.allows, Watch.next, hw.suspended]
  simp only [if_neg hunknown]
  refine guarded_obeys hw.suspended hinfo ?_ hr
  refine threadGuard_obeys hstopped hw.paired ?_ ?_
  · exact .throw (Keeps.refl _)
  rw [if_neg (by decide)]
  refine probeFrame0_obeys (Keeps.refl _) hstopped rfl ?_ fun isUnmanagedFrame => ?_
  · simp [Watch.suspend]
  refine continueFromProbedFrame0_obeys ?_ ?_ ?_ ?_
  · exact ⟨rfl, rfl, rfl, rfl⟩
  · exact hstopped
  · simp [Watch.mayWalk, Watch.next, Watch.suspend]
  · simp [Watch.shielded, Watch.next, Watch.suspend, hruntime]

theorem netFxCaptureStack_obeys {w : Watch} {x64 : Bool} (hw : w.Idle (.netFx x64) true)
    (hstopped : w.stopped = false) (managedThreadId : ThreadId) :
    Obeys (watch (.netFx x64)) (fun _ => Keeps w) (fun x u => Keeps w u ∧ x = .exception)
      (netFxCaptureStack x64 managedThreadId) w := by
  rw [netFxCaptureStack]
  refine obeys_perform_bind (by simp [Watch.allows, hw.suspended]) fun canary => ?_
  have hread : Keeps w (w.next .snapshotCanary canary) := ⟨rfl, rfl, rfl, rfl⟩
  by_cases hvalid : canary.isValid = true
  case neg =>
    simp only [hvalid]
    refine obeys_log_bind ?_ hread ⟨hread, rfl⟩
    simp [Watch.allows, Watch.next, hw.suspended]
  simp only [hvalid]
  by_cases hcanary : canary.managedId = managedThreadId
  · simp only [if_pos hcanary]
    exact .pure hread
  simp only [if_neg hcanary]
  have hwalk : managedThreadId ≠ canary.managedId := Ne.symm hcanary
  refine obeys_perform_bind ?_ fun info => ?_
  · simp [Watch.allows, Watch.next, hstopped, hw.suspended]
  obtain ⟨hr, osThreadId⟩ := info
  have hinfo : Keeps w ((w.next .snapshotCanary canary).next (.getThreadInfo managedThreadId)
      (hr, osThreadId)) := ⟨rfl, rfl, rfl, rfl⟩
  by_cases hunknown : failed hr = true ∨ osThreadId = 0
  · simp only [if_pos hunknown]
    refine obeys_log_bind ?_ hinfo ⟨hinfo, rfl⟩
    simp [Watch.allows, Watch.next, hw.suspended]
  simp only [if_neg hunknown]
  refine guarded_obeys hw.suspended hinfo ?_ eFail
  -- the guard of the target, and inside it the one of the canary
  refine threadGuard_obeys hstopped hw.paired ?_ ?_
  · exact .throw (Keeps.refl _)
  refine threadGuard_obeys hstopped (congrArg (· + 1) hw.paired) ?_ ?_
  · exact .throw (Keeps.refl _)
  cases x64 with
  | true =>
      rw [if_neg (by decide), if_pos rfl]
      refine probeFrame0_obeys (Keeps.refl _) hstopped rfl ?_ fun isUnmanagedFrame => ?_
      · simp [Watch.suspend]
      refine probeCanary_obeys ?_ hstopped rfl ?_ ?_
      · exact ⟨rfl, rfl, rfl, rfl⟩
      · simp [Watch.suspend]
      refine continueFromProbedFrame0_obeys ?_ ?_ ?_ ?_
      · exact ⟨rfl, rfl, rfl, rfl⟩
      · exact hstopped
      · simp [Watch.mayWalk, Watch.suspend, Watch.next, hwalk]
      · simp [Watch.shielded, Watch.suspend, Watch.next]
  | false =>
      rw [if_neg (by decide), if_neg (by decide)]
      refine probeCanary_obeys (Keeps.refl _) hstopped rfl ?_ ?_
      · simp [Watch.suspend]
      refine obeys_perform ?_ fun hr => ⟨rfl, rfl, rfl, rfl⟩
      simp [Watch.allows, Watch.mayWalk, Watch.shielded, Watch.suspend, Watch.next, hstopped,
        hwalk]

theorem captureStack_obeys {w : Watch} (hw : w.Idle runtime true) (hstopped : w.stopped = false)
    (managedThreadId : ThreadId) :
    Obeys (watch runtime) (fun _ => Keeps w) (fun x u => Keeps w u ∧ x = .exception)
      (captureStack runtime managedThreadId) w := by
  cases runtime with
  | clr x64 => exact clrCaptureStack_obeys hw hstopped managedThreadId
  | netFx x64 => exact netFxCaptureStack_obeys hw hstopped managedThreadId

/-! ### The batch -/

theorem Watch.next_stopping_false (w : Watch) : w.next .stopping false = w := by
  simp [Watch.next]

/-- Where the capturer looks whether it was told to stop. -/
theorem obeys_unless_stopping {active : Bool} {R : Thrown → Watch → Prop} {w : Watch}
    {rest : Capture HResult} (hw : w.Idle runtime active)
    (hrest : Obeys (watch runtime) (Returns runtime active) R rest w) :
    Obeys (watch runtime) (Returns runtime active) R
      (perform .stopping >>= fun stopping => if stopping then pure sFalse else rest) w := by
  refine obeys_perform_bind rfl fun stopping => ?_
  cases stopping with
  | true =>
      refine .pure ⟨hw.seen _, ?_⟩
      simp [Watch.next]
  | false =>
      rw [Watch.next_stopping_false]
      exact hrest

theorem returns_of_not_stopped {active : Bool} {hr : HResult} {w : Watch}
    (hw : w.Idle runtime active) (hstopped : w.stopped = false) (hhr : hr ≠ sFalse) :
    Returns runtime active hr w :=
  ⟨hw, by simp [hstopped, hhr]⟩

theorem captureThreads_obeys (threads : List ThreadId) {captureResult : HResult} {w : Watch}
    (hw : w.Idle runtime true) (hstopped : w.stopped = false) :
    Obeys (watch runtime) (Returns runtime true) (Throws runtime true)
      (captureThreads runtime threads captureResult) w := by
  induction threads generalizing captureResult w with
  | nil =>
      refine .pure (returns_of_not_stopped hw hstopped ?_)
      by_cases hfailed : failed captureResult = true
      · -- `S_FALSE` is not a failure
        rw [if_pos hfailed]
        intro hsFalse
        rw [hsFalse] at hfailed
        exact absurd hfailed (by decide)
      · rw [if_neg hfailed]
        decide
  | cons managedThreadId threads ih =>
      rw [captureThreads]
      refine obeys_unless_stopping hw ?_
      refine obeys_bind ((captureStack_obeys hw hstopped managedThreadId).mono
        (fun frameHr u hu => ?_) fun x u hu => ?_)
      case refine_2 => exact ⟨hu.1.idle hw, hu.1.stopped.trans hstopped, hu.2⟩
      -- a stack that failed does not end the batch; being told to stop does
      have hidle : u.Idle runtime true := hu.idle hw
      refine obeys_unless_stopping hidle ?_
      refine obeys_perform_bind (by simp [Watch.allows, hidle.suspended]) fun requested => ?_
      cases requested with
      | true =>
          refine .pure ⟨hidle.seen _, ?_⟩
          simp [Watch.next]
      | false =>
          refine ih (hidle.seen _) ?_
          simp [Watch.next, hu.stopped, hstopped]

theorem suspendRuntime_obeys {w : Watch} (hw : w.Idle runtime false)
    (hstopped : w.stopped = false) :
    Obeys (watch runtime) (fun hr u => u.Idle runtime (!failed hr) ∧ u.stopped = false)
      (Throws runtime false) (suspendRuntime runtime) w := by
  cases runtime with
  | netFx x64 => exact .pure ⟨⟨hw.runtimeSuspended, hw.handles, hw.suspended⟩, hstopped⟩
  | clr x64 =>
      refine obeys_perform_bind ?_ fun hr => ?_
      · simp [Watch.allows, hstopped, hw.runtimeSuspended, hw.suspended]
      have hnext : (w.next .suspendRuntime hr).Idle (.clr x64) (!failed hr) :=
        ⟨by simp [Watch.next, Runtime.isClr], hw.handles, hw.suspended⟩
      by_cases hfailed : failed hr = true
      · simp only [if_pos hfailed]
        refine obeys_log_bind ?_ ⟨hnext, hstopped⟩ ⟨?_, hstopped, rfl⟩
        · simp [Watch.allows, hnext.suspended]
        · simpa [hfailed] using hnext
      · simp only [if_neg hfailed]
        exact .pure ⟨hnext, hstopped⟩

theorem resumeRuntime_obeys {active : Bool} {R : Thrown → Watch → Prop} {w : Watch}
    (hw : w.Idle runtime active) :
    Obeys (watch runtime) (fun _ u => u.Idle runtime false ∧ u.stopped = w.stopped) R
      (if active then resumeRuntime runtime else pure ()) w := by
  cases active with
  | false => exact .pure ⟨hw, rfl⟩
  | true =>
      cases runtime with
      | netFx x64 => exact .pure ⟨⟨hw.runtimeSuspended, hw.handles, hw.suspended⟩, rfl⟩
      | clr x64 =>
          refine obeys_perform_bind ?_ fun hr => ?_
          · simp [Watch.allows, hw.runtimeSuspended, hw.handles, hw.suspended, Runtime.isClr]
          have hnext : (w.next .resumeRuntime hr).Idle (.clr x64) false :=
            ⟨rfl, hw.handles, hw.suspended⟩
          by_cases hfailed : failed hr = true
          · simp only [if_pos hfailed]
            refine obeys_call ?_ fun _ => ⟨hnext, rfl⟩
            simp [Watch.allows, hnext.suspended]
          · simp only [if_neg hfailed]
            exact .pure ⟨hnext, rfl⟩

/-- **The scope of the runtime's guard.** However the body ends, the runtime goes on. -/
theorem runtimeGuard_obeys {w : Watch} {body : Bool → Capture HResult}
    (hw : w.Idle runtime false) (hstopped : w.stopped = false)
    (hbody : ∀ active u, u.Idle runtime active → u.stopped = false →
      Obeys (watch runtime) (Returns runtime active) (Throws runtime active) (body active) u) :
    Obeys (watch runtime) (Returns runtime false) (Throws runtime false)
      (runtimeGuard runtime body) w := by
  have hacquire := obeys_bind (f := fun hr => pure (!failed hr))
    (Q := fun active (u : Watch) => u.Idle runtime active ∧ u.stopped = false)
    (suspendRuntime_obeys hw hstopped)
  refine .scope hacquire fun active u hu => ?_
  -- the release changes neither the result nor what was seen
  refine (hbody active u hu.1 hu.2).mono (fun hr v hv => ?_) fun x v hv => ?_
  · refine (resumeRuntime_obeys hv.1).mono (fun _ z hz => ⟨hz.1, ?_⟩) fun _ _ h => h
    rw [hz.2]
    exact hv.2
  · refine (resumeRuntime_obeys hv.1).mono (fun _ z hz => ⟨hz.1, ?_⟩) fun _ _ h => h
    rw [hz.2]
    exact hv.2

theorem caught_obeys {x : Thrown} {w : Watch} (h : Throws runtime false x w) :
    Obeys (watch runtime) (Returns runtime false) (Throws runtime false) (caught x) w := by
  obtain ⟨hw, hstopped, rfl⟩ := h
  refine obeys_log_bind ?_ (returns_of_not_stopped hw hstopped (by decide)) ⟨hw, hstopped, rfl⟩
  simp [Watch.allows, hw.suspended]

theorem Watch.initial_idle : Watch.initial.Idle runtime false := ⟨rfl, rfl, rfl⟩

theorem captureStacks_obeys (threads : List ThreadId) (hasContext : Bool) :
    Obeys (watch runtime) (Returns runtime false) (Throws runtime false)
      (captureStacks runtime threads hasContext) Watch.initial := by
  refine obeys_unless_stopping Watch.initial_idle ?_
  by_cases hthreads : threads = []
  · rw [if_pos hthreads]
    exact .pure (returns_of_not_stopped Watch.initial_idle rfl (by decide))
  rw [if_neg hthreads]
  cases hasContext with
  | false => exact .pure (returns_of_not_stopped Watch.initial_idle rfl (by decide))
  | true =>
      refine .tryCatch ((runtimeGuard_obeys Watch.initial_idle rfl ?_).mono (fun _ _ h => h)
        fun x u h => caught_obeys h)
      intro active u hu hstopped
      cases active with
      | false =>
          refine obeys_log_bind ?_ (returns_of_not_stopped hu hstopped (by decide))
            ⟨hu, hstopped, rfl⟩
          simp [Watch.allows, hu.suspended]
      | true => exact obeys_unless_stopping hu (captureThreads_obeys threads hu hstopped)

/-- **The discipline of a batch.** Whatever is answered and whenever the capturer is told to
stop, no call of `CaptureStacks` is refused; at its end no thread and no runtime is left
suspended and no handle open, also when an exception leaves it, which only a log line can
throw; and it returns `S_FALSE` exactly when it saw that it must stop. -/
theorem captureStacks_disciplined (runtime : Runtime) (threads : List ThreadId)
    (hasContext : Bool) (env : List (Answered Call.Answer) → (c : Call) → c.Answer) :
    ∃ u, (watch runtime).after Watch.initial
        ((captureStacks runtime threads hasContext).run env []).2 = some u
      ∧ u.runtimeSuspended = false ∧ u.handles = [] ∧ u.suspended = []
      ∧ (∀ hr, ((captureStacks runtime threads hasContext).run env []).1 = .ok hr →
          (hr = sFalse ↔ u.stopped = true))
      ∧ ∀ x, ((captureStacks runtime threads hasContext).run env []).1 = .error x →
          x = .exception := by
  -- the trace begins empty
  have hbegin : (watch runtime).after Watch.initial [] = some Watch.initial := rfl
  obtain ⟨u, hafter, hok, herror⟩ := (captureStacks_obeys threads hasContext).run env hbegin
  have hidle : u.Idle runtime false := by
    cases houtcome : ((captureStacks runtime threads hasContext).run env []).1 with
    | ok hr => exact (hok hr houtcome).1
    | error x => exact (herror x houtcome).1
  refine ⟨u, hafter, hidle.runtimeSuspended, hidle.handles, hidle.suspended, ?_, ?_⟩
  · intro hr houtcome
    exact (hok hr houtcome).2
  · intro x houtcome
    exact (herror x houtcome).2.2

/-- A walk on the .NET Framework without the suspension and the probes is refused. -/
example : (watch (.netFx true)).after Watch.initial [⟨.doStackSnapshot 1, sOk⟩] = none := by
  decide

end AutoInstrumentation.StackCapture
