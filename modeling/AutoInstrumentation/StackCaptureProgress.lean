import AutoInstrumentation.StackCaptureSound

/-!
# AutoInstrumentation.StackCaptureProgress

That a batch of captures leaves no thread out.

`progress` is a monitor that follows where the capture of a thread begins; it refuses a
capture that is not of the next thread. After the first calls of a capture there is no
other that it minds, which is a fact about the calls alone. `captureStacks_complete` says
that the captures begin in order, each once, and that a batch which neither was told to
stop nor failed as a whole began them all.
-/

namespace AutoInstrumentation.StackCapture

open Lib
open NativeWalk (eFail failed)
open NetFxRuntimeCapture (ThreadId OsThreadId CanarySnapshot)

variable {runtime : Runtime}

/-! ### Where a capture begins -/

/-- Where the captures of the threads begin: on .NET with the snapshot without a seed; on the
.NET Framework with the question for the thread, unless the canary that was read is missing
or is the thread. The state is the list of those that are left. -/
def progress : Runtime → Monitor Call.Answer (List ThreadId)
  | .clr _ => fun left c _ =>
      match c with
      | .doStackSnapshotUnseeded managedThreadId =>
          if left.head? = some managedThreadId then some left.tail else none
      | _ => some left
  | .netFx _ => fun left c answer =>
      match c, answer with
      | .snapshotCanary, canary =>
          some (if !canary.isValid ∨ left.head? = some canary.managedId then left.tail else left)
      | .getThreadInfo managedThreadId, _ =>
          if left.head? = some managedThreadId then some left.tail else none
      | _, _ => some left

/-! ### The calls of one stack -/

section
variable {P : Call → Prop} {α β : Type}

theorem calls_bind {p : Capture α} {f : α → Capture β} (hp : p.Calls P)
    (hf : ∀ a, (f a).Calls P) : (p >>= f).Calls P :=
  hp.bind hf

theorem calls_perform {c : Call} (h : P c) : (perform c).Calls P := ⟨h, fun _ => trivial⟩

theorem calls_log (h : P .log) : log.Calls P := by
  refine ⟨h, fun throws => ?_⟩
  cases throws with
  | true => trivial
  | false => trivial

theorem threadGuard_calls {osThreadId : OsThreadId} {body : Bool → Capture α}
    (hopen : P (.openThread osThreadId)) (hsuspend : P (.suspendThread osThreadId))
    (hresume : P (.resumeThread osThreadId)) (hclose : P (.closeHandle osThreadId))
    (hbody : ∀ isAcquired, (body isAcquired).Calls P) :
    (threadGuard osThreadId body).Calls P := by
  refine .scope ⟨hopen, fun isValid => ?_⟩ (fun suspended => ?_) hbody
  · cases isValid with
    | false => trivial
    | true =>
        refine ⟨hsuspend, fun suspended => ?_⟩
        cases suspended with
        | true => trivial
        | false => exact ⟨hclose, fun _ => trivial⟩
  · cases suspended with
    | false => trivial
    | true => exact ⟨hresume, fun _ => ⟨hclose, fun _ => trivial⟩⟩

theorem continueFromProbedFrame0_calls {managedThreadId : ThreadId} {isUnmanagedFrame : Bool}
    (hlog : P .log) (hsnapshot : P (.doStackSnapshot managedThreadId))
    (hcallback : P .invokeCallback) (hwalk : P .walkNativeUntilManaged) :
    (continueFromProbedFrame0 managedThreadId isUnmanagedFrame).Calls P := by
  rw [continueFromProbedFrame0]
  refine calls_bind (calls_log hlog) fun _ => ?_
  split
  · exact calls_perform hsnapshot
  refine calls_bind (calls_perform hcallback) fun cbHr => ?_
  split
  · trivial
  split
  · trivial
  refine calls_bind (calls_perform hwalk) fun walked => ?_
  obtain ⟨walkHr, nativeFrameCount, hasSeed⟩ := walked
  dsimp only
  split
  · trivial
  split
  · refine calls_bind (calls_perform hsnapshot) fun hr => ?_
    exact calls_bind (calls_log hlog) fun _ => trivial
  · refine calls_bind trivial fun hr => ?_
    exact calls_bind (calls_log hlog) fun _ => trivial

theorem probeFrame0_calls {osThreadId : OsThreadId} {next : Bool → Capture HResult}
    (hcontext : P (.getThreadContext osThreadId)) (hschedule : P .scheduleRtlFrame0Probe)
    (hawait : P .awaitRtlFrame0ProbeResult) (hnext : ∀ b, (next b).Calls P) :
    (probeFrame0 osThreadId next).Calls P := by
  rw [probeFrame0]
  refine calls_bind (calls_perform hcontext) fun hasContext => ?_
  split
  · trivial
  refine calls_bind (calls_perform hschedule) fun scheduled => ?_
  split
  · trivial
  refine calls_bind (calls_perform hawait) fun answer => ?_
  obtain ⟨result, isUnmanagedFrame⟩ := answer
  dsimp only
  split
  · trivial
  · exact hnext isUnmanagedFrame

theorem probeCanary_calls {canary : CanarySnapshot} {next : Capture HResult}
    (hschedule : P (.scheduleDssProbe canary.managedId)) (hawait : P .awaitProbeResult)
    (hnext : next.Calls P) : (probeCanary canary next).Calls P := by
  rw [probeCanary]
  refine calls_bind (calls_perform hschedule) fun scheduled => ?_
  split
  · trivial
  refine calls_bind (calls_perform hawait) fun result => ?_
  split
  · trivial
  · exact hnext

theorem abandoned_calls {hr : HResult} {x : Thrown} (hlog : P .log) :
    (abandoned hr x).Calls P := by
  cases x with
  | probe result => exact calls_bind (calls_log hlog) fun _ => trivial
  | exception => trivial

theorem suspendRuntime_calls (hsuspend : P .suspendRuntime) (hlog : P .log) :
    (suspendRuntime runtime).Calls P := by
  cases runtime with
  | netFx x64 => trivial
  | clr x64 =>
      refine calls_bind (calls_perform hsuspend) fun hr => ?_
      split
      · exact calls_bind (calls_log hlog) fun _ => trivial
      · trivial

theorem resumeRuntime_calls (hresume : P .resumeRuntime) (hlog : P .log) :
    (resumeRuntime runtime).Calls P := by
  cases runtime with
  | netFx x64 => trivial
  | clr x64 =>
      refine calls_bind (calls_perform hresume) fun hr => ?_
      split
      · exact ⟨hlog, fun _ => trivial⟩
      · trivial

end

/-! ### One stack -/

section
variable {α : Type} {Q : α → List ThreadId → Prop} {R : Thrown → List ThreadId → Prop}

theorem progress_bind {c : Call} {f : c.Answer → Capture α} {left : List ThreadId}
    (h : ∀ answer, ∃ left', progress runtime left c answer = some left'
      ∧ Obeys (progress runtime) Q R (f answer) left') :
    Obeys (progress runtime) Q R (perform c >>= f) left :=
  .call h

end

/-- The capture of a thread begins once, and is the next. -/
theorem captureStack_progress (managedThreadId : ThreadId) (left : List ThreadId) :
    Obeys (progress runtime) (fun _ u => u = left) (fun _ u => u = left)
      (captureStack runtime managedThreadId) (managedThreadId :: left) := by
  cases runtime with
  | clr x64 =>
      rw [captureStack, clrCaptureStack]
      -- the snapshot is the beginning; what follows it has no other
      refine progress_bind fun hr => ⟨left, by simp [progress], .of_calls ?_⟩
      split
      · trivial
      refine calls_bind (calls_log fun _ => rfl) fun _ => ?_
      refine calls_bind (calls_perform fun _ => rfl) fun info => ?_
      obtain ⟨osHr, osThreadId⟩ := info
      dsimp only
      split
      · exact calls_bind (calls_log fun _ => rfl) fun _ => trivial
      refine .tryCatch ?_ fun x => abandoned_calls fun _ => rfl
      refine threadGuard_calls (fun _ => rfl) (fun _ => rfl) (fun _ => rfl) (fun _ => rfl)
        fun isAcquired => ?_
      split
      · trivial
      refine probeFrame0_calls (fun _ => rfl) (fun _ => rfl) (fun _ => rfl) fun b => ?_
      exact continueFromProbedFrame0_calls (fun _ => rfl) (fun _ => rfl) (fun _ => rfl)
        (fun _ => rfl)
  | netFx x64 =>
      rw [captureStack, netFxCaptureStack]
      refine progress_bind fun canary => ?_
      by_cases hvalid : canary.isValid = true
      case neg =>
        refine ⟨left, by simp [progress, hvalid], .of_calls ?_⟩
        simp only [hvalid]
        exact calls_bind (calls_log fun _ => rfl) fun _ => trivial
      by_cases hcanary : canary.managedId = managedThreadId
      · refine ⟨left, by simp [progress, hcanary], ?_⟩
        simp only [hvalid, hcanary]
        exact .pure rfl
      -- with a canary that is another thread, the question for the thread is the beginning
      have hother : managedThreadId ≠ canary.managedId := Ne.symm hcanary
      refine ⟨managedThreadId :: left, by simp [progress, hvalid, hother], ?_⟩
      simp only [hvalid, if_neg hcanary]
      refine progress_bind fun info => ⟨left, by simp [progress], .of_calls ?_⟩
      obtain ⟨hr, osThreadId⟩ := info
      dsimp only
      split
      · exact calls_bind (calls_log fun _ => rfl) fun _ => trivial
      refine .tryCatch ?_ fun x => abandoned_calls fun _ => rfl
      refine threadGuard_calls (fun _ => rfl) (fun _ => rfl) (fun _ => rfl) (fun _ => rfl)
        fun isAcquired => ?_
      split
      · trivial
      refine threadGuard_calls (fun _ => rfl) (fun _ => rfl) (fun _ => rfl) (fun _ => rfl)
        fun isAcquired => ?_
      split
      · trivial
      split
      · refine probeFrame0_calls (fun _ => rfl) (fun _ => rfl) (fun _ => rfl) fun b => ?_
        refine probeCanary_calls (fun _ => rfl) (fun _ => rfl) ?_
        exact continueFromProbedFrame0_calls (fun _ => rfl) (fun _ => rfl) (fun _ => rfl)
          (fun _ => rfl)
      · exact probeCanary_calls (fun _ => rfl) (fun _ => rfl) (calls_perform fun _ => rfl)

/-! ### The batch -/

/-- The calls that a batch makes itself. -/
def Call.isBatch : Call → Bool
  | .stopping | .cancellationRequested | .suspendRuntime | .resumeRuntime | .log => true
  | _ => false

theorem progress_of_isBatch {c : Call} (h : c.isBatch = true) (left : List ThreadId)
    (answer : c.Answer) : progress runtime left c answer = some left := by
  cases runtime with
  | clr x64 =>
      cases c
      all_goals first | rfl | cases h
  | netFx x64 =>
      cases c
      all_goals first | rfl | cases h

/-- Where the capturer looks whether it was told to stop. -/
theorem progress_unless_stopping {Q : HResult → List ThreadId → Prop}
    {R : Thrown → List ThreadId → Prop} {left : List ThreadId} {rest : Capture HResult}
    (hstop : Q sFalse left) (hrest : Obeys (progress runtime) Q R rest left) :
    Obeys (progress runtime) Q R
      (perform .stopping >>= fun stopping => if stopping then pure sFalse else rest) left := by
  refine progress_bind fun stopping => ⟨_, progress_of_isBatch rfl _ stopping, ?_⟩
  cases stopping with
  | true => exact .pure hstop
  | false => exact hrest

theorem captureThreads_progress (threads : List ThreadId) {captureResult : HResult} :
    Obeys (progress runtime) (fun hr left => left <:+ threads ∧ (hr ≠ sFalse → left = []))
      (fun _ left => left <:+ threads) (captureThreads runtime threads captureResult)
      threads := by
  induction threads generalizing captureResult with
  | nil => exact .pure ⟨List.suffix_rfl, fun _ => rfl⟩
  | cons managedThreadId threads ih =>
      have hcons : threads <:+ managedThreadId :: threads := List.suffix_cons _ _
      rw [captureThreads]
      refine progress_unless_stopping ⟨List.suffix_rfl, fun h => absurd rfl h⟩ ?_
      refine obeys_bind ((captureStack_progress managedThreadId threads).mono
        (fun frameHr left hleft => ?_) fun x left hleft => ?_)
      case refine_2 =>
        subst hleft
        exact hcons
      subst hleft
      refine progress_unless_stopping ⟨hcons, fun h => absurd rfl h⟩ ?_
      refine progress_bind fun requested => ⟨_, progress_of_isBatch rfl _ requested, ?_⟩
      cases requested with
      | true => exact .pure ⟨hcons, fun h => absurd rfl h⟩
      | false =>
          exact ih.mono (fun hr left h => ⟨h.1.trans hcons, h.2⟩) fun x left h => h.trans hcons

/-- What is left where a part of the batch returns: nothing, unless the capturer was told to
stop, or the batch failed as a whole. -/
def Leaves (threads : List ThreadId) (hr : HResult) (left : List ThreadId) : Prop :=
  left <:+ threads ∧ (hr ≠ sFalse → hr ≠ eFail → hr ≠ eInvalidArg → left = [])

theorem log_progress {Q : Unit → List ThreadId → Prop} {R : Thrown → List ThreadId → Prop}
    {left : List ThreadId} (hQ : Q () left) (hR : ∀ x, R x left) :
    Obeys (progress runtime) Q R log left := by
  refine (Obeys.of_calls (calls_log fun _ => progress_of_isBatch rfl _ _)).mono
    (fun _ u hu => ?_) fun x u hu => ?_
  · subst hu
    exact hQ
  · subst hu
    exact hR x

theorem runtimeGuard_progress {threads : List ThreadId} {body : Bool → Capture HResult}
    (hbody : ∀ active, Obeys (progress runtime) (Leaves threads) (fun _ left => left <:+ threads)
      (body active) threads) :
    Obeys (progress runtime) (Leaves threads) (fun _ left => left <:+ threads)
      (runtimeGuard runtime body) threads := by
  have hacquire : Obeys (progress runtime) (fun _ u => u = threads) (fun _ u => u = threads)
      (suspendRuntime runtime >>= fun hr => pure (!failed hr)) threads := by
    refine .of_calls (calls_bind (suspendRuntime_calls ?_ ?_) fun _ => trivial)
    · exact fun _ => progress_of_isBatch rfl _ _
    · exact fun _ => progress_of_isBatch rfl _ _
  -- neither end of the guard begins a capture
  have hrelease : ∀ (active : Bool) (left : List ThreadId), Obeys (progress runtime)
      (fun _ u => u = left) (fun _ u => u = left)
      (if active then resumeRuntime runtime else pure ()) left := by
    intro active left
    cases active with
    | true =>
        exact .of_calls (resumeRuntime_calls (fun _ => progress_of_isBatch rfl _ _)
          fun _ => progress_of_isBatch rfl _ _)
    | false => exact .pure rfl
  refine .scope (hacquire.mono (fun _ _ h => h) fun x u hu => ?_) fun active u hu => ?_
  · subst hu
    exact List.suffix_rfl
  subst hu
  refine (hbody active).mono (fun hr v hv => ?_) fun x v hv => ?_
  · refine (hrelease active v).mono (fun _ z hz => ?_) fun _ z hz => ?_
    · subst hz
      exact hv
    · subst hz
      exact hv.1
  · refine (hrelease active v).mono (fun _ z hz => ?_) fun _ z hz => ?_
    · subst hz
      exact hv
    · subst hz
      exact hv

theorem captureStacks_progress (threads : List ThreadId) (hasContext : Bool) :
    Obeys (progress runtime) (Leaves threads) (fun _ left => left <:+ threads)
      (captureStacks runtime threads hasContext) threads := by
  rw [captureStacks]
  refine progress_unless_stopping ⟨List.suffix_rfl, fun h => absurd rfl h⟩ ?_
  by_cases hthreads : threads = []
  · subst hthreads
    exact .pure ⟨List.suffix_rfl, fun _ _ _ => rfl⟩
  rw [if_neg hthreads]
  cases hasContext with
  | false => exact .pure ⟨List.suffix_rfl, fun _ _ h => absurd rfl h⟩
  | true =>
      refine .tryCatch ((runtimeGuard_progress fun active => ?_).mono (fun _ _ h => h)
        fun x left h => ?_)
      · cases active with
        | false =>
            refine obeys_bind (log_progress ?_ fun _ => List.suffix_rfl)
            exact .pure ⟨List.suffix_rfl, fun _ h => absurd rfl h⟩
        | true =>
            refine progress_unless_stopping ⟨List.suffix_rfl, fun h => absurd rfl h⟩ ?_
            exact (captureThreads_progress threads).mono
              (fun hr left h => ⟨h.1, fun hstopped _ _ => h.2 hstopped⟩) fun _ _ h => h
      · cases x with
        | probe result => exact .throw h
        | exception =>
            refine obeys_bind (log_progress ?_ fun _ => h)
            exact .pure ⟨h, fun _ hfailed => absurd rfl hfailed⟩

/-- **The progress of a batch.** The captures begin in the order of the threads, each once;
and unless `CaptureStacks` says that it had to stop, or that the batch as a whole failed,
none is left out. -/
theorem captureStacks_complete (runtime : Runtime) (threads : List ThreadId)
    (hasContext : Bool) (env : List (Answered Call.Answer) → (c : Call) → c.Answer) :
    ∃ left, (progress runtime).after threads
        ((captureStacks runtime threads hasContext).run env []).2 = some left
      ∧ left <:+ threads
      ∧ ∀ hr, ((captureStacks runtime threads hasContext).run env []).1 = .ok hr →
          hr ≠ sFalse → hr ≠ eFail → hr ≠ eInvalidArg → left = [] := by
  have hbegin : (progress runtime).after threads [] = some threads := rfl
  obtain ⟨left, hafter, hok, herror⟩ :=
    (captureStacks_progress threads hasContext).run env hbegin
  refine ⟨left, hafter, ?_, ?_⟩
  · cases houtcome : ((captureStacks runtime threads hasContext).run env []).1 with
    | ok hr => exact (hok hr houtcome).1
    | error x => exact herror x houtcome
  · intro hr houtcome
    exact (hok hr houtcome).2

end AutoInstrumentation.StackCapture
