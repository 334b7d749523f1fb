import AutoInstrumentation.Cel.Lexer
import AutoInstrumentation.Lib.OrderedMap
import AutoInstrumentation.Lib.Transition

/-!
# AutoInstrumentation.NetFxRuntimeCapture

The canary of the .NET Framework stack capture (`netfx_runtime_capture.cpp`): the thread
that is suspended beside each target, elected by its name.

The capture learns of threads by three notifications, each of which holds the mutex
throughout, and keeps two maps and the canary. Beside it stand the threads themselves: the
name and the OS thread that each has after the notifications.
-/

namespace AutoInstrumentation.NetFxRuntimeCapture

open Lib
open AutoInstrumentation.Cel (WString code)

abbrev ThreadId := ℕ
abbrev OsThreadId := ℕ

structure CanarySnapshot where
  managedId : ThreadId
  osId : OsThreadId
  deriving DecidableEq, Repr

def CanarySnapshot.none : CanarySnapshot where
  managedId := 0
  osId := 0

def CanarySnapshot.isValid (c : CanarySnapshot) : Bool := c.managedId ≠ 0 ∧ c.osId ≠ 0

structure NetFxCaptureOptions where
  canaryNamePrefix : WString

/-- The options of a capture that is given none. -/
def NetFxCaptureOptions.default : NetFxCaptureOptions where
  canaryNamePrefix := "OpenTelemetry Profiler Canary Thread".toList.map code

/-- The name begins with the prefix: `find` gives 0. -/
def NetFxCaptureOptions.isCanaryThreadName (options : NetFxCaptureOptions) (threadName : WString) :
    Bool :=
  options.canaryNamePrefix.isPrefixOf threadName

structure Capture where
  activeThreads : OrderedMap ThreadId OsThreadId
  threadNames : OrderedMap ThreadId WString
  canary : CanarySnapshot

def Capture.initial : Capture where
  activeThreads := .empty
  threadNames := .empty
  canary := .none

variable (options : NetFxCaptureOptions)

/-- What the loop of the election makes of a thread with a name. -/
def Capture.candidate (s : Capture) (named : ThreadId × WString) : Option CanarySnapshot :=
  if options.isCanaryThreadName named.2 then
    (s.activeThreads.find named.1).map fun osThreadId => ⟨named.1, osThreadId⟩
  else
    .none

/-- `NetFxRuntimeCapture::ReelectCanaryLocked`: the first candidate of the loop. -/
def Capture.reelectCanaryLocked (s : Capture) : Capture :=
  { s with canary := (s.threadNames.entries.findSome? (s.candidate options)).getD .none }

/-- `NetFxRuntimeCapture::OnThreadDestroyed`. -/
def Capture.onThreadDestroyed (s : Capture) (threadId : ThreadId) : Capture :=
  let s := { s with
    activeThreads := s.activeThreads.erase threadId
    threadNames := s.threadNames.erase threadId }
  if s.canary.managedId ≠ threadId then s else s.reelectCanaryLocked options

/-- `NetFxRuntimeCapture::OnThreadNameChanged`, with no name for a null pointer. -/
def Capture.onThreadNameChanged (s : Capture) (threadId : ThreadId) (name : Option WString) :
    Capture :=
  match name with
  | .none | some [] => s
  | some threadName =>
      let s := { s with threadNames := s.threadNames.set threadId threadName }
      if s.canary.isValid ∨ ¬options.isCanaryThreadName threadName then s
      else
        match s.activeThreads.find threadId with
        | .none => s
        | some osThreadId => { s with canary := ⟨threadId, osThreadId⟩ }

/-- `NetFxRuntimeCapture::OnThreadAssignedToOSThread`. -/
def Capture.onThreadAssignedToOSThread (s : Capture) (managedThreadId : ThreadId)
    (osThreadId : OsThreadId) : Capture :=
  let s := { s with activeThreads := s.activeThreads.set managedThreadId osThreadId }
  if s.canary.isValid then s
  else
    match s.threadNames.find managedThreadId with
    | .none => s
    | some name =>
        if options.isCanaryThreadName name then
          { s with canary := ⟨managedThreadId, osThreadId⟩ }
        else s

/-! ### The threads -/

inductive Notification
  | destroyed (threadId : ThreadId)
  | nameChanged (threadId : ThreadId) (name : Option WString)
  | assignedToOSThread (managedThreadId : ThreadId) (osThreadId : OsThreadId)
  deriving DecidableEq, Repr

/-- The threads as the notifications tell of them. -/
structure Threads where
  osThread : ThreadId → Option OsThreadId
  name : ThreadId → Option WString

def Threads.initial : Threads where
  osThread _ := .none
  name _ := .none

/-- What a notification tells. A thread whose new name is null or empty has no name. -/
def Threads.after (w : Threads) : Notification → Threads
  | .destroyed t =>
      { osThread := Function.update w.osThread t .none
        name := Function.update w.name t .none }
  | .nameChanged t name =>
      { w with name := Function.update w.name t (name.filter fun n => n ≠ []) }
  | .assignedToOSThread t os => { w with osThread := Function.update w.osThread t (some os) }

/-- The name of the thread has the prefix of canaries. -/
def Threads.HasCanaryName (w : Threads) (t : ThreadId) : Prop :=
  ∃ name, w.name t = some name ∧ options.isCanaryThreadName name

/-- The thread can be suspended as the canary, by its OS thread. -/
def Threads.Qualifies (w : Threads) (t : ThreadId) (os : OsThreadId) : Prop :=
  w.osThread t = some os ∧ os ≠ 0 ∧ w.HasCanaryName options t

/-! ### The system -/

structure State where
  capture : Capture
  threads : Threads

def State.initial : State where
  capture := .initial
  threads := .initial

/-- How the capture takes a notification. -/
def Capture.notify (s : Capture) : Notification → Capture
  | .destroyed t => s.onThreadDestroyed options t
  | .nameChanged t name => s.onThreadNameChanged options t name
  | .assignedToOSThread t os => s.onThreadAssignedToOSThread options t os

def State.notify (s : State) (n : Notification) : State where
  capture := s.capture.notify options n
  threads := s.threads.after n

/-- The runs of the capture: any notifications in any order. -/
def system : System State Notification where
  init s := s = .initial
  step s n t := t = s.notify options n

/-- The canary is valid if and only if a thread qualifies, and is then such a thread with
the OS thread it has. -/
def State.CanaryCurrent (s : State) : Prop :=
  (s.capture.canary.isValid ↔ ∃ t os, s.threads.Qualifies options t os)
    ∧ (s.capture.canary.isValid →
      s.threads.Qualifies options s.capture.canary.managedId s.capture.canary.osId)

end AutoInstrumentation.NetFxRuntimeCapture
