import Mathlib.Algebra.Ring.Nat
import Mathlib.Data.List.Basic

/-!
# AutoInstrumentation.OpAmp.Manager

`OpAmpManager`: the tasks that start, stop and dispose one OpAMP client.

A task stands at a point of the program; its next interlocked operation, its next lock
section, or the start or the end of a plugin callback or of a client call is one step. A
callback or a call that hangs is a task that takes no more steps. The reporter's own `Stop`
is modelled with the reporter and left out here.
-/

namespace AutoInstrumentation.OpAmp

/-- Who disposes: the stop task, the task of a forced shutdown, or the continuation behind
it. -/
inductive Disposer
  | stopTask | forcedTask | continuation
  deriving DecidableEq, Repr

/-- Where a task stands. `found` is what the stop task found in `_startupTask`. -/
inductive Point
  -- `StartClientCoreAsync`
  | startCore
  | starting
  | activate
  | readShutdown
  | callAfter
  | afterCallback
  -- `OpAmpLoader.StopManager`
  | stopClient
  | stopReporter
  | wait
  | force
  -- `StopOpAmpClientCoreAsync`
  | look
  | lockBefore (found : Bool)
  | testBefore (found : Bool)
  | callBefore (found : Bool)
  | beforeCallback (found : Bool)
  | cancel (found : Bool)
  | awaitStartup
  | checkForce
  | stopTransport
  -- `Dispose`, and `ForceDisposeClient` in it
  | dispose (disposer : Disposer)
  | disposeOnce (disposer : Disposer)
  | disposeCancel (disposer : Disposer)
  | disposeClient (disposer : Disposer)
  | disposeProxy (disposer : Disposer)
  -- the continuation of `ContinueForcedCleanup`
  | continuation
  | done
  deriving DecidableEq, Repr

/-- What happened to a manager. -/
inductive ManagerEvent
  /-- `StartClient` created the startup task. -/
  | created
  /-- `StartAsync` of the client was called. -/
  | startAsync
  /-- `AfterOpAmpClientStarted` was called. -/
  | after
  /-- The stop task read `_startupTask`. -/
  | looked (found : Bool)
  /-- `BeforeOpAmpClientStopped` was called. -/
  | before
  /-- The client proxy was disposed. -/
  | disposed
  deriving DecidableEq, Repr

/-- The last event of the log comes first. Tasks that are done stay in the list. -/
structure Manager where
  startupTask : Bool
  shutdownStarted : Bool
  disposed : Bool
  clientDisposed : Bool
  forceShutdownRequested : Bool
  beforeStopCallbackInvoked : Bool
  /-- The startup token is cancelled. -/
  startupCancelled : Bool
  /-- `_forcedShutdownCompletion` has a result. -/
  forcedShutdownCompleted : Bool
  startupDone : Bool
  /-- The stop task has ended, and it ended with an exception or without. -/
  stopEnded : Option Bool
  /-- The task that holds `_pluginLifecycleLock`. -/
  lock : Option ℕ
  tasks : List Point
  log : List ManagerEvent

/-- A manager that was created. -/
def Manager.initial : Manager where
  startupTask := false
  shutdownStarted := false
  disposed := false
  clientDisposed := false
  forceShutdownRequested := false
  beforeStopCallbackInvoked := false
  startupCancelled := false
  forcedShutdownCompleted := false
  startupDone := false
  stopEnded := none
  lock := none
  tasks := []
  log := []

namespace Manager

/-- `StartClient`. -/
def startClient (m : Manager) : Manager :=
  if m.shutdownStarted || m.startupTask then m
  else
    { m with
      startupTask := true
      tasks := m.tasks ++ [.startCore]
      log := .created :: m.log }

/-- A task is created. -/
def spawn (m : Manager) (point : Point) : Manager := { m with tasks := m.tasks ++ [point] }

/-- The end of a disposal. `thrown` says that the proxy threw. -/
def disposalEnded (m : Manager) (thrown : Bool) : Disposer → Manager
  | .stopTask => { m with stopEnded := some thrown }
  | .forcedTask => { m with forcedShutdownCompleted := true }
  | .continuation => m

/-- A step of the task `j` that stands at a point: the fields, the point behind it, and the
tasks that it creates. `ok` says how a wait, a call or a callback ends. -/
def next (plugin : Bool) (m : Manager) (j : ℕ) (ok : Bool) :
    Point → Option (Manager × Point × List Point)
  | .startCore => some ({ m with log := .startAsync :: m.log }, .starting, [])
  | .starting =>
      if ok then some (m, .activate, [])
      else some ({ m with startupDone := true }, .done, [])
  | .activate => if m.lock = none then some ({ m with lock := some j }, .readShutdown, []) else none
  | .readShutdown =>
      if m.shutdownStarted then some ({ m with lock := none, startupDone := true }, .done, [])
      else some (m, .callAfter, [])
  | .callAfter =>
      if plugin then some ({ m with log := .after :: m.log }, .afterCallback, [])
      else some (m, .afterCallback, [])
  | .afterCallback => some ({ m with lock := none, startupDone := true }, .done, [])
  -- `StopOpAmpClientAsync`: the one that comes later gets a completed task
  | .stopClient =>
      if m.shutdownStarted then some (m, .done, [])
      else some ({ m with shutdownStarted := true }, .stopReporter, [])
  | .stopReporter => if ok then some (m, .wait, [.look]) else some (m, .force, [])
  | .wait =>
      if ok then
        match m.stopEnded with
        | none => none
        | some thrown => some (m, if thrown then .force else .done, [])
      else some (m, .force, [])
  | .force =>
      if m.forceShutdownRequested then some (m, .done, [.continuation])
      else
        some ({ m with forceShutdownRequested := true }, .done,
          [.disposeClient .forcedTask, .continuation])
  | .look =>
      some ({ m with log := .looked m.startupTask :: m.log }, .lockBefore m.startupTask, [])
  | .lockBefore found =>
      if m.lock = none then some ({ m with lock := some j }, .testBefore found, []) else none
  | .testBefore found =>
      if m.beforeStopCallbackInvoked then some ({ m with lock := none }, .cancel found, [])
      else some ({ m with beforeStopCallbackInvoked := true }, .callBefore found, [])
  | .callBefore found =>
      if plugin then some ({ m with log := .before :: m.log }, .beforeCallback found, [])
      else some (m, .beforeCallback found, [])
  | .beforeCallback found => some ({ m with lock := none }, .cancel found, [])
  | .cancel found =>
      some ({ m with startupCancelled := true },
        if found then .awaitStartup else .dispose .stopTask, [])
  | .awaitStartup => if m.startupDone then some (m, .checkForce, []) else none
  | .checkForce =>
      some (m, if m.forceShutdownRequested then .dispose .stopTask else .stopTransport, [])
  | .stopTransport => some (m, .dispose .stopTask, [])
  | .dispose disposer =>
      some ({ m with shutdownStarted := true }, .disposeOnce disposer, [])
  | .disposeOnce disposer =>
      if m.disposed then some (m.disposalEnded false disposer, .done, [])
      else some ({ m with disposed := true }, .disposeCancel disposer, [])
  | .disposeCancel disposer =>
      some ({ m with startupCancelled := true }, .disposeClient disposer, [])
  | .disposeClient disposer =>
      if m.clientDisposed then some (m.disposalEnded false disposer, .done, [])
      else some ({ m with clientDisposed := true }, .disposeProxy disposer, [])
  | .disposeProxy disposer =>
      let m := { m with log := .disposed :: m.log }
      some (m.disposalEnded (!ok) disposer, .done, [])
  | .continuation =>
      if m.forcedShutdownCompleted then some (m, .dispose .continuation, []) else none
  | .done => none

/-- A step of the task `j`. -/
def step (plugin : Bool) (m : Manager) (j : ℕ) (ok : Bool) : Option Manager := do
  let point ← m.tasks[j]?
  let (m, point, spawned) ← m.next plugin j ok point
  return { m with tasks := m.tasks.set j point ++ spawned }

end Manager

end AutoInstrumentation.OpAmp
