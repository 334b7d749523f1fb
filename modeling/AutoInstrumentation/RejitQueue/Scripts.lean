import AutoInstrumentation.Integration
import AutoInstrumentation.Lib.Locks
import AutoInstrumentation.Lib.Transition
import AutoInstrumentation.NgenInliners

/-!
# AutoInstrumentation.RejitQueue.Scripts

What the threads do that share the rejit handler and its work queue
(`rejit_handler.cpp`, `rejit_work_offloader.cpp`, `cor_profiler.cpp`), as scripts of
single accesses.

A script is what is left of a call: one access to a shared variable, a lock, the queue
or a promise, and the script behind it. The worker thread (`EnqueueThreadLoop`) takes
the items from the front of the queue and follows the script of each. Every access is
one step, so a run of the system is one interleaving of any number of calling threads
(`ι`) with the worker. Each calling thread makes at most one promise, which is named
after it. The calls into the CLR are accesses that return.
-/

namespace AutoInstrumentation.RejitQueue

open Lib Integration
open NgenInliners (ModuleId MethodDef)

/-- The mutexes, by the members they protect. `m_shutdown_lock` appears through its
writer; its readers hold it for a single access. -/
inductive LockName
  | definitionsIds
  | moduleIds
  | shutdown
  | rejitModules
  | ngenInliners
  deriving DecidableEq, Repr

/-- The pointers through which the handler calls the CLR. -/
inductive Interface
  | profilerInfo
  | profilerInfo12
  deriving DecidableEq, Repr

/-- What the CLR is asked for. -/
inductive Request
  | requestRevert (modules : List ModuleId) (methods : List MethodDef)
  | requestReJIT (through : Interface) (modules : List ModuleId) (methods : List MethodDef)
  deriving DecidableEq, Repr

def Request.through : Request → Interface
  | requestRevert _ _ => .profilerInfo
  | requestReJIT i _ _ => i

variable {ι : Type}

/-- The lambdas that are put into the queue, with what they capture. -/
inductive Action (ι : Type)
  /-- Of `RejitHandler::EnqueueForRejit`. -/
  | requestRejit (modules : List ModuleId) (methods : List MethodDef) (promise : Option ι)
      (callRevertExplicitly : Bool)
  /-- Of `RejitPreprocessor::EnqueueRequestRejitForLoadedModules`. -/
  | requestRejitForLoadedModules (modules : List ModuleId)
      (definitions : List IntegrationDefinition) (promise : Option ι)
  deriving DecidableEq

inductive RejitWorkItem (ι : Type)
  | terminating
  | func (action : Action ι)
  deriving DecidableEq

/-- The rest of a call. -/
inductive Script (ι : Type)
  | ret
  | lock (l : LockName) (rest : Script ι)
  /-- `TryGet`: the lock may also be refused. -/
  | tryLock (l : LockName) (rest refused : Script ι)
  | unlock (l : LockName) (rest : Script ι)
  /-- Is `is_attached_` set? -/
  | ifAttached (yes no : Script ι)
  /-- `is_attached_.store(false)`. -/
  | detach (rest : Script ι)
  /-- Is `rejit_handler` not null? The pointer is read once for the test and its use. -/
  | ifHandler (yes no : Script ι)
  /-- `IsShutdownRequested`. -/
  | ifShutdownRequested (yes no : Script ι)
  /-- Is `m_profilerInfo` not null? -/
  | ifProfilerInfo (yes no : Script ι)
  /-- Is `m_profilerInfo12` not null? -/
  | ifProfilerInfo12 (yes no : Script ι)
  /-- A call through `m_profilerInfo` that only reads. -/
  | useProfilerInfo (rest : Script ι)
  | request (r : Request) (rest : Script ι)
  /-- `promise->set_value(value)`. -/
  | setValue (promise : ι) (value : ℕ) (rest : Script ι)
  | push (item : RejitWorkItem ι) (rest : Script ι)
  /-- `future.get()`. -/
  | await (promise : ι) (rest : Script ι)
  /-- `future.wait_for(100ms)`, and `future.get()` unless the time has passed. -/
  | awaitFor (promise : ι) (rest : Script ι)
  /-- `WaitForTermination`. -/
  | join (rest : Script ι)
  /-- `m_shutdown.store(true)`. -/
  | setShutdown (rest : Script ι)
  /-- `m_profilerInfo = nullptr; m_profilerInfo12 = nullptr`. -/
  | clearInterfaces (rest : Script ι)
  /-- `rejit_handler = nullptr`. -/
  | clearHandler (rest : Script ι)
  deriving DecidableEq

/-! ### The shared variables -/

/-- The variables the threads share, and beside them what has been pushed and what the
CLR was asked for. The owner `none` of a lock is the worker. -/
structure Shared (ι : Type) where
  locks : Locks LockName (Option ι)
  isAttached : Bool
  rejitHandler : Bool
  shutdown : Bool
  profilerInfo : Bool
  profilerInfo12 : Bool
  queue : List (RejitWorkItem ι)
  /-- The worker thread has ended. -/
  exited : Bool
  promises : ι → Option ℕ
  /-- A null pointer was used or a promise was set twice. -/
  faulted : Bool
  pushed : List (RejitWorkItem ι)
  requests : List Request

namespace Shared

/-- The pointer is not null. -/
def has (s : Shared ι) : Interface → Bool
  | .profilerInfo => s.profilerInfo
  | .profilerInfo12 => s.profilerInfo12

def lock (s : Shared ι) (l : LockName) (owner : Option ι) : Shared ι :=
  { s with locks := s.locks.acquire l owner }

def unlock (s : Shared ι) (l : LockName) : Shared ι :=
  { s with locks := s.locks.release l }

def request (s : Shared ι) (r : Request) : Shared ι :=
  if s.has r.through then { s with requests := s.requests ++ [r] }
  else { s with faulted := true }

/-- A second value throws. -/
def setValue [DecidableEq ι] (s : Shared ι) (promise : ι) (value : ℕ) : Shared ι :=
  if s.promises promise = none then
    { s with promises := Function.update s.promises promise (some value) }
  else { s with faulted := true }

def push (s : Shared ι) (item : RejitWorkItem ι) : Shared ι :=
  { s with queue := s.queue ++ [item], pushed := s.pushed ++ [item] }

end Shared

/-! ### Steps -/

variable [DecidableEq ι]

/-- One access of a thread; `none` while it blocks. `grants` says whether a lock that
may be refused is granted. -/
def Script.step (owner : Option ι) (grants : Bool) (s : Shared ι) :
    Script ι → Option (Shared ι × Script ι)
  | .ret => none
  | .lock l rest => if s.locks l = none then some (s.lock l owner, rest) else none
  | .tryLock l rest refused =>
      if !grants then some (s, refused)
      else if s.locks l = none then some (s.lock l owner, rest)
      else none
  | .unlock l rest => some (s.unlock l, rest)
  | .ifAttached yes no => some (s, if s.isAttached then yes else no)
  | .detach rest => some ({ s with isAttached := false }, rest)
  | .ifHandler yes no => some (s, if s.rejitHandler then yes else no)
  | .ifShutdownRequested yes no =>
      if s.locks .shutdown = none then some (s, if s.shutdown then yes else no) else none
  | .ifProfilerInfo yes no => some (s, if s.profilerInfo then yes else no)
  | .ifProfilerInfo12 yes no => some (s, if s.profilerInfo12 then yes else no)
  | .useProfilerInfo rest =>
      some (if s.profilerInfo then s else { s with faulted := true }, rest)
  | .request r rest => some (s.request r, rest)
  | .setValue promise value rest => some (s.setValue promise value, rest)
  | .push item rest => some (s.push item, rest)
  | .await promise rest => if s.promises promise = none then none else some (s, rest)
  | .awaitFor _ rest => some (s, rest)
  | .join rest => if s.exited then some (s, rest) else none
  | .setShutdown rest => some ({ s with shutdown := true }, rest)
  | .clearInterfaces rest =>
      some ({ s with profilerInfo := false, profilerInfo12 := false }, rest)
  | .clearHandler rest => some ({ s with rejitHandler := false }, rest)

structure State (ι : Type) where
  shared : Shared ι
  threads : ι → Script ι
  /-- What is left of the item the worker carries out. -/
  worker : Option (Script ι)

inductive Act (ι : Type)
  | thread (i : ι) (grants : Bool)
  | pop
  | worker
  deriving DecidableEq, Repr

/-- `EnqueueThreadLoop` has taken an item. `code` gives the script of an action. -/
def State.take (code : Action ι → Script ι) (s : State ι) (queue : List (RejitWorkItem ι)) :
    RejitWorkItem ι → State ι
  | .terminating => { s with shared := { s.shared with queue, exited := true } }
  | .func action =>
      { s with shared := { s.shared with queue }, worker := some (code action) }

/-- One step; `none` when it cannot be taken. -/
def step (code : Action ι → Script ι) (s : State ι) : Act ι → Option (State ι)
  | .thread i grants =>
      ((s.threads i).step (some i) grants s.shared).map fun p =>
        { s with shared := p.1, threads := Function.update s.threads i p.2 }
  | .pop =>
      if s.worker.isSome || s.shared.exited then none
      else
        match s.shared.queue with
        | [] => none
        | item :: queue => some (s.take code queue item)
  | .worker =>
      match s.worker with
      | none => none
      | some .ret => some { s with worker := none }
      | some rest =>
          (rest.step none true s.shared).map fun p =>
            { s with shared := p.1, worker := some p.2 }

end AutoInstrumentation.RejitQueue
