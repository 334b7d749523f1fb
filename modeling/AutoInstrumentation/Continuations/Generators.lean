import AutoInstrumentation.Continuations.Awaitable

/-!
# AutoInstrumentation.Continuations.Generators

The four continuation generators (`CallTarget/Handlers/Continuations`), each with its
synchronous and its asynchronous callback handler.

A handler gets what the instrumented method returned and the exception it threw, if it
threw. The awaitable that a method returns which throws is the default one: a null task,
or a value task that has completed with the default result.
-/

namespace AutoInstrumentation.Continuations

variable {ε Obj R : Type}

/-- The resolver of a generator whose integration has an `OnAsyncMethodEnd`. -/
inductive CallbackHandler (ε A : Type)
  | sync (continuation : Callback ε A)
  | async (asyncContinuation : Callback ε A)

/-- `if (exception != null) ExceptionDispatchInfo.Capture(exception).Throw();` -/
def rethrow {A : Type} (exception : Option (Exn ε)) : Async ε A Unit :=
  match exception with
  | some ex => throw ex
  | none => pure ()

@[simp] theorem rethrow_none_apply {A : Type} {w : World ε A} : rethrow none w = (.ok (), w) := rfl

@[simp] theorem rethrow_some_apply {A : Type} {w : World ε A} (ex : Exn ε) :
    rethrow (some ex) w = (.error ex, w) := rfl

/-! ### `TaskContinuationGenerator<TIntegration, TTarget, TReturn, TResult>` -/

namespace TaskOfResult

/-- `SyncCallbackHandler.ContinuationAction`. -/
def syncContinuationAction [Inhabited R] (continuation : Callback ε R)
    (previousTask : Outcome ε R) : Async ε R R := do
  if !(← isCompleted) then
    awaitNoThrow
  let status ← getStatus previousTask
  let taskResult : R ← match status with
    | .ranToCompletion => getResult previousTask
    | _ => pure default
  let exception : Option (Exn ε) ← match status with
    | .faulted => pure (previousTask.exception?.map Exn.getBaseException)
    | .canceled => awaitException previousTask
    | _ => pure none
  let continuationResult ← orLogException (invoke continuation taskResult exception) default
  rethrow exception
  return continuationResult

/-- `SyncCallbackHandler.ExecuteCallback`. -/
def syncExecuteCallback [Inhabited R] (continuation : Callback ε R)
    (returnValue : Option (Outcome ε R)) (exception : Option (Exn ε)) :
    Async ε R (Returned ε R) :=
  match exception, returnValue with
  | none, some previousTask => do
      let status ← getStatus previousTask
      if status = .ranToCompletion then
        let taskResult ← getResult previousTask
        let continuationResult ← invoke continuation taskResult none
        return .task (.result continuationResult)
      else
        startTask (syncContinuationAction continuation previousTask)
  | _, _ => do
      let _ ← invoke continuation default exception
      return .original

/-- `AsyncCallbackHandler.ContinuationAction`. -/
def asyncContinuationAction [Inhabited R] (asyncContinuation : Callback ε R)
    (previousTask : Option (Outcome ε R)) (exception : Option (Exn ε)) : Async ε R R := do
  let (taskResult, exception) ← match previousTask with
    | none => pure (default, exception)
    | some previousTask => do
        if !(← isCompleted) then
          awaitNoThrow
        let status ← getStatus previousTask
        let taskResult : R ← match status with
          | .ranToCompletion => getResult previousTask
          | _ => pure default
        let exception : Option (Exn ε) ← match status with
          | .faulted => pure (exception.or (previousTask.exception?.map Exn.getBaseException))
          | .canceled => exception.or <$> awaitException previousTask
          | _ => pure exception
        pure (taskResult, exception)
  let continuationResult ← orLogException (invoke asyncContinuation taskResult exception) default
  rethrow exception
  return continuationResult

def setContinuation [Inhabited R] (resolver : CallbackHandler ε R)
    (returnValue : Option (Outcome ε R)) (exception : Option (Exn ε)) :
    Async ε R (Returned ε R) :=
  match resolver with
  | .sync continuation => syncExecuteCallback continuation returnValue exception
  | .async asyncContinuation =>
      startTask (asyncContinuationAction asyncContinuation returnValue exception)

end TaskOfResult

/-! ### `TaskContinuationGenerator<TIntegration, TTarget, TReturn>` -/

namespace TaskWithoutResult

/-- `SyncCallbackHandler.ContinuationAction`. The callback is given a null object. -/
def syncContinuationAction (continuation : Callback ε (Option Obj))
    (previousTask : Outcome ε Unit) : Async ε (Option Obj) Unit := do
  if !(← isCompleted) then
    awaitNoThrow
  let status ← getStatus previousTask
  let exception : Option (Exn ε) ← match status with
    | .faulted => pure (previousTask.exception?.map Exn.getBaseException)
    | .canceled => awaitException previousTask
    | _ => pure none
  let _ ← orLogException (invoke continuation none exception) none
  rethrow exception

/-- `SyncCallbackHandler.ExecuteCallback`. -/
def syncExecuteCallback (continuation : Callback ε (Option Obj))
    (returnValue : Option (Outcome ε Unit)) (exception : Option (Exn ε)) :
    Async ε (Option Obj) (Returned ε Unit) :=
  match exception, returnValue with
  | none, some previousTask => do
      let status ← getStatus previousTask
      if status = .ranToCompletion then
        let _ ← invoke continuation none none
        return .original
      else
        startTask (syncContinuationAction continuation previousTask)
  | _, _ => do
      let _ ← invoke continuation none exception
      return .original

/-- `AsyncCallbackHandler.ContinuationAction`. -/
def asyncContinuationAction (asyncContinuation : Callback ε (Option Obj))
    (previousTask : Option (Outcome ε Unit)) (exception : Option (Exn ε)) :
    Async ε (Option Obj) Unit := do
  let exception : Option (Exn ε) ← match previousTask with
    | none => pure exception
    | some previousTask => do
        if !(← isCompleted) then
          awaitNoThrow
        let status ← getStatus previousTask
        match status with
          | .faulted => pure (exception.or (previousTask.exception?.map Exn.getBaseException))
          | .canceled => exception.or <$> awaitException previousTask
          | _ => pure exception
  let _ ← orLogException (invoke asyncContinuation none exception) none
  rethrow exception

def setContinuation (resolver : CallbackHandler ε (Option Obj))
    (returnValue : Option (Outcome ε Unit)) (exception : Option (Exn ε)) :
    Async ε (Option Obj) (Returned ε Unit) :=
  match resolver with
  | .sync continuation => syncExecuteCallback continuation returnValue exception
  | .async asyncContinuation =>
      startTask (asyncContinuationAction asyncContinuation returnValue exception)

end TaskWithoutResult

/-! ### `ValueTaskContinuationGenerator<TIntegration, TTarget, TReturn, TResult>` -/

namespace ValueTaskOfResult

/-- `SyncCallbackHandler.ContinuationAction`. -/
def syncContinuationAction [Inhabited R] (continuation : Callback ε R)
    (previousValueTask : Outcome ε R) : Async ε R R := do
  let result ← tryCatch (awaitTask previousValueTask) fun ex => do
    let _ ← orLogException (invoke continuation default (some ex)) default
    throw ex
  orLogException (invoke continuation result none) result

/-- `SyncCallbackHandler.ExecuteCallback`. -/
def syncExecuteCallback [Inhabited R] (continuation : Callback ε R) (returnValue : Outcome ε R)
    (exception : Option (Exn ε)) : Async ε R (Returned ε R) :=
  match exception with
  | some ex => do
      let _ ← invoke continuation default (some ex)
      return .original
  | none => startTask (syncContinuationAction continuation returnValue)

/-- `AsyncCallbackHandler.ContinuationAction`. -/
def asyncContinuationAction [Inhabited R] (asyncContinuation : Callback ε R)
    (previousValueTask : Outcome ε R) (exception : Option (Exn ε)) : Async ε R R :=
  match exception with
  | some ex => invoke asyncContinuation default (some ex)
  | none => do
      let result ← tryCatch (awaitTask previousValueTask) fun ex => do
        let _ ← orLogException (invoke asyncContinuation default (some ex)) default
        throw ex
      orLogException (invoke asyncContinuation result none) result

def setContinuation [Inhabited R] (resolver : CallbackHandler ε R) (returnValue : Outcome ε R)
    (exception : Option (Exn ε)) : Async ε R (Returned ε R) :=
  match resolver with
  | .sync continuation => syncExecuteCallback continuation returnValue exception
  | .async asyncContinuation =>
      startTask (asyncContinuationAction asyncContinuation returnValue exception)

end ValueTaskOfResult

/-! ### `ValueTaskContinuationGenerator<TIntegration, TTarget, TReturn>` -/

namespace ValueTaskWithoutResult

/-- `SyncCallbackHandler.ContinuationAction`. -/
def syncContinuationAction (continuation : Callback ε (Option Obj))
    (previousValueTask : Outcome ε Unit) : Async ε (Option Obj) Unit := do
  tryCatch (awaitTask previousValueTask) fun ex => do
    let _ ← orLogException (invoke continuation none (some ex)) none
    throw ex
  let _ ← orLogException (invoke continuation none none) none

/-- `SyncCallbackHandler.ExecuteCallback`. -/
def syncExecuteCallback (continuation : Callback ε (Option Obj)) (returnValue : Outcome ε Unit)
    (exception : Option (Exn ε)) : Async ε (Option Obj) (Returned ε Unit) :=
  match exception with
  | some ex => do
      let _ ← invoke continuation none (some ex)
      return .original
  | none => startTask (syncContinuationAction continuation returnValue)

/-- `AsyncCallbackHandler.ContinuationAction`. -/
def asyncContinuationAction (asyncContinuation : Callback ε (Option Obj))
    (previousValueTask : Outcome ε Unit) (exception : Option (Exn ε)) :
    Async ε (Option Obj) Unit := do
  -- Unlike the generator for a result, it does not return here.
  if exception.isSome then
    let _ ← invoke asyncContinuation none exception
  tryCatch (awaitTask previousValueTask) fun ex => do
    let _ ← orLogException (invoke asyncContinuation none (some ex)) none
    throw ex
  let _ ← orLogException (invoke asyncContinuation none none) none

def setContinuation (resolver : CallbackHandler ε (Option Obj)) (returnValue : Outcome ε Unit)
    (exception : Option (Exn ε)) : Async ε (Option Obj) (Returned ε Unit) :=
  match resolver with
  | .sync continuation => syncExecuteCallback continuation returnValue exception
  | .async asyncContinuation =>
      startTask (asyncContinuationAction asyncContinuation returnValue exception)

end ValueTaskWithoutResult

end AutoInstrumentation.Continuations
