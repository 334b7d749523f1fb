import Mathlib.Algebra.Ring.Nat
import Mathlib.Control.Monad.Basic
import Mathlib.Data.Nat.Notation

/-!
# AutoInstrumentation.Continuations.Awaitable

Exceptions, awaitables and asynchronous code, as far as the continuation generators use
them.

An awaitable is its end: a result, a fault with one or more exceptions, or a
cancellation. Whether it has ended yet is part of the world in which the code runs;
waiting for it lets it end. The world also records the calls of the integration's
callback. An asynchronous method runs to its end and never throws to its caller: what it
throws becomes the end of the awaitable it returns (`startTask`).
-/

namespace AutoInstrumentation.Continuations

variable {ε A R : Type}

/-! ### Exceptions -/

/-- An exception: an `AggregateException` with its inner exceptions, or another one. -/
inductive Exn (ε : Type)
  | other (e : ε)
  | aggregate (innerExceptions : List (Exn ε))

/-- `Exception.GetBaseException`: an aggregate of a single exception stands for it. -/
def Exn.getBaseException : Exn ε → Exn ε
  | .aggregate [e] => e.getBaseException
  | e => e

/-! ### Awaitables -/

/-- How an awaitable ends. -/
inductive Outcome (ε R : Type)
  | result (value : R)
  | faulted (first : Exn ε) (others : List (Exn ε))
  | canceled (exception : Exn ε)

inductive TaskStatus
  | waitingForActivation
  | ranToCompletion
  | faulted
  | canceled
  deriving DecidableEq, Repr

namespace Outcome

/-- The status once it has ended. -/
def finalStatus : Outcome ε R → TaskStatus
  | result _ => .ranToCompletion
  | faulted .. => .faulted
  | canceled _ => .canceled

/-- `Task.Exception`: the aggregate of the exceptions of a fault. -/
def exception? : Outcome ε R → Option (Exn ε)
  | faulted first others => some (.aggregate (first :: others))
  | _ => none

/-- What awaiting it gives: of several exceptions the first one is thrown. -/
def awaited : Outcome ε R → Except (Exn ε) R
  | result value => .ok value
  | faulted first _ => .error first
  | canceled exception => .error exception

@[simp] theorem awaited_result (value : R) : (result value : Outcome ε R).awaited = .ok value := rfl

@[simp] theorem awaited_faulted (first : Exn ε) (others : List (Exn ε)) :
    (faulted first others : Outcome ε R).awaited = .error first := rfl

@[simp] theorem awaited_canceled (exception : Exn ε) :
    (canceled exception : Outcome ε R).awaited = .error exception := rfl

end Outcome

/-! ### Asynchronous code -/

/-- A call of the callback: its arguments, and whether the original had ended. -/
structure Call (ε A : Type) where
  returnValue : A
  exception : Option (Exn ε)
  afterEnd : Bool

structure World (ε A : Type) where
  /-- Whether the original awaitable has ended. -/
  ended : Bool
  calls : List (Call ε A)

abbrev Async (ε A : Type) := ExceptT (Exn ε) (StateM (World ε A))

/-- `await`. -/
def awaitTask (task : Outcome ε R) : Async ε A R := do
  modify fun w => { w with ended := true }
  match task.awaited with
  | .ok value => return value
  | .error e => throw e

/-- `await` of a `NoThrowAwaiter`. -/
def awaitNoThrow : Async ε A Unit := modify fun w => { w with ended := true }

def isCompleted : Async ε A Bool := return (← get).ended

/-- `Task.Status`. -/
def getStatus (task : Outcome ε R) : Async ε A TaskStatus :=
  return if (← get).ended then task.finalStatus else .waitingForActivation

/-- `Task.Result`, of a task that has ended. -/
def getResult (task : Outcome ε R) : Async ε A R :=
  match task with
  | .result value => return value
  | .faulted first others => throw (.aggregate (first :: others))
  | .canceled e => throw (.aggregate [e])

/-- The integration's callback, for the instance and the state of a call: what it returns
or throws may depend on how often it was called. One that returns a task is awaited at
once, and may then end in the same ways. -/
abbrev Callback (ε A : Type) := ℕ → A → Option (Exn ε) → Except (Exn ε) A

def invoke (callback : Callback ε A) (returnValue : A) (exception : Option (Exn ε)) :
    Async ε A A := do
  let w ← get
  let call : Call ε A := { returnValue, exception, afterEnd := w.ended }
  set { w with calls := w.calls ++ [call] }
  match callback w.calls.length returnValue exception with
  | .ok value => return value
  | .error e => throw e

/-- Code in a `try` whose `catch` only logs; `fallback` is what stays assigned then. -/
def orLogException {α : Type} (body : Async ε A α) (fallback : α) : Async ε A α :=
  tryCatch body fun _ => pure fallback

/-- `await` for the exception: the only way to get that of a cancellation. -/
def awaitException (task : Outcome ε R) : Async ε A (Option (Exn ε)) :=
  tryCatch (awaitTask task >>= fun _ => pure none) fun ex => pure (some ex)

/-- What a handler gives back for the awaitable it was given: the same, or another one. -/
inductive Returned (ε R : Type)
  | original
  | task (task : Outcome ε R)

/-- Call an asynchronous method. One that throws an `OperationCanceledException` ends
cancelled, which gives the same when it is awaited. -/
def startTask (method : Async ε A R) : Async ε A (Returned ε R) :=
  tryCatch (method >>= fun value => pure (.task (.result value))) fun e =>
    pure (.task (.faulted e []))

/-! ### Asynchronous code step by step -/

section Steps

variable {α β : Type} {w : World ε A}

@[simp] theorem bind_apply (x : Async ε A α) (f : α → Async ε A β) :
    (x >>= f) w = match x w with
      | (.ok a, w) => f a w
      | (.error e, w) => (.error e, w) := by
  change (match x w with | (a, w) => (ExceptT.bindCont f a : StateM (World ε A) _) w) = _
  rcases x w with ⟨_ | _, _⟩ <;> rfl

@[simp] theorem map_apply (f : α → β) (x : Async ε A α) :
    (f <$> x) w = match x w with
      | (.ok a, w) => (.ok (f a), w)
      | (.error e, w) => (.error e, w) := by
  rw [map_eq_pure_bind]
  exact bind_apply x _

@[simp] theorem tryCatch_apply (x : Async ε A α) (f : Exn ε → Async ε A α) :
    (tryCatch x f : Async ε A α) w = match x w with
      | (.ok a, w) => (.ok a, w)
      | (.error e, w) => f e w := by
  change (ExceptT.tryCatch x f) w = _
  simp only [ExceptT.tryCatch, ExceptT.mk]
  simp only [bind, StateT.bind]
  rcases x w with ⟨_ | _, _⟩ <;> rfl

@[simp] theorem pure_apply (a : α) : (pure a : Async ε A α) w = (.ok a, w) := rfl

@[simp] theorem throw_apply (e : Exn ε) : (throw e : Async ε A α) w = (.error e, w) := rfl

@[simp] theorem isCompleted_apply : isCompleted w = (.ok w.ended, w) := rfl

@[simp] theorem awaitNoThrow_apply : awaitNoThrow w = (.ok (), { w with ended := true }) := rfl

@[simp] theorem getStatus_apply (task : Outcome ε R) : getStatus task w
    = (.ok (if w.ended then task.finalStatus else .waitingForActivation), w) := rfl

@[simp] theorem getResult_result (value : R) :
    getResult (.result value) w = (.ok value, w) := rfl

@[simp] theorem awaitTask_apply (task : Outcome ε R) :
    awaitTask task w = (task.awaited, { w with ended := true }) := by
  cases task <;> rfl

@[simp] theorem awaitException_apply (task : Outcome ε R) : awaitException task w
    = (.ok (match task.awaited with
        | .ok _ => none
        | .error e => some e), { w with ended := true }) := by
  rw [awaitException, tryCatch_apply, bind_apply]
  cases task <;> rfl

@[simp] theorem invoke_apply (callback : Callback ε A) (returnValue : A)
    (exception : Option (Exn ε)) : invoke callback returnValue exception w
      = (callback w.calls.length returnValue exception,
          { w with calls := w.calls ++ [⟨returnValue, exception, w.ended⟩] }) := by
  simp only [invoke, bind_apply]
  change (match callback w.calls.length returnValue exception with
    | .ok value => _
    | .error e => _ : Async ε A A) _ = _
  cases callback w.calls.length returnValue exception <;> rfl

@[simp] theorem orLogException_apply (callback : Callback ε A) (returnValue fallback : A)
    (exception : Option (Exn ε)) :
    orLogException (invoke callback returnValue exception) fallback w
      = (.ok ((callback w.calls.length returnValue exception).toOption.getD fallback),
        { w with calls := w.calls ++ [⟨returnValue, exception, w.ended⟩] }) := by
  rw [orLogException, tryCatch_apply, invoke_apply]
  cases callback w.calls.length returnValue exception <;> rfl

@[simp] theorem startTask_apply (method : Async ε A R) : startTask method w
    = match method w with
      | (.ok value, w) => (.ok (.task (.result value)), w)
      | (.error e, w) => (.ok (.task (.faulted e [])), w) := by
  rw [startTask, tryCatch_apply, bind_apply]
  rcases method w with ⟨_ | _, _⟩ <;> rfl

end Steps

end AutoInstrumentation.Continuations
