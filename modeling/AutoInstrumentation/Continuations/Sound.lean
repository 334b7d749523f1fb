import AutoInstrumentation.Continuations.Generators

/-!
# AutoInstrumentation.Continuations.Sound

What an integration's callback sees of an instrumented asynchronous method, and what the
caller gets.

The contract is stated once for all generators (`Contract`). `observe` runs a handler and
then awaits what the caller received. Each handler is evaluated for each way the method
can end, and `setContinuation_iff` says for each generator exactly when the contract is
kept.
-/

namespace AutoInstrumentation.Continuations

variable {ε A Obj R : Type}

/-! ### Runs -/

/-- How the instrumented method ends: it throws, or it returns an awaitable, which may have
ended already. -/
inductive MethodEnd (ε R : Type)
  | threw (exception : Exn ε)
  | returned (completed : Bool) (original : Outcome ε R)

/-- The calls of the callback, and what awaiting the caller's awaitable gives; nothing is
returned to the caller by a method that throws. -/
structure Observed (ε A R : Type) where
  calls : List (Call ε A)
  awaited : Option (Except (Exn ε) R)

/-- Run a handler and await what it gives back. When it throws, the rewritten method returns
the original awaitable. -/
def observe (m : MethodEnd ε R) (handler : Async ε A (Returned ε R)) : Observed ε A R :=
  match m with
  | .threw _ => ⟨(handler ⟨true, []⟩).2.calls, none⟩
  | .returned completed original =>
      match handler ⟨completed, []⟩ with
      | (.ok (.task task), w) => ⟨w.calls, some task.awaited⟩
      | (.ok .original, w) => ⟨w.calls, some original.awaited⟩
      | (.error _, w) => ⟨w.calls, some original.awaited⟩

theorem observe_congr {completed : Bool} {original : Outcome ε R}
    {handler handler' : Async ε A (Returned ε R)}
    (h : handler ⟨completed, []⟩ = handler' ⟨completed, []⟩) :
    observe (.returned completed original) handler
      = observe (.returned completed original) handler' := by
  simp only [observe, h]

/-- A generator of tasks on what the method returned. -/
def onTask (setContinuation : Option (Outcome ε R) → Option (Exn ε) → Async ε A (Returned ε R))
    (m : MethodEnd ε R) : Observed ε A R :=
  observe m <| match m with
    | .threw exception => setContinuation none (some exception)
    | .returned _ original => setContinuation (some original) none

/-- A generator of value tasks on what the method returned. -/
def onValueTask [Inhabited R]
    (setContinuation : Outcome ε R → Option (Exn ε) → Async ε A (Returned ε R))
    (m : MethodEnd ε R) : Observed ε A R :=
  observe m <| match m with
    | .threw exception => setContinuation (.result default) (some exception)
    | .returned _ original => setContinuation original none

/-! ### The contract -/

/-- The one call of the callback: after the end, with the result or the failure. `argument`
is what a result is to the callback. -/
def expectedCall [Inhabited A] (argument : R → A) : MethodEnd ε R → Call ε A
  | .threw exception => ⟨default, some exception, true⟩
  | .returned _ original =>
      match original.awaited with
      | .ok value => ⟨argument value, none, true⟩
      | .error exception => ⟨default, some exception, true⟩

/-- What awaiting gives: the failure, or what `replace` makes of the result. -/
def expectedAwaited (replace : R → R) : MethodEnd ε R → Option (Except (Exn ε) R)
  | .threw _ => none
  | .returned _ original => some (original.awaited.map replace)

def Contract [Inhabited A] (argument : R → A) (replace : R → R) (m : MethodEnd ε R)
    (observed : Observed ε A R) : Prop :=
  observed.calls = [expectedCall argument m] ∧ observed.awaited = expectedAwaited replace m

/-- The callback's value takes the place of the result, unless it throws. -/
def replaceBy (callback : Callback ε R) (value : R) : R :=
  (callback 0 value none).toOption.getD value

def CallbackHandler.callback : CallbackHandler ε A → Callback ε A
  | .sync continuation => continuation
  | .async asyncContinuation => asyncContinuation

def CallbackHandler.isAsync : CallbackHandler ε A → Bool
  | .sync _ => false
  | .async _ => true

/-! ### Faults -/

/-- The end is no fault whose base exception is not the one that awaiting throws: one with
several exceptions, or with an aggregate of one exception. -/
def SingleFault (original : Outcome ε R) : Prop :=
  ∀ first others, original = .faulted first others →
    others = [] ∧ ∀ e, first ≠ .aggregate [e]

theorem getBaseException_eq {e : Exn ε} (h : ∀ e', e ≠ .aggregate [e']) :
    e.getBaseException = e := by
  unfold Exn.getBaseException
  split
  · exact absurd rfl (h _)
  · rfl

theorem sizeOf_getBaseException (e : Exn ε) : sizeOf e.getBaseException ≤ sizeOf e := by
  fun_induction Exn.getBaseException e with
  | case1 e ih =>
      have hlt : sizeOf e < sizeOf (Exn.aggregate [e]) := by
        simp only [Exn.aggregate.sizeOf_spec, List.cons.sizeOf_spec]
        omega
      exact Nat.le_trans ih (Nat.le_of_lt hlt)
  | case2 e => exact Nat.le_refl _

/-- The base exception of a fault is the first exception only of a single fault. -/
theorem getBaseException_fault (first : Exn ε) (others : List (Exn ε)) :
    (Exn.aggregate (first :: others)).getBaseException = first ↔
      others = [] ∧ ∀ e, first ≠ .aggregate [e] := by
  constructor
  · intro h
    cases others with
    | nil =>
        refine ⟨rfl, ?_⟩
        rintro e rfl
        rw [Exn.getBaseException, Exn.getBaseException] at h
        have hle := sizeOf_getBaseException e
        rw [h] at hle
        simp only [Exn.aggregate.sizeOf_spec, List.cons.sizeOf_spec] at hle
        omega
    | cons second others =>
        rw [getBaseException_eq (by simp)] at h
        have hsize := congrArg sizeOf h
        simp only [Exn.aggregate.sizeOf_spec, List.cons.sizeOf_spec] at hsize
        omega
  · rintro ⟨rfl, hfirst⟩
    rw [Exn.getBaseException, getBaseException_eq hfirst]

/-- What the task generators take for the exception of an end. -/
def taskFailure : Outcome ε R → Option (Exn ε)
  | .result _ => none
  | .faulted first others => some (Exn.aggregate (first :: others)).getBaseException
  | .canceled exception => some exception

/-! ### Tasks with a result -/

namespace TaskOfResult

variable [Inhabited R]

/-- The value of the callback, or the default one when it throws. -/
def continuationResult (callback : Callback ε R) (value : R) : R :=
  (callback 0 value none).toOption.getD default

/-- How both continuation actions end for a method that returned `original`. -/
def action (callback : Callback ε R) (original : Outcome ε R) : Except (Exn ε) R × World ε R :=
  match original with
  | .result value => (.ok (continuationResult callback value), ⟨true, [⟨value, none, true⟩]⟩)
  | .faulted first others =>
      let exception := (Exn.aggregate (first :: others)).getBaseException
      (.error exception, ⟨true, [⟨default, some exception, true⟩]⟩)
  | .canceled exception => (.error exception, ⟨true, [⟨default, some exception, true⟩]⟩)

theorem syncContinuationAction_run (callback : Callback ε R) (original : Outcome ε R)
    (completed : Bool) :
    syncContinuationAction callback original ⟨completed, []⟩ = action callback original := by
  cases original <;> cases completed <;>
    simp [syncContinuationAction, Outcome.finalStatus, action,
      Outcome.exception?, continuationResult]

theorem asyncContinuationAction_run (callback : Callback ε R) (original : Outcome ε R)
    (completed : Bool) :
    asyncContinuationAction callback (some original) none ⟨completed, []⟩
      = action callback original := by
  cases original <;> cases completed <;>
    simp [asyncContinuationAction, Outcome.finalStatus, action,
      Outcome.exception?, continuationResult]

theorem asyncContinuationAction_threw (callback : Callback ε R) (exception : Exn ε) :
    asyncContinuationAction callback none (some exception) ⟨true, []⟩
      = (.error exception, ⟨true, [⟨default, some exception, true⟩]⟩) := by
  simp [asyncContinuationAction]

/-- The fast path: the callback is called at once, and its exception leaves the handler. -/
theorem syncExecuteCallback_completed (callback : Callback ε R) (value : R) :
    syncExecuteCallback callback (some (.result value)) none ⟨true, []⟩
      = ((callback 0 value none).map fun value => .task (.result value),
          ⟨true, [⟨value, none, true⟩]⟩) := by
  simp [syncExecuteCallback, Outcome.finalStatus]
  cases callback 0 value none <;> rfl

/-- Otherwise the callback is left to the continuation action. -/
theorem syncExecuteCallback_pending (callback : Callback ε R) {original : Outcome ε R}
    {completed : Bool}
    (h : (if completed then original.finalStatus else .waitingForActivation) ≠ .ranToCompletion) :
    syncExecuteCallback callback (some original) none ⟨completed, []⟩
      = startTask (syncContinuationAction callback original) ⟨completed, []⟩ := by
  simp only [syncExecuteCallback, bind_apply, getStatus_apply]
  rw [if_neg h]

/-- When a continuation action keeps the contract: where the callback throws for a result,
the default value is the original result; a fault is a single one. -/
def ActionKeeps (callback : Callback ε R) : Outcome ε R → Prop
  | .result value => ∀ e, callback 0 value none = .error e → value = default
  | original => SingleFault original

theorem observe_action (callback : Callback ε R) (original : Outcome ε R) (completed : Bool)
    {method : Async ε R R} (h : method ⟨completed, []⟩ = action callback original) :
    Contract id (replaceBy callback) (.returned completed original)
        (observe (.returned completed original) (startTask method))
      ↔ ActionKeeps callback original := by
  simp only [Contract, observe, startTask_apply, h]
  cases original with
  | result value =>
      cases hcallback : callback 0 value none with
      | ok replaced =>
          simp [action, expectedCall, expectedAwaited, ActionKeeps, hcallback,
            continuationResult, replaceBy, Except.map, Except.toOption]
      | error e =>
          simp [action, expectedCall, expectedAwaited, ActionKeeps, hcallback,
            continuationResult, replaceBy, Except.map, Except.toOption, eq_comm]
  | faulted first others =>
      simp [action, expectedCall, expectedAwaited, ActionKeeps, SingleFault,
        getBaseException_fault, Except.map]
  | canceled exception =>
      simp [action, expectedCall, expectedAwaited, ActionKeeps, SingleFault,
        Except.map]

/-- When the generator keeps the contract. The synchronous handler of a task that has a
result when it is returned leaves the exceptions of the callback to the rewritten method. -/
def Keeps (resolver : CallbackHandler ε R) : MethodEnd ε R → Prop
  | .threw _ => True
  | .returned completed original =>
      completed = true ∧ resolver.isAsync = false ∧ (∃ value, original = .result value) ∨
        ActionKeeps resolver.callback original

theorem contract_iff (resolver : CallbackHandler ε R) (m : MethodEnd ε R) :
    Contract id (replaceBy resolver.callback) m (onTask (setContinuation resolver) m)
      ↔ Keeps resolver m := by
  cases m with
  | threw exception =>
      cases resolver with
      | sync continuation =>
          simp [Contract, onTask, observe, setContinuation, syncExecuteCallback,
            expectedCall, expectedAwaited, Keeps]
          cases continuation 0 default (some exception) <;> rfl
      | async asyncContinuation =>
          simp [Contract, onTask, observe, setContinuation, asyncContinuationAction_threw,
            expectedCall, expectedAwaited, Keeps]
  | returned completed original =>
      cases resolver with
      | sync continuation =>
          by_cases hstatus :
              (if completed then original.finalStatus else .waitingForActivation) = .ranToCompletion
          · -- Only a result that is there already takes the fast path.
            obtain ⟨rfl, value, rfl⟩ : completed = true ∧ ∃ value, original = .result value := by
              cases completed <;> cases original <;> simp [Outcome.finalStatus] at hstatus ⊢
            simp only [onTask, setContinuation, Contract, observe, syncExecuteCallback_completed]
            cases hcallback : continuation 0 value none <;>
              simp [expectedCall, expectedAwaited, Keeps, hcallback,
                CallbackHandler.isAsync, CallbackHandler.callback, replaceBy, Except.map,
                Except.toOption]
          · have hslow : ¬(completed = true ∧ ∃ value, original = .result value) := by
              rintro ⟨rfl, value, rfl⟩
              exact hstatus rfl
            have h := observe_action continuation original completed
              (syncContinuationAction_run continuation original completed)
            rw [observe_congr (syncExecuteCallback_pending continuation hstatus).symm] at h
            simpa [onTask, setContinuation, Keeps, CallbackHandler.callback,
              CallbackHandler.isAsync, hslow] using h
      | async asyncContinuation =>
          have h := observe_action asyncContinuation original completed
            (asyncContinuationAction_run asyncContinuation original completed)
          simpa [onTask, setContinuation, Keeps, CallbackHandler.callback,
            CallbackHandler.isAsync] using h

end TaskOfResult

/-! ### Tasks without a result -/

namespace TaskWithoutResult

/-- How both continuation actions end for a method that returned `original`. -/
def action (original : Outcome ε Unit) : Except (Exn ε) Unit × World ε (Option Obj) :=
  match taskFailure original with
  | none => (.ok (), ⟨true, [⟨none, none, true⟩]⟩)
  | some exception => (.error exception, ⟨true, [⟨none, some exception, true⟩]⟩)

theorem syncContinuationAction_run (callback : Callback ε (Option Obj))
    (original : Outcome ε Unit) (completed : Bool) :
    syncContinuationAction callback original ⟨completed, []⟩ = action original := by
  cases original <;> cases completed <;>
    simp [syncContinuationAction, Outcome.finalStatus, action, taskFailure,
      Outcome.exception?]

theorem asyncContinuationAction_run (callback : Callback ε (Option Obj))
    (original : Outcome ε Unit) (completed : Bool) :
    asyncContinuationAction callback (some original) none ⟨completed, []⟩ = action original := by
  cases original <;> cases completed <;>
    simp [asyncContinuationAction, Outcome.finalStatus, action, taskFailure,
      Outcome.exception?]

theorem asyncContinuationAction_threw (callback : Callback ε (Option Obj)) (exception : Exn ε) :
    asyncContinuationAction callback none (some exception) ⟨true, []⟩
      = (.error exception, ⟨true, [⟨none, some exception, true⟩]⟩) := by
  simp [asyncContinuationAction]

theorem observe_action (original : Outcome ε Unit) (completed : Bool)
    {method : Async ε (Option Obj) Unit} (h : method ⟨completed, []⟩ = action original) :
    Contract (fun _ => none) id (.returned completed original)
        (observe (.returned completed original) (startTask method))
      ↔ SingleFault original := by
  simp only [Contract, observe, startTask_apply, h]
  cases original with
  | result value =>
      simp [action, taskFailure, expectedCall, expectedAwaited, SingleFault, Except.map]
  | faulted first others =>
      simp [action, taskFailure, expectedCall, expectedAwaited, Option.default_eq_none, SingleFault,
        getBaseException_fault, Except.map]
  | canceled exception =>
      simp [action, taskFailure, expectedCall, expectedAwaited, Option.default_eq_none, SingleFault,
        Except.map]

/-- When the generator keeps the contract. -/
def Keeps : MethodEnd ε Unit → Prop
  | .threw _ => True
  | .returned _ original => SingleFault original

theorem contract_iff (resolver : CallbackHandler ε (Option Obj)) (m : MethodEnd ε Unit) :
    Contract (fun _ => none) id m (onTask (setContinuation resolver) m) ↔ Keeps m := by
  cases m with
  | threw exception =>
      cases resolver with
      | sync continuation =>
          simp [Contract, onTask, observe, setContinuation, syncExecuteCallback,
            expectedCall, expectedAwaited, Option.default_eq_none, Keeps]
          cases continuation 0 none (some exception) <;> rfl
      | async asyncContinuation =>
          simp [Contract, onTask, observe, setContinuation, asyncContinuationAction_threw,
            expectedCall, expectedAwaited, Option.default_eq_none, Keeps]
  | returned completed original =>
      cases resolver with
      | sync continuation =>
          by_cases hstatus :
              (if completed then original.finalStatus else .waitingForActivation) = .ranToCompletion
          · -- Only a result that is there already takes the fast path.
            obtain ⟨rfl, value, rfl⟩ : completed = true ∧ ∃ value, original = .result value := by
              cases completed <;> cases original <;> simp [Outcome.finalStatus] at hstatus ⊢
            simp [onTask, setContinuation, Contract, observe, syncExecuteCallback,
              Outcome.finalStatus, expectedCall, expectedAwaited, Keeps,
              SingleFault, Except.map]
            cases continuation 0 none none <;> simp
          · have h := observe_action original completed
              (syncContinuationAction_run continuation original completed)
            have hslow : syncExecuteCallback continuation (some original) none ⟨completed, []⟩
                = startTask (syncContinuationAction continuation original) ⟨completed, []⟩ := by
              simp only [syncExecuteCallback, bind_apply, getStatus_apply]
              rw [if_neg hstatus]
            rw [observe_congr hslow.symm] at h
            simpa [onTask, setContinuation, Keeps] using h
      | async asyncContinuation =>
          have h := observe_action original completed
            (asyncContinuationAction_run asyncContinuation original completed)
          simpa [onTask, setContinuation, Keeps] using h

end TaskWithoutResult

/-! ### Value tasks with a result -/

namespace ValueTaskOfResult

variable [Inhabited R]

/-- How both continuation actions end for a method that returned `original`. -/
def action (callback : Callback ε R) (original : Outcome ε R) : Except (Exn ε) R × World ε R :=
  match original.awaited with
  | .ok value => (.ok (replaceBy callback value), ⟨true, [⟨value, none, true⟩]⟩)
  | .error exception => (.error exception, ⟨true, [⟨default, some exception, true⟩]⟩)

theorem syncContinuationAction_run (callback : Callback ε R) (original : Outcome ε R)
    (completed : Bool) :
    syncContinuationAction callback original ⟨completed, []⟩ = action callback original := by
  cases h : original.awaited <;>
    simp [syncContinuationAction, h, action, replaceBy]

theorem asyncContinuationAction_run (callback : Callback ε R) (original : Outcome ε R)
    (completed : Bool) :
    asyncContinuationAction callback original none ⟨completed, []⟩ = action callback original := by
  cases h : original.awaited <;>
    simp [asyncContinuationAction, h, action, replaceBy]

theorem observe_action (callback : Callback ε R) (original : Outcome ε R) (completed : Bool)
    {method : Async ε R R} (h : method ⟨completed, []⟩ = action callback original) :
    Contract id (replaceBy callback) (.returned completed original)
      (observe (.returned completed original) (startTask method)) := by
  simp only [Contract, observe, startTask_apply, h]
  cases hawaited : original.awaited <;>
    simp [action, expectedCall, expectedAwaited, hawaited, Except.map]

/-- The generator always keeps the contract. -/
theorem contract (resolver : CallbackHandler ε R) (m : MethodEnd ε R) :
    Contract id (replaceBy resolver.callback) m (onValueTask (setContinuation resolver) m) := by
  cases m with
  | threw exception =>
      cases resolver with
      | sync continuation =>
          simp [Contract, onValueTask, observe, setContinuation, syncExecuteCallback,
            expectedCall, expectedAwaited]
          cases continuation 0 default (some exception) <;> rfl
      | async asyncContinuation =>
          simp [Contract, onValueTask, observe, setContinuation, asyncContinuationAction,
            expectedCall, expectedAwaited]
          cases asyncContinuation 0 default (some exception) <;> rfl
  | returned completed original =>
      cases resolver with
      | sync continuation =>
          exact observe_action continuation original completed
            (syncContinuationAction_run continuation original completed)
      | async asyncContinuation =>
          exact observe_action asyncContinuation original completed
            (asyncContinuationAction_run asyncContinuation original completed)

end ValueTaskOfResult

/-! ### Value tasks without a result -/

namespace ValueTaskWithoutResult

/-- How both continuation actions end for a method that returned `original`. -/
def action (original : Outcome ε Unit) : Except (Exn ε) Unit × World ε (Option Obj) :=
  match original.awaited with
  | .ok _ => (.ok (), ⟨true, [⟨none, none, true⟩]⟩)
  | .error exception => (.error exception, ⟨true, [⟨none, some exception, true⟩]⟩)

theorem syncContinuationAction_run (callback : Callback ε (Option Obj))
    (original : Outcome ε Unit) (completed : Bool) :
    syncContinuationAction callback original ⟨completed, []⟩ = action original := by
  cases h : original.awaited <;>
    simp [syncContinuationAction, h, action]

theorem asyncContinuationAction_run (callback : Callback ε (Option Obj))
    (original : Outcome ε Unit) (completed : Bool) :
    asyncContinuationAction callback original none ⟨completed, []⟩ = action original := by
  cases h : original.awaited <;>
    simp [asyncContinuationAction, h, action]

theorem observe_action (original : Outcome ε Unit) (completed : Bool)
    {method : Async ε (Option Obj) Unit} (h : method ⟨completed, []⟩ = action original) :
    Contract (fun _ => none) id (.returned completed original)
      (observe (.returned completed original) (startTask method)) := by
  simp only [Contract, observe, startTask_apply, h]
  cases hawaited : original.awaited <;>
    simp [action, expectedCall, expectedAwaited, Option.default_eq_none, hawaited, Except.map]

/-- When the generator keeps the contract: the asynchronous handler calls the callback again
for a method that throws, unless the callback throws. -/
def Keeps (resolver : CallbackHandler ε (Option Obj)) : MethodEnd ε Unit → Prop
  | .threw exception => resolver.isAsync = true →
      ∃ e, resolver.callback 0 none (some exception) = .error e
  | .returned .. => True

theorem contract_iff (resolver : CallbackHandler ε (Option Obj)) (m : MethodEnd ε Unit) :
    Contract (fun _ => none) id m (onValueTask (setContinuation resolver) m)
      ↔ Keeps resolver m := by
  cases m with
  | threw exception =>
      cases resolver with
      | sync continuation =>
          simp [Contract, onValueTask, observe, setContinuation, syncExecuteCallback,
            expectedCall, expectedAwaited, Option.default_eq_none, Keeps, CallbackHandler.isAsync]
          cases continuation 0 none (some exception) <;> rfl
      | async asyncContinuation =>
          simp [Contract, onValueTask, observe, setContinuation, asyncContinuationAction,
            expectedCall, expectedAwaited, Option.default_eq_none, Keeps,
            CallbackHandler.isAsync, CallbackHandler.callback]
          cases asyncContinuation 0 none (some exception) <;> simp
  | returned completed original =>
      cases resolver with
      | sync continuation =>
          have h := observe_action original completed
            (syncContinuationAction_run continuation original completed)
          simpa [onValueTask, setContinuation, syncExecuteCallback, Keeps] using h
      | async asyncContinuation =>
          have h := observe_action original completed
            (asyncContinuationAction_run asyncContinuation original completed)
          simpa [onValueTask, setContinuation, Keeps] using h

end ValueTaskWithoutResult

/-! ### All generators -/

/-- **What the continuation generators promise.** Each keeps the contract exactly when its
condition holds; the one for value tasks with a result always does. -/
theorem setContinuation_iff [Inhabited R] (resolver : CallbackHandler ε R) (m : MethodEnd ε R)
    (resolver' : CallbackHandler ε (Option Obj)) (m' : MethodEnd ε Unit) :
    (Contract id (replaceBy resolver.callback) m
        (onTask (TaskOfResult.setContinuation resolver) m) ↔ TaskOfResult.Keeps resolver m) ∧
    (Contract (fun _ => none) id m' (onTask (TaskWithoutResult.setContinuation resolver') m')
      ↔ TaskWithoutResult.Keeps m') ∧
    Contract id (replaceBy resolver.callback) m
      (onValueTask (ValueTaskOfResult.setContinuation resolver) m) ∧
    (Contract (fun _ => none) id m'
        (onValueTask (ValueTaskWithoutResult.setContinuation resolver') m')
      ↔ ValueTaskWithoutResult.Keeps resolver' m') :=
  ⟨TaskOfResult.contract_iff resolver m, TaskWithoutResult.contract_iff resolver' m',
    ValueTaskOfResult.contract resolver m, ValueTaskWithoutResult.contract_iff resolver' m'⟩

/-- A callback that throws loses the result 5 of a task that was pending; a task with two
faults gives the aggregate; a value task's asynchronous callback is called twice for a
method that throws. -/
theorem setContinuation_breaks :
    ¬Contract id (replaceBy fun _ _ _ => .error (.other 1)) (.returned false (.result 5))
      (onTask (TaskOfResult.setContinuation (.sync fun _ _ _ => .error (.other 1)))
        (.returned false (.result 5) : MethodEnd ℕ ℕ)) ∧
    ¬Contract (fun _ => none) id (.returned true (.faulted (.other 1) [.other 2]))
      (onTask (TaskWithoutResult.setContinuation (.sync fun _ (value : Option ℕ) _ => .ok value))
        (.returned true (.faulted (.other 1) [.other 2]) : MethodEnd ℕ Unit)) ∧
    ¬Contract (fun _ => none) id (.threw (.other 1))
      (onValueTask
        (ValueTaskWithoutResult.setContinuation (.async fun _ (value : Option ℕ) _ => .ok value))
        (.threw (.other 1) : MethodEnd ℕ Unit)) := by
  refine ⟨?_, ?_, ?_⟩
  · intro h
    rcases (TaskOfResult.contract_iff (.sync _) _).mp h with ⟨hcompleted, -, -⟩ | hkeeps
    · cases hcompleted
    · exact absurd (hkeeps (.other 1) rfl) (by decide)
  · intro h
    have hsingle := (TaskWithoutResult.contract_iff _ _).mp h
    exact absurd (hsingle (.other 1) [.other 2] rfl).1 (by simp)
  · intro h
    obtain ⟨e, he⟩ := (ValueTaskWithoutResult.contract_iff _ _).mp h rfl
    cases he

end AutoInstrumentation.Continuations
