import AutoInstrumentation.RejitQueue.Discipline

/-!
# AutoInstrumentation.RejitQueue.Requests

What the work items are for.

An action asks the CLR for certain requests and answers its promise with a certain
number: that is its purpose, said without scripts. `Script.remaining` and
`Script.answer` read the same off a script, as long as the handler is not shut down, and
the scripts of the items fulfil their purpose.
-/

namespace AutoInstrumentation.RejitQueue

open Lib Integration
open NgenInliners (ModuleId MethodDef)

variable {ι : Type}

/-! ### The purpose -/

/-- The pointer that `RequestReJIT` prefers. -/
def preferred (info12 : Bool) : Interface :=
  if info12 then .profilerInfo12 else .profilerInfo

/-- The methods that definitions select in modules, in order. -/
def rejitRequests (found : Found) (definitions : List IntegrationDefinition)
    (modules : List ModuleId) : List (ModuleId × MethodDef) :=
  modules.flatMap fun module => (found module definitions).map fun method => (module, method)

/-- The requests for some methods; none for no methods. -/
def requestsFor (info12 : Bool) (modules : List ModuleId) (methods : List MethodDef)
    (callRevertExplicitly : Bool) : List Request :=
  if modules.isEmpty then []
  else
    (if callRevertExplicitly then [.requestRevert modules methods] else []) ++
      [.requestReJIT (preferred info12) modules methods]

/-- What an item asks the CLR for. -/
def RejitWorkItem.requests (found : Found) (info12 : Bool) : RejitWorkItem ι → List Request
  | .terminating => []
  | .func (.requestRejit modules methods _ callRevertExplicitly) =>
      requestsFor info12 modules methods callRevertExplicitly
  | .func (.requestRejitForLoadedModules modules definitions _) =>
      let requests := rejitRequests found definitions modules
      requestsFor info12 (requests.map (·.1)) (requests.map (·.2)) false

/-- The number an item answers its promise with. -/
def RejitWorkItem.rejitCount (found : Found) : RejitWorkItem ι → ℕ
  | .func (.requestRejitForLoadedModules modules definitions _) =>
      (rejitRequests found definitions modules).length
  | _ => 0

/-! ### What a script still does -/

namespace Script

/-- The requests that are still to be made before the handler is shut down. -/
def remaining (info12 : Bool) : Script ι → List Request
  | request r rest => r :: rest.remaining info12
  | ifProfilerInfo12 yes no => if info12 then yes.remaining info12 else no.remaining info12
  | ifShutdownRequested _ no => no.remaining info12
  | lock _ rest | unlock _ rest | useProfilerInfo rest | setValue _ _ rest =>
      rest.remaining info12
  | _ => []

/-- The value that is still to be set before the handler is shut down. -/
def answer (info12 : Bool) : Script ι → Option ℕ
  | setValue _ value _ => some value
  | ifShutdownRequested _ no => no.answer info12
  | ifProfilerInfo12 yes no => if info12 then yes.answer info12 else no.answer info12
  | lock _ rest | unlock _ rest | useProfilerInfo rest | request _ rest => rest.answer info12
  | _ => none

theorem remaining_setPromise (info12 : Bool) (promise : Option ι) (value : ℕ) :
    (setPromise promise value ret).remaining info12 = [] := by
  cases promise with
  | none => rfl
  | some p => rfl

theorem answer_setPromise (info12 : Bool) (promise : Option ι) (value : ℕ) :
    (setPromise promise value ret).answer info12 = promise.map fun _ => value := by
  cases promise with
  | none => rfl
  | some p => rfl

theorem remaining_requestRejit (info12 : Bool) (modules : List ModuleId)
    (methods : List MethodDef) (revert : Bool) (rest : Script ι) :
    (requestRejit modules methods revert rest).remaining info12
      = requestsFor info12 modules methods revert ++ rest.remaining info12 := by
  unfold requestRejit requestsFor
  cases modules with
  | nil => simp [remaining]
  | cons m modules =>
      cases revert with
      | false => cases info12 <;> simp [remaining, preferred]
      | true => cases info12 <;> simp [remaining, preferred]

theorem answer_requestRejit (info12 : Bool) (modules : List ModuleId) (methods : List MethodDef)
    (revert : Bool) (rest : Script ι) :
    (requestRejit modules methods revert rest).answer info12 = rest.answer info12 := by
  unfold requestRejit
  cases modules with
  | nil => simp [answer]
  | cons m modules =>
      cases revert with
      | false => cases info12 <;> simp [answer]
      | true => cases info12 <;> simp [answer]

/-- The analysis of a module leads on with its methods. -/
theorem remaining_collect (info12 : Bool) (module : ModuleId) (methods : List MethodDef)
    (requests : List (ModuleId × MethodDef)) (rest : List (ModuleId × MethodDef) → Script ι) :
    (collect module methods requests rest).remaining info12
      = (rest (requests ++ methods.map fun method => (module, method))).remaining info12 := by
  induction methods generalizing requests with
  | nil => simp [collect]
  | cons method methods ih => simp [collect, remaining, ih]

theorem answer_collect (info12 : Bool) (module : ModuleId) (methods : List MethodDef)
    (requests : List (ModuleId × MethodDef)) (rest : List (ModuleId × MethodDef) → Script ι) :
    (collect module methods requests rest).answer info12
      = (rest (requests ++ methods.map fun method => (module, method))).answer info12 := by
  induction methods generalizing requests with
  | nil => simp [collect]
  | cons method methods ih => simp [collect, answer, ih]

theorem remaining_analyse (info12 : Bool) (found : Found)
    (definitions : List IntegrationDefinition) (modules : List ModuleId)
    (requests : List (ModuleId × MethodDef)) (rest : List (ModuleId × MethodDef) → Script ι) :
    (analyse found definitions modules requests rest).remaining info12
      = (rest (requests ++ rejitRequests found definitions modules)).remaining info12 := by
  induction modules generalizing requests with
  | nil => simp [analyse, rejitRequests]
  | cons module modules ih => simp [analyse, remaining, remaining_collect, ih, rejitRequests]

theorem answer_analyse (info12 : Bool) (found : Found) (definitions : List IntegrationDefinition)
    (modules : List ModuleId) (requests : List (ModuleId × MethodDef))
    (rest : List (ModuleId × MethodDef) → Script ι) :
    (analyse found definitions modules requests rest).answer info12
      = (rest (requests ++ rejitRequests found definitions modules)).answer info12 := by
  induction modules generalizing requests with
  | nil => simp [analyse, rejitRequests]
  | cons module modules ih => simp [analyse, answer, answer_collect, ih, rejitRequests]

/-- **The script of an action makes its requests.** -/
theorem remaining_code (found : Found) (info12 : Bool) (action : Action ι) :
    (action.code found).remaining info12
      = (RejitWorkItem.func action).requests found info12 := by
  cases action with
  | requestRejit modules methods promise revert =>
      show (RejitQueue.requestRejit modules methods revert _).remaining info12 = _
      rw [remaining_requestRejit, remaining_setPromise, List.append_nil]
      rfl
  | requestRejitForLoadedModules modules definitions promise =>
      show (analyse found definitions modules [] _).remaining info12 = _
      rw [remaining_analyse, List.nil_append]
      dsimp only [RejitWorkItem.requests]
      generalize rejitRequests found definitions modules = requests
      cases requests with
      | nil => simpa [requestsFor] using remaining_setPromise info12 promise 0
      | cons r requests =>
          rw [if_pos (by simp), if_pos rfl, remaining_requestRejit, remaining_setPromise,
            List.append_nil]

/-- **The script of an action answers its promise.** -/
theorem answer_code (found : Found) (info12 : Bool) (action : Action ι) :
    (action.code found).answer info12
      = (RejitWorkItem.func action).promise.map fun _ =>
          (RejitWorkItem.func action).rejitCount found := by
  cases action with
  | requestRejit modules methods promise revert =>
      show (RejitQueue.requestRejit modules methods revert _).answer info12 = _
      rw [answer_requestRejit, answer_setPromise]
      rfl
  | requestRejitForLoadedModules modules definitions promise =>
      show (analyse found definitions modules [] _).answer info12 = _
      rw [answer_analyse, List.nil_append]
      dsimp only [RejitWorkItem.rejitCount, RejitWorkItem.promise]
      generalize rejitRequests found definitions modules = requests
      cases requests with
      | nil => exact answer_setPromise info12 promise 0
      | cons r requests =>
          rw [if_pos (by simp), if_pos rfl, answer_requestRejit, answer_setPromise]

end Script

end AutoInstrumentation.RejitQueue
