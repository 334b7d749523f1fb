import AutoInstrumentation.RejitQueue.Calls

/-!
# AutoInstrumentation.RejitQueue.Discipline

The discipline that the scripts of the calls follow, and those of the work items.

`Script.Safe` types the script of a call by what its thread has done so far: the locks
it holds, whether it knows the handler, whether its promise is handed over and how far
it has shut the handler down. `Script.Carries` types the script of a work item by the
promise that is still to be set. Every call and every item is typed, and the steps only
have to be judged by these types.
-/

namespace AutoInstrumentation.RejitQueue

open Lib Integration
open NgenInliners (ModuleId MethodDef)

/-- How far a thread has shut the handler down. -/
inductive Stage
  | running
  /-- The terminating item is pushed. -/
  | terminated
  /-- The worker thread is joined. -/
  | joined
  deriving DecidableEq, Repr

/-- What a thread has done so far. -/
structure Duty where
  /-- The locks it holds, the newest first. -/
  held : List LockName
  /-- It has found that the handler is not null, and holds a lock that keeps it so. -/
  handler : Bool
  /-- Its promise is set or pushed with an item. -/
  handed : Bool
  stage : Stage

namespace Duty

def start : Duty := ⟨[], false, false, .running⟩

/-- Only a thread with both of these locks resets the handler. -/
def keepsHandler (held : List LockName) : Bool :=
  .definitionsIds ∈ held || .moduleIds ∈ held

/-- The order in which locks are taken. `m_modules_lock` may be taken alone. -/
def MayLock (d : Duty) : LockName → Prop
  | .definitionsIds => d.held = []
  | .moduleIds => d.held = [] ∨ d.held = [.definitionsIds]
  | .shutdown =>
      .moduleIds ∈ d.held ∧ .shutdown ∉ d.held ∧ .rejitModules ∉ d.held ∧ .ngenInliners ∉ d.held ∧
        d.stage = .joined
  | .rejitModules =>
      (d.held = [] ∨ .moduleIds ∈ d.held) ∧ .rejitModules ∉ d.held ∧ .ngenInliners ∉ d.held
  | .ngenInliners => .moduleIds ∈ d.held ∧ .ngenInliners ∉ d.held

/-- The locks a thread holds together. -/
def Nested : List LockName → Prop
  | [] => True
  | .definitionsIds :: held => held = []
  | .moduleIds :: held => held = [] ∨ held = [.definitionsIds]
  | .shutdown :: held | .ngenInliners :: held => .moduleIds ∈ held ∧ Nested held
  | .rejitModules :: held => Nested held

/-- What every duty on the way has in common. -/
structure Proper (d : Duty) : Prop where
  nested : Nested d.held
  shutdown : .shutdown ∈ d.held → d.stage = .joined

/-- The thread may wait for the worker. -/
def MayWait (d : Duty) : Prop :=
  .shutdown ∉ d.held ∧ .rejitModules ∉ d.held ∧ .ngenInliners ∉ d.held

def lock (d : Duty) (l : LockName) : Duty := { d with held := l :: d.held }

def unlock (d : Duty) : Duty :=
  { d with held := d.held.tail, handler := d.handler && keepsHandler d.held.tail }

def findHandler (d : Duty) : Duty := { d with handler := keepsHandler d.held }

def hand (d : Duty) : Duty := { d with handed := true }

def enter (d : Duty) (stage : Stage) : Duty := { d with stage }

def forgetHandler (d : Duty) : Duty := { d with handler := false, stage := .running }

end Duty

variable {ι : Type}

/-- The promise of an item. -/
def RejitWorkItem.promise : RejitWorkItem ι → Option ι
  | .terminating => none
  | .func (.requestRejit _ _ promise _) => promise
  | .func (.requestRejitForLoadedModules _ _ promise) => promise

/-- An item that thread `i` may push, with its duty afterwards. -/
def RejitWorkItem.pushedBy (i : ι) (d : Duty) : RejitWorkItem ι → Prop × Duty
  | .terminating =>
      (Duty.keepsHandler d.held ∧ .definitionsIds ∈ d.held, d.enter .terminated)
  | item =>
      match item.promise with
      | none => (True, d)
      | some p => (p = i ∧ d.handed = false, d.hand)

namespace Duty
variable {d : Duty}

theorem Nested.tail {l : LockName} {held : List LockName} (h : Nested (l :: held)) :
    Nested held := by
  cases l with
  | definitionsIds =>
      obtain rfl : held = [] := h
      trivial
  | moduleIds =>
      rcases h with rfl | rfl
      · trivial
      · rfl
  | shutdown => exact h.2
  | ngenInliners => exact h.2
  | rejitModules => exact h

/-- Some locks are only taken under the lock of the module ids. -/
theorem Nested.moduleIds {held : List LockName} (h : Nested held)
    (hinner : .shutdown ∈ held ∨ .ngenInliners ∈ held) : .moduleIds ∈ held := by
  induction held with
  | nil => simp at hinner
  | cons l held ih =>
      have htail := ih h.tail
      cases l with
      | moduleIds => simp
      | definitionsIds =>
          obtain rfl : held = [] := h
          simp at hinner
      | shutdown => exact List.mem_cons_of_mem _ h.1
      | ngenInliners => exact List.mem_cons_of_mem _ h.1
      | rejitModules => exact List.mem_cons_of_mem _ (htail (by simpa using hinner))

theorem Proper.start : Proper .start := ⟨trivial, by simp [Duty.start]⟩

theorem Proper.lock (h : d.Proper) {l : LockName} (hl : d.MayLock l) : (d.lock l).Proper := by
  refine ⟨?_, fun hmem => ?_⟩
  · cases l with
    | definitionsIds => exact hl
    | moduleIds => exact hl
    | shutdown => exact ⟨hl.1, h.nested⟩
    | ngenInliners => exact ⟨hl.1, h.nested⟩
    | rejitModules => exact h.nested
  · rcases List.mem_cons.mp hmem with rfl | hold
    · exact hl.2.2.2.2
    · exact h.shutdown hold

theorem Proper.unlock (h : d.Proper) : d.unlock.Proper := by
  refine ⟨?_, fun hmem => h.shutdown (List.mem_of_mem_tail hmem)⟩
  have hnested := h.nested
  show Nested d.held.tail
  cases hheld : d.held with
  | nil => trivial
  | cons l held => exact (hheld ▸ hnested).tail

end Duty

namespace Script

/-- The script may be followed by thread `i` with this duty. -/
def Safe (i : ι) : Script ι → Duty → Prop
  | ret, d => d.held = [] ∧ d.stage = .running
  | lock l rest, d => d.MayLock l ∧ rest.Safe i (d.lock l)
  | tryLock l rest refused, d => d.MayLock l ∧ rest.Safe i (d.lock l) ∧ refused.Safe i d
  | unlock l rest, d =>
      d.held.head? = some l ∧ (Duty.keepsHandler [l] → d.stage = .running) ∧
        rest.Safe i d.unlock
  | ifAttached yes no, d => yes.Safe i d ∧ no.Safe i d
  | detach rest, d => rest.Safe i d
  | ifHandler yes no, d => yes.Safe i d.findHandler ∧ no.Safe i d
  | ifShutdownRequested yes no, d =>
      .shutdown ∉ d.held ∧ (.rejitModules ∈ d.held → .moduleIds ∈ d.held) ∧ yes.Safe i d ∧
        no.Safe i d
  | ifProfilerInfo yes no, d => yes.Safe i d ∧ no.Safe i d
  | ifProfilerInfo12 _ _, _ => False
  | useProfilerInfo _, _ => False
  | request _ _, _ => False
  | setValue p _ rest, d => p = i ∧ d.handed = false ∧ rest.Safe i d.hand
  | push item rest, d =>
      (.moduleIds ∈ d.held ∧ d.handler ∧ d.stage = .running) ∧ (item.pushedBy i d).1 ∧
        rest.Safe i (item.pushedBy i d).2
  | await p rest, d => p = i ∧ d.handed ∧ d.MayWait ∧ rest.Safe i d
  | awaitFor p rest, d => p = i ∧ d.handed ∧ rest.Safe i d
  | join rest, d => d.stage = .terminated ∧ d.MayWait ∧ rest.Safe i (d.enter .joined)
  | setShutdown rest, d => d.stage = .joined ∧ rest.Safe i d
  | clearInterfaces rest, d => d.stage = .joined ∧ rest.Safe i d
  | clearHandler rest, d =>
      d.stage = .joined ∧ .shutdown ∉ d.held ∧ rest.Safe i d.forgetHandler

/-- The script may be followed by the worker, holding `m_modules_lock` or not, and sets
the promise `owes` on the way. It only uses an interface that the CLR has. -/
def Carries (info12 : Bool) : Script ι → Option ι → Bool → Prop
  | ret, owes, locked => owes = none ∧ locked = false
  | lock l rest, owes, locked =>
      l = .rejitModules ∧ locked = false ∧ rest.Carries info12 owes true
  | unlock l rest, owes, locked =>
      l = .rejitModules ∧ locked = true ∧ rest.Carries info12 owes false
  | ifShutdownRequested yes no, owes, locked =>
      locked = false ∧ yes.Carries info12 owes false ∧ no.Carries info12 owes false
  | ifProfilerInfo12 yes no, owes, locked =>
      locked = false ∧ (info12 = true → yes.Carries info12 owes false) ∧
        (info12 = false → no.Carries info12 owes false)
  | useProfilerInfo rest, owes, locked => locked = false ∧ rest.Carries info12 owes false
  | request r rest, owes, locked =>
      locked = false ∧ (r.through = .profilerInfo12 → info12 = true) ∧
        rest.Carries info12 owes false
  | setValue p _ rest, owes, locked =>
      owes = some p ∧ locked = false ∧ rest.Carries info12 none false
  | _, _, _ => False

/-! ### The items -/

theorem carries_setPromise (info12 : Bool) (promise : Option ι) (value : ℕ) :
    (setPromise promise value ret).Carries info12 promise false := by
  cases promise with
  | none => simp [setPromise, Carries]
  | some p => simp [setPromise, Carries]

theorem carries_requestRejit {info12 : Bool} {modules : List ModuleId}
    {methods : List MethodDef} {revert : Bool} {rest : Script ι} {owes : Option ι}
    (h : rest.Carries info12 owes false) :
    (requestRejit modules methods revert rest).Carries info12 owes false := by
  unfold requestRejit
  cases modules with
  | nil => simp [Carries, h]
  | cons m modules =>
      cases revert with
      | false => simp [Carries, Request.through, h]
      | true => simp [Carries, Request.through, h]

theorem carries_collect {info12 : Bool} {module : ModuleId} {methods : List MethodDef}
    {rejitRequests : List (ModuleId × MethodDef)} {rest : List (ModuleId × MethodDef) → Script ι}
    {owes : Option ι} (h : ∀ r, (rest r).Carries info12 owes false) :
    (collect module methods rejitRequests rest).Carries info12 owes false := by
  induction methods generalizing rejitRequests with
  | nil => exact h rejitRequests
  | cons method methods ih => simp [collect, Carries, ih]

theorem carries_analyse {info12 : Bool} {found : Found} {definitions : List IntegrationDefinition}
    {modules : List ModuleId} {rejitRequests : List (ModuleId × MethodDef)}
    {rest : List (ModuleId × MethodDef) → Script ι} {owes : Option ι}
    (h : ∀ r, (rest r).Carries info12 owes false) :
    (analyse found definitions modules rejitRequests rest).Carries info12 owes false := by
  induction modules generalizing rejitRequests with
  | nil => exact h rejitRequests
  | cons module modules ih => exact ⟨rfl, carries_collect fun r => ih⟩

/-- The script of an item sets the promise of the item. -/
theorem carries_code (found : Found) (info12 : Bool) (action : Action ι) :
    (action.code found).Carries info12 (RejitWorkItem.func action).promise false := by
  cases action with
  | requestRejit modules methods promise revert =>
      exact carries_requestRejit (carries_setPromise info12 promise 0)
  | requestRejitForLoadedModules modules definitions promise =>
      refine ⟨rfl, carries_setPromise info12 promise 0, carries_analyse fun rejitRequests => ?_⟩
      dsimp only
      by_cases hpos : rejitRequests.length > 0
      · rw [if_pos hpos, if_pos rfl]
        exact carries_requestRejit (carries_setPromise info12 promise _)
      · rw [if_neg hpos]
        exact carries_setPromise info12 promise _

/-! ### The functions of the handler and the preprocessor -/

section
variable {i : ι} {d : Duty} {rest : Script ι}

/-- The locks a thread holds when it enqueues: `m_modules_lock` only below the lock of
the module ids. -/
def Enqueues (d : Duty) : Prop :=
  .shutdown ∉ d.held ∧ .moduleIds ∈ d.held ∧ d.handler ∧ d.stage = .running

theorem safe_enqueueForRejit {modules : List ModuleId} {methods : List MethodDef} {revert : Bool}
    (hd : Enqueues d) (h : rest.Safe i d) :
    (enqueueForRejit modules methods none revert rest).Safe i d := by
  obtain ⟨hshutdown, hmodules, hhandler, hstage⟩ := hd
  unfold enqueueForRejit
  refine ⟨hshutdown, fun _ => hmodules, h, ?_⟩
  split
  · exact h
  · exact ⟨⟨hmodules, hhandler, hstage⟩, trivial, h⟩

theorem safe_enqueueRequestRejitForLoadedModules {modules : List ModuleId}
    {definitions : List IntegrationDefinition} (hd : Enqueues d) (hnew : d.handed = false)
    (h : rest.Safe i d.hand) :
    (enqueueRequestRejitForLoadedModules modules definitions (some i) rest).Safe i d := by
  obtain ⟨hshutdown, hmodules, hhandler, hstage⟩ := hd
  unfold enqueueRequestRejitForLoadedModules
  have hset : (setPromise (some i) 0 rest).Safe i d := ⟨rfl, hnew, h⟩
  refine ⟨hshutdown, fun _ => hmodules, hset, ?_⟩
  split
  · exact hset
  · exact ⟨⟨hmodules, hhandler, hstage⟩, ⟨rfl, hnew⟩, h⟩

theorem safe_requestRejitForInlinersInModule {inliners : List (ModuleId × MethodDef)}
    (hd : Enqueues d) (h : rest.Safe i d) :
    (requestRejitForInlinersInModule inliners rest).Safe i d := by
  unfold requestRejitForInlinersInModule
  refine ⟨?_, h⟩
  split
  · exact h
  · exact safe_enqueueForRejit hd h

/-- A section that takes a lock and gives it back leaves the duty as it was. -/
theorem unlock_lock (l : LockName) (h : d.handler → Duty.keepsHandler d.held) :
    (d.lock l).unlock = d := by
  have hhandler : (d.handler && Duty.keepsHandler d.held) = d.handler := by
    cases hcase : d.handler with
    | false => rfl
    | true => simpa using h hcase
  simp [Duty.lock, Duty.unlock, hhandler]

theorem safe_enumerations {enumerations : List (List (ModuleId × MethodDef))}
    (hd : Enqueues d) (h : rest.Safe i d) :
    (enumerations.foldr requestRejitForInlinersInModule rest).Safe i d := by
  induction enumerations with
  | nil => exact h
  | cons inliners enumerations ih => exact safe_requestRejitForInlinersInModule hd ih

/-- A callback that has found the handler under the lock of the module ids. -/
def callback (handed : Bool) : Duty := ⟨[.moduleIds], true, handed, .running⟩

/-- A thread that leaves its scopes. -/
theorem safe_leave (handler handed : Bool) :
    (unlock .moduleIds ret).Safe i ⟨[.moduleIds], handler, handed, .running⟩ := by
  simp [Safe, Duty.unlock]

theorem safe_leaveIds (handler handed : Bool) :
    (unlock .definitionsIds ret).Safe i ⟨[.definitionsIds], handler, handed, .running⟩ := by
  simp [Safe, Duty.unlock]

theorem safe_leaveBoth (handler handed : Bool) :
    (unlock .moduleIds (unlock .definitionsIds ret)).Safe i
      ⟨[.moduleIds, .definitionsIds], handler, handed, .running⟩ := by
  simp [Safe, Duty.unlock]

theorem safe_addNGenInlinerModule (enumerations : List (List (ModuleId × MethodDef)))
    {handed : Bool} (h : rest.Safe i (callback handed)) :
    (addNGenInlinerModule enumerations rest).Safe i (callback handed) := by
  have hmodules : (callback handed).MayLock .rejitModules := by simp [callback, Duty.MayLock]
  have hinliners : ((callback handed).lock .rejitModules).MayLock .ngenInliners := by
    simp [callback, Duty.lock, Duty.MayLock]
  have hend : (unlock .ngenInliners (unlock .rejitModules rest)).Safe i
      (((callback handed).lock .rejitModules).lock .ngenInliners) := by
    refine ⟨rfl, by simp [Duty.keepsHandler], rfl, by simp [Duty.keepsHandler], ?_⟩
    rw [unlock_lock _ (by simp [callback, Duty.lock, Duty.keepsHandler]),
      unlock_lock _ (by simp [callback, Duty.keepsHandler])]
    exact h
  refine ⟨by simp [callback], by simp [callback], h, by simp [callback], by simp [callback], h,
    hmodules, hinliners, safe_enumerations ?_ hend⟩
  simp [Enqueues, callback, Duty.lock]

theorem safe_removeModule {handed : Bool} (h : rest.Safe i (callback handed)) :
    (removeModule rest).Safe i (callback handed) :=
  safe_addNGenInlinerModule [] h

/-! ### The calls -/

theorem safe_tryRejitModule (m : LoadedModule) :
    (tryRejitModule i m (unlock .moduleIds ret)).Safe i (callback false) := by
  have htail : (if m.skipped || m.isManagedProfiler || m.definitions.isEmpty then
      (unlock .moduleIds ret : Script ι)
      else enqueueRequestRejitForLoadedModules [m.moduleId] m.definitions (some i) <|
        .awaitFor i (unlock .moduleIds ret)).Safe i (callback false) := by
    split
    · exact safe_leave true false
    · refine safe_enqueueRequestRejitForLoadedModules (by simp [Enqueues, callback]) rfl ?_
      exact ⟨rfl, rfl, safe_leave true true⟩
  unfold tryRejitModule
  split
  · exact safe_leave true false
  · cases m.isNGEN with
    | none => exact htail
    | some enumerations => exact safe_addNGenInlinerModule enumerations htail

theorem safe_moduleLoadFinished (succeeded : Bool) (m : LoadedModule) :
    (moduleLoadFinished i succeeded m).Safe i .start := by
  refine ⟨?_, rfl, rfl⟩
  split
  · exact ⟨rfl, rfl⟩
  · exact ⟨Or.inl rfl, ⟨safe_tryRejitModule m, safe_leave false false⟩, safe_leave false false⟩

theorem safe_moduleUnloadStarted : (moduleUnloadStarted : Script ι).Safe i .start :=
  ⟨⟨Or.inl rfl, ⟨safe_removeModule (safe_leave true false), safe_leave false false⟩,
    safe_leave false false⟩, rfl, rfl⟩

theorem safe_jitInlining (functionInfo : Bool) :
    (jitInlining functionInfo : Script ι).Safe i .start := by
  cases functionInfo with
  | false => simp [jitInlining, Safe, Duty.start, Duty.findHandler]
  | true =>
      -- `m_modules_lock` is taken without the lock of the module ids
      simp [jitInlining, hasModuleAndMethod, Safe, Duty.start, Duty.findHandler, Duty.lock,
        Duty.unlock, Duty.MayLock, Duty.keepsHandler]

theorem safe_jitCachedFunctionSearchStarted (functionInfo : Bool)
    (enumerations : List (List (ModuleId × MethodDef))) :
    (jitCachedFunctionSearchStarted functionInfo enumerations : Script ι).Safe i .start := by
  refine ⟨⟨Or.inl rfl, ?_, rfl, rfl⟩, rfl, rfl⟩
  dsimp only
  split
  · exact safe_leave false false
  · exact ⟨safe_addNGenInlinerModule enumerations (safe_leave true false), safe_leave false false⟩

theorem safe_internalAddInstrumentation (processed items : Bool) (modules : List ModuleId)
    (definitions : List IntegrationDefinition) :
    (internalAddInstrumentation i processed items modules definitions).Safe i .start := by
  refine ⟨rfl, ?_⟩
  dsimp only
  split
  · exact safe_leaveIds false false
  · refine ⟨⟨Or.inr rfl, ?_⟩, safe_leaveIds false false⟩
    split
    · exact safe_leaveBoth true false
    · refine ⟨safe_enqueueRequestRejitForLoadedModules ?_ rfl ?_, safe_leaveBoth true false⟩
      · simp [Enqueues, Duty.findHandler, Duty.lock, Duty.start, Duty.keepsHandler]
      · exact ⟨rfl, rfl, safe_leaveBoth true true⟩

theorem safe_registerCallTargetDefinitions (valid processed : Bool) (modules : List ModuleId)
    (definitions : List IntegrationDefinition) :
    (registerCallTargetDefinitions i valid processed modules definitions).Safe i .start := by
  unfold registerCallTargetDefinitions
  split
  · exact ⟨rfl, rfl⟩
  · refine ⟨rfl, ?_⟩
    dsimp only
    split
    · exact safe_leaveIds false false
    · refine ⟨⟨Or.inr rfl, ?_⟩, safe_leaveIds false false⟩
      split
      · exact safe_leaveBoth true false
      · refine safe_enqueueRequestRejitForLoadedModules ?_ rfl ?_
        · simp [Enqueues, Duty.findHandler, Duty.lock, Duty.start, Duty.keepsHandler]
        · exact ⟨rfl, fun _ => rfl, rfl, rfl, by
            simp [Duty.MayWait, Duty.unlock, Duty.hand, Duty.lock, Duty.findHandler, Duty.start],
            safe_leaveIds true true⟩

theorem safe_initializeTraceMethods (processed : Bool) (modules : List ModuleId)
    (definitions : List IntegrationDefinition) :
    (initializeTraceMethods i processed modules definitions).Safe i .start := by
  refine ⟨rfl, ?_⟩
  dsimp only
  split
  · exact safe_leaveIds false false
  · refine ⟨⟨Or.inr rfl, ?_, safe_leaveBoth true false⟩, safe_leaveIds false false⟩
    refine safe_enqueueRequestRejitForLoadedModules ?_ rfl ?_
    · simp [Enqueues, Duty.findHandler, Duty.lock, Duty.start, Duty.keepsHandler]
    · exact ⟨rfl, rfl, by
        simp [Duty.MayWait, Duty.hand, Duty.lock, Duty.findHandler, Duty.start],
        safe_leaveBoth true true⟩

theorem safe_shutdown : (shutdown : Script ι).Safe i .start := by
  simp [shutdown, handlerShutdown, preprocessorShutdown, Safe, Duty.start, Duty.findHandler,
    Duty.lock, Duty.unlock, Duty.enter, Duty.forgetHandler, Duty.MayLock, Duty.MayWait,
    Duty.keepsHandler, RejitWorkItem.pushedBy]

/-- **Every call follows the discipline.** -/
theorem safe_script (c : Call) : (c.script i).Safe i .start := by
  cases c with
  | moduleLoadFinished succeeded module => exact safe_moduleLoadFinished succeeded module
  | moduleUnloadStarted => exact safe_moduleUnloadStarted
  | jitInlining functionInfo => exact safe_jitInlining functionInfo
  | jitCachedFunctionSearchStarted functionInfo enumerations =>
      exact safe_jitCachedFunctionSearchStarted functionInfo enumerations
  | internalAddInstrumentation processed items modules definitions =>
      exact safe_internalAddInstrumentation processed items modules definitions
  | registerCallTargetDefinitions valid processed modules definitions =>
      exact safe_registerCallTargetDefinitions valid processed modules definitions
  | initializeTraceMethods processed modules definitions =>
      exact safe_initializeTraceMethods processed modules definitions
  | appDomainShutdownFinished =>
      exact ⟨Or.inl rfl, safe_leave false false, safe_leave false false⟩
  | profilerDetachSucceeded =>
      exact ⟨⟨Or.inl rfl, safe_leave false false, safe_leave false false⟩, rfl, rfl⟩
  | shutdown => exact safe_shutdown

end

end Script

end AutoInstrumentation.RejitQueue
