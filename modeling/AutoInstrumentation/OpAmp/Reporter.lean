import AutoInstrumentation.Lib.Transition

/-!
# AutoInstrumentation.OpAmp.Reporter

`OpAmpReporter`: the reports of plugins and the full-state reports of an OpAMP client, as a
labelled transition system.

Every section under `_stateLock`, every read of a volatile field outside of it, and every
start and end of a provider or a sender is one step. `_reportLock` is held while a report
runs. A timer has a deadline; when it is due its callback is queued, and a queued callback
runs at any later time. Any number of callbacks can be under way.

The log of what happened and the flags `Since` are not part of the program; they say what
the results are about.
-/

namespace AutoInstrumentation.OpAmp

open AutoInstrumentation.Lib

/-! ### Reports -/

inductive PluginReport
  | effectiveConfig | remoteConfigStatus
  deriving DecidableEq, Repr

/-- `PluginReportKind`. -/
structure PluginReportKind where
  effectiveConfig : Bool
  remoteConfigStatus : Bool
  deriving DecidableEq, Repr

namespace PluginReportKind

def none : PluginReportKind := ⟨false, false⟩

def has (k : PluginReportKind) : PluginReport → Bool
  | .effectiveConfig => k.effectiveConfig
  | .remoteConfigStatus => k.remoteConfigStatus

/-- `k |= report`. -/
def add (k : PluginReportKind) : PluginReport → PluginReportKind
  | .effectiveConfig => { k with effectiveConfig := true }
  | .remoteConfigStatus => { k with remoteConfigStatus := true }

/-- `k &= ~reports`. -/
def without (k reports : PluginReportKind) : PluginReportKind :=
  ⟨k.effectiveConfig && !reports.effectiveConfig,
    k.remoteConfigStatus && !reports.remoteConfigStatus⟩

end PluginReportKind

inductive FullStatePhase
  | idle | waiting | reporting
  deriving DecidableEq, Repr

/-- `IOpAmpReportTimer`: the deadline of its one callback, and the callbacks that are due and
have not begun. -/
structure ReportTimer where
  deadline : Option ℕ
  queued : ℕ
  deriving DecidableEq, Repr

namespace ReportTimer

/-- `Schedule`. -/
def schedule (timer : ReportTimer) (deadline : ℕ) : ReportTimer :=
  { timer with deadline := some deadline }

/-- `Dispose`. -/
def dispose (timer : ReportTimer) : ReportTimer := { timer with deadline := .none }

/-- The callbacks that are still to begin. -/
def outstanding (timer : ReportTimer) : ℕ := timer.deadline.toList.length + timer.queued

end ReportTimer

/-- `FullStateReportInterval`, in ticks. -/
def fullStateReportInterval : ℕ := 50000000

/-! ### Callbacks -/

/-- Where a callback of `_pluginReportTimer` stands that has claimed the drain. For the
effective configuration `again` tells the second `TryUseEffectiveConfigCapability` from the
first, and `status` says that the remote configuration status is reported next. -/
inductive DrainPoint
  /-- Waits for `_reportLock`. -/
  | claimed (reports : PluginReportKind)
  /-- Reads `_serverAcceptsEffectiveConfig`. -/
  | capability (again status : Bool)
  /-- Reads `_stopped`, the capability being there. -/
  | stop (again status : Bool)
  /-- Takes `_stateLock`. -/
  | recheck (again status : Bool)
  /-- Reads `_stopped` in `ReadEffectiveConfig`. -/
  | readConfig (status : Bool)
  | configProvider (status : Bool)
  | sendConfig (status : Bool)
  /-- Reads `_stopped` in `ReadRemoteConfigStatus`. -/
  | readStatus
  | statusProvider
  /-- Reads `_stopped` in `ReportRemoteConfigStatus`. -/
  | checkStop
  | sendStatus
  /-- Gives `_reportLock` back. -/
  | leave
  /-- Takes `_stateLock` in the `finally` block. -/
  | finallyBlock
  deriving DecidableEq

/-- Where a callback of `_fullStateTimer` stands that has begun a report. `files` says that it
has read the effective configuration. -/
inductive FullStatePoint
  /-- Waits for `_reportLock`. -/
  | claimed
  /-- Reads `_serverAcceptsEffectiveConfig`. -/
  | capability
  /-- Reads `_stopped` in `ReadEffectiveConfig`. -/
  | readConfig
  | configProvider
  /-- Reads `_stopped` in `ReadRemoteConfigStatus`. -/
  | readStatus (files : Bool)
  | statusProvider (files : Bool)
  /-- Reads `_stopped` in `ReportFullStateCore`. -/
  | checkStop (files : Bool)
  /-- Reads `_serverAcceptsEffectiveConfig` again. -/
  | recheck (files : Bool)
  | send (files : Bool)
  /-- Gives `_reportLock` back. -/
  | leave
  /-- Takes `_stateLock` in the `finally` block. -/
  | finallyBlock
  deriving DecidableEq

/-- Whether there was a moment, since the provider returned last, at which the reporter was not
stopped, and one at which it was not stopped while the last nonzero capabilities accepted
the effective configuration. -/
structure Since where
  alive : Bool
  granted : Bool
  deriving DecidableEq

/-- A callback under way. -/
structure Run (P : Type) where
  point : P
  since : Since
  deriving DecidableEq

/-- What a step of a callback does, with the point at which it then stands. -/
inductive Change (P : Type)
  | move (p : P)
  | acquire (p : P)
  | release (p : P)
  /-- A provider is called. -/
  | read (report : PluginReport) (p : P)
  /-- A provider returned, or it was not called. -/
  | returned (p : P)
  /-- `_pendingPluginReports |= EffectiveConfig`. -/
  | putBack (p : P)
  | submit (config : Bool) (p : P)
  | finish

/-! ### The state -/

/-- What happened. -/
inductive Event
  /-- A plugin announced a change. -/
  | notified (report : PluginReport)
  /-- A provider was called. -/
  | read (report : PluginReport)
  /-- A report was given to the sender, with an effective configuration or without. -/
  | submitted (config : Bool) (since : Since)
  /-- A full-state report was requested. -/
  | requested
  | started (time : ℕ)
  | ended (time : ℕ)
  deriving DecidableEq

structure State where
  now : ℕ
  serverAcceptsEffectiveConfig : Bool
  pendingPluginReports : PluginReportKind
  fullStatePending : Bool
  fullStatePhase : FullStatePhase
  pluginReportDrainActive : Bool
  stopped : Bool
  reportLockHeld : Bool
  fullStateTimer : ReportTimer
  pluginReportTimer : ReportTimer
  drains : List (Run DrainPoint)
  fullStateReports : List (Run FullStatePoint)
  /-- The last event comes first. -/
  log : List Event

/-- A reporter after its construction. -/
def State.initial : State where
  now := 0
  serverAcceptsEffectiveConfig := false
  pendingPluginReports := .none
  fullStatePending := false
  fullStatePhase := .idle
  pluginReportDrainActive := false
  stopped := false
  reportLockHeld := false
  fullStateTimer := ⟨none, 0⟩
  pluginReportTimer := ⟨none, 0⟩
  drains := []
  fullStateReports := []
  log := []

/-! ### Sections under `_stateLock` -/

/-- `GetEligiblePluginReports(_pendingPluginReports)`. -/
def State.eligible (s : State) : PluginReportKind :=
  if s.pendingPluginReports.effectiveConfig && !s.serverAcceptsEffectiveConfig then
    { s.pendingPluginReports with effectiveConfig := false }
  else s.pendingPluginReports

/-- `TrySchedulePendingPluginReports`. -/
def trySchedulePendingPluginReports (s : State) : State :=
  if s.pluginReportDrainActive || s.eligible = .none then s
  else
    { s with
      pluginReportTimer := s.pluginReportTimer.schedule s.now
      pluginReportDrainActive := true }

/-- `HandleServerCapabilities`. No capabilities at all are none; of others it matters whether
they accept the effective configuration. -/
def handleServerCapabilities (s : State) (capabilities : Option Bool) : State :=
  match capabilities with
  | none => s
  | some acceptsEffectiveConfig =>
      if s.stopped then s
      else
        trySchedulePendingPluginReports
          { s with serverAcceptsEffectiveConfig := acceptsEffectiveConfig }

/-- `NotifyEffectiveConfigChanged` and `NotifyRemoteConfigStatusChanged`. -/
def notifyPluginReport (providers : PluginReportKind) (s : State) (report : PluginReport) :
    State :=
  if !providers.has report || s.stopped then s
  else
    trySchedulePendingPluginReports
      { s with
        pendingPluginReports := s.pendingPluginReports.add report
        log := .notified report :: s.log }

/-- `ReportFullState`. -/
def reportFullState (s : State) : State :=
  if s.stopped then s
  else
    let s := { s with fullStatePending := true, log := .requested :: s.log }
    if s.fullStatePhase = .idle then
      { s with
        fullStateTimer := s.fullStateTimer.schedule s.now
        fullStatePhase := .waiting }
    else s

/-- `Stop`. -/
def stop (s : State) : State :=
  if s.stopped then s
  else
    { s with
      stopped := true
      pendingPluginReports := .none
      fullStatePending := false
      fullStatePhase := .idle
      pluginReportDrainActive := false
      fullStateTimer := s.fullStateTimer.dispose
      pluginReportTimer := s.pluginReportTimer.dispose }

/-- The first section of `HandleScheduledPluginReports`. -/
def claimPluginReports (s : State) : State :=
  if s.stopped || !s.pluginReportDrainActive then s
  else
    let reports := s.eligible
    let point : DrainPoint := if reports = .none then .finallyBlock else .claimed reports
    { s with
      pendingPluginReports := s.pendingPluginReports.without reports
      drains := s.drains ++ [⟨point, ⟨false, false⟩⟩] }

/-- The last section of `HandleScheduledPluginReports`. -/
def finishPluginReports (s : State) : State :=
  let s := { s with pluginReportDrainActive := false }
  if s.stopped then s else trySchedulePendingPluginReports s

/-- The section of `HandleScheduledFullState`. -/
def claimFullState (s : State) : State :=
  if s.stopped || s.fullStatePhase ≠ .waiting then s
  else if !s.fullStatePending then { s with fullStatePhase := .idle }
  else
    { s with
      fullStatePending := false
      fullStatePhase := .reporting
      fullStateReports := s.fullStateReports ++ [⟨.claimed, ⟨false, false⟩⟩]
      log := .started s.now :: s.log }

/-- The last section of `ReportScheduledFullState`. -/
def finishFullState (s : State) : State :=
  let s := { s with log := .ended s.now :: s.log }
  if s.stopped then { s with fullStatePhase := .idle }
  else
    { s with
      fullStateTimer := s.fullStateTimer.schedule (s.now + fullStateReportInterval)
      fullStatePhase := .waiting }

/-! ### Callbacks under way -/

/-- What a plugin report goes on with behind the effective configuration. -/
def afterConfig (status : Bool) : DrainPoint := if status then .readStatus else .leave

/-- Where `TryUseEffectiveConfigCapability` leads when it returns true. -/
def useConfig (again status : Bool) : DrainPoint :=
  if again then .sendConfig status else .readConfig status

/-- A step of `HandleScheduledPluginReports`, `ReportEffectiveConfig` and
`ReportRemoteConfigStatus`. `ok` says that a provider returns a value. -/
def DrainPoint.next (providers : PluginReportKind) (s : State) (ok : Bool) :
    DrainPoint → Option (Change DrainPoint)
  | .claimed reports =>
      let status := reports.remoteConfigStatus
      if s.reportLockHeld then none
      else if reports.effectiveConfig then some (.acquire (.capability false status))
      else some (.acquire (afterConfig status))
  | .capability again status =>
      if s.serverAcceptsEffectiveConfig then some (.move (.stop again status))
      else some (.move (.recheck again status))
  | .stop again status =>
      if s.stopped then some (.move (.recheck again status))
      else some (.move (useConfig again status))
  | .recheck again status =>
      if s.stopped then some (.move (afterConfig status))
      else if s.serverAcceptsEffectiveConfig then some (.move (useConfig again status))
      else some (.putBack (afterConfig status))
  | .readConfig status =>
      if s.stopped || !providers.effectiveConfig then some (.move (afterConfig status))
      else some (.read .effectiveConfig (.configProvider status))
  | .configProvider status =>
      if ok then some (.returned (.capability true status)) else some (.move (afterConfig status))
  -- whether the sender throws or not
  | .sendConfig status => some (.submit true (afterConfig status))
  | .readStatus =>
      if s.stopped || !providers.remoteConfigStatus then some (.move .leave)
      else some (.read .remoteConfigStatus .statusProvider)
  | .statusProvider => if ok then some (.returned .checkStop) else some (.move .leave)
  | .checkStop => if s.stopped then some (.move .leave) else some (.move .sendStatus)
  | .sendStatus => some (.submit false .leave)
  | .leave => some (.release .finallyBlock)
  | .finallyBlock => some .finish

/-- A step of `ReportFullStateCore` and what is around it. -/
def FullStatePoint.next (providers : PluginReportKind) (s : State) (ok : Bool) :
    FullStatePoint → Option (Change FullStatePoint)
  | .claimed => if s.reportLockHeld then none else some (.acquire .capability)
  | .capability =>
      if s.serverAcceptsEffectiveConfig then some (.move .readConfig)
      else some (.move (.readStatus false))
  | .readConfig =>
      if s.stopped || !providers.effectiveConfig then some (.move (.readStatus false))
      else some (.read .effectiveConfig .configProvider)
  | .configProvider => some (.move (.readStatus ok))
  | .readStatus files =>
      if s.stopped || !providers.remoteConfigStatus then some (.returned (.checkStop files))
      else some (.read .remoteConfigStatus (.statusProvider files))
  | .statusProvider files => some (.returned (.checkStop files))
  | .checkStop files => if s.stopped then some (.move .leave) else some (.move (.recheck files))
  | .recheck files => some (.move (.send (files && s.serverAcceptsEffectiveConfig)))
  | .send files => some (.submit files .leave)
  | .leave => some (.release .finallyBlock)
  | .finallyBlock => some .finish

section Change

variable {P : Type}

/-- The callback behind a step, unless it ends with it. -/
def Change.run (run : Run P) : Change P → Option (Run P)
  | .finish => none
  | .returned p => some ⟨p, ⟨false, false⟩⟩
  | .move p | .acquire p | .release p | .read _ p | .putBack p | .submit _ p =>
      some { run with point := p }

/-- The callbacks behind a step of the one at `i`. -/
def Change.runs (change : Change P) (run : Run P) (runs : List (Run P)) (i : ℕ) : List (Run P) :=
  match change.run run with
  | none => runs.eraseIdx i
  | some run => runs.set i run

/-- What a step does to the fields. -/
def Change.effect (since : Since) (s : State) : Change P → State
  | .acquire _ => { s with reportLockHeld := true }
  | .release _ => { s with reportLockHeld := false }
  | .read report _ => { s with log := .read report :: s.log }
  | .putBack _ =>
      { s with pendingPluginReports := s.pendingPluginReports.add .effectiveConfig }
  | .submit config _ => { s with log := .submitted config since :: s.log }
  | .move _ | .returned _ | .finish => s

end Change

/-- A step of a callback of `_pluginReportTimer`. -/
def stepDrain (providers : PluginReportKind) (s : State) (i : ℕ) (ok : Bool) : Option State := do
  let run ← s.drains[i]?
  let change ← run.point.next providers s ok
  let next := { change.effect run.since s with drains := change.runs run s.drains i }
  match change with
  | .finish => return finishPluginReports next
  | _ => return next

/-- A step of a callback of `_fullStateTimer`. -/
def stepFullState (providers : PluginReportKind) (s : State) (i : ℕ) (ok : Bool) :
    Option State := do
  let run ← s.fullStateReports[i]?
  let change ← run.point.next providers s ok
  let next :=
    { change.effect run.since s with fullStateReports := change.runs run s.fullStateReports i }
  match change with
  | .finish => return finishFullState next
  | _ => return next

/-! ### Runs -/

inductive Act
  | tick (ticks : ℕ)
  | notifyPluginReport (report : PluginReport)
  | handleServerCapabilities (capabilities : Option Bool)
  | reportFullState
  | stop
  /-- A deadline has passed: the callback is queued. -/
  | duePluginReports
  | dueFullState
  /-- A queued callback begins. -/
  | handleScheduledPluginReports
  | handleScheduledFullState
  /-- A callback begins that the timer does not owe. -/
  | spuriousFullState
  /-- A callback that is under way takes a step. -/
  | drain (i : ℕ) (ok : Bool)
  | fullState (i : ℕ) (ok : Bool)

/-- A deadline has passed. -/
def ReportTimer.due (timer : ReportTimer) (now : ℕ) : Option ReportTimer := do
  if (← timer.deadline) ≤ now then some ⟨none, timer.queued + 1⟩ else none

/-- A queued callback begins. -/
def ReportTimer.begin (timer : ReportTimer) : Option ReportTimer :=
  if timer.queued = 0 then none else some { timer with queued := timer.queued - 1 }

/-- What a step of the program does. -/
def act (providers : PluginReportKind) (s : State) : Act → Option State
  | .tick ticks => some { s with now := s.now + ticks }
  | .notifyPluginReport report => some (notifyPluginReport providers s report)
  | .handleServerCapabilities capabilities => some (handleServerCapabilities s capabilities)
  | .reportFullState => some (reportFullState s)
  | .stop => some (stop s)
  | .duePluginReports =>
      (s.pluginReportTimer.due s.now).map fun timer => { s with pluginReportTimer := timer }
  | .dueFullState =>
      (s.fullStateTimer.due s.now).map fun timer => { s with fullStateTimer := timer }
  | .handleScheduledPluginReports =>
      s.pluginReportTimer.begin.map fun timer =>
        claimPluginReports { s with pluginReportTimer := timer }
  | .handleScheduledFullState =>
      s.fullStateTimer.begin.map fun timer => claimFullState { s with fullStateTimer := timer }
  | .spuriousFullState => some (claimFullState s)
  | .drain i ok => stepDrain providers s i ok
  | .fullState i ok => stepFullState providers s i ok

/-- The moment behind a step is one at which the reporter is not stopped, perhaps with the
capability. -/
def Run.observe {P : Type} (accepts : Bool) (run : Run P) : Run P :=
  { run with since := ⟨true, run.since.granted || accepts⟩ }

/-- The callbacks under way see the moment behind a step. -/
def State.observe (s : State) : State :=
  if s.stopped then s
  else
    { s with
      drains := s.drains.map (·.observe s.serverAcceptsEffectiveConfig)
      fullStateReports := s.fullStateReports.map (·.observe s.serverAcceptsEffectiveConfig) }

/-- A step of the system. -/
def step (providers : PluginReportKind) (s : State) (a : Act) : Option State :=
  (act providers s a).map State.observe

/-- The runs of a reporter with these providers. -/
def system (providers : PluginReportKind) : System State Act :=
  .ofStep (· = .initial) (step providers)

end AutoInstrumentation.OpAmp
