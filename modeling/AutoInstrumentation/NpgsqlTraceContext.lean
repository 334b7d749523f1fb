import AutoInstrumentation.Cel.Lexer
import AutoInstrumentation.Lib.Setting
import AutoInstrumentation.Lib.Transition

/-!
# AutoInstrumentation.NpgsqlTraceContext

`NpgsqlTraceContextPropagator`: the `application_name` of a PostgreSQL session carries the
trace parent of the user action that runs on it.

The propagator sends `SET` and `RESET` through the connector and notes in a flag whether the
session holds a trace parent. A command that fails is one that the server refuses; a
connector that breaks takes no more steps.
-/

namespace AutoInstrumentation.NpgsqlTraceContext

open AutoInstrumentation.Lib
open AutoInstrumentation.Cel (WChar WString code)

/-! ### The connector and its session -/

/-- What the propagator reads of the settings and of the connector. -/
structure Connector where
  isEnabled : Bool
  /-- `DuckCast<INpgsqlConnector>` succeeds. -/
  isConnector : Bool
  multiplexing : Bool

structure ConnectorContextState where
  hasPropagatedContext : Bool
  isExecutingInternalCommand : Bool

/-- The commands of the session. The value `none` of `application_name` is the default. -/
abbrev SessionCommand := Command WString (Option WString)

/-- The user action of the connector: one that has ended, with a `RESET` at its end that was
refused or not, or one that runs, with the trace parent of its activity. Of the latter,
`kept` says that a `SET` was accepted for it and no transaction was undone since. -/
inductive UserAction
  | ended (refused : Bool)
  | running (traceParent : Option WString) (kept : Bool)
  deriving DecidableEq

structure Connection where
  /-- The entry of `ConnectorStates`. -/
  state : Option ConnectorContextState
  applicationName : Setting WString (Option WString)
  action : UserAction

/-- `HasPropagatedContext`. -/
def Connection.hasPropagatedContext (c : Connection) : Bool :=
  c.state.any (·.hasPropagatedContext)

/-- The identifier that reflection reads of an activity, or an exception. -/
abbrev Activity := Except Unit (Option WString)

/-! ### Trace parents -/

def isAsciiHexDigitLower (c : WChar) : Bool :=
  (code '0' ≤ c && c ≤ code '9') || (code 'a' ≤ c && c ≤ code 'f')

/-- `IsW3CTraceParent`. -/
def isW3CTraceParent (value : WString) : Bool :=
  if value.length ≠ 55 ∨ value[0]? ≠ some (code '0') ∨ value[1]? ≠ some (code '0')
      ∨ value[2]? ≠ some (code '-') ∨ value[35]? ≠ some (code '-')
      ∨ value[52]? ≠ some (code '-') then
    false
  else
    (value.zipIdx.drop 3).all fun (character, i) =>
      i == 35 || i == 52 || isAsciiHexDigitLower character

/-! ### The propagator -/

/-- `ExecuteApplicationNameCommand`: `SET` with a value, `RESET` with none. The result says
that the server accepted it; if not, the call throws. -/
def executeApplicationNameCommand (state : ConnectorContextState) (c : Connection)
    (value : Option WString) (refused : Bool) : Connection × Bool :=
  ({ c with
      state := some { state with isExecutingInternalCommand := false }
      applicationName := c.applicationName.execute (.assign value) refused },
    !(refused || c.applicationName.failed))

/-- `ResetApplicationName`. Beside the connection it says what became of the command, if one
was sent. -/
def resetApplicationName (state : ConnectorContextState) (c : Connection) (refused : Bool) :
    Connection × Option Bool :=
  if !state.hasPropagatedContext || c.applicationName.failed then
    ({ c with state := some state }, none)
  else
    match executeApplicationNameCommand state c none refused with
    | (c, true) => ({ c with state := some ⟨false, false⟩ }, some true)
    | (c, false) => (c, some false)

/-- `PropagateActivityCore`. -/
def propagateActivityCore (connector : Connector) (activity : Activity) (c : Connection)
    (refused : Bool) : Connection × Option Bool :=
  if !connector.isConnector || connector.multiplexing then (c, none)
  else
    match activity with
    | .error _ => (c, none)
    | .ok traceParent =>
        let state := c.state.getD ⟨false, false⟩
        if c.applicationName.failed then ({ c with state := some state }, none)
        else
          match traceParent.filter isW3CTraceParent with
          | some traceParent =>
              match executeApplicationNameCommand state c (some traceParent) refused with
              | (c, true) => ({ c with state := some ⟨true, false⟩ }, some true)
              | (c, false) => (c, some false)
          | none => resetApplicationName state c refused

/-- `Propagate`. The command is `null`, reading its activity throws, or it has one. -/
def propagate (connector : Connector) (command : Option (Except Unit Activity)) (c : Connection)
    (refused : Bool) : Connection × Option Bool :=
  if !connector.isEnabled then (c, none)
  else
    match command with
    | some (.ok activity) => propagateActivityCore connector activity c refused
    | _ => (c, none)

/-- `PropagateCopyActivity`. -/
def propagateCopyActivity (connector : Connector) (activity : Activity) (c : Connection)
    (refused : Bool) : Connection × Option Bool :=
  if !connector.isEnabled then (c, none) else propagateActivityCore connector activity c refused

/-- `ClearOnUserActionEnd`. -/
def clearOnUserActionEnd (connector : Connector) (c : Connection) (refused : Bool) :
    Connection × Option Bool :=
  if !connector.isEnabled then (c, none)
  else
    match c.state with
    | none => (c, none)
    | some state =>
        if state.isExecutingInternalCommand then (c, none)
        else if !connector.isConnector then (c, none)
        else resetApplicationName state c refused

/-! ### Runs -/

/-- What happens on a connector. A command that the propagator sends on the way is refused
or not. -/
inductive Step
  | propagate (command : Option (Except Unit Activity)) (refused : Bool)
  | propagateCopyActivity (activity : Activity) (refused : Bool)
  | clearOnUserActionEnd (refused : Bool)
  | command (command : SessionCommand) (refused : Bool)

/-- The trace parent of a W3C activity. -/
def traceParentOf (activity : Activity) : Option WString :=
  (activity.toOption.getD none).filter isW3CTraceParent

/-- A step of the connection. -/
def step (connector : Connector) (c : Connection) : Step → Connection
  | .propagate command refused =>
      let (c, sent) := propagate connector command c refused
      let activity := (command.bind Except.toOption).bind traceParentOf
      { c with action := .running activity (sent == some true) }
  | .propagateCopyActivity activity refused =>
      let (c, sent) := propagateCopyActivity connector activity c refused
      { c with action := .running (traceParentOf activity) (sent == some true) }
  | .clearOnUserActionEnd refused =>
      let (c, sent) := clearOnUserActionEnd connector c refused
      { c with action := .ended (sent == some false) }
  | .command command refused =>
      let undone := (c.applicationName.restored command refused).isSome
      { c with
        applicationName := c.applicationName.execute command refused
        action :=
          match c.action with
          | .running traceParent kept => .running traceParent (kept && !undone)
          | .ended refused => .ended refused }

/-- A session that was opened: the name is the default, and no user action runs. -/
def opened : Connection := ⟨none, ⟨none, none⟩, .ended false⟩

/-- The runs of a connector. -/
def system (connector : Connector) : System Connection Step where
  init c := c = opened
  step c a c' := step connector c a = c'

/-! ### What the mirror is for -/

/-- **The flag mirrors the session**: an action that has ended leaves the default, one with a
W3C activity runs under its trace parent, and a trace parent on the server is known. -/
structure Mirrors (c : Connection) : Prop where
  ended : ∀ refused, c.action = .ended refused → c.applicationName.failed = false →
    c.applicationName.value = none
  running : ∀ traceParent kept, c.action = .running (some traceParent) kept →
    c.applicationName.failed = false → c.applicationName.value = some traceParent
  known : c.hasPropagatedContext = false → c.applicationName.value = none

/-- The same, of an action whose `RESET` was not refused, and of one that runs with its `SET`
accepted and not undone. -/
structure MirrorsAccepted (c : Connection) : Prop where
  ended : c.action = .ended false → c.applicationName.failed = false →
    c.applicationName.value = none
  running : ∀ traceParent, c.action = .running (some traceParent) true →
    c.applicationName.failed = false → c.applicationName.value = some traceParent
  known : c.hasPropagatedContext = false → c.applicationName.value = none

/-- The application does not assign the name, and begins a transaction or a savepoint only
while no context is propagated. -/
def Regular (c : Connection) : Step → Prop
  | .command (.assign _) _ => False
  | .command command _ => Setting.Notes command → c.hasPropagatedContext = false
  | _ => True

end AutoInstrumentation.NpgsqlTraceContext
