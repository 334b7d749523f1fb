import AutoInstrumentation.OpAmp.Manager
import AutoInstrumentation.Lib.Transition

/-!
# AutoInstrumentation.OpAmp.Loader

`OpAmpLoader`: the one manager that can be started and stopped through the loader, and the
managers that are prepared outside its lock.
-/

namespace AutoInstrumentation.OpAmp

open Lib

/-- How far `PrepareOpAmpClient` has come with a manager. -/
inductive Preparation
  /-- `TryCreate` runs `ConfigureOpAmpClient`. -/
  | configuring
  /-- `TryCreate` has returned. -/
  | prepared (configured : Bool)
  /-- The manager was registered, and may have been taken back since. -/
  | registered
  /-- The manager was not registered. -/
  | dropped
  deriving DecidableEq, Repr

/-- A manager that was created. -/
structure Candidate where
  preparation : Preparation
  plugin : Bool
  manager : Manager

structure Loader where
  stopped : Bool
  /-- The place of `_opAmpManager` in the list of all managers. -/
  opAmpManager : Option ℕ
  /-- The preparations that have passed the first lock section and have no manager yet. -/
  preparing : ℕ
  /-- Every manager that was ever created. -/
  managers : List Candidate

namespace Loader

def initial : Loader where
  stopped := false
  opAmpManager := none
  preparing := 0
  managers := []

inductive Act
  /-- The first lock section of `PrepareOpAmpClient`. -/
  | prepare
  /-- `CreateManager` returns a manager, with a plugin or without. -/
  | create (plugin : Bool)
  /-- `TryCreate` fails before there is a manager. -/
  | createFailed
  /-- `ConfigureOpAmpClient` returns or throws. -/
  | configure (i : ℕ) (ok : Bool)
  /-- The second lock section of `PrepareOpAmpClient`. -/
  | register (i : ℕ)
  /-- `StartOpAmpClient`. -/
  | startClient
  /-- The lock section of `StopOpAmpClientIfRunning`. -/
  | stopIfRunning
  /-- A task of a manager takes a step. -/
  | task (i j : ℕ) (ok : Bool)

/-- A manager is replaced by what a call makes of it. -/
def update (s : Loader) (i : ℕ) (f : Manager → Manager) : Loader :=
  { s with managers := s.managers.modify i fun c => { c with manager := f c.manager } }

/-- The second lock section of `PrepareOpAmpClient`. The manager that is not registered is
stopped by the thread that prepared it. -/
def register (s : Loader) (i : ℕ) (c : Candidate) (configured : Bool) : Loader :=
  if configured && !s.stopped then
    { s with
      opAmpManager := some i
      managers := s.managers.set i { c with preparation := .registered } }
  else
    { s with
      managers := s.managers.set i
        { c with preparation := .dropped, manager := c.manager.spawn .stopClient } }

/-- `StartOpAmpClient`. -/
def startClient (s : Loader) : Loader :=
  match s.opAmpManager with
  | none => s
  | some i => s.update i Manager.startClient

/-- The lock section of `StopOpAmpClientIfRunning`, and the call of `StopManager` behind it. -/
def stopIfRunning (s : Loader) : Loader :=
  let stopped := { s with stopped := true, opAmpManager := none }
  match s.opAmpManager with
  | none => stopped
  | some i => stopped.update i (·.spawn .stopClient)

def step (s : Loader) : Act → Option Loader
  | .prepare => some (if s.stopped then s else { s with preparing := s.preparing + 1 })
  | .create plugin =>
      if s.preparing = 0 then none
      else
        some { s with
          preparing := s.preparing - 1
          managers := s.managers ++ [⟨.configuring, plugin, .initial⟩] }
  | .createFailed =>
      if s.preparing = 0 then none else some { s with preparing := s.preparing - 1 }
  | .configure i ok => do
      let c ← s.managers[i]?
      match c.preparation with
      | .configuring =>
          return { s with managers := s.managers.set i { c with preparation := .prepared ok } }
      | _ => none
  | .register i => do
      let c ← s.managers[i]?
      match c.preparation with
      | .prepared configured => return s.register i c configured
      | _ => none
  | .startClient => some s.startClient
  | .stopIfRunning => some s.stopIfRunning
  | .task i j ok => do
      let c ← s.managers[i]?
      let m ← c.manager.step c.plugin j ok
      return { s with managers := s.managers.set i { c with manager := m } }

/-- The interleavings of a loader and of its managers. -/
def system : System Loader Act := .ofStep (· = initial) step

end Loader

end AutoInstrumentation.OpAmp
