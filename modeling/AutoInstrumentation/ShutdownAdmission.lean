import AutoInstrumentation.Lib.FlagWord
import AutoInstrumentation.Lib.Transition

/-!
# AutoInstrumentation.ShutdownAdmission

The shutdown admission gate of the continuous profiler
(`shutdown_admission.cpp`), as a labelled transition system.

One 64-bit word holds the closing bit and the count of admitted operations. A
`ShutdownAdmission` object enters through a load and a compare-exchange loop and
leaves through a `fetch_sub`; `CloseShutdownAdmissions` sets the closing bit with
a `fetch_or`; whoever brings the closed gate to zero raises
`shutdown_admissions_drained` under `shutdown_mutex` and notifies the waiter.
Every atomic access, every mutex section and every notification is one step, so
a run of the system is one interleaving of any number of objects (`ι`) with the
closing thread. The compare-exchange is weak: it may fail although the word is
unchanged. The wait may wake without a notification.
-/

namespace AutoInstrumentation.ShutdownAdmission

open Lib

/-! ### The words and the tests of the code -/

/-- `kShutdownAdmissionClosingBit`. -/
def shutdownAdmissionClosingBit : BitVec 64 := 1#64 <<< 63

/-- `kShutdownAdmissionCountMask`. -/
def shutdownAdmissionCountMask : BitVec 64 := ~~~shutdownAdmissionClosingBit

/-- The test at the head of the loop of `TryEnterShutdownAdmission`: the gate is
closing, or the count is full. -/
def refuses (state : BitVec 64) : Bool :=
  (state &&& shutdownAdmissionClosingBit) ≠ 0 ||
    (state &&& shutdownAdmissionCountMask) = shutdownAdmissionCountMask

/-- The test of `LeaveShutdownAdmission`: the word before the decrement counted
one operation and was closing. -/
def lastLeave (previous : BitVec 64) : Bool :=
  (previous &&& shutdownAdmissionCountMask) = 1 &&
    (previous &&& shutdownAdmissionClosingBit) ≠ 0

/-- The test of `CloseShutdownAdmissions`: no operation was counted. -/
def closedIdle (previous : BitVec 64) : Bool :=
  (previous &&& shutdownAdmissionCountMask) = 0

/-! ### The parties -/

/-- Where the thread that owns one `ShutdownAdmission` object stands. -/
inductive Phase
  /-- Before the constructor's load. -/
  | created
  /-- At the head of the loop, with the word it last read. -/
  | testing (state : BitVec 64)
  /-- `admitted_` is false; the destructor does nothing. -/
  | refused
  /-- `admitted_` is true; the destructor has not run. -/
  | admitted
  /-- After a `fetch_sub` that was the last leave: about to lock and raise. -/
  | raising
  /-- The signal is raised: about to notify. -/
  | notifying
  | finished
  deriving DecidableEq, Repr

namespace Phase

/-- The object is counted in the gate. -/
def holds : Phase → Bool
  | admitted => true
  | _ => false

/-- The object is about to raise the drained signal. -/
def raises : Phase → Bool
  | raising => true
  | _ => false

end Phase

/-- Where the closing thread stands: `CloseShutdownAdmissions`, then
`WaitForShutdownAdmissions`. -/
inductive Closer
  /-- Before the `fetch_or`. -/
  | running
  | raising
  | notifying
  /-- About to test the predicate of the wait under the mutex. -/
  | waiting
  /-- Blocked in the condition variable. -/
  | asleep
  /-- `WaitForShutdownAdmissions` returned. -/
  | returned
  deriving DecidableEq, Repr

structure State (ι : Type) where
  shutdownAdmissionGate : BitVec 64
  shutdownAdmissionsDrained : Bool
  ops : ι → Phase
  closer : Closer

/-- The steps, one for each atomic access, mutex section or notification. -/
inductive Act (ι : Type)
  | load (i : ι)
  | refuse (i : ι)
  | exchange (i : ι)
  | exchangeFails (i : ι)
  | leave (i : ι)
  | raise (i : ι)
  | notify (i : ι)
  | close
  | closeRaise
  | closeNotify
  | test
  | wake

variable {ι : Type} [DecidableEq ι]

/-- Object `i` moves to phase `p`. -/
def State.setOp (s : State ι) (i : ι) (p : Phase) : State ι :=
  { s with ops := Function.update s.ops i p }

/-- `notify_all`: a blocked waiter goes back to its predicate. -/
def Closer.notified : Closer → Closer
  | asleep => waiting
  | c => c

/-- One step; `none` when the step is not enabled. -/
def step (s : State ι) : Act ι → Option (State ι)
  | .load i =>
      match s.ops i with
      | .created => some (s.setOp i (.testing s.shutdownAdmissionGate))
      | _ => none
  | .refuse i =>
      match s.ops i with
      | .testing state => if refuses state then some (s.setOp i .refused) else none
      | _ => none
  | .exchange i =>
      match s.ops i with
      | .testing state =>
          if ¬ refuses state ∧ s.shutdownAdmissionGate = state then
            some { s.setOp i .admitted with shutdownAdmissionGate := state + 1 }
          else none
      | _ => none
  | .exchangeFails i =>
      match s.ops i with
      | .testing state =>
          if refuses state then none else some (s.setOp i (.testing s.shutdownAdmissionGate))
      | _ => none
  | .leave i =>
      match s.ops i with
      | .admitted =>
          some { s.setOp i (if lastLeave s.shutdownAdmissionGate then .raising else .finished) with
            shutdownAdmissionGate := s.shutdownAdmissionGate - 1 }
      | _ => none
  | .raise i =>
      match s.ops i with
      | .raising => some { s.setOp i .notifying with shutdownAdmissionsDrained := true }
      | _ => none
  | .notify i =>
      match s.ops i with
      | .notifying => some { s.setOp i .finished with closer := s.closer.notified }
      | _ => none
  | .close =>
      match s.closer with
      | .running =>
          some { s with
            closer := if closedIdle s.shutdownAdmissionGate then .raising else .waiting
            shutdownAdmissionGate := s.shutdownAdmissionGate ||| shutdownAdmissionClosingBit }
      | _ => none
  | .closeRaise =>
      match s.closer with
      | .raising => some { s with closer := .notifying, shutdownAdmissionsDrained := true }
      | _ => none
  | .closeNotify =>
      match s.closer with
      | .notifying => some { s with closer := .waiting }
      | _ => none
  | .test =>
      match s.closer with
      | .waiting =>
          some { s with closer := if s.shutdownAdmissionsDrained then .returned else .asleep }
      | _ => none
  | .wake =>
      match s.closer with
      | .asleep => some { s with closer := .waiting }
      | _ => none

/-- The process starts with the gate at zero and nobody inside. -/
def State.initial : State ι where
  shutdownAdmissionGate := 0
  shutdownAdmissionsDrained := false
  ops := fun _ => .created
  closer := .running

/-- The gate with any number of admission objects and one closing thread. -/
def gate (ι : Type) [DecidableEq ι] : System (State ι) (Act ι) :=
  .ofStep (· = .initial) step

/-! ### What the proofs speak about -/

/-- The closing thread has set the closing bit. -/
def State.closed (s : State ι) : Bool := s.closer ≠ .running

variable [Fintype ι]

/-- The operations admitted and not yet left. -/
def State.outstanding (s : State ι) : ℕ := countWhere Phase.holds s.ops

/-- The objects between the last leave and the raising of the signal. -/
def State.raisers (s : State ι) : ℕ := countWhere Phase.raises s.ops

end AutoInstrumentation.ShutdownAdmission
