import Mathlib.Algebra.Ring.Nat
import Mathlib.Data.List.Basic

/-!
# AutoInstrumentation.DuckTyping.StackMachine

The instructions of a proxy method, and an evaluation stack that follows every value from
where it was loaded.

The machine counts values and keeps their origin; a conversion keeps the origin of what it
converts. Only the loads and stores through an address ask for the type behind it. Where a
branch goes is decided by an oracle, so that a property of all oracles is one of all paths.
-/

namespace AutoInstrumentation.DuckTyping

variable {τ : Type}

/-- What an instruction calls. -/
inductive Callee (τ : Type)
  -- what a value is converted with
  | getInstance
  | createFrom (proxyType fromType : τ)
  | create (proxyType : τ)
  | createReverse (proxyType : τ)
  | getTypeFromHandle
  /-- `ValueWithType<T>.Create`. -/
  | valueWithType (type : τ)
  /-- `DelegateCache<TProxyDelegate>.GetDelegate`. -/
  | getDelegate
  -- the inner method, with its arguments and whether it returns something
  | target (virtual : Bool) (arguments : ℕ) (returns : Bool)
  | pointer (arguments : ℕ) (returns : Bool)
  | invoke (arguments : ℕ) (returns : Bool)
  deriving DecidableEq, Repr

/-- The instructions. `ldargS`, `ldlocS`, `stlocS` and `ldlocaS` are emitted with an `int`. -/
inductive Instr (τ : Type)
  | ldarg (index : ℕ)
  | ldargS (index : ℕ)
  | ldfld
  | ldflda
  | ldloc (index : ℕ)
  | ldlocS (index : ℕ)
  | stloc (index : ℕ)
  | stlocS (index : ℕ)
  | ldloca (index : ℕ)
  | ldlocaS (index : ℕ)
  | ldindRef
  | stindRef
  | dup
  | pop
  | ldnull
  | brtrueS (label : ℕ)
  | brS (label : ℕ)
  | markLabel (label : ℕ)
  | castclass (type : τ)
  | isinst (type : τ)
  | box (type : τ)
  | unboxAny (type : τ)
  | initobj (type : τ)
  | newobj (type : τ)
  | throwException
  | ldtoken (type : τ)
  | ldcI8
  | convI
  | call (callee : Callee τ)
  | ret
  deriving DecidableEq, Repr

/-- The instruction is where a label is marked. -/
def Instr.marks (label : ℕ) : Instr τ → Bool
  | .markLabel l => l == label
  | _ => false

/-- Where a value comes from. -/
inductive Slot
  | argument (index : ℕ)
  | null
  /-- The address of a local. -/
  | address (local' : ℕ)
  /-- What the inner method left in a local. -/
  | written (local' : ℕ)
  | delegate
  | functionPointer
  | result
  | typeHandle
  deriving DecidableEq, Repr

/-- A running body. -/
structure Frame where
  stack : List Slot
  locals : ℕ → Slot
  /-- What the inner method was called with: each argument, with what is behind it if it is the
  address of a local. -/
  called : Option (List (Slot × Slot))
  /-- The arguments that were stored through, with what was stored; the last one first. -/
  stored : List (ℕ × Slot)

/-- Locals are zero at first. -/
def Frame.initial : Frame where
  stack := []
  locals _ := .null
  called := none
  stored := []

/-- How a list of instructions ends. -/
inductive Outcome
  /-- Behind the last one, perhaps on the way to a label. -/
  | running (jump : Option ℕ) (frame : Frame)
  | returned (frame : Frame)
  | threw

namespace Frame

def push (f : Frame) (slot : Slot) : Frame := { f with stack := slot :: f.stack }

/-- What is behind the address of a local, and any other value itself. -/
def behind (f : Frame) : Slot → Slot
  | .address l => f.locals l
  | slot => slot

/-- The inner method is called: it takes its arguments and may write the locals whose address
it gets. -/
def callInner (f : Frame) (arguments stack : List Slot) (returns : Bool) : Frame where
  stack := if returns then .result :: stack else stack
  locals l := if .address l ∈ arguments then .written l else f.locals l
  called := some (arguments.map fun a => (a, f.behind a))
  stored := f.stored

/-- A call. -/
def call (f : Frame) : Callee τ → Option Frame
  | .getInstance | .createFrom _ _ | .create _ | .createReverse _ | .getTypeFromHandle =>
      match f.stack with
      | _ :: _ => some f
      | [] => none
  | .valueWithType _ =>
      match f.stack with
      | _ :: slot :: stack => some { f with stack := slot :: stack }
      | _ => none
  | .getDelegate => some (f.push .delegate)
  | .target _ arguments returns =>
      if arguments ≤ f.stack.length then
        some (f.callInner (f.stack.take arguments).reverse (f.stack.drop arguments) returns)
      else none
  | .pointer arguments returns =>
      match f.stack with
      | .functionPointer :: stack =>
          if arguments ≤ stack.length then
            some (f.callInner (stack.take arguments).reverse (stack.drop arguments) returns)
          else none
      | _ => none
  | .invoke arguments returns =>
      match f.stack.drop arguments with
      | .delegate :: stack =>
          some (f.callInner (f.stack.take arguments).reverse stack returns)
      | _ => none

/-- An instruction that goes on to the next one. `holdsReference` says of an argument that it
is the address of a reference. -/
def step (holdsReference : ℕ → Bool) (f : Frame) : Instr τ → Option Frame
  | .ldarg index => some (f.push (.argument index))
  -- four bytes are emitted behind an opcode that takes one: the others are `nop` if they are zero
  | .ldargS index => if index < 256 then some (f.push (.argument index)) else none
  | .ldloc index => some (f.push (f.locals index))
  | .ldlocS index => if index < 256 then some (f.push (f.locals index)) else none
  | .ldloca index => some (f.push (.address index))
  | .ldlocaS index => if index < 256 then some (f.push (.address index)) else none
  | .stloc index =>
      match f.stack with
      | slot :: stack =>
          some { f with stack, locals := fun l => if l = index then slot else f.locals l }
      | [] => none
  | .stlocS index =>
      match f.stack with
      | slot :: stack =>
          if index < 256 then
            some { f with stack, locals := fun l => if l = index then slot else f.locals l }
          else none
      | [] => none
  | .ldindRef =>
      match f.stack with
      | .argument index :: _ => if holdsReference index then some f else none
      | _ => none
  | .stindRef =>
      match f.stack with
      | slot :: .argument index :: stack =>
          if holdsReference index then some { f with stack, stored := (index, slot) :: f.stored }
          else none
      | _ => none
  | .dup =>
      match f.stack with
      | slot :: _ => some (f.push slot)
      | [] => none
  | .pop =>
      match f.stack with
      | _ :: stack => some { f with stack }
      | [] => none
  | .ldnull => some (f.push .null)
  | .ldfld | .ldflda | .castclass _ | .isinst _ | .box _ | .unboxAny _ | .newobj _ | .convI =>
      match f.stack with
      | _ :: _ => some f
      | [] => none
  | .initobj _ =>
      match f.stack with
      | .address index :: stack =>
          some { f with stack, locals := fun l => if l = index then .null else f.locals l }
      | _ => none
  | .ldtoken _ => some (f.push .typeHandle)
  | .ldcI8 => some (f.push .functionPointer)
  | .call callee => f.call callee
  -- these leave the line
  | .brtrueS _ | .brS _ | .markLabel _ | .throwException | .ret => none

end Frame

/-- The instructions are executed, from a label on if there is a jump. -/
def exec (holdsReference : ℕ → Bool) (taken : ℕ → Bool) :
    Option ℕ → List (Instr τ) → Frame → Option Outcome
  | jump, [], f => some (.running jump f)
  | some label, i :: code, f =>
      exec holdsReference taken (if i.marks label then none else some label) code f
  | none, .markLabel _ :: code, f => exec holdsReference taken none code f
  | none, .brS label :: code, f => exec holdsReference taken (some label) code f
  | none, .brtrueS label :: code, f =>
      match f.stack with
      | _ :: stack =>
          exec holdsReference taken (if taken label then some label else none) code
            { f with stack }
      | [] => none
  | none, .throwException :: _, _ => some .threw
  | none, .ret :: _, f => some (.returned f)
  | none, i :: code, f => (f.step holdsReference i).bind (exec holdsReference taken none code)

/-! ### The rules of runs -/

/-- What follows a list of instructions. -/
def Outcome.andThen (holdsReference taken : ℕ → Bool) (rest : List (Instr τ)) :
    Outcome → Option Outcome
  | .running jump f => exec holdsReference taken jump rest f
  | .returned f => some (.returned f)
  | .threw => some .threw

section Rules

variable {holdsReference taken : ℕ → Bool} {code rest : List (Instr τ)} {f f' : Frame}
  {P Q : Frame → Prop}

/-- The instructions that do not leave the line. -/
def Instr.isLinear : Instr τ → Bool
  | .brtrueS _ | .brS _ | .markLabel _ | .throwException | .ret => false
  | _ => true

theorem exec_linear {i : Instr τ} (h : i.isLinear = true) (code : List (Instr τ)) (f : Frame) :
    exec holdsReference taken none (i :: code) f
      = (f.step holdsReference i).bind (exec holdsReference taken none code) := by
  cases i
  case brtrueS => cases h
  case brS => cases h
  case markLabel => cases h
  case throwException => cases h
  case ret => cases h
  all_goals rfl

theorem exec_append (jump : Option ℕ) (code rest : List (Instr τ)) (f : Frame) :
    exec holdsReference taken jump (code ++ rest) f =
      (exec holdsReference taken jump code f).bind
        (Outcome.andThen holdsReference taken rest) := by
  induction code generalizing jump f with
  | nil =>
      cases jump with
      | none => rfl
      | some label => rfl
  | cons i code ih =>
      cases jump with
      | some label => simp only [List.cons_append, exec, ih]
      | none =>
          by_cases hlinear : i.isLinear = true
          · rw [List.cons_append, exec_linear hlinear, exec_linear hlinear, Option.bind_assoc]
            exact congrArg _ (funext fun g => ih none g)
          · cases i
            case brtrueS label =>
              simp only [List.cons_append, exec]
              split
              · exact ih _ _
              · rfl
            case brS label => simp only [List.cons_append, exec, ih]
            case markLabel label => simp only [List.cons_append, exec, ih]
            case throwException => rfl
            case ret => rfl
            all_goals exact absurd rfl hlinear

/-- A jump passes the code in which its label is not marked. -/
theorem exec_pass {label : ℕ} (h : ∀ i ∈ code, i.marks label = false) (f : Frame) :
    exec holdsReference taken (some label) code f = some (.running (some label) f) := by
  induction code with
  | nil => rfl
  | cons i code ih =>
      simp only [exec, h i List.mem_cons_self, if_neg Bool.false_ne_true]
      exact ih fun j hj => h j (List.mem_cons_of_mem i hj)

/-- The code reaches its end in a frame with `P`. Only where a branch is not taken may it throw
instead. -/
def Runs (holdsReference taken : ℕ → Bool) (code : List (Instr τ)) (f : Frame)
    (P : Frame → Prop) : Prop :=
  (exec holdsReference taken none code f = some .threw ∧ ∃ label, taken label = false)
    ∨ ∃ f', exec holdsReference taken none code f = some (.running none f') ∧ P f'

theorem Runs.nil (h : P f) : Runs holdsReference taken ([] : List (Instr τ)) f P :=
  .inr ⟨f, rfl, h⟩

theorem Runs.mono (h : Runs holdsReference taken code f P) (hPQ : ∀ f', P f' → Q f') :
    Runs holdsReference taken code f Q := by
  rcases h with h | ⟨f', hexec, hP⟩
  · exact .inl h
  · exact .inr ⟨f', hexec, hPQ f' hP⟩

/-- The rule of sequences. -/
theorem Runs.append (h : Runs holdsReference taken code f P)
    (hrest : ∀ f', P f' → Runs holdsReference taken rest f' Q) :
    Runs holdsReference taken (code ++ rest) f Q := by
  rcases h with ⟨hexec, hnot⟩ | ⟨f', hexec, hP⟩
  · refine .inl ⟨?_, hnot⟩
    rw [exec_append, hexec]
    rfl
  · have hsplit : exec holdsReference taken none (code ++ rest) f
        = exec holdsReference taken none rest f' := by
      rw [exec_append, hexec]
      rfl
    rw [Runs, hsplit]
    exact hrest f' hP

/-- The rule of an instruction that does not leave the line. -/
theorem Runs.cons {i : Instr τ} (hlinear : i.isLinear = true)
    (hstep : f.step holdsReference i = some f') (h : Runs holdsReference taken code f' P) :
    Runs holdsReference taken (i :: code) f P := by
  have hexec : exec holdsReference taken none (i :: code) f
      = exec holdsReference taken none code f' := by
    rw [exec_linear hlinear, hstep]
    rfl
  rw [Runs, hexec]
  exact h

theorem Runs.single {i : Instr τ} (hlinear : i.isLinear = true)
    (hstep : f.step holdsReference i = some f') (h : P f') :
    Runs holdsReference taken [i] f P := .cons hlinear hstep (.nil h)

/-- On this path every branch is taken. -/
def straight : ℕ → Bool := fun _ => true

/-- The code gets stuck on the straight path. -/
def Stuck (holdsReference : ℕ → Bool) (code : List (Instr τ)) (f : Frame) : Prop :=
  exec holdsReference straight none code f = none

theorem Stuck.append (h : Stuck holdsReference code f) (rest : List (Instr τ)) :
    Stuck holdsReference (code ++ rest) f := by
  rw [Stuck, exec_append, h]
  rfl

theorem Stuck.cons {i : Instr τ} (hlinear : i.isLinear = true)
    (hstep : f.step holdsReference i = none) (rest : List (Instr τ)) :
    Stuck holdsReference (i :: rest) f := by
  rw [Stuck, exec_linear hlinear, hstep]
  rfl

theorem Runs.stuck (h : Runs holdsReference straight code f P)
    (hrest : ∀ f', P f' → Stuck holdsReference rest f') :
    Stuck holdsReference (code ++ rest) f := by
  rcases h with ⟨-, label, hnot⟩ | ⟨f', hexec, hP⟩
  · cases hnot
  · rw [Stuck, exec_append, hexec]
    exact hrest f' hP

end Rules

end AutoInstrumentation.DuckTyping
