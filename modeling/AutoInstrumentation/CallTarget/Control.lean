import AutoInstrumentation.CallTarget.Rewrite
import AutoInstrumentation.IL.Clauses
import AutoInstrumentation.Lib.Enclosing

/-!
# AutoInstrumentation.CallTarget.Control

How control moves through an instruction list with its exception clauses.

What the runtime does with an opcode is not in the source; here it is what the CLI says of
it, as far as control goes. A switch is taken apart: each of its pseudo instructions may jump
or go on to the next one.
-/

namespace AutoInstrumentation.CallTarget

open AutoInstrumentation.IL AutoInstrumentation.Lib AutoInstrumentation.Lib.Unwinding

def ceeThrow : ℕ := 0x7A
def ceeTailcall : ℕ := 0x114

def corILExceptionClauseFault : BitVec 32 := 0x4

/-- What an instruction of the list does. A call with the `tail.` prefix leaves the frame as
`jmp` does. -/
def flowOf (is : List ILInstr) (i : ILInstr) : Flow :=
  if i.opcode = ceeRet then .ret
  else if i.opcode = ceeJmp ∨ i.opcode = ceeTailcall then .jump
  else if i.opcode = ceeThrow ∨ i.opcode = ceeRethrow then .throw
  else if i.opcode = ceeEndfinally then .endfinally
  else if i.opcode = ceeEndfilter then .endfilter
  else if i.opcode = ceeLeave ∨ i.opcode = ceeLeaveS then .leave (position is i.target)
  else if i.opcode = ceeBr ∨ i.opcode = ceeBrS then .branch (position is i.target)
  else if (opCodeFlags i.opcode).branchTarget then .either (position is i.target)
  else .next

/-- When the handler of a clause is called. -/
def kindOf (e : EHClause) : Kind :=
  if e.flags &&& corILExceptionClauseFilter ≠ 0 then .filtered
  else if e.flags &&& corILExceptionClauseFinally ≠ 0 then .always
  else if e.flags &&& corILExceptionClauseFault ≠ 0 then .fault
  else .caught

def guardOf (is : List ILInstr) (e : EHClause) : Guard := ⟨kindOf e, e.positions is⟩

/-- The code of a rewriter, as a program. -/
def programOf (s : ILRewriter) : Program where
  flow p := s.instrs[p]?.map (flowOf s.instrs)
  guards := s.eh.map (guardOf s.instrs)

theorem programOf_flow {s : ILRewriter} {p : ℕ} {i : ILInstr} (h : s.instrs[p]? = some i) :
    (programOf s).flow p = some (flowOf s.instrs i) := congrArg (Option.map _) h

theorem programOf_flow_eq_some {s : ILRewriter} {p : ℕ} {f : Flow} :
    (programOf s).flow p = some f ↔ ∃ i, s.instrs[p]? = some i ∧ flowOf s.instrs i = f :=
  Option.map_eq_some_iff

/-! ### Instructions that stay in a part of the list -/

/-- An instruction that goes on to the next one. -/
def GoesOn (i : ILInstr) : Prop := ∀ is, flowOf is i = .next

theorem flowOf_congr {is : List ILInstr} {i j : ILInstr} (hopcode : j.opcode = i.opcode)
    (htarget : j.target = i.target) : flowOf is j = flowOf is i := by
  simp only [flowOf, hopcode, htarget]

/-- An instruction that neither returns nor gives up the frame stays where its branch is, and
the next instruction if it goes on to that. -/
theorem flowOf_within {is : List ILInstr} {i : ILInstr} {R : Set ℕ} {p : ℕ}
    (hret : i.opcode ≠ ceeRet) (hjmp : i.opcode ≠ ceeJmp) (htail : i.opcode ≠ ceeTailcall)
    (htarget : (opCodeFlags i.opcode).branchTarget = true → position is i.target ∈ R)
    (hnext : (flowOf is i = .next ∨ ∃ q, flowOf is i = .either q) → p + 1 ∈ R) :
    (flowOf is i).Within R p := by
  rw [flowOf, if_neg hret, if_neg (not_or.mpr ⟨hjmp, htail⟩)] at hnext ⊢
  split_ifs at hnext ⊢ with _ _ _ hleave hbranch hbranch
  · trivial
  · trivial
  · trivial
  · refine htarget ?_
    rcases hleave with heq | heq
    · rw [heq]
      rfl
    · rw [heq]
      rfl
  · refine htarget ?_
    rcases hbranch with heq | heq
    · rw [heq]
      rfl
    · rw [heq]
      rfl
  · exact ⟨htarget hbranch, hnext (.inr ⟨_, rfl⟩)⟩
  · exact hnext (.inl rfl)

end AutoInstrumentation.CallTarget
