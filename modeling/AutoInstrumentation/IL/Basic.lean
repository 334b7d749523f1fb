import AutoInstrumentation.IL.Opcode
import AutoInstrumentation.Lib.Buffer
import AutoInstrumentation.Lib.Cursor

/-!
# AutoInstrumentation.IL.Basic

The instruction list of `ILRewriter`, and how it is imported from a method body.

An instruction is known by its address, here the number of its allocation; the list
owns its instructions in their order, and the sentinel `m_IL` closes it. The members
`m_pTarget` and `m_Arg8 .. m_Arg64` share their storage in the source; an instruction
uses one of them, by the flags of its opcode.
-/

namespace AutoInstrumentation.IL

open AutoInstrumentation.Lib

/-- The failures of the rewriter. -/
inductive HResult
  | corEInvalidProgram
  | corEInvalidOperation
  | corEIndexOutOfRange
  | eFail
  deriving Repr, DecidableEq

/-- The address of an instruction, or of the sentinel `m_IL`. -/
inductive InstrPtr
  | il
  | instr (n : ℕ)
  deriving Repr, DecidableEq

/-- `ILInstr`, with its address. `m_Arg8 .. m_Arg32` are the low bits of `arg`. -/
structure ILInstr where
  ptr : ℕ
  opcode : ℕ
  target : InstrPtr
  arg : BitVec 64
  deriving Repr, DecidableEq

/-- `m_Arg32`. -/
def ILInstr.arg32 (i : ILInstr) : BitVec 32 := i.arg.setWidth 32

/-- `EHClause`; `m_ClassToken` and `m_pFilter` share their storage in the source. -/
structure EHClause where
  flags : BitVec 32
  tryBegin : InstrPtr
  tryEnd : InstrPtr
  handlerBegin : InstrPtr
  handlerEnd : InstrPtr
  classToken : BitVec 32
  filter : InstrPtr
  deriving Repr, DecidableEq

/-- A clause of the exception table of a method body, in its fat form. The class token
and the filter's offset share a field. -/
structure EHClauseFat where
  flags : BitVec 32
  tryOffset : BitVec 32
  tryLength : BitVec 32
  handlerOffset : BitVec 32
  handlerLength : BitVec 32
  classTokenOrFilterOffset : BitVec 32
  deriving Repr, DecidableEq

/-- A method body as its header describes it. -/
structure MethodBody where
  flags : BitVec 32
  maxStack : BitVec 16
  localVarSigTok : BitVec 32
  code : List Byte
  eh : List EHClauseFat
  deriving Repr, DecidableEq

def corILMethodInitLocals : BitVec 32 := 0x10
def corILExceptionClauseFilter : BitVec 32 := 0x1

/-- The members of `ILRewriter`. `offsetToInstr` is the sparse table
`m_pOffsetToInstr`, and `m_nEH` is the length of `eh`. -/
structure ILRewriter where
  tkLocalVarSig : BitVec 32
  maxStack : BitVec 32
  flags : BitVec 32
  fGenerateTinyHeader : Bool
  instrs : List ILInstr
  eh : List EHClause
  offsetToInstr : ℕ → Option InstrPtr
  codeSize : ℕ
  nInstrs : ℕ

/-! ### The linked list -/

/-- `m_pNext` of the sentinel. -/
def headPtr : List ILInstr → InstrPtr
  | [] => .il
  | i :: _ => .instr i.ptr

/-- `pInstr->m_pNext`. -/
def nextPtr (is : List ILInstr) (p : InstrPtr) : InstrPtr :=
  match p with
  | .il => headPtr is
  | .instr n => headPtr (is.dropWhile (·.ptr ≠ n)).tail

/-- `pInstr->m_pPrev`, behind `prev`. -/
def prevPtrFrom (prev : InstrPtr) : List ILInstr → InstrPtr → InstrPtr
  | [], _ => prev
  | i :: is, p => if p = .instr i.ptr then prev else prevPtrFrom (.instr i.ptr) is p

/-- `pInstr->m_pPrev`. -/
def prevPtr (is : List ILInstr) (p : InstrPtr) : InstrPtr := prevPtrFrom .il is p

/-- The list with `what` linked in before `p`. -/
def linkBefore (p : InstrPtr) (what : ILInstr) : List ILInstr → List ILInstr
  | [] => [what]
  | i :: is => if p = .instr i.ptr then what :: i :: is else i :: linkBefore p what is

/-- The list with `what` linked in after `n`. -/
def linkAfterInstr (n : ℕ) (what : ILInstr) : List ILInstr → List ILInstr
  | [] => [what]
  | i :: is => if i.ptr = n then i :: what :: is else i :: linkAfterInstr n what is

/-- The list with `what` linked in after `p`. -/
def linkAfter (p : InstrPtr) (what : ILInstr) (is : List ILInstr) : List ILInstr :=
  match p with
  | .il => what :: is
  | .instr n => linkAfterInstr n what is

namespace ILRewriter

/-- The constructor of `ILRewriter`. -/
def init : ILRewriter where
  tkLocalVarSig := 0
  maxStack := 0
  flags := 0x2
  fGenerateTinyHeader := false
  instrs := []
  eh := []
  offsetToInstr := fun _ => none
  codeSize := 0
  nInstrs := 0

/-- `NewILInstr`: the address of a new instruction, and the rewriter that counts it. -/
def newILInstr (s : ILRewriter) : ℕ × ILRewriter :=
  (s.nInstrs + 1, { s with nInstrs := s.nInstrs + 1 })

/-- `AdjustState`. -/
def adjustState (s : ILRewriter) (pNewInstr : ILInstr) : ILRewriter :=
  { s with maxStack := s.maxStack + .ofNat 32 (stackPushes pNewInstr.opcode) }

/-- `InsertBefore`. -/
def insertBefore (s : ILRewriter) (pWhere : InstrPtr) (pWhat : ILInstr) : ILRewriter :=
  { s with instrs := linkBefore pWhere pWhat s.instrs }.adjustState pWhat

/-- `InsertAfter`. -/
def insertAfter (s : ILRewriter) (pWhere : InstrPtr) (pWhat : ILInstr) : ILRewriter :=
  { s with instrs := linkAfter pWhere pWhat s.instrs }.adjustState pWhat

/-- `GetInstrFromOffset`; its only failure is `COR_E_INVALIDPROGRAM`. -/
def getInstrFromOffset (s : ILRewriter) (offset : ℕ) : Option InstrPtr :=
  if offset ≤ s.codeSize then s.offsetToInstr offset else none

/-- `SetTkLocalVarSig`. -/
def setTkLocalVarSig (s : ILRewriter) (tkLocalVarSig : BitVec 32) : ILRewriter :=
  { s with tkLocalVarSig := tkLocalVarSig, fGenerateTinyHeader := false }

/-- `SetEHClause`. -/
def setEHClause (s : ILRewriter) (ehPointer : List EHClause) : ILRewriter :=
  { s with eh := ehPointer }

/-! ### Importing the code -/

/-- A new instruction at the end of the list. -/
def append (s : ILRewriter) (opcode : ℕ) (arg : BitVec 64) : ILRewriter :=
  s.newILInstr.2.insertBefore .il
    { ptr := s.newILInstr.1, opcode := opcode, target := .il, arg := arg }

/-- `m_pOffsetToInstr[startOffset] = pInstr`. -/
def recordOffset (s : ILRewriter) (startOffset : ℕ) (p : InstrPtr) : ILRewriter :=
  { s with offsetToInstr := fun o => if o = startOffset then some p else s.offsetToInstr o }

end ILRewriter

/-- The variables of the loop of `ImportIL`. -/
structure Import where
  rewriter : ILRewriter
  offset : ℕ
  fBranch : Bool

/-- An opcode that is read, with its length, unless it is refused. -/
def checkOpcode (opcode length : ℕ) : Cursor Byte (ℕ × ℕ) :=
  -- CEE_PREFIX2-7 are currently not supported
  if ceePrefix7 ≤ opcode ∧ opcode ≤ ceePrefix2 then failure
  else if ceeCount ≤ opcode then failure
  else pure (opcode, length)

/-- The opcode at the front of the code, with its length. -/
def readOpcode : Cursor Byte (ℕ × ℕ) := do
  let first ← Cursor.next
  if first.toNat = ceePrefix1 then do
    let second ← Cursor.next
    checkOpcode (0x100 + second.toNat) 2
  else checkOpcode first.toNat 1

/-- What an instruction keeps of its operand until the targets are resolved: a branch
target as the offset it stands for, counted from the end of the instruction. -/
def importOperand (flags : OpCodeFlags) (offset : ℕ) (operand : List Byte) : BitVec 64 :=
  match flags with
  | .shortBranch =>
      (BitVec.ofNat 32 (offset + 1)
        + (BitVec.ofNat 8 (natOfBytes operand)).signExtend 32).setWidth 64
  | .branch =>
      (BitVec.ofNat 32 (offset + 4) + BitVec.ofNat 32 (natOfBytes operand)).setWidth 64
  | _ => .ofNat 64 (natOfBytes operand)

/-- The targets of a switch, each a pseudo instruction. -/
def importSwitchArgs (base : BitVec 32) : ℕ → Import → Cursor Byte Import
  | 0, st => pure st
  | n + 1, st => do
      let operand ← Cursor.takeN 4
      let arg := (base + BitVec.ofNat 32 (natOfBytes operand)).setWidth 64
      importSwitchArgs base n
        { st with rewriter := st.rewriter.append ceeSwitchArg arg, offset := st.offset + 4 }

/-- One turn of the loop of `ImportIL`. -/
def importInstr (st : Import) : Cursor Byte Import := do
  let (opcode, length) ← readOpcode
  let offset := st.offset + length
  let flags := opCodeFlags opcode
  if flags = .switch then do
    let operand ← Cursor.takeN 4
    let nTargets := natOfBytes operand
    let offset := offset + 4
    let base := BitVec.ofNat 32 (offset + nTargets * 4)
    let s := st.rewriter.append opcode (.ofNat 64 nTargets)
    importSwitchArgs base nTargets
      { rewriter := s.recordOffset st.offset (.instr s.nInstrs), offset := offset,
        fBranch := true }
  else do
    let operand ← Cursor.takeN flags.size
    let s := st.rewriter.append opcode (importOperand flags offset operand)
    pure { rewriter := s.recordOffset st.offset (.instr s.nInstrs),
           offset := offset + flags.size, fBranch := st.fBranch || flags.branchTarget }

/-- The loop of `ImportIL`. Each turn takes an opcode, so the length of the code bounds
the number of turns. -/
def importLoop : ℕ → Import → List Byte → Option Import
  | _, st, [] => some st
  | 0, _, _ :: _ => none
  | n + 1, st, b :: bs => (importInstr st (b :: bs)).bind fun r => importLoop n r.1 r.2

namespace ILRewriter

/-- A control flow instruction with its target. -/
def resolveTarget (s : ILRewriter) (i : ILInstr) : Option ILInstr :=
  if (opCodeFlags i.opcode).branchTarget then
    (s.getInstrFromOffset i.arg32.toNat).map fun p => { i with target := p }
  else some i

/-- The targets of the control flow instructions, resolved. -/
def resolveTargets (s : ILRewriter) : List ILInstr → Option (List ILInstr)
  | [] => some []
  | i :: is =>
      (s.resolveTarget i).bind fun i => (s.resolveTargets is).map fun is => i :: is

/-- The state before the loop of `ImportIL`; `Import` sets `m_CodeSize`. -/
def importStart (s : ILRewriter) (code : List Byte) : Import where
  rewriter :=
    { s with codeSize := code.length
             -- the sentinel stands for the end of the code
             offsetToInstr := fun o => if o = code.length then some .il else none }
  offset := 0
  fBranch := false

/-- `ImportIL`; its only failure is `COR_E_INVALIDPROGRAM`. -/
def importIL (s : ILRewriter) (code : List Byte) : Option ILRewriter :=
  (importLoop code.length (s.importStart code) code).bind fun st =>
    if st.fBranch then
      (st.rewriter.resolveTargets st.rewriter.instrs).map fun instrs =>
        { st.rewriter with instrs := instrs }
    else some st.rewriter

/-! ### Importing the exception table -/

/-- One turn of the loop of `ImportEH`. -/
def importEHClause (s : ILRewriter) (ehInfo : EHClauseFat) : Option EHClause := do
  let tryBegin ← s.getInstrFromOffset ehInfo.tryOffset.toNat
  let tryEnd ← s.getInstrFromOffset (ehInfo.tryOffset + ehInfo.tryLength).toNat
  let handlerBegin ← s.getInstrFromOffset ehInfo.handlerOffset.toNat
  let behindHandler ← s.getInstrFromOffset (ehInfo.handlerOffset + ehInfo.handlerLength).toNat
  if ehInfo.flags &&& corILExceptionClauseFilter = 0 then
    some { flags := ehInfo.flags, tryBegin := tryBegin, tryEnd := tryEnd,
           handlerBegin := handlerBegin, handlerEnd := prevPtr s.instrs behindHandler,
           classToken := ehInfo.classTokenOrFilterOffset, filter := .il }
  else do
    let filter ← s.getInstrFromOffset ehInfo.classTokenOrFilterOffset.toNat
    some { flags := ehInfo.flags, tryBegin := tryBegin, tryEnd := tryEnd,
           handlerBegin := handlerBegin, handlerEnd := prevPtr s.instrs behindHandler,
           classToken := 0, filter := filter }

/-- `ImportEH`. -/
def importEH (s : ILRewriter) (ehInfos : List EHClauseFat) : Except HResult ILRewriter :=
  if s.eh ≠ [] then .error .corEInvalidOperation
  else
    match ehInfos.mapM s.importEHClause with
    | none => .error .corEInvalidProgram
    | some eh => .ok { s with eh := eh }

/-- `Import` of a method body. -/
def importBody (s : ILRewriter) (body : MethodBody) : Except HResult ILRewriter :=
  let s := { s with tkLocalVarSig := body.localVarSigTok
                    maxStack := body.maxStack.setWidth 32
                    flags := body.flags &&& corILMethodInitLocals }
  match s.importIL body.code with
  | none => .error .corEInvalidProgram
  | some s => s.importEH body.eh

end ILRewriter

end AutoInstrumentation.IL
