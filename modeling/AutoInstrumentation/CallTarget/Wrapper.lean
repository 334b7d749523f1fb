import AutoInstrumentation.IL.RoundTrip

/-!
# AutoInstrumentation.CallTarget.Wrapper

`ILRewriterWrapper`: emitting instructions before a position of the instruction list.

An emission runs in the state of the wrapper and can be given up. Every method of the
wrapper links one new instruction in before the position, which stays where it is.
-/

namespace AutoInstrumentation.CallTarget

open AutoInstrumentation.IL

/-- `mdToken`. -/
abbrev Token := BitVec 32

/-- How a rewriting ends without a new method body. -/
inductive Abort
  /-- `S_FALSE`, or a failure code from `IfFailRet` -/
  | skipped
  /-- a null pointer is dereferenced -/
  | nullPointer
  /-- the output buffer is written beyond its end -/
  | overrun
  deriving Repr, DecidableEq

/-- `ILRewriterWrapper`, which owns its rewriter here. -/
structure ILRewriterWrapper where
  rewriter : ILRewriter
  ilInstr : InstrPtr

/-- Emissions. -/
abbrev Emit := StateT ILRewriterWrapper (Except Abort)

def Emit.skip {α : Type} : Emit α := fun _ => .error .skipped

/-- `IfFailRet`, and the other checks that end the rewriting. -/
def Emit.ofOption {α : Type} (result : Option α) : Emit α := fun w =>
  match result with
  | none => .error .skipped
  | some a => .ok (a, w)

/-- An emission that only happens under a condition. -/
def Emit.when {α : Type} (condition : Bool) (m : Emit α) : Emit Unit :=
  if condition then do
    let _ ← m
  else pure ()

/-! ### Opcodes -/

def ceeLdarg0 : ℕ := 0x02
def ceeLdloc0 : ℕ := 0x06
def ceeStloc0 : ℕ := 0x0A
def ceeLdargS : ℕ := 0x0E
def ceeLdargaS : ℕ := 0x0F
def ceeLdlocS : ℕ := 0x11
def ceeLdlocaS : ℕ := 0x12
def ceeStlocS : ℕ := 0x13
def ceeLdnull : ℕ := 0x14
def ceeLdcI40 : ℕ := 0x16
def ceeLdcI4S : ℕ := 0x1F
def ceeLdcI4 : ℕ := 0x20
def ceeDup : ℕ := 0x25
def ceePop : ℕ := 0x26
def ceeCall : ℕ := 0x28
def ceeBrtrueS : ℕ := 0x2D
def ceeCallvirt : ℕ := 0x6F
def ceeLdobj : ℕ := 0x71
def ceeIsinst : ℕ := 0x75
def ceeBox : ℕ := 0x8C
def ceeNewarr : ℕ := 0x8D
def ceeStelemRef : ℕ := 0xA2
def ceeLdtoken : ℕ := 0xD0
def ceeEndfinally : ℕ := 0xDC
def ceeConvU : ℕ := 0xE0
def ceeCeq : ℕ := 0x101
def ceeCgtUn : ℕ := 0x103
def ceeLdarg : ℕ := 0x109
def ceeLdarga : ℕ := 0x10A
def ceeLdloc : ℕ := 0x10C
def ceeLdloca : ℕ := 0x10D
def ceeStloc : ℕ := 0x10E
def ceeEndfilter : ℕ := 0x111
def ceeRethrow : ℕ := 0x11A

/-! ### Emitting -/

/-- `CreateInstr`, and what the other methods do with their opcode and operand. -/
def createInstr (opCode : ℕ) (arg : BitVec 64) : Emit InstrPtr := fun w =>
  let pNewInstr : ILInstr :=
    { ptr := w.rewriter.newILInstr.1, opcode := opCode, target := .il, arg := arg }
  .ok (.instr pNewInstr.ptr,
    { w with rewriter := w.rewriter.newILInstr.2.insertBefore w.ilInstr pNewInstr })

/-- `CreateInstr`, of an instruction without operand. -/
def createPlain (opCode : ℕ) : Emit InstrPtr := createInstr opCode 0

/-- `m_Arg32 = token`. -/
def createWithToken (opCode : ℕ) (token : Token) : Emit InstrPtr :=
  createInstr opCode (token.setWidth 64)

/-- `GetCurrentILInstr`. -/
def getCurrentILInstr : Emit InstrPtr := fun w => .ok (w.ilInstr, w)

/-- `SetILPosition`. -/
def setILPosition (pILInstr : InstrPtr) : Emit Unit := fun w =>
  .ok ((), { w with ilInstr := pILInstr })

/-- The list with the members of the instruction at `p` changed. -/
def updateInstrs (p : InstrPtr) (f : ILInstr → ILInstr) (is : List ILInstr) : List ILInstr :=
  is.map fun i => if p = .instr i.ptr then f i else i

def updateInstr (p : InstrPtr) (f : ILInstr → ILInstr) (s : ILRewriter) : ILRewriter :=
  { s with instrs := updateInstrs p f s.instrs }

/-- `pInstr->m_pTarget = target`. -/
def setTarget (pInstr target : InstrPtr) : Emit Unit := fun w =>
  let set (i : ILInstr) : ILInstr := { i with target := target }
  .ok ((), { w with rewriter := updateInstr pInstr set w.rewriter })

def pop : Emit InstrPtr := createPlain ceePop
def loadNull : Emit InstrPtr := createPlain ceeLdnull
def duplicate : Emit InstrPtr := createPlain ceeDup
def rethrow : Emit InstrPtr := createPlain ceeRethrow
def endFinally : Emit InstrPtr := createPlain ceeEndfinally

def loadInt32 (value : ℤ) : Emit InstrPtr :=
  if 0 ≤ value ∧ value ≤ 8 then createPlain (ceeLdcI40 + value.toNat)
  else if -128 ≤ value ∧ value ≤ 127 then
    createInstr ceeLdcI4S ((BitVec.ofInt 8 value).setWidth 64)
  else createInstr ceeLdcI4 ((BitVec.ofInt 32 value).setWidth 64)

/-- The instruction with the variable's number in the opcode, in a byte, or in two: the
methods that load and store arguments and locals. -/
def createVar (opcode0 opcodeS opcode : ℕ) (index : ℕ) : Emit InstrPtr :=
  if index ≤ 3 then createPlain (opcode0 + index)
  else if index ≤ 255 then createInstr opcodeS (.ofNat 64 index)
  else createInstr opcode (.ofNat 64 (index % 2 ^ 16))

/-- The instruction with the variable's number in a byte, or in two. -/
def createVarAddress (opcodeS opcode : ℕ) (index : ℕ) : Emit InstrPtr :=
  if index ≤ 255 then createInstr opcodeS (.ofNat 64 index)
  else createInstr opcode (.ofNat 64 (index % 2 ^ 16))

/-- The index is a `UINT16`. -/
def loadArgument (index : ℕ) : Emit InstrPtr :=
  createVar ceeLdarg0 ceeLdargS ceeLdarg (index % 2 ^ 16)

def loadArgumentRef (index : ℕ) : Emit InstrPtr :=
  createVarAddress ceeLdargaS ceeLdarga (index % 2 ^ 16)

def stLocal (index : ℕ) : Emit InstrPtr := createVar ceeStloc0 ceeStlocS ceeStloc index

def loadLocal (index : ℕ) : Emit InstrPtr := createVar ceeLdloc0 ceeLdlocS ceeLdloc index

def loadLocalAddress (index : ℕ) : Emit InstrPtr := createVarAddress ceeLdlocaS ceeLdloca index

def loadToken (token : Token) : Emit InstrPtr := createWithToken ceeLdtoken token
def loadObj (token : Token) : Emit InstrPtr := createWithToken ceeLdobj token
def box (typeRef : Token) : Emit InstrPtr := createWithToken ceeBox typeRef

def callMember (memberRef : Token) (isVirtual : Bool) : Emit InstrPtr :=
  createWithToken (if isVirtual then ceeCallvirt else ceeCall) memberRef

def createArray (typeRef : Token) (size : ℤ) : Emit Unit := do
  let _ ← loadInt32 size
  let _ ← createWithToken ceeNewarr typeRef

def beginLoadValueIntoArray (arrayIndex : ℤ) : Emit Unit := do
  let _ ← duplicate
  let _ ← loadInt32 arrayIndex

def endLoadValueIntoArray : Emit InstrPtr := createPlain ceeStelemRef

end AutoInstrumentation.CallTarget
