import Mathlib.Algebra.Ring.Nat
import Mathlib.Data.Nat.Notation
import Mathlib.Tactic.SplitIfs

/-!
# AutoInstrumentation.IL.Opcode

The opcodes of `opcode.def`, with the columns that the rewriter reads.

The enumeration numbers the entries of the file in their order: the one-byte opcodes by
their byte, the two-byte opcodes (`0xFE` in front) from `0x100` on, three internal
entries, and behind them `CEE_COUNT` and the pseudo opcode `CEE_SWITCH_ARG`.
-/

namespace AutoInstrumentation.IL

def ceeNop : ℕ := 0x00
def ceeJmp : ℕ := 0x27
def ceeRet : ℕ := 0x2A
def ceeBrS : ℕ := 0x2B
def ceeBltUnS : ℕ := 0x37
def ceeBr : ℕ := 0x38
def ceeBltUn : ℕ := 0x44
def ceeSwitch : ℕ := 0x45
def ceeLeave : ℕ := 0xDD
def ceeLeaveS : ℕ := 0xDE
def ceePrefix7 : ℕ := 0xF8
def ceePrefix2 : ℕ := 0xFD
def ceePrefix1 : ℕ := 0xFE
def ceeCount : ℕ := 0x126
def ceeSwitchArg : ℕ := 0x127

/-! ### Operands -/

/-- The `args` column of `opcode.def`. -/
inductive OpcodeArgs
  | inlineNone | shortInlineVar | inlineVar | shortInlineI | inlineI | inlineI8
  | shortInlineR | inlineR | shortInlineBrTarget | inlineBrTarget | inlineMethod
  | inlineField | inlineType | inlineString | inlineSig | inlineTok | inlineSwitch
  deriving Repr, DecidableEq

def opcodeArgs (opcode : ℕ) : OpcodeArgs :=
  if 0x0E ≤ opcode ∧ opcode ≤ 0x13 then .shortInlineVar
  else if 0x109 ≤ opcode ∧ opcode ≤ 0x10E then .inlineVar
  else if opcode = 0x1F ∨ opcode = 0x112 then .shortInlineI
  else if opcode = 0x20 then .inlineI
  else if opcode = 0x21 then .inlineI8
  else if opcode = 0x22 then .shortInlineR
  else if opcode = 0x23 then .inlineR
  else if 0x2B ≤ opcode ∧ opcode ≤ 0x37 ∨ opcode = 0xDE then .shortInlineBrTarget
  else if 0x38 ≤ opcode ∧ opcode ≤ 0x44 ∨ opcode = 0xDD then .inlineBrTarget
  else if opcode = 0x27 ∨ opcode = 0x28 ∨ opcode = 0x6F ∨ opcode = 0x73 ∨ opcode = 0x106
    ∨ opcode = 0x107 then .inlineMethod
  else if 0x7B ≤ opcode ∧ opcode ≤ 0x80 then .inlineField
  else if opcode = 0x70 ∨ opcode = 0x71 ∨ opcode = 0x74 ∨ opcode = 0x75 ∨ opcode = 0x79
    ∨ opcode = 0x81 ∨ opcode = 0x8C ∨ opcode = 0x8D ∨ opcode = 0x8F
    ∨ 0xA3 ≤ opcode ∧ opcode ≤ 0xA5 ∨ opcode = 0xC2 ∨ opcode = 0xC6 ∨ opcode = 0x115
    ∨ opcode = 0x116 ∨ opcode = 0x11C then .inlineType
  else if opcode = 0x72 then .inlineString
  else if opcode = 0x29 then .inlineSig
  else if opcode = 0xD0 then .inlineTok
  else if opcode = 0x45 then .inlineSwitch
  else .inlineNone

/-- An entry of `s_OpCodeFlags`: the size of the operand (`OPCODEFLAGS_SizeMask`), and
whether it is a branch target (`OPCODEFLAGS_BranchTarget`) or the number of targets
(`OPCODEFLAGS_Switch`). -/
inductive OpCodeFlags
  /-- `0` -/
  | none
  /-- `1`, `2`, `4` and `8` -/
  | arg8 | arg16 | arg32 | arg64
  /-- `1 | OPCODEFLAGS_BranchTarget` -/
  | shortBranch
  /-- `4 | OPCODEFLAGS_BranchTarget` -/
  | branch
  /-- `0 | OPCODEFLAGS_Switch` -/
  | switch
  deriving Repr, DecidableEq

namespace OpCodeFlags

/-- `flags & OPCODEFLAGS_SizeMask`. -/
def size : OpCodeFlags → ℕ
  | none => 0
  | arg8 => 1
  | arg16 => 2
  | arg32 => 4
  | arg64 => 8
  | shortBranch => 1
  | branch => 4
  | switch => 0

/-- `flags & OPCODEFLAGS_BranchTarget`. -/
def branchTarget : OpCodeFlags → Bool
  | shortBranch => true
  | branch => true
  | _ => false

end OpCodeFlags

/-- The macros that turn the `args` column into flags. -/
def OpcodeArgs.flags : OpcodeArgs → OpCodeFlags
  | inlineNone => .none
  | shortInlineVar => .arg8
  | inlineVar => .arg16
  | shortInlineI => .arg8
  | inlineI => .arg32
  | inlineI8 => .arg64
  | shortInlineR => .arg32
  | inlineR => .arg64
  | shortInlineBrTarget => .shortBranch
  | inlineBrTarget => .branch
  | inlineMethod => .arg32
  | inlineField => .arg32
  | inlineType => .arg32
  | inlineString => .arg32
  | inlineSig => .arg32
  | inlineTok => .arg32
  | inlineSwitch => .switch

/-- `s_OpCodeFlags[opcode]`. -/
def opCodeFlags (opcode : ℕ) : OpCodeFlags :=
  if opcode = ceeSwitchArg then .branch else (opcodeArgs opcode).flags

/-- `sizeof(s_OpCodeFlags) / sizeof(BYTE)`. -/
def opCodeFlagsCount : ℕ := ceeSwitchArg + 1

/-! ### Stack pushes -/

/-- `k_rgnStackPushes[opcode]`, from the `push` column. -/
def stackPushes (opcode : ℕ) : ℕ :=
  if opcode = 0x25 then 2
  else if 0x02 ≤ opcode ∧ opcode ≤ 0x09 ∨ 0x0E ≤ opcode ∧ opcode ≤ 0x0F
    ∨ 0x11 ≤ opcode ∧ opcode ≤ 0x12 ∨ 0x14 ≤ opcode ∧ opcode ≤ 0x23
    ∨ 0x28 ≤ opcode ∧ opcode ≤ 0x29 ∨ 0x46 ≤ opcode ∧ opcode ≤ 0x50
    ∨ 0x58 ≤ opcode ∧ opcode ≤ 0x6F ∨ 0x71 ≤ opcode ∧ opcode ≤ 0x76
    ∨ opcode = 0x79 ∨ 0x7B ≤ opcode ∧ opcode ≤ 0x7C ∨ 0x7E ≤ opcode ∧ opcode ≤ 0x7F
    ∨ 0x82 ≤ opcode ∧ opcode ≤ 0x9A ∨ opcode = 0xA3 ∨ opcode = 0xA5
    ∨ 0xB3 ≤ opcode ∧ opcode ≤ 0xBA ∨ 0xC2 ≤ opcode ∧ opcode ≤ 0xC3 ∨ opcode = 0xC6
    ∨ 0xD0 ≤ opcode ∧ opcode ≤ 0xDB ∨ opcode = 0xE0 ∨ 0x100 ≤ opcode ∧ opcode ≤ 0x107
    ∨ 0x109 ≤ opcode ∧ opcode ≤ 0x10A ∨ 0x10C ≤ opcode ∧ opcode ≤ 0x10D ∨ opcode = 0x10F
    ∨ 0x11C ≤ opcode ∧ opcode ≤ 0x11D then 1
  else 0

/-! ### Long forms -/

/-- What `Export` turns a short branch into whose target is out of reach: `CEE_LEAVE_S`
into `CEE_LEAVE`, and `CEE_BR_S .. CEE_BLT_UN_S` by their distance to `CEE_BR`. -/
def longBranch (opcode : ℕ) : ℕ :=
  if opcode = ceeLeaveS then ceeLeave else opcode - ceeBrS + ceeBr

end AutoInstrumentation.IL
