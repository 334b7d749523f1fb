import AutoInstrumentation.IL.Basic
import Mathlib.Tactic.IntervalCases

/-!
# AutoInstrumentation.IL.Export

`ILRewriter::Export`: from the instruction list to a method body.

The code is written in passes over the output buffer. A pass lays out the instructions
and writes what does not depend on the layout; a second walk fills in the branch targets.
A short branch that does not reach its target becomes the long form instead, and then
everything is written again.
-/

namespace AutoInstrumentation.IL

open AutoInstrumentation.Lib

/-- How `Export` fails: with a result code, or by writing outside a buffer, which the
source does not notice. -/
inductive Failure
  | hresult (hr : HResult)
  | overrun
  deriving Repr, DecidableEq

/-- A write to the output buffer. -/
def writeBytes (b : Buffer) (off : ℕ) (bs : List Byte) : Except Failure Buffer :=
  match b.write off bs with
  | some b => .ok b
  | none => .error .overrun

/-! ### Layout -/

/-- The bytes of an opcode: `CEE_PREFIX1` in front of a two-byte one, none for a pseudo
opcode. -/
def opcodeBytes (opcode : ℕ) : List Byte :=
  if ceeCount ≤ opcode then []
  else if 0x100 ≤ opcode then [.ofNat 8 ceePrefix1, .ofNat 8 opcode]
  else [.ofNat 8 opcode]

/-- The bytes that an instruction's operand takes in the code; the number of targets of
a switch is counted here. -/
def operandSize (flags : OpCodeFlags) : ℕ :=
  match flags with
  | .switch => 4
  | flags => flags.size

def instrSize (opcode : ℕ) : ℕ :=
  (opcodeBytes opcode).length + operandSize (opCodeFlags opcode)

/-- What the first walk writes of the operand: all but a branch target. -/
def operandBytes (i : ILInstr) : List Byte :=
  match opCodeFlags i.opcode with
  | .shortBranch => []
  | .branch => []
  | flags => bytesOfNat (operandSize flags) i.arg.toNat

/-- The variables of the first walk. `offsets` is the member `m_offset` of each
instruction. -/
structure Emission where
  buffer : Buffer
  offset : ℕ
  offsets : InstrPtr → ℕ
  fBranch : Bool

/-- One turn of the first walk. -/
def emitInstr (maxSize : ℕ) (i : ILInstr) (e : Emission) : Except Failure Emission :=
  if maxSize ≤ e.offset then .error (.hresult .corEIndexOutOfRange)
  else do
    let buffer ← writeBytes e.buffer e.offset (opcodeBytes i.opcode)
    if opCodeFlagsCount ≤ i.opcode then .error (.hresult .corEInvalidProgram)
    else do
      let operandOffset := e.offset + (opcodeBytes i.opcode).length
      let buffer ← writeBytes buffer operandOffset (operandBytes i)
      .ok { buffer := buffer
            offset := operandOffset + operandSize (opCodeFlags i.opcode)
            offsets := fun p => if p = .instr i.ptr then e.offset else e.offsets p
            fBranch := e.fBranch || (opCodeFlags i.opcode).branchTarget }

/-- The first walk. -/
def emitInstrs (maxSize : ℕ) : List ILInstr → Emission → Except Failure Emission
  | [], e => .ok e
  | i :: is, e => do
      let e ← emitInstr maxSize i e
      emitInstrs maxSize is e

/-- The first walk from the start of the list, with the offset of the sentinel behind it. -/
def emit (maxSize : ℕ) (is : List ILInstr) (buffer : Buffer) : Except Failure Emission := do
  let e ← emitInstrs maxSize is
    { buffer := buffer, offset := 0, offsets := fun _ => 0, fBranch := false }
  .ok { e with offsets := fun p => if p = .il then e.offset else e.offsets p }

/-! ### Branch targets -/

/-- `switchBase` behind an instruction. -/
def nextSwitchBase (offsets : InstrPtr → ℕ) (switchBase : BitVec 32) (i : ILInstr) : BitVec 32 :=
  if i.opcode = ceeSwitch then
    BitVec.ofNat 32 (offsets (.instr i.ptr) + 1) + 4 * (i.arg32 + 1)
  else switchBase

/-- `(INT8)delta != delta`. -/
def OutOfReach (delta : BitVec 32) : Prop := (delta.setWidth 8).signExtend 32 ≠ delta

instance (delta : BitVec 32) : Decidable (OutOfReach delta) :=
  inferInstanceAs (Decidable (_ ≠ _))

/-- The long form of a short branch. -/
def widenOpcode (opcode : ℕ) : Except Failure ℕ :=
  if opcode = ceeLeaveS then .ok ceeLeave
  else if ¬(ceeBrS ≤ opcode ∧ opcode ≤ ceeBltUnS) then .error (.hresult .corEInvalidProgram)
  else
    let opcode := opcode - ceeBrS + ceeBr
    if ¬(ceeBr ≤ opcode ∧ opcode ≤ ceeBltUn) then .error (.hresult .corEInvalidProgram)
    else .ok opcode

/-- One turn of the second walk: the instruction, widened or not, the buffer, and
whether it was widened (`fTryAgain`). -/
def patchInstr (offsets : InstrPtr → ℕ) (next : InstrPtr) (switchBase : BitVec 32)
    (i : ILInstr) (b : Buffer) : Except Failure (ILInstr × Buffer × Bool) :=
  if i.opcode = ceeSwitch then .ok (i, b, false)
  else if i.opcode = ceeSwitchArg then do
    -- switch args are special
    let b ← writeBytes b (offsets (.instr i.ptr))
      (bytesOfNat 4 (BitVec.ofNat 32 (offsets i.target) - switchBase).toNat)
    .ok (i, b, false)
  else
    let delta := BitVec.ofNat 32 (offsets i.target) - BitVec.ofNat 32 (offsets next)
    match opCodeFlags i.opcode with
    | .shortBranch =>
        if OutOfReach delta then do
          let opcode ← widenOpcode i.opcode
          .ok ({ i with opcode := opcode }, b, true)
        else do
          let b ← writeBytes b (offsets next - 1) (bytesOfNat 1 delta.toNat)
          .ok (i, b, false)
    | .branch => do
        let b ← writeBytes b (offsets next - 4) (bytesOfNat 4 delta.toNat)
        .ok (i, b, false)
    | _ => .ok (i, b, false)

/-- The second walk. -/
def patch (offsets : InstrPtr → ℕ) :
    List ILInstr → BitVec 32 → Buffer → Except Failure (List ILInstr × Buffer × Bool)
  | [], _, b => .ok ([], b, false)
  | i :: is, switchBase, b => do
      let (i', b, again) ← patchInstr offsets (headPtr is) switchBase i b
      let (is', b, again') ← patch offsets is (nextSwitchBase offsets switchBase i) b
      .ok (i' :: is', b, again || again')

/-! ### The passes -/

/-- The short branches, of which each further pass leaves fewer. -/
def shortBranches (is : List ILInstr) : ℕ :=
  is.countP fun i => opCodeFlags i.opcode = .shortBranch

/-- The instruction with a branch in its long form. -/
def ILInstr.widen (i : ILInstr) : ILInstr := { i with opcode := longBranch i.opcode }

theorem opCodeFlags_longBranch {opcode : ℕ}
    (h : opcode = ceeLeaveS ∨ ceeBrS ≤ opcode ∧ opcode ≤ ceeBltUnS) :
    opCodeFlags (longBranch opcode) = .branch := by
  rcases h with rfl | ⟨hlow, hhigh⟩
  · rfl
  · rw [ceeBrS] at hlow
    rw [ceeBltUnS] at hhigh
    interval_cases opcode <;> rfl

theorem widenOpcode_eq_ok {opcode opcode' : ℕ} (h : widenOpcode opcode = .ok opcode') :
    opcode' = longBranch opcode ∧ opCodeFlags opcode' = .branch := by
  rw [widenOpcode] at h
  by_cases hleave : opcode = ceeLeaveS
  · rw [if_pos hleave] at h
    cases h
    subst hleave
    exact ⟨rfl, rfl⟩
  · rw [if_neg hleave] at h
    by_cases hrange : ceeBrS ≤ opcode ∧ opcode ≤ ceeBltUnS
    · rw [if_neg (not_not.mpr hrange)] at h
      dsimp only at h
      split at h
      · cases h
      · cases h
        have hlong : longBranch opcode = opcode - ceeBrS + ceeBr := if_neg hleave
        rw [← hlong]
        exact ⟨rfl, opCodeFlags_longBranch (.inr hrange)⟩
    · rw [if_pos hrange] at h
      cases h

theorem bind_eq_ok {ε α β : Type} {x : Except ε α} {f : α → Except ε β} {c : β}
    (h : x >>= f = .ok c) : ∃ a, x = .ok a ∧ f a = .ok c := by
  cases x with
  | error e => cases h
  | ok a => exact ⟨a, rfl, h⟩

/-- The second walk changes an instruction only to lengthen a short branch. -/
theorem patchInstr_cases {offsets : InstrPtr → ℕ} {next : InstrPtr} {switchBase : BitVec 32}
    {i i' : ILInstr} {b b' : Buffer} {again : Bool}
    (h : patchInstr offsets next switchBase i b = .ok (i', b', again)) :
    again = false ∧ i' = i ∨
      again = true ∧ i' = i.widen ∧ opCodeFlags i.opcode = .shortBranch
        ∧ opCodeFlags i'.opcode = .branch := by
  have written {off : ℕ} {bs : List Byte}
      (hw : writeBytes b off bs >>= (fun b => .ok (i, b, false)) = .ok (i', b', again)) :
      again = false ∧ i' = i := by
    obtain ⟨_, -, hok⟩ := bind_eq_ok hw
    cases hok
    exact ⟨rfl, rfl⟩
  rw [patchInstr] at h
  by_cases hswitch : i.opcode = ceeSwitch
  · rw [if_pos hswitch] at h
    cases h
    exact .inl ⟨rfl, rfl⟩
  rw [if_neg hswitch] at h
  by_cases harg : i.opcode = ceeSwitchArg
  · rw [if_pos harg] at h
    exact .inl (written h)
  rw [if_neg harg] at h
  dsimp only at h
  split at h
  · next hflags =>
      split at h
      · obtain ⟨opcode, hopcode, h⟩ := bind_eq_ok h
        cases h
        obtain ⟨rfl, hbranch⟩ := widenOpcode_eq_ok hopcode
        exact .inr ⟨rfl, rfl, hflags, hbranch⟩
      · exact .inl (written h)
  · exact .inl (written h)
  · cases h
    exact .inl ⟨rfl, rfl⟩

theorem patch_shortBranches {offsets : InstrPtr → ℕ} {is is' : List ILInstr}
    {switchBase : BitVec 32} {b b' : Buffer} {again : Bool}
    (h : patch offsets is switchBase b = .ok (is', b', again)) :
    shortBranches is' ≤ shortBranches is
      ∧ (again = true → shortBranches is' < shortBranches is) := by
  induction is generalizing is' switchBase b again with
  | nil =>
      cases h
      exact ⟨Nat.le_refl _, fun h => nomatch h⟩
  | cons i is ih =>
      obtain ⟨⟨j, c, w⟩, hi, h⟩ := bind_eq_ok h
      obtain ⟨⟨js, d, w'⟩, his, h⟩ := bind_eq_ok h
      cases h
      obtain ⟨hle, hlt⟩ := ih his
      simp only [shortBranches, List.countP_cons] at hle hlt ⊢
      rcases patchInstr_cases hi with ⟨rfl, rfl⟩ | ⟨rfl, rfl, hshort, hlong⟩
      · refine ⟨Nat.add_le_add_right hle _, fun hagain => Nat.add_lt_add_right (hlt ?_) _⟩
        rwa [Bool.false_or] at hagain
      · simp only [hshort, hlong, decide_true, if_true, reduceCtorEq, decide_false,
          Bool.false_eq_true, if_false]
        exact ⟨by omega, fun _ => by omega⟩

/-- The passes over the buffer, from `again` on. -/
def exportPasses (maxSize : ℕ) (is : List ILInstr) (buffer : Buffer) :
    Except Failure (List ILInstr × Emission) :=
  match emit maxSize is buffer with
  | .error f => .error f
  | .ok e =>
      if e.fBranch then
        match _hpatch : patch e.offsets is 0 e.buffer with
        | .error f => .error f
        | .ok (is', b, again) =>
            if _hagain : again = true then exportPasses maxSize is' b
            else .ok (is', { e with buffer := b })
      else .ok (is, e)
termination_by shortBranches is
decreasing_by exact (patch_shortBranches _hpatch).2 _hagain

/-! ### The method body -/

def exportEHClause (is : List ILInstr) (offsets : InstrPtr → ℕ) (pSrc : EHClause) :
    EHClauseFat where
  flags := pSrc.flags
  tryOffset := .ofNat 32 (offsets pSrc.tryBegin)
  tryLength := .ofNat 32 (offsets pSrc.tryEnd) - .ofNat 32 (offsets pSrc.tryBegin)
  handlerOffset := .ofNat 32 (offsets pSrc.handlerBegin)
  handlerLength :=
    .ofNat 32 (offsets (nextPtr is pSrc.handlerEnd)) - .ofNat 32 (offsets pSrc.handlerBegin)
  classTokenOrFilterOffset :=
    if pSrc.flags &&& corILExceptionClauseFilter = 0 then pSrc.classToken
    else .ofNat 32 (offsets pSrc.filter)

/-- The size of a body with a fat header: `IMAGE_COR_ILMETHOD_FAT`, the code up to the
next multiple of four, and the section with the clauses. -/
def fatSize (codeSize nEH : ℕ) : ℕ :=
  12 + (codeSize + 3) / 4 * 4 + if nEH = 0 then 0 else 4 + 24 * nEH

def corILMethodTinyFormat : BitVec 32 := 0x2
def corILMethodFatFormat : BitVec 32 := 0x3
def corILMethodMoreSects : BitVec 32 := 0x8

/-- `Export`, with the bytes that the new output buffer happens to hold. The allocations
and the host's `SetILFunctionBody` are taken to succeed. -/
def ILRewriter.export (fill : ℕ → Byte) (s : ILRewriter) :
    Except Failure (MethodBody × ILRewriter) := do
  let maxSize := s.nInstrs * 10 % 2 ^ 32
  let (is, e) ← exportPasses maxSize s.instrs { size := maxSize, get := fill }
  let codeSize := e.offset
  if s.fGenerateTinyHeader then
    if 64 ≤ codeSize then .error (.hresult .eFail)
    else
      .ok ({ flags := corILMethodTinyFormat, maxStack := 8, localVarSigTok := 0,
             code := e.buffer.take codeSize, eh := [] }, { s with instrs := is })
  -- the size is computed in 32 bits, and so less is allocated than written
  else if 2 ^ 32 ≤ fatSize codeSize s.eh.length then .error .overrun
  else
    .ok ({ flags := s.flags ||| (if s.eh = [] then 0 else corILMethodMoreSects)
             ||| corILMethodFatFormat
           maxStack := s.maxStack.setWidth 16
           localVarSigTok := s.tkLocalVarSig
           code := e.buffer.take codeSize
           eh := s.eh.map (exportEHClause is e.offsets) }, { s with instrs := is })

end AutoInstrumentation.IL
