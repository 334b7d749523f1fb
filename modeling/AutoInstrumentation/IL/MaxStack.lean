import AutoInstrumentation.IL.RoundTrip
import AutoInstrumentation.Lib.Height

/-!
# AutoInstrumentation.IL.MaxStack

The `MaxStack` field of the exported header.

The rewriter does not follow the control flow: it adds up, over all instructions that are
imported or linked in, what each of them pushes, on top of the imported maximum. The sum
is a bound on the depth of the evaluation stack wherever the code has one depth for each
instruction, because a way to an instruction need not pass another one twice. But the
counter has 32 bits and the field has 16.
-/

namespace AutoInstrumentation.IL

open AutoInstrumentation.Lib

/-! ### Stack behaviour -/

/-- The `pop` column of `opcode.def`, as a number of values; none for `VarPop`. -/
def stackPops (opcode : ℕ) : Option ℕ :=
  if 0x28 ≤ opcode ∧ opcode ≤ 0x2A ∨ opcode = 0x6F ∨ opcode = 0x73 then none
  else if 0x9B ≤ opcode ∧ opcode ≤ 0xA2 ∨ opcode = 0xA4 ∨ 0x117 ≤ opcode ∧ opcode ≤ 0x118 then
    some 3
  else if 0x2E ≤ opcode ∧ opcode ≤ 0x37 ∨ 0x3B ≤ opcode ∧ opcode ≤ 0x44
    ∨ 0x51 ≤ opcode ∧ opcode ≤ 0x64 ∨ opcode = 0x70 ∨ opcode = 0x7D ∨ opcode = 0x81
    ∨ 0x8F ≤ opcode ∧ opcode ≤ 0x9A ∨ opcode = 0xA3 ∨ 0xD6 ≤ opcode ∧ opcode ≤ 0xDB
    ∨ opcode = 0xDF ∨ 0x101 ≤ opcode ∧ opcode ≤ 0x105 then some 2
  else if 0x0A ≤ opcode ∧ opcode ≤ 0x0D ∨ opcode = 0x10 ∨ opcode = 0x13
    ∨ 0x25 ≤ opcode ∧ opcode ≤ 0x26 ∨ 0x2C ≤ opcode ∧ opcode ≤ 0x2D
    ∨ 0x39 ≤ opcode ∧ opcode ≤ 0x3A ∨ 0x45 ≤ opcode ∧ opcode ≤ 0x50
    ∨ 0x65 ≤ opcode ∧ opcode ≤ 0x6E ∨ opcode = 0x71 ∨ 0x74 ≤ opcode ∧ opcode ≤ 0x76
    ∨ 0x79 ≤ opcode ∧ opcode ≤ 0x7C ∨ opcode = 0x80 ∨ 0x82 ≤ opcode ∧ opcode ≤ 0x8E
    ∨ opcode = 0xA5 ∨ 0xB3 ≤ opcode ∧ opcode ≤ 0xBA ∨ 0xC2 ≤ opcode ∧ opcode ≤ 0xC3
    ∨ opcode = 0xC6 ∨ 0xD1 ≤ opcode ∧ opcode ≤ 0xD5 ∨ opcode = 0xE0 ∨ opcode = 0x107
    ∨ opcode = 0x10B ∨ 0x10E ≤ opcode ∧ opcode ≤ 0x10F ∨ opcode = 0x111 ∨ opcode = 0x115
    ∨ opcode = 0x11D then some 1
  else some 0

/-- The opcodes with `VarPush` in the `push` column: `call`, `calli` and `callvirt`. -/
def varPush (opcode : ℕ) : Bool := opcode = 0x28 || opcode = 0x29 || opcode = 0x6F

/-- What each instruction takes from the evaluation stack and leaves on it. For the
opcodes with `VarPop` and `VarPush` this depends on the signature that the operand stands
for, or on the method's own; a call leaves its result, if it has one. -/
structure StackBehaviour where
  pops : ILInstr → ℕ
  pushes : ILInstr → ℕ
  pops_fixed : ∀ i n, stackPops i.opcode = some n → pops i = n
  pushes_fixed : ∀ i, varPush i.opcode = false → pushes i = stackPushes i.opcode
  pushes_var : ∀ i, varPush i.opcode = true → pushes i ≤ 1

/-- After these control does not go on to the next instruction: `jmp`, `ret`, `br.s`, `br`,
`throw`, `endfinally`, `leave`, `leave.s`, `endfilter` and `rethrow`. -/
def endsFlow (opcode : ℕ) : Bool :=
  opcode = ceeJmp || opcode = ceeRet || opcode = ceeBrS || opcode = ceeBr || opcode = 0x7A
    || opcode = 0xDC || opcode = ceeLeave || opcode = ceeLeaveS || opcode = 0x111
    || opcode = 0x11A

def corILExceptionClauseFinally : BitVec 32 := 0x2
def corILExceptionClauseFault : BitVec 32 := 0x4

/-- The depth of the stack where a handler is entered: the exception is on it, unless the
handler is a `finally` or a `fault`. -/
def EHClause.handlerDepth (e : EHClause) : ℕ :=
  if e.flags &&& corILExceptionClauseFilter = 0
      ∧ e.flags &&& (corILExceptionClauseFinally ||| corILExceptionClauseFault) ≠ 0 then 0
  else 1

/-- Where control enters a method, a handler or a filter. -/
inductive StackStart (s : ILRewriter) : ILInstr → ℕ → Prop
  | method (i : ILInstr) : i ∈ s.instrs → headPtr s.instrs = .instr i.ptr → StackStart s i 0
  | handler (i : ILInstr) (e : EHClause) : i ∈ s.instrs → e ∈ s.eh →
      e.handlerBegin = .instr i.ptr → StackStart s i e.handlerDepth
  | filter (i : ILInstr) (e : EHClause) : i ∈ s.instrs → e ∈ s.eh →
      e.flags &&& corILExceptionClauseFilter ≠ 0 → e.filter = .instr i.ptr → StackStart s i 1

/-- How control goes from an instruction to another one. The targets of a switch are
passed like instructions: control leaves for each of them at the depth behind the switch. -/
inductive StackStep (b : StackBehaviour) (s : ILRewriter) : ILInstr → ℕ → ILInstr → ℕ → Prop
  | next (i j : ILInstr) (d : ℕ) : i ∈ s.instrs → j ∈ s.instrs → b.pops i ≤ d →
      endsFlow i.opcode = false → nextPtr s.instrs (.instr i.ptr) = .instr j.ptr →
      StackStep b s i d j (d - b.pops i + b.pushes i)
  | branch (i j : ILInstr) (d : ℕ) : i ∈ s.instrs → j ∈ s.instrs → b.pops i ≤ d →
      (opCodeFlags i.opcode).branchTarget = true → i.opcode ≠ ceeLeave → i.opcode ≠ ceeLeaveS →
      i.target = .instr j.ptr → StackStep b s i d j (d - b.pops i + b.pushes i)
  /-- `leave` empties the stack. -/
  | leave (i j : ILInstr) (d : ℕ) : i ∈ s.instrs → j ∈ s.instrs →
      i.opcode = ceeLeave ∨ i.opcode = ceeLeaveS → i.target = .instr j.ptr →
      StackStep b s i d j 0

/-- The depths of the evaluation stack at the instructions of a method. -/
def stackDepths (b : StackBehaviour) (s : ILRewriter) : HeightSystem ILInstr where
  start := StackStart s
  step := StackStep b s

/-- What all instructions of a list push together. -/
def totalPushes (is : List ILInstr) : ℕ := (is.map fun i => stackPushes i.opcode).sum

/-- The exported maximum is at least the imported one, and at least the depth of the stack
at each instruction of the exported code. -/
structure MaxStackSuffices (b : StackBehaviour) (body newBody : MethodBody)
    (exported : ILRewriter) : Prop where
  imported : body.maxStack.toNat ≤ newBody.maxStack.toNat
  depths : ∀ i d, (stackDepths b exported).Attained i d → d ≤ newBody.maxStack.toNat

/-! ### Rewriting -/

/-- One step of a rewriting: a new instruction is made or linked in anywhere, or the
clauses or the locals are set. -/
inductive Rewrite : ILRewriter → ILRewriter → Prop
  | newILInstr (s : ILRewriter) : Rewrite s s.newILInstr.2
  | insertBefore (s : ILRewriter) (pWhere : InstrPtr) (pWhat : ILInstr) :
      Rewrite s (s.insertBefore pWhere pWhat)
  | insertAfter (s : ILRewriter) (pWhere : InstrPtr) (pWhat : ILInstr) :
      Rewrite s (s.insertAfter pWhere pWhat)
  | setEHClause (s : ILRewriter) (ehPointer : List EHClause) : Rewrite s (s.setEHClause ehPointer)
  | setTkLocalVarSig (s : ILRewriter) (tkLocalVarSig : BitVec 32) :
      Rewrite s (s.setTkLocalVarSig tkLocalVarSig)

/-- Any number of steps. -/
def Rewrites : ILRewriter → ILRewriter → Prop := Relation.ReflTransGen Rewrite

/-- **The invariant of a rewriting**: the counter is the imported maximum with the pushes
of all instructions, in 32 bits. -/
structure Counts (base : ℕ) (s : ILRewriter) : Prop where
  maxStack : s.maxStack = .ofNat 32 (base + totalPushes s.instrs)
  fGenerateTinyHeader : s.fGenerateTinyHeader = false

theorem totalPushes_cons (i : ILInstr) (is : List ILInstr) :
    totalPushes (i :: is) = stackPushes i.opcode + totalPushes is := rfl

theorem totalPushes_linkBefore (p : InstrPtr) (what : ILInstr) (is : List ILInstr) :
    totalPushes (linkBefore p what is) = totalPushes is + stackPushes what.opcode := by
  induction is with
  | nil => exact Nat.add_comm _ _
  | cons i is ih =>
      rw [linkBefore]
      split
      · rw [totalPushes_cons, Nat.add_comm]
      · rw [totalPushes_cons, ih, totalPushes_cons, Nat.add_assoc]

theorem totalPushes_linkAfterInstr (n : ℕ) (what : ILInstr) (is : List ILInstr) :
    totalPushes (linkAfterInstr n what is) = totalPushes is + stackPushes what.opcode := by
  induction is with
  | nil => exact Nat.add_comm _ _
  | cons i is ih =>
      rw [linkAfterInstr]
      split
      · rw [totalPushes_cons, totalPushes_cons, totalPushes_cons, Nat.add_assoc,
          Nat.add_comm (totalPushes is)]
      · rw [totalPushes_cons, ih, totalPushes_cons, Nat.add_assoc]

theorem totalPushes_linkAfter (p : InstrPtr) (what : ILInstr) (is : List ILInstr) :
    totalPushes (linkAfter p what is) = totalPushes is + stackPushes what.opcode := by
  cases p with
  | il => exact Nat.add_comm _ _
  | instr n => exact totalPushes_linkAfterInstr n what is

/-- The counter goes up with the pushes of the list. -/
theorem Counts.add {base n : ℕ} {s : ILRewriter} (h : Counts base s) {is : List ILInstr}
    (his : totalPushes is = totalPushes s.instrs + n) :
    s.maxStack + .ofNat 32 n = .ofNat 32 (base + totalPushes is) := by
  rw [h.maxStack, his, ← Nat.add_assoc, BitVec.ofNat_add (base + _)]

theorem Counts.step {base : ℕ} {s t : ILRewriter} (h : Counts base s) (hstep : Rewrite s t) :
    Counts base t := by
  cases hstep with
  | newILInstr => exact ⟨h.maxStack, h.fGenerateTinyHeader⟩
  | insertBefore pWhere pWhat =>
      exact ⟨h.add (totalPushes_linkBefore pWhere pWhat s.instrs), h.fGenerateTinyHeader⟩
  | insertAfter pWhere pWhat =>
      exact ⟨h.add (totalPushes_linkAfter pWhere pWhat s.instrs), h.fGenerateTinyHeader⟩
  | setEHClause ehPointer => exact ⟨h.maxStack, h.fGenerateTinyHeader⟩
  | setTkLocalVarSig tkLocalVarSig => exact ⟨h.maxStack, rfl⟩

theorem Counts.rewrites {base : ℕ} {s t : ILRewriter} (h : Counts base s) (hrun : Rewrites s t) :
    Counts base t := by
  induction hrun with
  | refl => exact h
  | tail _ hstep ih => exact ih.step hstep

/-! ### Importing -/

theorem Counts.addRaw {base : ℕ} {st : Import} (h : Counts base st.rewriter) (r : RawInstr) :
    Counts base (addRaw st r).rewriter := by
  have happend : Counts base (st.rewriter.append r.opcode r.arg) :=
    (h.step (.newILInstr _)).step (.insertBefore _ _ _)
  rw [IL.addRaw]
  dsimp only
  split
  · exact happend
  · exact ⟨happend.maxStack, happend.fGenerateTinyHeader⟩

theorem Counts.addAll {base : ℕ} {st : Import} (h : Counts base st.rewriter)
    (rs : List RawInstr) : Counts base (addAll st rs).rewriter := by
  induction rs generalizing st with
  | nil => exact h
  | cons r rs ih => exact ih (h.addRaw r)

theorem totalPushes_resolves {s : ILRewriter} {is is' : List ILInstr}
    (h : List.Forall₂ (Resolves s) is is') : totalPushes is' = totalPushes is := by
  induction h with
  | nil => rfl
  | cons hi _ ih =>
      rw [totalPushes_cons, totalPushes_cons, ih]
      rw [Resolves] at hi
      split at hi
      · obtain ⟨p, -, rfl⟩ := hi
        rfl
      · rw [hi]

theorem Counts.importIL {base : ℕ} {s t : ILRewriter} (h : Counts base s) {code : List Byte}
    (himport : s.importIL code = some t) : Counts base t := by
  rw [ILRewriter.importIL] at himport
  obtain ⟨st, hloop, htargets⟩ := Option.bind_eq_some_iff.mp himport
  obtain ⟨rs, -, -, -, -, rfl⟩ := importLoop_eq_some hloop
  have hstart : Counts base (s.importStart code).rewriter :=
    ⟨h.maxStack, h.fGenerateTinyHeader⟩
  have hall := hstart.addAll rs
  split at htargets
  · obtain ⟨is, his, rfl⟩ := Option.map_eq_some_iff.mp htargets
    refine ⟨?_, hall.fGenerateTinyHeader⟩
    rw [totalPushes_resolves (resolveTargets_eq_some.mp his)]
    exact hall.maxStack
  · cases htargets
    exact hall

theorem importEH_eq_ok {s t : ILRewriter} {ehInfos : List EHClauseFat}
    (h : s.importEH ehInfos = .ok t) : ∃ eh, t = { s with eh := eh } := by
  rw [ILRewriter.importEH] at h
  split at h
  · cases h
  · split at h
    · cases h
    · cases h
      exact ⟨_, rfl⟩

/-- The counter of a body that has been imported. -/
theorem counts_importBody {body : MethodBody} {t : ILRewriter}
    (h : ILRewriter.init.importBody body = .ok t) : Counts body.maxStack.toNat t := by
  rw [ILRewriter.importBody] at h
  split at h
  · cases h
  · next s himport =>
      have hstart : Counts body.maxStack.toNat
          { ILRewriter.init with
            tkLocalVarSig := body.localVarSigTok
            maxStack := body.maxStack.setWidth 32
            flags := body.flags &&& corILMethodInitLocals } := by
        refine ⟨?_, rfl⟩
        exact BitVec.eq_of_toNat_eq (by simp [totalPushes, ILRewriter.init])
      have hs := hstart.importIL himport
      obtain ⟨eh, rfl⟩ := importEH_eq_ok h
      exact ⟨hs.maxStack, hs.fGenerateTinyHeader⟩

end AutoInstrumentation.IL
