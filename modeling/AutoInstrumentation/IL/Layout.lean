import AutoInstrumentation.IL.Export

/-!
# AutoInstrumentation.IL.Layout

What `Export` computes: the layout of an instruction list and its encoding.

`codeSize`, `offsetOf` and `encodeAll` say where the instructions of a list stand and
what bytes they are, without the buffer and its passes. `widenFar` is the effect of a
pass on the list, and `settle` the list that no pass changes any more. The theorems say
that the passes over the buffer leave the encoding of the settled list, exactly when it
fits the buffer.
-/

namespace AutoInstrumentation.IL

open AutoInstrumentation.Lib

/-! ### Opcodes -/

/-- An opcode that `ImportIL` reads, or the pseudo opcode of a switch target. -/
def Importable (opcode : ℕ) : Prop :=
  opcode < ceeCount ∧ ¬(ceePrefix7 ≤ opcode ∧ opcode ≤ ceePrefix1) ∨ opcode = ceeSwitchArg

instance (opcode : ℕ) : Decidable (Importable opcode) :=
  inferInstanceAs (Decidable (_ ∨ _))

theorem opCodeFlags_switchArg : opCodeFlags ceeSwitchArg = .branch := rfl

theorem opCodeFlags_switch : opCodeFlags ceeSwitch = .switch := rfl

theorem length_opcodeBytes_pos {opcode : ℕ} (h : opcode < ceeCount) :
    0 < (opcodeBytes opcode).length := by
  rw [opcodeBytes, if_neg (Nat.not_le.mpr h)]
  split <;> exact Nat.succ_pos _

theorem Importable.size_pos {opcode : ℕ} (h : Importable opcode) : 0 < instrSize opcode := by
  rcases h with ⟨hlt, -⟩ | rfl
  · exact Nat.lt_of_lt_of_le (length_opcodeBytes_pos hlt) (Nat.le_add_right _ _)
  · decide

theorem Importable.lt {opcode : ℕ} (h : Importable opcode) : opcode < opCodeFlagsCount := by
  rcases h with ⟨hlt, -⟩ | rfl
  · exact Nat.lt_trans hlt (by decide)
  · decide

theorem opCodeFlags_of_ge {opcode : ℕ} (h : opCodeFlagsCount ≤ opcode) :
    opCodeFlags opcode = .none := by
  have hlarge : 0x128 ≤ opcode := h
  have hargs : opcodeArgs opcode = .inlineNone := by
    rw [opcodeArgs]
    repeat rw [if_neg]
    all_goals omega
  rw [opCodeFlags, if_neg (Nat.ne_of_gt h), hargs, OpcodeArgs.flags]

/-- A short branch is one of `CEE_BR_S .. CEE_BLT_UN_S`, or `CEE_LEAVE_S`. -/
theorem shortBranch_cases {opcode : ℕ} (h : opCodeFlags opcode = .shortBranch) :
    opcode = ceeLeaveS ∨ ceeBrS ≤ opcode ∧ opcode ≤ ceeBltUnS := by
  have hlt : opcode < opCodeFlagsCount := by
    by_contra hge
    rw [opCodeFlags_of_ge (Nat.le_of_not_lt hge)] at h
    cases h
  have htable : ∀ o < opCodeFlagsCount, opCodeFlags o = .shortBranch →
      o = ceeLeaveS ∨ ceeBrS ≤ o ∧ o ≤ ceeBltUnS := by decide +kernel
  exact htable opcode hlt h

theorem importable_longBranch {opcode : ℕ} (h : opCodeFlags opcode = .shortBranch) :
    Importable (longBranch opcode) := by
  rcases shortBranch_cases h with rfl | ⟨hlow, hhigh⟩
  · exact .inl (by decide)
  · rw [ceeBrS] at hlow
    rw [ceeBltUnS] at hhigh
    interval_cases opcode <;> exact .inl (by decide)

theorem longBranch_ne_switchArg {opcode : ℕ} (h : opCodeFlags opcode = .shortBranch) :
    longBranch opcode ≠ ceeSwitchArg := by
  rcases shortBranch_cases h with rfl | ⟨hlow, hhigh⟩
  · decide
  · rw [ceeBrS] at hlow
    rw [ceeBltUnS] at hhigh
    interval_cases opcode <;> decide

theorem instrSize_longBranch {opcode : ℕ} (h : opCodeFlags opcode = .shortBranch) :
    instrSize opcode < instrSize (longBranch opcode) := by
  rcases shortBranch_cases h with rfl | ⟨hlow, hhigh⟩
  · decide
  · rw [ceeBrS] at hlow
    rw [ceeBltUnS] at hhigh
    interval_cases opcode <;> decide

/-! ### Where the instructions stand -/

/-- The size of the code. -/
def codeSize : List ILInstr → ℕ
  | [] => 0
  | i :: is => instrSize i.opcode + codeSize is

/-- The offset of an instruction in the code, or of the end of the code. -/
def offsetOf : List ILInstr → InstrPtr → ℕ
  | [], _ => 0
  | i :: is, p => if p = .instr i.ptr then 0 else instrSize i.opcode + offsetOf is p

/-- An address of the list: of an instruction, or of the sentinel. -/
def Linked (is : List ILInstr) (p : InstrPtr) : Prop := p = .il ∨ ∃ i ∈ is, p = .instr i.ptr

/-- `offsets` has the layout of `is` from `here` on. -/
def LaidOut (offsets : InstrPtr → ℕ) : ℕ → List ILInstr → Prop
  | here, [] => offsets .il = here
  | here, i :: is => offsets (.instr i.ptr) = here ∧ LaidOut offsets (here + instrSize i.opcode) is

theorem LaidOut.head {offsets : InstrPtr → ℕ} {here : ℕ} {is : List ILInstr}
    (h : LaidOut offsets here is) : offsets (headPtr is) = here := by
  cases is with
  | nil => exact h
  | cons i is => exact h.1

theorem LaidOut.offset_eq {offsets : InstrPtr → ℕ} {here : ℕ} {is : List ILInstr}
    (h : LaidOut offsets here is) {p : InstrPtr} (hp : Linked is p) :
    offsets p = here + offsetOf is p := by
  induction is generalizing here with
  | nil =>
      rcases hp with rfl | ⟨i, hi, -⟩
      · exact h
      · cases hi
  | cons i is ih =>
      rw [offsetOf]
      split
      · next heq => rw [heq, h.1, Nat.add_zero]
      · next hne =>
          have hp' : Linked is p := by
            rcases hp with hil | ⟨j, hj, rfl⟩
            · exact .inl hil
            · rcases List.mem_cons.mp hj with rfl | hj
              · exact absurd rfl hne
              · exact .inr ⟨j, hj, rfl⟩
          rw [ih h.2 hp', Nat.add_assoc]

/-! ### The encoding -/

/-- An instruction as the code has it: a branch target is the offset it stands for. -/
structure RawInstr where
  opcode : ℕ
  arg : BitVec 64
  deriving Repr, DecidableEq

/-- The lowest 32 bits of the operand. -/
def RawInstr.arg32 (r : RawInstr) : BitVec 32 := r.arg.setWidth 32

/-- The operand's bytes, for an instruction that ends at `after`. -/
def RawInstr.operand (after switchBase : BitVec 32) (r : RawInstr) : List Byte :=
  if r.opcode = ceeSwitchArg then bytesOfNat 4 (r.arg32 - switchBase).toNat
  else
    match opCodeFlags r.opcode with
    | .shortBranch => bytesOfNat 1 (r.arg32 - after).toNat
    | .branch => bytesOfNat 4 (r.arg32 - after).toNat
    | flags => bytesOfNat (operandSize flags) r.arg.toNat

def RawInstr.encode (after switchBase : BitVec 32) (r : RawInstr) : List Byte :=
  opcodeBytes r.opcode ++ r.operand after switchBase

/-- The base of the switch targets behind an instruction at `here`. -/
def RawInstr.base (here : ℕ) (switchBase : BitVec 32) (r : RawInstr) : BitVec 32 :=
  if r.opcode = ceeSwitch then BitVec.ofNat 32 (here + 1) + 4 * (r.arg32 + 1) else switchBase

/-- The code of the instructions `rs`, from the offset `here` on. -/
def encodeAll : ℕ → BitVec 32 → List RawInstr → List Byte
  | _, _, [] => []
  | here, switchBase, r :: rs =>
      let after := here + instrSize r.opcode
      r.encode (.ofNat 32 after) switchBase ++ encodeAll after (r.base here switchBase) rs

/-- The instruction with its target at its offset, and its operand at its width. -/
def ILInstr.raw (offsets : InstrPtr → ℕ) (i : ILInstr) : RawInstr where
  opcode := i.opcode
  arg :=
    if (opCodeFlags i.opcode).branchTarget then (BitVec.ofNat 32 (offsets i.target)).setWidth 64
    else .ofNat 64 (i.arg.toNat % 256 ^ operandSize (opCodeFlags i.opcode))

theorem RawInstr.length_operand (after switchBase : BitVec 32) (r : RawInstr) :
    (r.operand after switchBase).length = operandSize (opCodeFlags r.opcode) := by
  rw [RawInstr.operand]
  split
  · next h =>
      rw [h, length_bytesOfNat]
      rfl
  · split
    · next h =>
        rw [h, length_bytesOfNat]
        rfl
    · next h =>
        rw [h, length_bytesOfNat]
        rfl
    · rw [length_bytesOfNat]

theorem RawInstr.length_encode (after switchBase : BitVec 32) (r : RawInstr) :
    (r.encode after switchBase).length = instrSize r.opcode := by
  rw [RawInstr.encode, List.length_append, RawInstr.length_operand, instrSize]

theorem ILInstr.raw_opcode (offsets : InstrPtr → ℕ) (i : ILInstr) :
    (i.raw offsets).opcode = i.opcode := rfl

theorem length_encodeAll (offsets : InstrPtr → ℕ) (here : ℕ) (switchBase : BitVec 32)
    (is : List ILInstr) :
    (encodeAll here switchBase (is.map (ILInstr.raw offsets))).length = codeSize is := by
  induction is generalizing here switchBase with
  | nil => rfl
  | cons i is ih =>
      rw [List.map_cons, encodeAll, List.length_append, RawInstr.length_encode, ih, codeSize,
        ILInstr.raw_opcode]

/-! ### Widening -/

/-- A short branch whose target is out of reach from its end at `after`. -/
def Far (offsets : InstrPtr → ℕ) (after : ℕ) (i : ILInstr) : Prop :=
  opCodeFlags i.opcode = .shortBranch
    ∧ OutOfReach (BitVec.ofNat 32 (offsets i.target) - BitVec.ofNat 32 after)

instance (offsets : InstrPtr → ℕ) (after : ℕ) (i : ILInstr) : Decidable (Far offsets after i) :=
  inferInstanceAs (Decidable (_ ∧ _))

/-- The short branches out of reach, in their long form. -/
def widenFar (offsets : InstrPtr → ℕ) : ℕ → List ILInstr → List ILInstr
  | _, [] => []
  | here, i :: is =>
      let after := here + instrSize i.opcode
      (if Far offsets after i then i.widen else i) :: widenFar offsets after is

/-- Some short branch is out of reach. -/
def anyFar (offsets : InstrPtr → ℕ) : ℕ → List ILInstr → Bool
  | _, [] => false
  | here, i :: is =>
      let after := here + instrSize i.opcode
      decide (Far offsets after i) || anyFar offsets after is

/-- A statement about each instruction that does not mind whether a branch is long. -/
theorem forall_widenFar {P : ILInstr → Prop}
    (hP : ∀ i, opCodeFlags i.opcode = .shortBranch → P i → P i.widen) {offsets : InstrPtr → ℕ}
    {here : ℕ} {is : List ILInstr} (h : ∀ i ∈ is, P i) : ∀ i ∈ widenFar offsets here is, P i := by
  induction is generalizing here with
  | nil => exact h
  | cons i is ih =>
      intro j hj
      rcases List.mem_cons.mp hj with rfl | hj
      · have hi := h i List.mem_cons_self
        split
        · next hfar => exact hP i hfar.1 hi
        · exact hi
      · exact ih (fun j hj => h j (List.mem_cons_of_mem i hj)) j hj

theorem map_widenFar {α : Type} (f : ILInstr → α) (hf : ∀ i, f i.widen = f i)
    (offsets : InstrPtr → ℕ) (here : ℕ) (is : List ILInstr) :
    (widenFar offsets here is).map f = is.map f := by
  induction is generalizing here with
  | nil => rfl
  | cons i is ih =>
      rw [widenFar, List.map_cons, List.map_cons, ih]
      congr 1
      split
      · exact hf i
      · rfl

theorem codeSize_widenFar (offsets : InstrPtr → ℕ) (here : ℕ) (is : List ILInstr) :
    codeSize is ≤ codeSize (widenFar offsets here is) := by
  induction is generalizing here with
  | nil => exact Nat.le_refl _
  | cons i is ih =>
      rw [widenFar, codeSize, codeSize]
      refine Nat.add_le_add ?_ (ih _)
      split
      · next hfar => exact Nat.le_of_lt (instrSize_longBranch hfar.1)
      · exact Nat.le_refl _

theorem shortBranches_widenFar {offsets : InstrPtr → ℕ} {here : ℕ} {is : List ILInstr} :
    shortBranches (widenFar offsets here is) ≤ shortBranches is
      ∧ (anyFar offsets here is = true →
          shortBranches (widenFar offsets here is) < shortBranches is) := by
  induction is generalizing here with
  | nil => exact ⟨Nat.le_refl _, fun h => nomatch h⟩
  | cons i is ih =>
      obtain ⟨hle, hlt⟩ := @ih (here + instrSize i.opcode)
      simp only [widenFar, anyFar, shortBranches, List.countP_cons] at hle hlt ⊢
      by_cases hfar : Far offsets (here + instrSize i.opcode) i
      · have hlong : opCodeFlags i.widen.opcode = .branch :=
          opCodeFlags_longBranch (shortBranch_cases hfar.1)
        simp only [hfar, if_true, hfar.1, hlong, decide_true, reduceCtorEq, decide_false,
          Bool.false_eq_true, if_false]
        exact ⟨by omega, fun _ => by omega⟩
      · simp only [hfar, if_false, decide_false, Bool.false_or]
        exact ⟨Nat.add_le_add_right hle _, fun h => Nat.add_lt_add_right (hlt h) _⟩

/-- A round that widens nothing changes nothing. -/
theorem widenFar_of_near {offsets : InstrPtr → ℕ} {here : ℕ} {is : List ILInstr}
    (h : anyFar offsets here is = false) : widenFar offsets here is = is := by
  induction is generalizing here with
  | nil => rfl
  | cons i is ih =>
      obtain ⟨hi, his⟩ := Bool.or_eq_false_iff.mp h
      simp only [widenFar, if_neg (of_decide_eq_false hi), ih his]

/-- A list in which every short branch reaches its target. -/
def Settled (is : List ILInstr) : Prop := anyFar (offsetOf is) 0 is = false

/-- The list with its short branches widened, round after round, until all that are left
reach their targets. -/
def settle (is : List ILInstr) : List ILInstr :=
  if _h : anyFar (offsetOf is) 0 is = true then settle (widenFar (offsetOf is) 0 is) else is
termination_by shortBranches is
decreasing_by exact shortBranches_widenFar.2 _h

theorem settle_of_far {is : List ILInstr} (h : anyFar (offsetOf is) 0 is = true) :
    settle is = settle (widenFar (offsetOf is) 0 is) := by
  rw [settle, dif_pos h]

theorem settle_of_settled {is : List ILInstr} (h : Settled is) : settle is = is := by
  rw [settle, dif_neg (Bool.not_eq_true _ ▸ h)]

/-- What holds of a list and is kept by each round holds of the settled list. -/
theorem settle_induction {P : List ILInstr → Prop}
    (hround : ∀ is, P is → P (widenFar (offsetOf is) 0 is)) (is : List ILInstr) (h : P is) :
    P (settle is) := by
  induction is using settle.induct with
  | case1 is hfar ih =>
      rw [settle_of_far hfar]
      exact ih (hround is h)
  | case2 is hnear =>
      rw [settle, dif_neg hnear]
      exact h

theorem codeSize_le_settle (is : List ILInstr) : codeSize is ≤ codeSize (settle is) :=
  settle_induction (P := fun js => codeSize is ≤ codeSize js)
    (fun js h => Nat.le_trans h (codeSize_widenFar (offsetOf js) 0 js)) is (Nat.le_refl _)

theorem settled_settle (is : List ILInstr) : Settled (settle is) := by
  induction is using settle.induct with
  | case1 is hfar ih => rwa [settle_of_far hfar]
  | case2 is hnear =>
      have hsettled : Settled is := Bool.eq_false_of_not_eq_true hnear
      rwa [settle_of_settled hsettled]

end AutoInstrumentation.IL
