import AutoInstrumentation.Signature.ModifyLocalSig

/-!
# AutoInstrumentation.Signature.ModifyLocalSigSizes

The sizes of the local-variable signature of a rewritten method.

The size that is computed ahead counts two bytes for the header of a method that has no
locals, whatever the width of its count. `slack` is the difference to what is written; where
it is 0 the buffer holds what the size says, and where it is not the sizes never meet.
-/

namespace AutoInstrumentation.Signature

open Lib Lib.Cursor

/-! ### Tokens -/

theorem encodedToken_lt (tk : MdToken) : encodedToken tk < 2 ^ 29 := by
  have hrid : ridFromToken tk < 2 ^ 24 := by
    rw [ridFromToken, BitVec.toNat_and]
    exact Nat.lt_of_le_of_lt Nat.and_le_right (by decide)
  have htype : encodedTokenType tk < 2 ^ 2 := by
    simp only [encodedTokenType]
    split
    · decide
    · split
      · decide
      · split <;> decide
  rw [encodedToken, shiftLeft_or _ _ 2 htype]
  omega

/-- The token as a number of the grammar. -/
def tokenNumber (tk : MdToken) : Number := .shortest (encodedToken tk) (encodedToken_lt tk)

theorem bytes_tokenNumber (tk : MdToken) : (tokenNumber tk).bytes = corSigCompressToken tk :=
  (corSigCompressData_eq (encodedToken_lt tk)).symm

theorem length_corSigCompressToken_pos (tk : MdToken) : 0 < (corSigCompressToken tk).length :=
  length_corSigCompressData_pos _

/-! ### The return type -/

theorem stepOver_of_ne {elementType b : Byte} (h : b ≠ elementType) (flag : ℕ) (bs : List Byte)
    (flags : ℕ) : stepOver elementType flag (b :: bs, flags) = (b :: bs, flags) := by
  rw [stepOver, if_neg]
  simpa using h

/-- The flags of a type that is neither a pointer nor pinned nor `void`. -/
theorem getElementTypeAndFlags_cons {b : Byte} (bs : List Byte) (hptr : b ≠ elementTypePtr)
    (hpinned : b ≠ elementTypePinned) (hvoid : b ≠ elementTypeVoid) :
    ∃ byRef boxed : Bool, (getElementTypeAndFlags (b :: bs)).2
      = (if byRef then typeFlagByRef else 0) ||| if boxed then typeFlagBoxedType else 0 := by
  simp only [getElementTypeAndFlags, stepOver_of_ne hptr, stepOver_of_ne hpinned,
    List.head?_cons, Option.some.injEq, if_neg hvoid]
  obtain ⟨byRef, hbyRef⟩ : ∃ byRef : Bool, (stepOver elementTypeByRef typeFlagByRef (b :: bs, 0)).2
      = if byRef then typeFlagByRef else 0 := by
    rw [stepOver]
    split
    · exact ⟨true, Nat.zero_or _⟩
    · exact ⟨false, rfl⟩
  rw [hbyRef]
  refine ⟨byRef, ?_⟩
  split
  · exact ⟨true, rfl⟩
  · split
    · exact ⟨true, rfl⟩
    · exact ⟨false, (Nat.or_zero _).symm⟩

/-- The flags of a return type that is accepted are `TypeFlagVoid` for `void` only. -/
theorem getElementTypeAndFlags_eq_void_iff {ρ : RetType} (hρ : ρ.Accepted) :
    (getElementTypeAndFlags ρ.bytes).2 = typeFlagVoid ↔ ρ = .void [] := by
  cases ρ with
  | void mods =>
      rw [RetType.Accepted] at hρ
      subst hρ
      refine ⟨fun _ => rfl, fun _ => ?_⟩
      rw [RetType.bytes]
      decide
  | typedByRef mods => exact hρ.elim
  | type mods byRef t =>
      obtain ⟨rfl, hptr⟩ := hρ
      refine ⟨fun h => ?_, fun h => by cases h⟩
      rw [RetType.bytes, modsBytes, List.flatMap_nil, List.nil_append] at h
      obtain ⟨b, bs, hbs, hb⟩ : ∃ b bs, byRefBytes byRef ++ t.bytes = b :: bs ∧
          b ≠ elementTypePtr ∧ b ≠ elementTypePinned ∧ b ≠ elementTypeVoid := by
        cases byRef with
        | true => exact ⟨_, _, rfl, by decide⟩
        | false =>
            obtain ⟨bs, hbs⟩ := t.bytes_eq
            refine ⟨_, bs, hbs, hptr, ?_, t.head_ne.2.2.2.1⟩
            cases t with
            | primitive p => cases p <;> decide
            | _ =>
                simp only [SigType.head]
                decide
      obtain ⟨flagByRef, boxed, hflags⟩ := getElementTypeAndFlags_cons bs hb.1 hb.2.1 hb.2.2
      rw [hbs, hflags] at h
      exfalso
      revert h
      cases flagByRef <;> cases boxed <;> decide

/-! ### The additional locals -/

namespace CallTargetTokens

def exceptionLocal (tokens : CallTargetTokens) : List Byte :=
  elementTypeClass :: corSigCompressToken tokens.exTypeRef

def refStructLocal (tokens : CallTargetTokens) : List Byte :=
  elementTypeValueType :: corSigCompressToken tokens.callTargetRefStructTypeRef

def stateLocal (tokens : CallTargetTokens) : List Byte :=
  elementTypeValueType :: corSigCompressToken tokens.callTargetStateTypeRef

end CallTargetTokens

/-- What the loop over the arguments leaves: the locals of `k` of them are in the buffer and
counted; where that is not all, the size has passed the size of the buffer. -/
theorem addRefStructs_spec (isRefStruct : List Byte → Bool) (refStruct : List Byte)
    (arguments : List (List Byte)) (buffer : List Byte) {size : ℕ}
    (hsize : size ≤ signatureBufferSize) :
    ∃ k, size + k * refStruct.length ≤ signatureBufferSize ∧
      (addRefStructs isRefStruct refStruct arguments (buffer, size)).1
        = buffer ++ (List.replicate k refStruct).flatten ∧
      ((k = arguments.countP isRefStruct ∧
          (addRefStructs isRefStruct refStruct arguments (buffer, size)).2
            = size + k * refStruct.length) ∨
        (k < arguments.countP isRefStruct ∧
          (addRefStructs isRefStruct refStruct arguments (buffer, size)).2
            = size + (k + 1) * refStruct.length ∧
          signatureBufferSize < size + (k + 1) * refStruct.length)) := by
  induction arguments generalizing buffer size with
  | nil =>
      refine ⟨0, by simpa using hsize, ?_, .inl ⟨rfl, ?_⟩⟩
      · simp [addRefStructs]
      · simp [addRefStructs]
  | cons argument arguments ih =>
      rw [addRefStructs, List.countP_cons]
      by_cases hargument : isRefStruct argument = true
      · rw [if_pos hargument, if_pos hargument]
        simp only
        by_cases hfull : size + refStruct.length > signatureBufferSize
        · rw [if_pos hfull]
          refine ⟨0, by simpa using hsize, by simp, .inr ⟨by omega, by simp, by simpa using hfull⟩⟩
        · rw [if_neg hfull]
          obtain ⟨k, hk, hbuffer, hcases⟩ := ih (buffer ++ refStruct) (not_lt.mp hfull)
          have hsucc : ∀ j, size + refStruct.length + j * refStruct.length
              = size + (j + 1) * refStruct.length := fun j => by
            rw [Nat.add_mul, Nat.one_mul]
            omega
          rw [hsucc] at hk
          refine ⟨k + 1, hk, ?_, ?_⟩
          · rw [hbuffer, List.replicate_succ, List.flatten_cons, List.append_assoc]
          · rw [hsucc, hsucc] at hcases
            rcases hcases with ⟨hall, heq⟩ | ⟨hlt, heq, hpassed⟩
            · exact .inl ⟨by omega, heq⟩
            · exact .inr ⟨by omega, heq, hpassed⟩
      · rw [if_neg hargument, if_neg hargument]
        exact ih buffer hsize

/-! ### Sizes

The sizes and the buffer of `writeLocalSig` once the original signature and the return type
are known. -/

section Sizes

variable (c : LocalSigCall) (tokens : CallTargetTokens) (originalSignature : List Byte)
  (locals : NewLocals)

/-- How many arguments are references to structures. -/
def refStructCount : ℕ := c.methodTypeArguments.countP c.isRefStruct

def addedLocalsCount : ℕ :=
  variableNumber + c.getAdditionalLocalsCount + if locals.hasReturnValue then 1 else 0

/-- The count of the original signature, and the length of the count. -/
def oldLocals : ℕ × ℕ :=
  if originalSignature.isEmpty then (0, 0)
  else (corSigUncompressData originalSignature.tail).getD (0, 2 ^ 32 - 1)

def newLocalsCount : ℕ := addedLocalsCount c locals + (oldLocals originalSignature).1

def newLocalsBuffer : List Byte := corSigCompressData (newLocalsCount c originalSignature locals)

/-- The size without the additional locals. -/
def firstSize : ℕ :=
  let newSignatureSize := originalSignature.length + locals.returnSignature.length +
    tokens.exceptionLocal.length + locals.callTargetReturnSignature.length +
    tokens.stateLocal.length
  if originalSignature.isEmpty then newSignatureSize + 2
  else newSignatureSize + (newLocalsBuffer c originalSignature locals).length -
    (oldLocals originalSignature).2

/-- The whole size. -/
def totalSize : ℕ :=
  firstSize c tokens originalSignature locals + 2 * tokens.exceptionLocal.length +
    refStructCount c * tokens.refStructLocal.length

/-- The buffer without the additional locals. -/
def firstBuffer : List Byte :=
  localVarSig :: newLocalsBuffer c originalSignature locals ++
    originalSignature.drop (1 + (oldLocals originalSignature).2) ++
    locals.returnSignature ++ tokens.exceptionLocal ++ locals.callTargetReturnSignature

/-- What is written beyond the size: the count of a method without locals has one byte in the
size. -/
def slack : ℕ :=
  if originalSignature.isEmpty then (newLocalsBuffer c originalSignature locals).length - 1 else 0

/-- A size that is compared with the size of the buffer. -/
def IsChecked (size : ℕ) : Prop :=
  size = firstSize c tokens originalSignature locals ∨
    ∃ k ≤ refStructCount c, size = firstSize c tokens originalSignature locals +
      2 * tokens.exceptionLocal.length + k * tokens.refStructLocal.length

/-- The whole buffer. -/
def fullBuffer : List Byte :=
  firstBuffer c tokens originalSignature locals ++ tokens.exceptionLocal ++
    tokens.exceptionLocal ++ (List.replicate (refStructCount c) tokens.refStructLocal).flatten ++
    tokens.stateLocal

/-- The indices that a successful call returns. -/
def indicesOf : LocalIndices :=
  let count := newLocalsCount c originalSignature locals
  let indexStart := variableNumber + c.getAdditionalLocalsCount
  { returnValueIndex := if locals.hasReturnValue then count - (indexStart + 1) else noIndex
    exceptionIndex := count - indexStart
    callTargetReturnIndex := count - (indexStart - 1)
    additionalLocalIndices :=
      (List.range c.getAdditionalLocalsCount).map fun i => count - (indexStart - 2 - i)
    callTargetStateIndex := count - 1
    callTargetStateToken := tokens.callTargetStateTypeRef
    exceptionToken := tokens.exTypeRef
    callTargetReturnToken := locals.callTargetReturn }

/-- An outcome without a new signature. -/
def failedAt (exit : LocalSigExit) (buffer : List Byte) : LocalSigOutcome :=
  ⟨exit, buffer, c.tkLocalVarSig, none⟩

/-- What is left to do once the additional locals are written. -/
def finishLocalSig (s : List Byte × ℕ) : LocalSigOutcome :=
  if s.2 > signatureBufferSize then failedAt c .exceedsBuffer s.1
  else if (s.1 ++ tokens.stateLocal).length ≠ s.2 then
    failedAt c .sizeMismatch (s.1 ++ tokens.stateLocal)
  else
    match c.newLocalVarSig with
    | none => failedAt c .notEmitted (s.1 ++ tokens.stateLocal)
    | some newLocalVarSig =>
        ⟨.modified, s.1 ++ tokens.stateLocal, newLocalVarSig,
          some (indicesOf c tokens originalSignature locals)⟩

theorem writeLocalSig_eq :
    writeLocalSig c tokens originalSignature locals =
      if firstSize c tokens originalSignature locals > signatureBufferSize then
        failedAt c .exceedsBuffer []
      else
        finishLocalSig c tokens originalSignature locals
          (addAdditionalLocals c tokens (firstBuffer c tokens originalSignature locals,
            firstSize c tokens originalSignature locals)) := rfl

theorem addAdditionalLocals_eq (buffer : List Byte) (size : ℕ) :
    addAdditionalLocals c tokens (buffer, size) =
      if size + 2 * tokens.exceptionLocal.length > signatureBufferSize then
        (buffer, size + 2 * tokens.exceptionLocal.length)
      else
        addRefStructs c.isRefStruct tokens.refStructLocal c.methodTypeArguments
          (buffer ++ tokens.exceptionLocal ++ tokens.exceptionLocal,
            size + 2 * tokens.exceptionLocal.length) := rfl

/-- What is written is what the size says and the slack. -/
theorem length_firstBuffer (hold : originalSignature ≠ [] →
    1 + (oldLocals originalSignature).2 ≤ originalSignature.length) :
    (firstBuffer c tokens originalSignature locals).length + tokens.stateLocal.length =
      firstSize c tokens originalSignature locals + slack c originalSignature locals := by
  have hcount : 0 < (newLocalsBuffer c originalSignature locals).length :=
    length_corSigCompressData_pos _
  rw [firstBuffer, firstSize, slack]
  simp only [List.length_append, List.length_cons, List.length_drop]
  cases hsig : originalSignature with
  | nil =>
      rw [hsig] at hcount
      simp only [List.isEmpty_nil, if_true, List.length_nil]
      omega
  | cons b bs =>
      have hle := hold (by simp [hsig])
      rw [hsig] at hle hcount
      simp only [List.isEmpty_cons, Bool.false_eq_true, if_false]
      omega

theorem length_flatten_replicate {α : Type} (k : ℕ) (piece : List α) :
    (List.replicate k piece).flatten.length = k * piece.length := by
  simp

/-- Where the whole size does not fit, the call is given up; the buffer then holds what was
written up to the last size that fits. -/
theorem writeLocalSig_exceeds
    (hold : originalSignature ≠ [] →
      1 + (oldLocals originalSignature).2 ≤ originalSignature.length)
    (hsize : signatureBufferSize < totalSize c tokens originalSignature locals) :
    ∃ buffer, writeLocalSig c tokens originalSignature locals = failedAt c .exceedsBuffer buffer ∧
      ((buffer = [] ∧ signatureBufferSize < firstSize c tokens originalSignature locals) ∨
        ∃ size, IsChecked c tokens originalSignature locals size ∧ size ≤ signatureBufferSize ∧
          (∀ other, IsChecked c tokens originalSignature locals other →
            other ≤ signatureBufferSize → other ≤ size) ∧
          buffer.length + tokens.stateLocal.length
            = size + slack c originalSignature locals) := by
  have hlength := length_firstBuffer c tokens originalSignature locals hold
  rw [writeLocalSig_eq]
  rw [totalSize] at hsize
  by_cases hfirst : firstSize c tokens originalSignature locals > signatureBufferSize
  · rw [if_pos hfirst]
    exact ⟨[], rfl, .inl ⟨rfl, hfirst⟩⟩
  rw [if_neg hfirst, addAdditionalLocals_eq]
  rw [not_lt] at hfirst
  by_cases hsecond : firstSize c tokens originalSignature locals +
      2 * tokens.exceptionLocal.length > signatureBufferSize
  · -- the filters' exceptions do not fit
    rw [if_pos hsecond, finishLocalSig, if_pos hsecond]
    refine ⟨_, rfl, .inr ⟨_, .inl rfl, hfirst, ?_, hlength⟩⟩
    intro other hother hfits
    rcases hother with rfl | ⟨k, -, rfl⟩
    · exact Nat.le_refl _
    · omega
  · rw [if_neg hsecond, finishLocalSig]
    rw [not_lt] at hsecond
    obtain ⟨k, hk, hbuffer, hcases⟩ := addRefStructs_spec c.isRefStruct tokens.refStructLocal
      c.methodTypeArguments (firstBuffer c tokens originalSignature locals ++
        tokens.exceptionLocal ++ tokens.exceptionLocal) hsecond
    rcases hcases with ⟨hall, -⟩ | ⟨hlt, hsize', hpassed⟩
    · rw [← refStructCount] at hall
      rw [hall] at hk
      omega
    · -- the local of the next argument does not fit
      rw [hsize', if_pos hpassed, hbuffer]
      refine ⟨_, rfl, .inr ⟨_, .inr ⟨k, Nat.le_of_lt hlt, rfl⟩, hk, ?_, ?_⟩⟩
      · intro other hother hfits
        rcases hother with rfl | ⟨j, -, rfl⟩
        · omega
        · have hj : j ≤ k := by
            by_contra hj
            have hmul : (k + 1) * tokens.refStructLocal.length ≤ j * tokens.refStructLocal.length :=
              Nat.mul_le_mul_right _ (not_le.mp hj)
            omega
          have hmul := Nat.mul_le_mul_right tokens.refStructLocal.length hj
          omega
      · rw [List.length_append, List.length_append, List.length_append, length_flatten_replicate]
        omega

/-- Where it fits, the whole buffer is written, and it is handed on if nothing is written
beyond the size. -/
theorem writeLocalSig_fits
    (hold : originalSignature ≠ [] →
      1 + (oldLocals originalSignature).2 ≤ originalSignature.length)
    (hsize : totalSize c tokens originalSignature locals ≤ signatureBufferSize) :
    (fullBuffer c tokens originalSignature locals).length
        = totalSize c tokens originalSignature locals + slack c originalSignature locals ∧
      writeLocalSig c tokens originalSignature locals =
        if slack c originalSignature locals ≠ 0 then
          failedAt c .sizeMismatch (fullBuffer c tokens originalSignature locals)
        else
          c.newLocalVarSig.elim
            (failedAt c .notEmitted (fullBuffer c tokens originalSignature locals))
            fun newLocalVarSig =>
              ⟨.modified, fullBuffer c tokens originalSignature locals, newLocalVarSig,
                some (indicesOf c tokens originalSignature locals)⟩ := by
  have hlength := length_firstBuffer c tokens originalSignature locals hold
  have hfull : (fullBuffer c tokens originalSignature locals).length
      = totalSize c tokens originalSignature locals + slack c originalSignature locals := by
    rw [fullBuffer, totalSize]
    simp only [List.length_append, length_flatten_replicate]
    omega
  refine ⟨hfull, ?_⟩
  rw [totalSize] at hsize
  have hfirst : ¬ firstSize c tokens originalSignature locals > signatureBufferSize := by omega
  have hsecond : firstSize c tokens originalSignature locals + 2 * tokens.exceptionLocal.length
      ≤ signatureBufferSize := by omega
  rw [writeLocalSig_eq, if_neg hfirst, addAdditionalLocals_eq, if_neg (not_lt.mpr hsecond),
    finishLocalSig]
  obtain ⟨k, -, hbuffer, hcases⟩ := addRefStructs_spec c.isRefStruct tokens.refStructLocal
    c.methodTypeArguments (firstBuffer c tokens originalSignature locals ++
      tokens.exceptionLocal ++ tokens.exceptionLocal) hsecond
  rcases hcases with ⟨hall, hsize'⟩ | ⟨hlt, -, hpassed⟩
  · -- all the locals are written
    rw [← refStructCount] at hall
    subst hall
    have hwritten : (addRefStructs c.isRefStruct tokens.refStructLocal c.methodTypeArguments
        (firstBuffer c tokens originalSignature locals ++ tokens.exceptionLocal ++
          tokens.exceptionLocal, firstSize c tokens originalSignature locals +
            2 * tokens.exceptionLocal.length)).1 ++ tokens.stateLocal
          = fullBuffer c tokens originalSignature locals := by
      rw [hbuffer, fullBuffer]
    rw [hwritten, hsize', if_neg (not_lt.mpr hsize), hfull, totalSize]
    by_cases hslack : slack c originalSignature locals = 0
    · rw [if_neg (by omega), if_neg (not_not.mpr hslack)]
      cases c.newLocalVarSig <;> rfl
    · rw [if_pos (by omega), if_pos hslack]
  · have hmul : (k + 1) * tokens.refStructLocal.length
        ≤ refStructCount c * tokens.refStructLocal.length := Nat.mul_le_mul_right _ hlt
    omega

end Sizes

end AutoInstrumentation.Signature
