import AutoInstrumentation.Signature.ModifyLocalSigSizes

/-!
# AutoInstrumentation.Signature.ModifyLocalSigSound

The local-variable signature of a rewritten method as a signature of the grammar: the
original locals, encoded as they were, and behind them the added ones at the places that are
returned. A reference is no type argument, so that a method that returns one gets a
signature which is none of the grammar's.
-/

namespace AutoInstrumentation.Signature

open Lib Lib.Cursor

/-! ### The locals that are added -/

def RetType.isVoid : RetType → Bool
  | .void _ => true
  | .typedByRef _ => false
  | .type _ _ _ => false

def RetType.isByRef : RetType → Bool
  | .void _ => false
  | .typedByRef _ => false
  | .type _ byRef _ => byRef

/-- The local for the return value. -/
def returnLocals (ρ : RetType) : List (List Byte) := if ρ.isVoid then [] else [ρ.bytes]

/-- The local of type `CallTargetReturn`, or of the instance of `CallTargetReturn<>` for the
return type. -/
def CallTargetTokens.returnLocal (tokens : CallTargetTokens) (ρ : RetType) : List Byte :=
  if ρ.isVoid then
    elementTypeValueType :: corSigCompressToken tokens.getTargetVoidReturnTypeRef
  else
    elementTypeGenericInst :: elementTypeValueType ::
      (corSigCompressToken (tokens.callTargetReturnTypeRef.getD mdTypeRefNil) ++ 0x01 :: ρ.bytes)

/-- The encodings of the added locals. -/
def addedEncodings (c : LocalSigCall) (tokens : CallTargetTokens) (ρ : RetType) :
    List (List Byte) :=
  returnLocals ρ ++ tokens.exceptionLocal :: tokens.returnLocal ρ :: tokens.exceptionLocal ::
    tokens.exceptionLocal ::
      (List.replicate (refStructCount c) tokens.refStructLocal ++ [tokens.stateLocal])

/-- What is known of the pieces of the new signature. -/
structure NewLocals.For (locals : NewLocals) (tokens : CallTargetTokens) (ρ : RetType) : Prop where
  returnSignature : locals.returnSignature = (returnLocals ρ).flatten
  hasReturnValue : (returnLocals ρ).length = if locals.hasReturnValue then 1 else 0
  callTargetReturnSignature : locals.callTargetReturnSignature = tokens.returnLocal ρ

/-- The signature under the token of the return type is the one that was built. -/
theorem stored_returnLocal {c : LocalSigCall} {tokens : CallTargetTokens} {ρ : RetType}
    {stored : List Byte} (hvalue : ρ.isVoid = false) (hreturn : c.methodReturnValue = ρ.bytes)
    (h : c.metadata.getTypeSpecFromToken (c.getTargetReturnValueTypeRef tokens) = some stored) :
    stored = tokens.returnLocal ρ := by
  have hnil := c.metadata.typeSpec_nil
  rw [CallTargetTokens.returnLocal, hvalue, if_neg Bool.false_ne_true]
  cases href : tokens.callTargetReturnTypeRef with
  | none =>
      rw [LocalSigCall.getTargetReturnValueTypeRef, href] at h
      simp only [hnil] at h
      cases h
  | some callTargetReturnTypeRef =>
      rw [LocalSigCall.getTargetReturnValueTypeRef, href, hreturn] at h
      simp only at h
      split at h
      · rw [hnil] at h
        cases h
      · cases htoken : c.metadata.getTokenFromTypeSpec (elementTypeGenericInst ::
            elementTypeValueType ::
              (corSigCompressToken callTargetReturnTypeRef ++ 0x01 :: ρ.bytes)) with
        | none =>
            rw [htoken, Option.getD_none, hnil] at h
            cases h
        | some tk =>
            rw [htoken, Option.getD_some] at h
            rw [Option.getD_some]
            exact c.metadata.typeSpec_eq htoken h

theorem newLocalsOf_spec {c : LocalSigCall} {tokens : CallTargetTokens} {ρ : RetType}
    {locals : NewLocals} (hρ : ρ.Accepted) (hreturn : c.methodReturnValue = ρ.bytes)
    (h : newLocalsOf c tokens = some locals) : locals.For tokens ρ := by
  rw [newLocalsOf, hreturn] at h
  by_cases hvoid : (getElementTypeAndFlags ρ.bytes).2 = typeFlagVoid
  · rw [if_neg (not_not.mpr hvoid)] at h
    obtain rfl := Option.some.inj h
    obtain rfl := (getElementTypeAndFlags_eq_void_iff hρ).mp hvoid
    exact ⟨rfl, rfl, rfl⟩
  · rw [if_pos hvoid] at h
    have hvalue : ρ.isVoid = false := by
      cases ρ with
      | void mods =>
          have hmods : mods = [] := hρ
          subst hmods
          exact (hvoid ((getElementTypeAndFlags_eq_void_iff hρ).mpr rfl)).elim
      | typedByRef mods => rfl
      | type mods byRef t => rfl
    cases hspec : c.metadata.getTypeSpecFromToken (c.getTargetReturnValueTypeRef tokens) with
    | none =>
        simp only [hspec] at h
        cases h
    | some stored =>
        simp only [hspec] at h
        obtain rfl := Option.some.inj h
        refine ⟨?_, ?_, ?_⟩
        · simp [returnLocals, hvalue]
        · simp [returnLocals, hvalue]
        · exact stored_returnLocal hvalue hreturn hspec

/-! ### The new signature as a signature of the grammar -/

/-- A local of a class. -/
def classLocal (tk : MdToken) : LocalVar := .type [] false (.classType (tokenNumber tk))

/-- A local of a value type. -/
def valueLocal (tk : MdToken) : LocalVar := .type [] false (.valueType (tokenNumber tk))

theorem bytes_local (byRef : Bool) (t : SigType) :
    (LocalVar.type [] byRef t).bytes = byRefBytes byRef ++ t.bytes := by
  rw [LocalVar.bytes_eq_param rfl, LocalVar.param, Param.bytes, modsBytes, List.flatMap_nil,
    List.nil_append]

theorem bytes_classLocal (tk : MdToken) :
    (classLocal tk).bytes = elementTypeClass :: corSigCompressToken tk := by
  rw [classLocal, bytes_local, SigType.bytes, bytes_tokenNumber]
  rfl

theorem bytes_valueLocal (tk : MdToken) :
    (valueLocal tk).bytes = elementTypeValueType :: corSigCompressToken tk := by
  rw [valueLocal, bytes_local, SigType.bytes, bytes_tokenNumber]
  rfl

theorem wellFormed_classLocal (tk : MdToken) : (classLocal tk).WellFormed := by
  simp only [classLocal, LocalVar.WellFormed, LocalVar.param, Param.WellFormed, SigType.WellFormed]

theorem wellFormed_valueLocal (tk : MdToken) : (valueLocal tk).WellFormed := by
  simp only [valueLocal, LocalVar.WellFormed, LocalVar.param, Param.WellFormed, SigType.WellFormed]

/-- What is written for the return value are locals, unless it is returned by reference. -/
theorem exists_returnLocals (tokens : CallTargetTokens) {ρ : RetType} (hwf : ρ.WellFormed)
    (hρ : ρ.Accepted) (hbyRef : ρ.isByRef = false) :
    ∃ (returned : List LocalVar) (callTargetReturn : LocalVar),
      returned.map LocalVar.bytes = returnLocals ρ ∧ (∀ v ∈ returned, v.WellFormed) ∧
      callTargetReturn.bytes = tokens.returnLocal ρ ∧ callTargetReturn.WellFormed := by
  cases ρ with
  | void mods =>
      exact ⟨[], valueLocal tokens.getTargetVoidReturnTypeRef, rfl, by simp, bytes_valueLocal _,
        wellFormed_valueLocal _⟩
  | typedByRef mods => exact hρ.elim
  | type mods byRef t =>
      obtain ⟨rfl, -⟩ := hρ
      obtain rfl : byRef = false := hbyRef
      rw [RetType.WellFormed] at hwf
      have hbytes : (RetType.type [] false t).bytes = t.bytes := by
        rw [RetType.bytes]
        rfl
      refine ⟨[.type [] false t], .type [] false (.genericInst true
        (tokenNumber (tokens.callTargetReturnTypeRef.getD mdTypeRefNil)) (.one 1 (by decide)) [t]),
        ?_, ?_, ?_, ?_⟩
      · rw [List.map_singleton, bytes_local, returnLocals, hbytes]
        rfl
      · intro v hv
        rw [List.mem_singleton] at hv
        subst hv
        exact hwf
      · rw [bytes_local, SigType.bytes, bytes_tokenNumber, CallTargetTokens.returnLocal, hbytes,
          typesBytes, typesBytes, List.append_nil]
        rfl
      · exact ⟨rfl, hwf, trivial⟩

theorem exists_addedLocals (c : LocalSigCall) (tokens : CallTargetTokens) {ρ : RetType}
    (hwf : ρ.WellFormed) (hρ : ρ.Accepted) (hbyRef : ρ.isByRef = false) :
    ∃ added : List LocalVar, added.map LocalVar.bytes = addedEncodings c tokens ρ ∧
      ∀ v ∈ added, v.WellFormed := by
  obtain ⟨returned, callTargetReturn, hreturned, hreturnedWf, hcall, hcallWf⟩ :=
    exists_returnLocals tokens hwf hρ hbyRef
  refine ⟨returned ++ classLocal tokens.exTypeRef :: callTargetReturn ::
    classLocal tokens.exTypeRef :: classLocal tokens.exTypeRef ::
      (List.replicate (refStructCount c) (valueLocal tokens.callTargetRefStructTypeRef) ++
        [valueLocal tokens.callTargetStateTypeRef]), ?_, ?_⟩
  · simp only [List.map_append, List.map_cons, List.map_replicate, List.map_nil, hreturned, hcall,
      bytes_classLocal, bytes_valueLocal]
    rfl
  · intro v hv
    simp only [List.mem_append, List.mem_cons, List.mem_replicate, List.not_mem_nil,
      or_false] at hv
    rcases hv with hv | rfl | rfl | rfl | rfl | ⟨-, rfl⟩ | rfl
    · exact hreturnedWf v hv
    · exact wellFormed_classLocal _
    · exact hcallWf
    · exact wellFormed_classLocal _
    · exact wellFormed_classLocal _
    · exact wellFormed_valueLocal _
    · exact wellFormed_valueLocal _

/-- Compressed numbers with what follows them are told apart. -/
theorem number_append_inj {m n : Number} {bs cs : List Byte} (h : m.bytes ++ bs = n.bytes ++ cs) :
    m.value = n.value ∧ bs = cs := by
  have hm := parseNumber_reads m bs
  rw [h, parseNumber_reads n cs] at hm
  obtain ⟨hvalue, hrest⟩ := Prod.mk.inj (Option.some.inj hm)
  exact ⟨hvalue.symm, hrest.symm⟩

/-- A type that starts as an instance of a value type with one argument has a type there. -/
theorem not_byRef_argument {t : SigType} {isValueType : Byte} {n : Number} {bs : List Byte}
    (h : t.bytes = elementTypeGenericInst :: isValueType ::
      (n.bytes ++ 0x01 :: elementTypeByRef :: bs)) (ht : t.WellFormed) : False := by
  cases t with
  | genericInst isValue token genArgCount args =>
      rw [SigType.bytes] at h
      obtain ⟨-, hargs⟩ := number_append_inj (List.cons.inj (List.cons.inj h).2).2
      have hone : genArgCount.bytes ++ typesBytes args
          = (Number.one 1 (by decide)).bytes ++ elementTypeByRef :: bs := hargs
      obtain ⟨hcount, htypes⟩ := number_append_inj hone
      rw [SigType.WellFormed] at ht
      cases args with
      | nil =>
          rw [typesBytes] at htypes
          cases htypes
      | cons arg args =>
          obtain ⟨tail, harg⟩ := arg.bytes_eq
          rw [typesBytes, harg, List.cons_append] at htypes
          exact arg.head_ne.2.2.1 (List.cons.inj htypes).1
  | primitive p =>
      rw [SigType.bytes] at h
      cases (List.cons.inj h).2
  | _ =>
      rw [SigType.bytes] at h
      exact absurd (List.cons.inj h).1 (by decide)

/-- No local is an instance of `CallTargetReturn<>` for a reference. -/
theorem bytes_ne_returnLocal {tokens : CallTargetTokens} {ρ : RetType} (hρ : ρ.Accepted)
    (hbyRef : ρ.isByRef = true) {v : LocalVar} (hv : v.WellFormed) :
    v.bytes ≠ tokens.returnLocal ρ := by
  intro h
  cases ρ with
  | void mods => cases hbyRef
  | typedByRef mods => cases hbyRef
  | type mods byRef t =>
      obtain ⟨rfl, -⟩ := hρ
      obtain rfl : byRef = true := hbyRef
      have hreturn : tokens.returnLocal (.type [] true t) = elementTypeGenericInst ::
          elementTypeValueType ::
            ((tokenNumber (tokens.callTargetReturnTypeRef.getD mdTypeRefNil)).bytes ++
              0x01 :: elementTypeByRef :: t.bytes) := by
        rw [CallTargetTokens.returnLocal, RetType.bytes, bytes_tokenNumber]
        rfl
      rw [hreturn] at h
      cases hannotations : v.annotations with
      | cons annotation annotations =>
          cases annotation with
          | customMod mod =>
              rw [LocalVar.bytes_customMod hannotations, modsBytes_cons] at h
              have hhead := (List.cons.inj h).1
              have hmod := isCustomMod_byte mod
              rw [hhead] at hmod
              cases hmod
          | pinned =>
              rw [LocalVar.bytes_pinned hannotations] at h
              exact absurd (List.cons.inj h).1 (by decide)
      | nil =>
          cases v with
          | typedByRef annotations =>
              rw [LocalVar.bytes_eq_param hannotations, LocalVar.param, Param.bytes] at h
              cases h
          | type annotations byRef' t' =>
              obtain rfl : annotations = [] := hannotations
              rw [bytes_local] at h
              cases byRef' with
              | true => exact absurd (List.cons.inj h).1 (by decide)
              | false => exact not_byRef_argument h hv

/-! ### The original signature -/

/-- The locals of a method, which may have no signature. -/
def originalLocals (original : Option LocalVarSig) : List LocalVar :=
  original.elim [] LocalVarSig.locals

/-- The blob of a method's signature, empty if there is none. -/
def originalBytes (original : Option LocalVarSig) : List Byte := original.elim [] LocalVarSig.bytes

theorem oldLocals_of_wellFormed {σ : LocalVarSig} (hσ : σ.WellFormed) :
    oldLocals σ.bytes = (σ.locals.length, σ.count.bytes.length) := by
  have hbytes : σ.bytes
      = localVarSig :: (σ.count.bytes ++ (σ.locals.map LocalVar.bytes).flatten) := by
    rw [LocalVarSig.bytes, LocalVarSig.header, List.cons_append]
  rw [oldLocals, hbytes, List.isEmpty_cons, if_neg Bool.false_ne_true, List.tail_cons,
    corSigUncompressData_of_reads (uncompressData_reads σ.count), Option.getD_some, hσ.count]

/-- What the size computations know of a valid original signature. -/
structure KnowsOriginal (original : Option LocalVarSig) : Prop where
  count : (oldLocals (originalBytes original)).1 = (originalLocals original).length
  room : originalBytes original ≠ [] →
    1 + (oldLocals (originalBytes original)).2 ≤ (originalBytes original).length
  copied : (originalBytes original).drop (1 + (oldLocals (originalBytes original)).2)
    = ((originalLocals original).map LocalVar.bytes).flatten

theorem knowsOriginal {original : Option LocalVarSig}
    (hwf : ∀ σ, original = some σ → σ.WellFormed) : KnowsOriginal original := by
  cases original with
  | none => exact ⟨rfl, fun h => (h rfl).elim, rfl⟩
  | some σ =>
      have hold := oldLocals_of_wellFormed (hwf σ rfl)
      have hheader : 1 + σ.count.bytes.length = σ.header.length := by
        rw [LocalVarSig.header, List.length_cons, Nat.add_comm]
      refine ⟨?_, fun _ => ?_, ?_⟩
      · show (oldLocals σ.bytes).1 = σ.locals.length
        rw [hold]
      · show 1 + (oldLocals σ.bytes).2 ≤ σ.bytes.length
        rw [hold, hheader, LocalVarSig.bytes, List.length_append]
        exact Nat.le_add_right _ _
      · show σ.bytes.drop (1 + (oldLocals σ.bytes).2) = (σ.locals.map LocalVar.bytes).flatten
        rw [hold, hheader, LocalVarSig.bytes, List.drop_left]

/-- Every local has a byte. -/
theorem length_le_flatten (locals : List LocalVar) :
    locals.length ≤ ((locals.map LocalVar.bytes).flatten).length := by
  induction locals with
  | nil => exact Nat.le_refl 0
  | cons v vs ih =>
      have hpos := List.length_pos_iff.mpr v.bytes_ne_nil
      rw [List.map_cons, List.flatten_cons, List.length_append, List.length_cons]
      omega

/-! ### The result -/

/-- `index` is the place of an added local with this encoding. -/
def Denotes (σ : LocalVarSig) (originals index : ℕ) (encoding : List Byte) : Prop :=
  originals ≤ index ∧ (σ.locals[index]?).map LocalVar.bytes = some encoding

/-- The buffer is the signature of the original locals followed by the added ones, and the
indices are those of the added locals. -/
structure IsNewSignature (c : LocalSigCall) (tokens : CallTargetTokens) (ρ : RetType)
    (originals : List LocalVar) (i : LocalIndices) (σ : LocalVarSig) : Prop where
  wellFormed : σ.WellFormed
  locals : ∃ added, σ.locals = originals ++ added ∧
    added.map LocalVar.bytes = addedEncodings c tokens ρ
  returnValue : if ρ.isVoid then i.returnValueIndex = noIndex
    else Denotes σ originals.length i.returnValueIndex ρ.bytes
  exception : Denotes σ originals.length i.exceptionIndex tokens.exceptionLocal
  callTargetReturn : Denotes σ originals.length i.callTargetReturnIndex (tokens.returnLocal ρ)
  additional : i.additionalLocalIndices.length = c.getAdditionalLocalsCount ∧
    ∀ j index, i.additionalLocalIndices[j]? = some index → Denotes σ originals.length index
      (if j < 2 then tokens.exceptionLocal else tokens.refStructLocal)
  state : Denotes σ originals.length i.callTargetStateIndex tokens.stateLocal

theorem addedEncodings_length (c : LocalSigCall) {tokens : CallTargetTokens} {ρ : RetType}
    {locals : NewLocals} (hlocals : locals.For tokens ρ) :
    (addedEncodings c tokens ρ).length = addedLocalsCount c locals := by
  rw [addedEncodings, addedLocalsCount, LocalSigCall.getAdditionalLocalsCount, variableNumber,
    ← refStructCount, ← hlocals.hasReturnValue]
  simp only [List.length_append, List.length_cons, List.length_replicate, List.length_nil]
  omega

/-- An added local stands behind the original ones. -/
theorem denotes_added {σ : LocalVarSig} {originals added : List LocalVar}
    (hσ : σ.locals = originals ++ added) {k index : ℕ} {encoding : List Byte}
    (hindex : index = originals.length + k)
    (hk : (added.map LocalVar.bytes)[k]? = some encoding) :
    Denotes σ originals.length index encoding := by
  subst hindex
  refine ⟨Nat.le_add_right _ _, ?_⟩
  rw [hσ, List.getElem?_append_right (Nat.le_add_right _ _), Nat.add_sub_cancel_left,
    ← List.getElem?_map, hk]

/-- The encodings behind the one for the return value. -/
theorem addedEncodings_getElem (c : LocalSigCall) (tokens : CallTargetTokens) (ρ : RetType)
    (k : ℕ) : (addedEncodings c tokens ρ)[(returnLocals ρ).length + k]? =
      (tokens.exceptionLocal :: tokens.returnLocal ρ :: tokens.exceptionLocal ::
        tokens.exceptionLocal :: (List.replicate (refStructCount c) tokens.refStructLocal ++
          [tokens.stateLocal]))[k]? := by
  rw [addedEncodings, List.getElem?_append_right (Nat.le_add_right _ _), Nat.add_sub_cancel_left]

theorem addedEncodings_additional (c : LocalSigCall) (tokens : CallTargetTokens) (ρ : RetType)
    {j : ℕ} (hj : j < c.getAdditionalLocalsCount) :
    (addedEncodings c tokens ρ)[(returnLocals ρ).length + (2 + j)]?
      = some (if j < 2 then tokens.exceptionLocal else tokens.refStructLocal) := by
  rw [addedEncodings_getElem]
  rw [LocalSigCall.getAdditionalLocalsCount, ← refStructCount] at hj
  rcases j with _ | _ | j
  · rfl
  · rfl
  · have hcount : j < refStructCount c := by omega
    rw [if_neg (by omega), show 2 + (j + 1 + 1) = j + 4 by omega]
    simp only [List.getElem?_cons_succ]
    rw [List.getElem?_append_left (by rw [List.length_replicate]; exact hcount),
      List.getElem?_replicate, if_pos hcount]

theorem addedEncodings_state (c : LocalSigCall) (tokens : CallTargetTokens) (ρ : RetType) :
    (addedEncodings c tokens ρ)[(returnLocals ρ).length + (refStructCount c + 4)]?
      = some tokens.stateLocal := by
  rw [addedEncodings_getElem]
  simp only [List.getElem?_cons_succ]
  rw [List.getElem?_append_right (by rw [List.length_replicate]), List.length_replicate,
    Nat.sub_self]
  rfl

section Result

variable {c : LocalSigCall} {tokens : CallTargetTokens} {original : Option LocalVarSig}
  {ρ : RetType} {locals : NewLocals}

/-- The new signature, where its locals can be counted. -/
def newSignature (c : LocalSigCall) (original : Option LocalVarSig) (locals : NewLocals)
    (added : List LocalVar)
    (hcount : newLocalsCount c (originalBytes original) locals < 2 ^ 29) : LocalVarSig :=
  ⟨.shortest _ hcount, originalLocals original ++ added⟩

theorem newLocalsCount_eq (horiginal : KnowsOriginal original) :
    newLocalsCount c (originalBytes original) locals
      = addedLocalsCount c locals + (originalLocals original).length := by
  rw [newLocalsCount, horiginal.count]

/-- The buffer is the encoding of the new signature. -/
theorem fullBuffer_eq (horiginal : KnowsOriginal original) (hlocals : locals.For tokens ρ)
    {added : List LocalVar} (hadded : added.map LocalVar.bytes = addedEncodings c tokens ρ)
    (hcount : newLocalsCount c (originalBytes original) locals < 2 ^ 29) :
    fullBuffer c tokens (originalBytes original) locals
      = (newSignature c original locals added hcount).bytes := by
  rw [newSignature, LocalVarSig.bytes, LocalVarSig.header, List.map_append, List.flatten_append,
    hadded, ← corSigCompressData_eq hcount, fullBuffer, firstBuffer, newLocalsBuffer,
    horiginal.copied, hlocals.returnSignature, hlocals.callTargetReturnSignature, addedEncodings]
  simp only [List.flatten_append, List.flatten_cons, List.flatten_nil, List.append_nil,
    List.append_assoc, List.cons_append]

/-- The indices denote the added locals of the new signature. -/
theorem isNewSignature (horiginal : KnowsOriginal original)
    (hwf : ∀ v ∈ originalLocals original, v.WellFormed) (hlocals : locals.For tokens ρ)
    {added : List LocalVar} (hadded : added.map LocalVar.bytes = addedEncodings c tokens ρ)
    (haddedWf : ∀ v ∈ added, v.WellFormed)
    (hcount : newLocalsCount c (originalBytes original) locals < 2 ^ 29) :
    IsNewSignature c tokens ρ (originalLocals original)
      (indicesOf c tokens (originalBytes original) locals)
      (newSignature c original locals added hcount) := by
  have hnew : newLocalsCount c (originalBytes original) locals
      = addedLocalsCount c locals + (originalLocals original).length :=
    newLocalsCount_eq horiginal
  have hadds : c.getAdditionalLocalsCount = 2 + refStructCount c := rfl
  have hreturned := hlocals.hasReturnValue
  have hσ : (newSignature c original locals added hcount).locals
      = originalLocals original ++ added := rfl
  rw [addedLocalsCount, variableNumber, ← hreturned] at hnew
  constructor
  case wellFormed =>
    refine ⟨?_, ?_⟩
    · have hlength := congrArg List.length hadded
      rw [List.length_map, addedEncodings_length c hlocals] at hlength
      rw [newSignature, Number.value_shortest, List.length_append, hlength,
        newLocalsCount_eq horiginal, Nat.add_comm]
    · intro v hv
      rcases List.mem_append.mp hv with hv | hv
      · exact hwf v hv
      · exact haddedWf v hv
  case locals => exact ⟨added, hσ, hadded⟩
  case returnValue =>
    simp only [indicesOf]
    cases hvoid : ρ.isVoid with
    | true =>
        have hnone : locals.hasReturnValue = false := by
          rw [returnLocals, hvoid, if_pos rfl, List.length_nil] at hreturned
          cases hvalue : locals.hasReturnValue with
          | false => rfl
          | true => simp [hvalue] at hreturned
        rw [hnone]
        rfl
    | false =>
        have hvalue : locals.hasReturnValue = true := by
          rw [returnLocals, hvoid, if_neg Bool.false_ne_true] at hreturned
          cases hvalue : locals.hasReturnValue with
          | true => rfl
          | false => simp [hvalue] at hreturned
        rw [hvalue, if_neg Bool.false_ne_true, if_pos rfl]
        rw [hvalue, if_pos rfl] at hreturned
        refine denotes_added hσ (k := 0) ?_ ?_
        · rw [hnew, hreturned, variableNumber]
          omega
        · rw [hadded, addedEncodings, returnLocals, hvoid]
          rfl
  case exception =>
    refine denotes_added hσ (k := (returnLocals ρ).length + 0) ?_ ?_
    · simp only [indicesOf, hnew, variableNumber]
      omega
    · rw [hadded, addedEncodings_getElem]
      rfl
  case callTargetReturn =>
    refine denotes_added hσ (k := (returnLocals ρ).length + 1) ?_ ?_
    · simp only [indicesOf, hnew, variableNumber]
      omega
    · rw [hadded, addedEncodings_getElem]
      rfl
  case additional =>
    refine ⟨by simp [indicesOf], ?_⟩
    intro j index hj
    simp only [indicesOf, List.getElem?_map, Option.map_eq_some_iff] at hj
    obtain ⟨i, hi, rfl⟩ := hj
    obtain ⟨hlt, rfl⟩ : j < c.getAdditionalLocalsCount ∧ i = j := by
      rw [List.getElem?_eq_some_iff] at hi
      obtain ⟨hlt, heq⟩ := hi
      rw [List.length_range] at hlt
      rw [List.getElem_range] at heq
      exact ⟨hlt, heq.symm⟩
    refine denotes_added hσ (k := (returnLocals ρ).length + (2 + i)) ?_ ?_
    · rw [hnew, variableNumber]
      omega
    · rw [hadded, addedEncodings_additional c tokens ρ hlt]
  case state =>
    refine denotes_added hσ (k := (returnLocals ρ).length + (refStructCount c + 4)) ?_ ?_
    · simp only [indicesOf, hnew]
      omega
    · rw [hadded, addedEncodings_state]

/-- Nothing is counted past the width of a compressed number where the signature fits. -/
theorem newLocalsCount_lt (horiginal : KnowsOriginal original)
    (hfits : totalSize c tokens (originalBytes original) locals ≤ signatureBufferSize) :
    newLocalsCount c (originalBytes original) locals < 2 ^ 29 := by
  have hlength := length_firstBuffer c tokens (originalBytes original) locals horiginal.room
  have hslack : slack c (originalBytes original) locals ≤ 3 := by
    rw [slack]
    split
    · have hwidth := length_corSigCompressData_le
        (newLocalsCount c (originalBytes original) locals)
      rw [newLocalsBuffer]
      omega
    · omega
  have hfirst : (originalLocals original).length
      ≤ (firstBuffer c tokens (originalBytes original) locals).length := by
    have hlocals := length_le_flatten (originalLocals original)
    rw [← horiginal.copied] at hlocals
    rw [firstBuffer]
    simp only [List.length_append, List.length_cons]
    omega
  have hrefStruct : refStructCount c * 2 ≤ refStructCount c * tokens.refStructLocal.length := by
    refine Nat.mul_le_mul_left _ ?_
    rw [CallTargetTokens.refStructLocal, List.length_cons]
    exact Nat.succ_le_succ (length_corSigCompressToken_pos _)
  have hadds : c.getAdditionalLocalsCount = 2 + refStructCount c := rfl
  have hone : (if locals.hasReturnValue then 1 else 0) ≤ 1 := by split <;> omega
  rw [totalSize, signatureBufferSize] at hfits
  rw [newLocalsCount_eq horiginal, addedLocalsCount, variableNumber]
  omega

theorem originalBytes_isEmpty (original : Option LocalVarSig) :
    (originalBytes original).isEmpty = original.isNone := by
  cases original with
  | none => rfl
  | some σ => rfl

/-- A method that has locals leaves no slack. -/
theorem slack_of_some {σ : LocalVarSig} (horiginal : original = some σ) :
    slack c (originalBytes original) locals = 0 := by
  rw [slack, originalBytes_isEmpty, horiginal]
  rfl

/-- A method without locals leaves as much slack as its count is wider than a byte. -/
theorem slack_of_none (horiginal : original = none) :
    slack c (originalBytes original) locals =
      if addedLocalsCount c locals ≤ 127 then 0
      else if addedLocalsCount c locals ≤ 16383 then 1 else 3 := by
  subst horiginal
  have hcount : newLocalsCount c (originalBytes none) locals = addedLocalsCount c locals := rfl
  rw [slack, originalBytes_isEmpty, Option.isNone_none, if_pos rfl, newLocalsBuffer, hcount,
    corSigCompressData]
  by_cases hone : addedLocalsCount c locals ≤ 127
  · rw [if_pos hone, if_pos hone]
    rfl
  · rw [if_neg hone, if_neg hone]
    by_cases htwo : addedLocalsCount c locals ≤ 16383
    · rw [if_pos htwo, if_pos htwo]
      rfl
    · rw [if_neg htwo, if_neg htwo]
      rfl

end Result

/-! ### Calls -/

namespace LocalSigCall

variable (c : LocalSigCall) (tokens : CallTargetTokens) (original : Option LocalVarSig)
  (locals : NewLocals) (ρ : RetType)

/-- What the callers promise: the signature of the method, if it has one, is well formed, and
the return type is one that `ParseRetType` has accepted. -/
structure Valid : Prop where
  absent : original = none → c.tkLocalVarSig = mdTokenNil
  present : ∀ σ, original = some σ → c.tkLocalVarSig ≠ mdTokenNil ∧ σ.WellFormed ∧
    ∀ signature, c.metadata.getSigFromToken c.tkLocalVarSig = some signature → signature = σ.bytes
  returnValue : c.methodReturnValue = ρ.bytes
  wellFormed : ρ.WellFormed
  accepted : parseRetType ρ.bytes = some ((), [])

/-- The call comes to the computation of the sizes. -/
structure Reaches : Prop where
  hasTokens : c.tokens = some tokens
  hasSignature : (if c.tkLocalVarSig ≠ mdTokenNil then c.metadata.getSigFromToken c.tkLocalVarSig
    else some []) = some (originalBytes original)
  notModified : isAlreadyModified tokens.callTargetStateTypeRef (originalBytes original) = false
  hasLocals : newLocalsOf c tokens = some locals

/-- More than 127 locals are added to a method that has none, so that their count takes more
than the one byte that the size has for it. That shows where the locals fit the buffer, and
also where they do not, if four bytes of count stand before a buffer that is full up to a
state of two bytes. -/
def Mismeasures : Prop :=
  original = none ∧ 127 < addedLocalsCount c locals ∧
    (totalSize c tokens (originalBytes original) locals ≤ signatureBufferSize ∨
      (16383 < addedLocalsCount c locals ∧ tokens.stateLocal.length = 2 ∧
        IsChecked c tokens (originalBytes original) locals signatureBufferSize))

/-- The method returns a reference, for which there is no instance of `CallTargetReturn<>`,
and nothing keeps the signature from being emitted. -/
def ReturnsReference : Prop :=
  ρ.isByRef = true ∧ totalSize c tokens (originalBytes original) locals ≤ signatureBufferSize ∧
    c.newLocalVarSig.isSome = true

/-- What is asked of a call: a success emits the signature of the original locals and the
added ones and returns the places of these; nothing is written past the buffer; the sizes
agree; a failure keeps the token. -/
structure Correct : Prop where
  rewritten : ∀ tokens i, c.tokens = some tokens → (modifyLocalSig c).indices = some i →
    c.newLocalVarSig = some (modifyLocalSig c).tkLocalVarSig ∧
      ∃ σ, (modifyLocalSig c).buffer = σ.bytes ∧
        IsNewSignature c tokens ρ (originalLocals original) i σ
  bounded : (modifyLocalSig c).buffer.length ≤ signatureBufferSize
  sized : (modifyLocalSig c).exit ≠ .sizeMismatch
  kept : (modifyLocalSig c).indices = none → (modifyLocalSig c).tkLocalVarSig = c.tkLocalVarSig

variable {c tokens original locals ρ}

theorem modifyLocalSig_of_reaches (h : c.Reaches tokens original locals) :
    modifyLocalSig c = writeLocalSig c tokens (originalBytes original) locals := by
  rw [modifyLocalSig, h.hasTokens]
  simp only [h.hasSignature, h.notModified, h.hasLocals]
  rfl

/-- Where the call is given up before, it leaves everything as it was. -/
theorem modifyLocalSig_of_not_reaches (hvalid : c.Valid original ρ)
    (h : ∀ tokens locals, ¬ c.Reaches tokens original locals) :
    ∃ exit, exit ≠ .sizeMismatch ∧ modifyLocalSig c = failedAt c exit [] := by
  rw [modifyLocalSig]
  cases htokens : c.tokens with
  | none => exact ⟨.noTokens, by decide, rfl⟩
  | some tokens =>
      simp only
      cases hsignature : (if c.tkLocalVarSig ≠ mdTokenNil then
          c.metadata.getSigFromToken c.tkLocalVarSig else some []) with
      | none => exact ⟨.noOriginalSignature, by decide, rfl⟩
      | some signature =>
          simp only
          have hbytes : signature = originalBytes original := by
            cases original with
            | none =>
                rw [if_neg (not_not.mpr (hvalid.absent rfl))] at hsignature
                exact (Option.some.inj hsignature).symm
            | some σ =>
                obtain ⟨hne, -, hstored⟩ := hvalid.present σ rfl
                rw [if_pos hne] at hsignature
                exact hstored signature hsignature
          subst hbytes
          cases hmodified : isAlreadyModified tokens.callTargetStateTypeRef
              (originalBytes original) with
          | true => exact ⟨.alreadyModified, by decide, rfl⟩
          | false =>
              rw [if_neg Bool.false_ne_true]
              cases hlocals : newLocalsOf c tokens with
              | none => exact ⟨.noTypeSpec, by decide, rfl⟩
              | some locals =>
                  exact (h tokens locals ⟨htokens, hsignature, hmodified, hlocals⟩).elim

theorem Valid.knowsOriginal (h : c.Valid original ρ) : KnowsOriginal original :=
  Signature.knowsOriginal fun σ hσ => (h.present σ hσ).2.1

theorem Valid.isAccepted (h : c.Valid original ρ) : ρ.Accepted :=
  (parseRetType_takes ρ h.wellFormed [] () []
    (by rw [List.append_nil]; exact h.accepted)).2

theorem Valid.locals_wellFormed (h : c.Valid original ρ) :
    ∀ v ∈ originalLocals original, v.WellFormed := by
  cases horiginal : original with
  | none => exact fun v hv => by cases hv
  | some σ => exact (h.present σ horiginal).2.1.locals

/-- There is slack in a method without locals to which more than 127 are added. -/
theorem slack_eq_zero_iff : slack c (originalBytes original) locals = 0 ↔
    ¬ (original = none ∧ 127 < addedLocalsCount c locals) := by
  cases horiginal : original with
  | some σ =>
      rw [← horiginal, slack_of_some horiginal, horiginal]
      simp
  | none =>
      rw [← horiginal, slack_of_none horiginal, horiginal]
      by_cases hone : addedLocalsCount c locals ≤ 127
      · rw [if_pos hone]
        exact ⟨fun _ h => absurd h.2 (not_lt.mpr hone), fun _ => rfl⟩
      · rw [if_neg hone]
        refine ⟨fun h => ?_, fun h => (h ⟨rfl, not_le.mp hone⟩).elim⟩
        split at h <;> cases h

/-- A call that does not fit is correct unless it writes past a buffer that is full. -/
theorem correct_iff_of_exceeds (hvalid : c.Valid original ρ)
    (hreaches : c.Reaches tokens original locals)
    (hsize : signatureBufferSize < totalSize c tokens (originalBytes original) locals) :
    c.Correct original ρ ↔ ¬ c.Mismeasures tokens original locals := by
  obtain ⟨buffer, houtcome, hbuffer⟩ :=
    writeLocalSig_exceeds c tokens _ locals hvalid.knowsOriginal.room hsize
  rw [← modifyLocalSig_of_reaches hreaches] at houtcome
  have hcorrect : c.Correct original ρ ↔ buffer.length ≤ signatureBufferSize := by
    refine ⟨fun h => ?_, fun h => ⟨fun _ i _ hi => ?_, ?_, ?_, fun _ => ?_⟩⟩
    · have hbounded := h.bounded
      rwa [houtcome] at hbounded
    · rw [houtcome] at hi
      cases hi
    · rwa [houtcome]
    · rw [houtcome]
      show LocalSigExit.exceedsBuffer ≠ .sizeMismatch
      decide
    · rw [houtcome]
      rfl
  rw [hcorrect]
  have hstate : 2 ≤ tokens.stateLocal.length :=
    Nat.succ_le_succ (length_corSigCompressToken_pos _)
  rcases hbuffer with ⟨rfl, hfirst⟩ | ⟨size, hchecked, hfits, hlargest, hlength⟩
  · -- nothing is written
    refine ⟨fun _ hmis => ?_, fun _ => Nat.zero_le _⟩
    rcases hmis.2.2 with hfit | ⟨-, -, hfull | ⟨k, -, hfull⟩⟩
    · omega
    · omega
    · omega
  · constructor
    · intro hle hmis
      obtain ⟨hnone, -, hcases⟩ := hmis
      rcases hcases with hfit | ⟨hwide, htwo, hfull⟩
      · omega
      · have hexact := hlargest _ hfull (Nat.le_refl _)
        rw [slack_of_none hnone, if_neg (by omega), if_neg (by omega)] at hlength
        omega
    · intro hnot
      by_contra hlong
      refine hnot ?_
      cases horiginal : original with
      | some σ =>
          rw [slack_of_some horiginal] at hlength
          omega
      | none =>
          rw [slack_of_none horiginal] at hlength
          by_cases hone : addedLocalsCount c locals ≤ 127
          · rw [if_pos hone] at hlength
            omega
          · by_cases htwo : addedLocalsCount c locals ≤ 16383
            · rw [if_neg hone, if_pos htwo] at hlength
              omega
            · rw [if_neg hone, if_neg htwo] at hlength
              have hexact : size = signatureBufferSize := by omega
              rw [hexact, horiginal] at hchecked
              exact ⟨rfl, by omega, .inr ⟨by omega, by omega, hchecked⟩⟩

/-- A call that fits is correct if its size is, and if it does not return a reference. -/
theorem correct_iff_of_fits (hvalid : c.Valid original ρ)
    (hreaches : c.Reaches tokens original locals)
    (hsize : totalSize c tokens (originalBytes original) locals ≤ signatureBufferSize) :
    c.Correct original ρ ↔ ¬ c.Mismeasures tokens original locals ∧
      ¬ c.ReturnsReference tokens original locals ρ := by
  have horiginal := hvalid.knowsOriginal
  obtain ⟨hlength, houtcome⟩ := writeLocalSig_fits c tokens _ locals horiginal.room hsize
  rw [← modifyLocalSig_of_reaches hreaches] at houtcome
  by_cases hslack : slack c (originalBytes original) locals = 0
  · have hmeasures : ¬ c.Mismeasures tokens original locals := fun hmis =>
      slack_eq_zero_iff.mp hslack ⟨hmis.1, hmis.2.1⟩
    rw [if_neg (not_not.mpr hslack)] at houtcome
    rw [hslack, Nat.add_zero] at hlength
    have hlocals := newLocalsOf_spec hvalid.isAccepted hvalid.returnValue hreaches.hasLocals
    have hcount := newLocalsCount_lt horiginal hsize
    cases hemitted : c.newLocalVarSig with
    | none =>
        rw [hemitted, Option.elim_none] at houtcome
        refine ⟨fun _ => ⟨hmeasures, fun href => ?_⟩, fun _ => ⟨fun _ i _ hi => ?_, ?_, ?_, ?_⟩⟩
        · have hsome := href.2.2
          rw [hemitted] at hsome
          cases hsome
        · rw [houtcome] at hi
          cases hi
        · rw [houtcome]
          exact le_of_eq_of_le hlength hsize
        · rw [houtcome]
          show LocalSigExit.notEmitted ≠ .sizeMismatch
          decide
        · intro _
          rw [houtcome]
          rfl
    | some newLocalVarSig =>
        rw [hemitted, Option.elim_some] at houtcome
        constructor
        · intro hcorrect
          refine ⟨hmeasures, fun href => ?_⟩
          -- the local of the return type would have to be one of the new signature
          obtain ⟨-, σ, -, hnew⟩ := hcorrect.rewritten tokens
            (indicesOf c tokens (originalBytes original) locals) hreaches.hasTokens
            (by rw [houtcome])
          obtain ⟨v, hv, hbytes⟩ := Option.map_eq_some_iff.mp hnew.callTargetReturn.2
          exact bytes_ne_returnLocal hvalid.isAccepted href.1
            (hnew.wellFormed.locals v (List.mem_of_getElem? hv)) hbytes
        · intro hcond
          have hbyRef : ρ.isByRef = false := by
            by_contra href
            refine hcond.2 ⟨by simpa using href, hsize, ?_⟩
            rw [hemitted]
            rfl
          obtain ⟨added, hadded, haddedWf⟩ :=
            exists_addedLocals c tokens hvalid.wellFormed hvalid.isAccepted hbyRef
          refine ⟨fun tokens' i htokens hi => ?_, ?_, ?_, fun hnone => ?_⟩
          · obtain rfl := Option.some.inj (hreaches.hasTokens.symm.trans htokens)
            rw [houtcome] at hi ⊢
            obtain rfl := Option.some.inj hi
            refine ⟨hemitted, newSignature c original locals added hcount,
              fullBuffer_eq horiginal hlocals hadded hcount, ?_⟩
            exact isNewSignature horiginal hvalid.locals_wellFormed hlocals hadded haddedWf hcount
          · rw [houtcome]
            exact le_of_eq_of_le hlength hsize
          · rw [houtcome]
            show LocalSigExit.modified ≠ .sizeMismatch
            decide
          · rw [houtcome] at hnone
            cases hnone
  · rw [if_pos hslack] at houtcome
    have hmis : c.Mismeasures tokens original locals := by
      have hnot := mt slack_eq_zero_iff.mpr hslack
      rw [not_not] at hnot
      exact ⟨hnot.1, hnot.2, .inl hsize⟩
    refine ⟨fun hcorrect => ?_, fun hcond => (hcond.1 hmis).elim⟩
    refine (hcorrect.sized ?_).elim
    rw [houtcome]
    rfl

/-- **The local signature of a rewritten method**: a call is correct exactly where it does not
mismeasure the count of a method without locals and does not return a reference. -/
theorem modifyLocalSig_correct_iff (hvalid : c.Valid original ρ) :
    c.Correct original ρ ↔ ∀ tokens locals, c.Reaches tokens original locals →
      ¬ c.Mismeasures tokens original locals ∧
        ¬ c.ReturnsReference tokens original locals ρ := by
  by_cases hreaches : ∃ tokens locals, c.Reaches tokens original locals
  · obtain ⟨tokens, locals, hreaches⟩ := hreaches
    have hunique : ∀ tokens' locals', c.Reaches tokens' original locals' →
        tokens' = tokens ∧ locals' = locals := by
      intro tokens' locals' h
      obtain rfl := Option.some.inj (h.hasTokens.symm.trans hreaches.hasTokens)
      exact ⟨rfl, Option.some.inj (h.hasLocals.symm.trans hreaches.hasLocals)⟩
    have hone : c.Correct original ρ ↔ ¬ c.Mismeasures tokens original locals ∧
        ¬ c.ReturnsReference tokens original locals ρ := by
      by_cases hsize : totalSize c tokens (originalBytes original) locals ≤ signatureBufferSize
      · exact correct_iff_of_fits hvalid hreaches hsize
      · rw [correct_iff_of_exceeds hvalid hreaches (not_le.mp hsize)]
        exact ⟨fun h => ⟨h, fun href => hsize href.2.1⟩, fun h => h.1⟩
    rw [hone]
    refine ⟨fun h tokens' locals' hreaches' => ?_, fun h => h tokens locals hreaches⟩
    obtain ⟨rfl, rfl⟩ := hunique tokens' locals' hreaches'
    exact h
  · rw [not_exists] at hreaches
    obtain ⟨exit, hexit, houtcome⟩ := modifyLocalSig_of_not_reaches hvalid fun tokens locals h =>
      hreaches tokens ⟨locals, h⟩
    refine ⟨fun _ tokens locals h => (hreaches tokens ⟨locals, h⟩).elim, fun _ =>
      ⟨fun _ i _ hi => ?_, ?_, ?_, fun _ => ?_⟩⟩
    · rw [houtcome] at hi
      cases hi
    · rw [houtcome]
      exact Nat.zero_le _
    · rw [houtcome]
      exact hexit
    · rw [houtcome]
      rfl

/-- `int` with one local of type `int`: the new signature is emitted. -/
theorem modifyLocalSig_correct_int :
    ∃ (c : LocalSigCall) (original : Option LocalVarSig) (ρ : RetType), c.Valid original ρ ∧
      (modifyLocalSig c).exit = .modified ∧ c.Correct original ρ := by
  let σ : LocalVarSig := ⟨.one 1 (by decide), [.type [] false (.primitive .i4)]⟩
  let ρ : RetType := .type [] false (.primitive .i4)
  let spec : List Byte := [0x15, 0x11, 0x0d, 0x01, 0x08]
  let c : LocalSigCall := {
    tokens := some ⟨0x01000001, 0x01000002, 0x01000004, none, some 0x01000003⟩
    metadata := {
      getSigFromToken := fun tk => if tk = 0x11000001 then some σ.bytes else none
      getTokenFromTypeSpec := fun signature => if signature = spec then some 0x1b000001 else none
      getTypeSpecFromToken := fun tk => if tk = 0x1b000001 then some spec else none
      typeSpec_nil := rfl
      typeSpec_eq := by
        intro signature stored tk htoken hstored
        split at htoken
        · rename_i hspec
          obtain rfl := Option.some.inj htoken
          exact (Option.some.inj hstored).symm.trans hspec.symm
        · cases htoken }
    isTypeByRefLike := fun _ => some false
    newLocalVarSig := some 0x11000002
    tkLocalVarSig := 0x11000001
    methodReturnValue := ρ.bytes
    methodTypeArguments := [] }
  have hvalid : c.Valid (some σ) ρ := by
    refine ⟨fun h => ?_, fun σ' hσ' => ?_, rfl, ?_, by decide⟩
    · cases h
    · obtain rfl := Option.some.inj hσ'
      refine ⟨by decide, ⟨rfl, ?_⟩, fun signature hsignature => ?_⟩
      · simp [σ, LocalVar.WellFormed, LocalVar.param, Param.WellFormed, SigType.WellFormed]
      · exact (Option.some.inj hsignature).symm
    · simp [ρ, RetType.WellFormed, SigType.WellFormed]
  refine ⟨c, some σ, ρ, hvalid, by decide, ?_⟩
  refine (modifyLocalSig_correct_iff hvalid).mpr fun tokens locals hreaches => ⟨fun hmis => ?_, ?_⟩
  · cases hmis.1
  · exact fun href => Bool.false_ne_true href.1

/-- A call for a method `void` without locals, all of whose `n` arguments are references to
structures. -/
def refStructCall (n : ℕ) : LocalSigCall where
  tokens := some ⟨0x01000001, 0x01000002, 0x01000004, some 0x01000003, none⟩
  metadata := ⟨fun _ => none, fun _ => none, fun _ => none, rfl, by
    intro signature stored tk h
    cases h⟩
  isTypeByRefLike := fun _ => some true
  newLocalVarSig := some 0x11000001
  tkLocalVarSig := mdTokenNil
  methodReturnValue := [elementTypeVoid]
  methodTypeArguments := List.replicate n [elementTypeValueType, 0x15]

theorem refStructCall_valid (n : ℕ) : (refStructCall n).Valid none (.void []) where
  absent _ := rfl
  present _ h := by cases h
  returnValue := rfl
  wellFormed := by rw [RetType.WellFormed]; trivial
  accepted := by decide

set_option maxRecDepth 4000 in
/-- With 123 such arguments the sizes do not agree; with 244 a byte is written past the
buffer. -/
theorem not_correct_refStructs :
    (¬ ∀ (c : LocalSigCall) (original : Option LocalVarSig) (ρ : RetType), c.Valid original ρ →
      c.Correct original ρ) ∧
    (modifyLocalSig (refStructCall 123)).exit = .sizeMismatch ∧
    (modifyLocalSig (refStructCall 244)).buffer.length = signatureBufferSize + 1 := by
  have hmismatch : (modifyLocalSig (refStructCall 123)).exit = .sizeMismatch := by decide
  refine ⟨fun h => ?_, hmismatch, by decide⟩
  have hcorrect := h (refStructCall 123) none (.void []) (refStructCall_valid 123)
  exact hcorrect.sized hmismatch

end LocalSigCall

end AutoInstrumentation.Signature
