import AutoInstrumentation.Lib.Bytes
import Mathlib.Data.List.Basic

/-!
# AutoInstrumentation.Signature.Grammar

Method signatures as the metadata standard (ECMA-335, II.23.2) defines them.

The syntax trees are the standard's productions `Type`, `Param`, `RetType`,
`MethodDefSig` and `MethodRefSig`, and `bytes` is the encoding of a tree. Compressed
numbers may be written in any width that holds them. `WellFormed` adds what the
productions say in words: the counts are the numbers of things counted, the
generic bit announces the generic parameter count, and only a vararg signature has
a sentinel.
-/

namespace AutoInstrumentation.Signature

open Lib

/-! ### Element types -/

def elementTypeVoid : Byte := 0x01
def elementTypePtr : Byte := 0x0f
def elementTypeByRef : Byte := 0x10
def elementTypeValueType : Byte := 0x11
def elementTypeClass : Byte := 0x12
def elementTypeVar : Byte := 0x13
def elementTypeArray : Byte := 0x14
def elementTypeGenericInst : Byte := 0x15
def elementTypeTypedByRef : Byte := 0x16
def elementTypeFnPtr : Byte := 0x1b
def elementTypeSzArray : Byte := 0x1d
def elementTypeMVar : Byte := 0x1e
def elementTypeCModReqd : Byte := 0x1f
def elementTypeCModOpt : Byte := 0x20
def elementTypeSentinel : Byte := 0x41

/-- `IMAGE_CEE_CS_CALLCONV_GENERIC`. -/
def callConvGeneric : Byte := 0x10

/-- `IMAGE_CEE_CS_CALLCONV_VARARG`, in the low four bits. -/
def callConvVarArg : Byte := 0x05

/-- The element types that stand alone. -/
inductive Primitive
  | boolean | char | i1 | u1 | i2 | u2 | i4 | u4 | i8 | u8 | r4 | r8 | string | i | u | object
  deriving DecidableEq, Repr

def Primitive.byte : Primitive → Byte
  | .boolean => 0x02
  | .char => 0x03
  | .i1 => 0x04
  | .u1 => 0x05
  | .i2 => 0x06
  | .u2 => 0x07
  | .i4 => 0x08
  | .u4 => 0x09
  | .i8 => 0x0a
  | .u8 => 0x0b
  | .r4 => 0x0c
  | .r8 => 0x0d
  | .string => 0x0e
  | .i => 0x18
  | .u => 0x19
  | .object => 0x1c

/-! ### Compressed numbers -/

/-- A compressed unsigned number, in one of its three widths. -/
inductive Number
  | one (value : ℕ) (bound : value < 2 ^ 7)
  | two (value : ℕ) (bound : value < 2 ^ 14)
  | four (value : ℕ) (bound : value < 2 ^ 29)
  deriving DecidableEq, Repr

namespace Number

def value : Number → ℕ
  | one n _ | two n _ | four n _ => n

def bytes : Number → List Byte
  | one n _ => [.ofNat 8 n]
  | two n _ => [.ofNat 8 (0x80 + n / 2 ^ 8), .ofNat 8 n]
  | four n _ => [.ofNat 8 (0xc0 + n / 2 ^ 24), .ofNat 8 (n / 2 ^ 16), .ofNat 8 (n / 2 ^ 8), .ofNat 8 n]

theorem bytes_ne_nil (n : Number) : n.bytes ≠ [] := by
  cases n <;> simp [bytes]

end Number

/-! ### Syntax trees -/

structure CustomMod where
  required : Bool
  token : Number

def CustomMod.bytes (m : CustomMod) : List Byte :=
  (if m.required then elementTypeCModReqd else elementTypeCModOpt) :: m.token.bytes

/-- Rank, sizes and lower bounds; a lower bound is the unsigned number whose
encoding is that of the signed one. -/
structure ArrayShape where
  rank : Number
  numSizes : Number
  sizes : List Number
  numLoBounds : Number
  loBounds : List Number

def ArrayShape.bytes (s : ArrayShape) : List Byte :=
  s.rank.bytes ++ s.numSizes.bytes ++ s.sizes.flatMap Number.bytes ++
    s.numLoBounds.bytes ++ s.loBounds.flatMap Number.bytes

mutual

/-- `Type`. -/
inductive SigType
  | primitive (p : Primitive)
  | valueType (token : Number)
  | classType (token : Number)
  | var (number : Number)
  | mvar (number : Number)
  | ptrVoid (mods : List CustomMod)
  | ptr (mods : List CustomMod) (target : SigType)
  | fnPtr (sig : MethodSig)
  | array (element : SigType) (shape : ArrayShape)
  | szArray (mods : List CustomMod) (element : SigType)
  | genericInst (isValueType : Bool) (token : Number) (genArgCount : Number)
      (args : List SigType)

/-- `Param`. -/
inductive Param
  | typedByRef (mods : List CustomMod)
  | type (mods : List CustomMod) (byRef : Bool) (type : SigType)

/-- `RetType`. -/
inductive RetType
  | void (mods : List CustomMod)
  | typedByRef (mods : List CustomMod)
  | type (mods : List CustomMod) (byRef : Bool) (type : SigType)

/-- `MethodDefSig`, and `MethodRefSig` with the parameters after the sentinel. -/
inductive MethodSig
  | mk (callConv : Byte) (genParamCount : Option Number) (paramCount : Number)
      (ret : RetType) (params varParams : List Param)

end

/-! ### Encodings -/

def modsBytes (mods : List CustomMod) : List Byte :=
  mods.flatMap CustomMod.bytes

def byRefBytes (byRef : Bool) : List Byte :=
  if byRef then [elementTypeByRef] else []

/-- The calling convention and the counts. -/
def headerBytes (callConv : Byte) (genParamCount : Option Number) (paramCount : Number) :
    List Byte :=
  callConv :: (genParamCount.elim [] Number.bytes ++ paramCount.bytes)

mutual

def SigType.bytes : SigType → List Byte
  | .primitive p => [p.byte]
  | .valueType token => elementTypeValueType :: token.bytes
  | .classType token => elementTypeClass :: token.bytes
  | .var number => elementTypeVar :: number.bytes
  | .mvar number => elementTypeMVar :: number.bytes
  | .ptrVoid mods => elementTypePtr :: (modsBytes mods ++ [elementTypeVoid])
  | .ptr mods target => elementTypePtr :: (modsBytes mods ++ target.bytes)
  | .fnPtr sig => elementTypeFnPtr :: sig.bytes
  | .array element shape => elementTypeArray :: (element.bytes ++ shape.bytes)
  | .szArray mods element => elementTypeSzArray :: (modsBytes mods ++ element.bytes)
  | .genericInst isValueType token genArgCount args =>
      elementTypeGenericInst :: (if isValueType then elementTypeValueType else elementTypeClass) ::
        (token.bytes ++ (genArgCount.bytes ++ typesBytes args))

def typesBytes : List SigType → List Byte
  | [] => []
  | t :: ts => t.bytes ++ typesBytes ts

def Param.bytes : Param → List Byte
  | .typedByRef mods => modsBytes mods ++ [elementTypeTypedByRef]
  | .type mods byRef type => modsBytes mods ++ (byRefBytes byRef ++ type.bytes)

def RetType.bytes : RetType → List Byte
  | .void mods => modsBytes mods ++ [elementTypeVoid]
  | .typedByRef mods => modsBytes mods ++ [elementTypeTypedByRef]
  | .type mods byRef type => modsBytes mods ++ (byRefBytes byRef ++ type.bytes)

def paramsBytes : List Param → List Byte
  | [] => []
  | p :: ps => p.bytes ++ paramsBytes ps

def MethodSig.bytes : MethodSig → List Byte
  | .mk callConv genParamCount paramCount ret params varParams =>
      headerBytes callConv genParamCount paramCount ++ (ret.bytes ++ (paramsBytes params ++
        if varParams.isEmpty then [] else elementTypeSentinel :: paramsBytes varParams))

end

theorem paramsBytes_eq (ps : List Param) : paramsBytes ps = (ps.map Param.bytes).flatten := by
  induction ps with
  | nil => simp [paramsBytes]
  | cons p ps ih => simp [paramsBytes, ih]

/-! ### Well-formedness -/

def ArrayShape.WellFormed (s : ArrayShape) : Prop :=
  s.numSizes.value = s.sizes.length ∧ s.numLoBounds.value = s.loBounds.length

mutual

def SigType.WellFormed : SigType → Prop
  | .primitive _ | .valueType _ | .classType _ | .var _ | .mvar _ | .ptrVoid _ => True
  | .ptr _ target => target.WellFormed
  | .fnPtr sig => sig.WellFormed
  | .array element shape => element.WellFormed ∧ shape.WellFormed
  | .szArray _ element => element.WellFormed
  | .genericInst _ _ genArgCount args =>
      genArgCount.value = args.length ∧ typesWellFormed args

def typesWellFormed : List SigType → Prop
  | [] => True
  | t :: ts => t.WellFormed ∧ typesWellFormed ts

def Param.WellFormed : Param → Prop
  | .typedByRef _ => True
  | .type _ _ type => type.WellFormed

def RetType.WellFormed : RetType → Prop
  | .void _ | .typedByRef _ => True
  | .type _ _ type => type.WellFormed

def paramsWellFormed : List Param → Prop
  | [] => True
  | p :: ps => p.WellFormed ∧ paramsWellFormed ps

def MethodSig.WellFormed : MethodSig → Prop
  | .mk callConv genParamCount paramCount ret params varParams =>
      (callConv &&& callConvGeneric ≠ 0 ↔ genParamCount.isSome) ∧
      paramCount.value = params.length + varParams.length ∧
      (varParams ≠ [] → callConv &&& 0x0f = callConvVarArg) ∧
      ret.WellFormed ∧ paramsWellFormed params ∧ paramsWellFormed varParams

end

theorem typesWellFormed_iff {ts : List SigType} :
    typesWellFormed ts ↔ ∀ t ∈ ts, t.WellFormed := by
  induction ts with
  | nil => simp [typesWellFormed]
  | cons t ts ih => simp [typesWellFormed, ih]

theorem paramsWellFormed_iff {ps : List Param} :
    paramsWellFormed ps ↔ ∀ p ∈ ps, p.WellFormed := by
  induction ps with
  | nil => simp [paramsWellFormed]
  | cons p ps ih => simp [paramsWellFormed, ih]

/-! ### Spans

The positions the productions have in the encoding. -/

/-- A part of the signature blob (`TypeSignature`): where it starts, and its length. -/
structure TypeSignature where
  offset : ℕ
  length : ℕ
  deriving DecidableEq, Repr

/-- The spans of adjacent pieces, the first of which starts at `start`. -/
def spansFrom : ℕ → List (List Byte) → List TypeSignature
  | _, [] => []
  | start, bs :: bss => ⟨start, bs.length⟩ :: spansFrom (start + bs.length) bss

namespace MethodSig

def header : MethodSig → List Byte
  | .mk callConv genParamCount paramCount _ _ _ => headerBytes callConv genParamCount paramCount

def ret : MethodSig → RetType
  | .mk _ _ _ ret _ _ => ret

def params : MethodSig → List Param
  | .mk _ _ _ _ params _ => params

def varParams : MethodSig → List Param
  | .mk _ _ _ _ _ varParams => varParams

/-- The span of the return type. -/
def retSpan (σ : MethodSig) : TypeSignature :=
  ⟨σ.header.length, σ.ret.bytes.length⟩

/-- Where the parameters before the sentinel end. -/
def fixedEnd (σ : MethodSig) : ℕ :=
  σ.header.length + σ.ret.bytes.length + (paramsBytes σ.params).length

/-- The spans of the parameters. The sentinel is no parameter's. -/
def paramSpans (σ : MethodSig) : List TypeSignature :=
  spansFrom (σ.header.length + σ.ret.bytes.length) (σ.params.map Param.bytes) ++
    spansFrom (σ.fixedEnd + 1) (σ.varParams.map Param.bytes)

end MethodSig

/-- The spans follow one another, from `start` to `stop`, with no gap. -/
def Tiles : ℕ → List TypeSignature → ℕ → Prop
  | start, [], stop => start = stop
  | start, s :: ss, stop => s.offset = start ∧ Tiles (start + s.length) ss stop

theorem tiles_spansFrom (start : ℕ) (bss : List (List Byte)) :
    Tiles start (spansFrom start bss) (start + bss.flatten.length) := by
  induction bss generalizing start with
  | nil => rfl
  | cons bs bss ih =>
      refine ⟨rfl, ?_⟩
      rw [List.flatten_cons, List.length_append, ← Nat.add_assoc]
      exact ih (start + bs.length)

end AutoInstrumentation.Signature
