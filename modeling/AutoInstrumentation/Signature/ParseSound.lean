import AutoInstrumentation.Signature.Parse

/-!
# AutoInstrumentation.Signature.ParseSound

What the signature parser consumes of a well-formed signature.

`ParseType` either rejects a type of the grammar or consumes exactly its encoding
(`parseType_takes`, by induction on the type). The one production it misreads lies
between two functions: `ParseParamOrLocal` steps over a `PTR` and calls `ParseType`
on what follows, and when that is a custom modifier, the byte of the modifier
passes for a type. So a parameter is consumed exactly unless it is a pointer to a
modified type, and then it is consumed short.
-/

namespace AutoInstrumentation.Signature

open Lib Lib.Cursor

/-! ### Numbers -/

theorem eq_ff_iff : ∀ b : Byte, b = 0xff ↔ b.toNat = 255 := by decide

theorem and_80_eq_zero_iff : ∀ b : Byte, b &&& 0x80 = 0 ↔ b.toNat < 128 := by decide

theorem and_40_eq_zero_iff : ∀ b : Byte, b &&& 0x40 = 0 ↔ b.toNat % 128 < 64 := by decide

theorem and_20_eq_zero_iff : ∀ b : Byte, b &&& 0x20 = 0 ↔ b.toNat % 64 < 32 := by decide

theorem toNat_and_3f : ∀ b : Byte, (b &&& 0x3f).toNat = b.toNat % 64 := by decide

theorem toNat_and_1f : ∀ b : Byte, (b &&& 0x1f).toNat = b.toNat % 32 := by decide

/-- Two bytes of a number, joined by the parser's shift. -/
theorem shiftLeft_or (hi lo k : ℕ) (h : lo < 2 ^ k) : hi <<< k ||| lo = hi * 2 ^ k + lo := by
  rw [← Nat.shiftLeft_add_eq_or_of_lt h, Nat.shiftLeft_eq]

/-- Four bytes of a number. -/
theorem shiftLeft_or_four (a b c d : ℕ) (hb : b < 2 ^ 8) (hc : c < 2 ^ 8) (hd : d < 2 ^ 8) :
    a <<< 24 ||| b <<< 16 ||| c <<< 8 ||| d = a * 2 ^ 24 + b * 2 ^ 16 + c * 2 ^ 8 + d := by
  have hab : a <<< 24 ||| b <<< 16 = (a * 2 ^ 8 + b) <<< 16 := by
    rw [shiftLeft_or a _ 24 (by rw [Nat.shiftLeft_eq]; omega), Nat.shiftLeft_eq, Nat.shiftLeft_eq]
    omega
  have habc : (a * 2 ^ 8 + b) <<< 16 ||| c <<< 8 = ((a * 2 ^ 8 + b) * 2 ^ 8 + c) <<< 8 := by
    rw [shiftLeft_or _ _ 16 (by rw [Nat.shiftLeft_eq]; omega), Nat.shiftLeft_eq, Nat.shiftLeft_eq]
    omega
  rw [hab, habc, shiftLeft_or _ d 8 hd]
  omega

/-- The parser reads every width of a compressed number. -/
theorem parseNumber_reads (n : Number) : Reads parseNumber n.bytes n.value := by
  intro rest
  cases n with
  | one n h =>
      have hb : (BitVec.ofNat 8 n).toNat = n := by
        rw [BitVec.toNat_ofNat]
        omega
      show (if _ then _ else _ : Cursor Byte ℕ) rest = _
      rw [if_neg (by rw [eq_ff_iff, hb]; omega), if_pos (by rw [and_80_eq_zero_iff, hb]; exact h), hb]
      rfl
  | two n h =>
      have hb : (BitVec.ofNat 8 (0x80 + n / 2 ^ 8)).toNat = 0x80 + n / 2 ^ 8 := by
        rw [BitVec.toNat_ofNat]
        omega
      show (if _ then _ else _ : Cursor Byte ℕ) _ = _
      rw [if_neg (by rw [eq_ff_iff, hb]; omega), if_neg (by rw [and_80_eq_zero_iff, hb]; omega)]
      show (if _ then _ else _ : Cursor Byte ℕ) rest = _
      rw [if_pos (by rw [and_40_eq_zero_iff, hb]; omega), toNat_and_3f, hb, BitVec.toNat_ofNat,
        shiftLeft_or _ _ 8 (by omega)]
      show some (_, rest) = some (n, rest)
      congr 2
      omega
  | four n h =>
      have hb : (BitVec.ofNat 8 (0xc0 + n / 2 ^ 24)).toNat = 0xc0 + n / 2 ^ 24 := by
        rw [BitVec.toNat_ofNat]
        omega
      show (if _ then _ else _ : Cursor Byte ℕ) _ = _
      rw [if_neg (by rw [eq_ff_iff, hb]; omega), if_neg (by rw [and_80_eq_zero_iff, hb]; omega)]
      show (if _ then _ else _ : Cursor Byte ℕ) _ = _
      rw [if_neg (by rw [and_40_eq_zero_iff, hb]; omega),
        if_neg (by rw [not_not, and_20_eq_zero_iff, hb]; omega)]
      show some (_, rest) = some (n, rest)
      rw [toNat_and_1f, hb]
      simp only [BitVec.toNat_ofNat]
      rw [shiftLeft_or_four _ _ _ _ (by omega) (by omega) (by omega)]
      congr 2
      omega

theorem parseTypeDefOrRefEncoded_takes (n : Number) :
    Takes parseTypeDefOrRefEncoded n.bytes fun _ => True :=
  (parseNumber_reads n).takes.bind_pure fun _ _ => trivial

/-! ### Fuel -/

theorem parseNumber_shrinks : Shrinks parseNumber := by
  refine shrinks_next.bind fun b1 => shrinks_ite shrinks_failure (shrinks_ite (shrinks_pure _) ?_)
  refine shrinks_next.bind fun b2 => shrinks_ite (shrinks_pure _) (shrinks_ite shrinks_failure ?_)
  exact shrinks_next.bind fun b3 => shrinks_next.bind fun b4 => shrinks_pure _

theorem parseTypeDefOrRefEncoded_shrinks : Shrinks parseTypeDefOrRefEncoded :=
  parseNumber_shrinks.bind fun _ => shrinks_pure _

theorem parseTypeBody_shrinks {p : Cursor Byte Unit} (hp : Shrinks p) (elemType : Byte) :
    Shrinks (parseTypeBody p elemType) := by
  have htoken : Shrinks (do let _ ← parseTypeDefOrRefEncoded : Cursor Byte Unit) :=
    parseTypeDefOrRefEncoded_shrinks.bind fun _ => shrinks_pure _
  have hnumber : Shrinks (do let _ ← parseNumber : Cursor Byte Unit) :=
    parseNumber_shrinks.bind fun _ => shrinks_pure _
  unfold parseTypeBody
  refine shrinks_ite (shrinks_pure _) (shrinks_ite shrinks_failure (shrinks_ite htoken
    (shrinks_ite htoken (shrinks_ite shrinks_failure (shrinks_ite shrinks_failure
    (shrinks_ite ?szArray (shrinks_ite ?genericInst (shrinks_ite hnumber (shrinks_ite hnumber
    (shrinks_pure _))))))))))
  case szArray => exact shrinks_peek.bind fun _ => shrinks_ite shrinks_failure hp
  case genericInst =>
    refine shrinks_next.bind fun _ => shrinks_ite shrinks_failure ?_
    exact parseTypeDefOrRefEncoded_shrinks.bind fun _ =>
      parseNumber_shrinks.bind fun number => hp.times number

theorem parseTypeFuel_shrinks (fuel : ℕ) : Shrinks (parseTypeFuel fuel) := by
  induction fuel with
  | zero => exact shrinks_failure
  | succ fuel ih => exact shrinks_next.bind fun elemType => parseTypeBody_shrinks ih elemType

theorem parseTypeBody_agree {n : ℕ} {p q : Cursor Byte Unit} (hp : Shrinks p)
    (h : AgreeUpTo n p q) (elemType : Byte) :
    AgreeUpTo n (parseTypeBody p elemType) (parseTypeBody q elemType) := by
  unfold parseTypeBody
  refine agree_ite (.refl n _) (agree_ite (.refl n _) (agree_ite (.refl n _)
    (agree_ite (.refl n _) (agree_ite (.refl n _) (agree_ite (.refl n _)
    (agree_ite ?szArray (agree_ite ?genericInst (.refl n _))))))))
  case szArray => exact .bind shrinks_peek fun _ => agree_ite (.refl n _) h
  case genericInst =>
    refine .bind shrinks_next fun _ => agree_ite (.refl n _) ?_
    exact .bind parseTypeDefOrRefEncoded_shrinks fun _ =>
      .bind parseNumber_shrinks fun number => h.times hp number

/-- Any fuel that covers the input does the same. -/
theorem parseTypeFuel_agree {n m : ℕ} (hnm : n ≤ m) :
    AgreeUpTo n (parseTypeFuel n) (parseTypeFuel m) := by
  induction n generalizing m with
  | zero =>
      intro bs hbs
      obtain rfl := List.length_eq_zero_iff.mp (Nat.le_zero.mp hbs)
      cases m <;> rfl
  | succ n ih =>
      obtain ⟨m, rfl⟩ := Nat.exists_eq_succ_of_ne_zero (Nat.ne_of_gt (Nat.lt_of_lt_of_le n.succ_pos hnm))
      exact .next fun elemType =>
        parseTypeBody_agree (parseTypeFuel_shrinks n) (ih (Nat.le_of_succ_le_succ hnm)) elemType

theorem parseType_shrinks : Shrinks parseType :=
  fun bs a r h => parseTypeFuel_shrinks bs.length bs a r h

/-- `ParseType` without the fuel. -/
theorem parseType_eq : parseType = parseByte >>= parseTypeBody parseType := by
  funext bs
  cases bs with
  | nil => rfl
  | cons b bs =>
      have hagree : AgreeUpTo bs.length (parseTypeFuel bs.length) parseType := fun cs hcs =>
        (parseTypeFuel_agree hcs cs (Nat.le_refl _)).symm
      exact parseTypeBody_agree (parseTypeFuel_shrinks _) hagree b bs (Nat.le_refl _)

/-! ### Types -/

/-- `ParseType` on a type whose first byte is known. -/
theorem parseType_takes_cons {elemType : Byte} {bs : List Byte} {Q : Unit → Prop}
    (h : Takes (parseTypeBody parseType elemType) bs Q) :
    Takes parseType (elemType :: bs) Q := by
  rw [parseType_eq]
  exact takes_next h

theorem isSimpleType_byte (p : Primitive) : isSimpleType p.byte = true := by
  cases p <;> rfl

theorem takes_token (token : Number) :
    Takes (do let _ ← parseTypeDefOrRefEncoded : Cursor Byte Unit) token.bytes fun _ => True :=
  (parseTypeDefOrRefEncoded_takes token).bind_pure fun _ _ => trivial

theorem takes_number (number : Number) :
    Takes (do let _ ← parseNumber : Cursor Byte Unit) number.bytes fun _ => True :=
  (parseNumber_reads number).takes.bind_pure fun _ _ => trivial

theorem isCustomMod_byte (m : CustomMod) :
    isCustomMod (if m.required then elementTypeCModReqd else elementTypeCModOpt) = true := by
  cases m.required <;> rfl

/-- The byte `Type` begins with. -/
def SigType.head : SigType → Byte
  | .primitive p => p.byte
  | .valueType _ => elementTypeValueType
  | .classType _ => elementTypeClass
  | .var _ => elementTypeVar
  | .mvar _ => elementTypeMVar
  | .ptrVoid _ | .ptr _ _ => elementTypePtr
  | .fnPtr _ => elementTypeFnPtr
  | .array _ _ => elementTypeArray
  | .szArray _ _ => elementTypeSzArray
  | .genericInst _ _ _ _ => elementTypeGenericInst

theorem SigType.bytes_eq (t : SigType) : ∃ bs, t.bytes = t.head :: bs := by
  cases t <;> exact ⟨_, by rw [SigType.bytes]; rfl⟩

/-- No type begins like something else that may stand in its place. -/
theorem SigType.head_ne (t : SigType) : isCustomMod t.head = false ∧
    t.head ≠ elementTypeTypedByRef ∧ t.head ≠ elementTypeByRef ∧ t.head ≠ elementTypeVoid ∧
    t.head ≠ elementTypeSentinel := by
  cases t with
  | primitive p => cases p <;> decide
  | _ =>
      simp only [SigType.head]
      decide

mutual

/-- The types that `ParseType` supports: no pointers, no arrays but `SZARRAY`, and that
without modifiers. -/
def SigType.Supported : SigType → Prop
  | .primitive _ => True
  | .valueType _ => True
  | .classType _ => True
  | .var _ => True
  | .mvar _ => True
  | .ptrVoid _ => False
  | .ptr _ _ => False
  | .fnPtr _ => False
  | .array _ _ => False
  | .szArray mods element => mods = [] ∧ element.Supported
  | .genericInst _ _ _ args => typesSupported args

def typesSupported : List SigType → Prop
  | [] => True
  | t :: ts => t.Supported ∧ typesSupported ts

end

mutual

/-- **Types.** `ParseType` rejects a type of the grammar, or supports it and consumes
exactly its encoding. -/
theorem parseType_takes_supported : (t : SigType) → t.WellFormed →
    Takes parseType t.bytes fun _ => t.Supported
  | .primitive p, _ => by
      rw [SigType.bytes]
      refine parseType_takes_cons ?_
      rw [parseTypeBody, if_pos (isSimpleType_byte p)]
      exact takes_pure (by simp only [SigType.Supported])
  | .valueType token, _ => by
      rw [SigType.bytes]
      exact parseType_takes_cons ((takes_token token).mono fun _ _ => by
        simp only [SigType.Supported])
  | .classType token, _ => by
      rw [SigType.bytes]
      exact parseType_takes_cons ((takes_token token).mono fun _ _ => by
        simp only [SigType.Supported])
  | .var number, _ => by
      rw [SigType.bytes]
      exact parseType_takes_cons ((takes_number number).mono fun _ _ => by
        simp only [SigType.Supported])
  | .mvar number, _ => by
      rw [SigType.bytes]
      exact parseType_takes_cons ((takes_number number).mono fun _ _ => by
        simp only [SigType.Supported])
  | .ptrVoid _, _ => by
      rw [SigType.bytes]
      exact parseType_takes_cons (takes_failure _ _)
  | .ptr _ _, _ => by
      rw [SigType.bytes]
      exact parseType_takes_cons (takes_failure _ _)
  | .fnPtr _, _ => by
      rw [SigType.bytes]
      exact parseType_takes_cons (takes_failure _ _)
  | .array _ _, _ => by
      rw [SigType.bytes]
      exact parseType_takes_cons (takes_failure _ _)
  | .szArray [] element, h => by
      rw [SigType.WellFormed] at h
      rw [SigType.bytes]
      refine parseType_takes_cons ?_
      obtain ⟨bs, hbs⟩ := element.bytes_eq
      have ih := parseType_takes_supported element h
      rw [SigType.Supported]
      rw [hbs] at ih ⊢
      refine takes_peek (f := fun b => if isCustomMod b then failure else parseType) ?_
      rw [element.head_ne.1, if_neg Bool.false_ne_true]
      exact ih.mono fun _ helement => ⟨rfl, helement⟩
  | .szArray (m :: mods) element, _ => by
      rw [SigType.bytes]
      refine parseType_takes_cons ?_
      refine takes_peek (f := fun b => if isCustomMod b then failure else parseType) ?_
      rw [if_pos (isCustomMod_byte m)]
      exact takes_failure _ _
  | .genericInst isValueType token genArgCount args, h => by
      rw [SigType.WellFormed] at h
      rw [SigType.bytes]
      refine parseType_takes_cons ?_
      refine takes_next (f := fun elemType =>
        if elemType ≠ elementTypeClass ∧ elemType ≠ elementTypeValueType then failure
        else do
          let _ ← parseTypeDefOrRefEncoded
          let number ← parseNumber
          times parseType number) ?_
      rw [if_neg (by cases isValueType <;> decide)]
      refine (parseTypeDefOrRefEncoded_takes token).bind fun _ _ => ?_
      refine (parseNumber_reads genArgCount).takes.bind fun number hnumber => ?_
      rw [hnumber, h.1, SigType.Supported]
      exact typesTakes args h.2

theorem typesTakes : (ts : List SigType) → typesWellFormed ts →
    Takes (times parseType ts.length) (typesBytes ts) fun _ => typesSupported ts
  | [], _ => takes_pure (by simp only [typesSupported])
  | t :: ts, h => by
      rw [typesWellFormed] at h
      rw [typesBytes, typesSupported]
      refine (parseType_takes_supported t h.1).bind fun _ ht => ?_
      exact (typesTakes ts h.2).mono fun _ hts => ⟨ht, hts⟩

end

theorem SigType.Supported.head_ne {t : SigType} (h : t.Supported) :
    t.head ≠ elementTypePtr := by
  cases t with
  | primitive p => cases p <;> decide
  | ptrVoid _ => rw [SigType.Supported] at h; exact h.elim
  | ptr _ _ => rw [SigType.Supported] at h; exact h.elim
  | _ =>
      simp only [SigType.head]
      decide

theorem parseType_takes (t : SigType) (ht : t.WellFormed) :
    Takes parseType t.bytes fun _ => True :=
  (parseType_takes_supported t ht).mono fun _ _ => trivial

/-! ### Parameters and return types -/

theorem takes_skip {b : Byte} {f : Unit → Cursor Byte Unit} {bs : List Byte}
    {Q : Unit → Prop} (h : Takes (f ()) bs Q) : Takes (skip b >>= f) (b :: bs) Q := by
  intro rest a r hr
  refine h rest a r ?_
  rw [bind_apply] at hr
  have hskip : skip b (b :: (bs ++ rest)) = some ((), bs ++ rest) := by
    show (if b = b then _ else _ : Cursor Byte Unit) _ = _
    rw [if_pos rfl]
    rfl
  rwa [List.cons_append, hskip] at hr

theorem takes_skip_ne {b c : Byte} {f : Unit → Cursor Byte Unit} {bs : List Byte}
    {Q : Unit → Prop} (hc : c ≠ b) (h : Takes (f ()) (c :: bs) Q) :
    Takes (skip b >>= f) (c :: bs) Q := by
  intro rest a r hr
  refine h rest a r ?_
  rw [bind_apply] at hr
  have hskip : skip b (c :: (bs ++ rest)) = some ((), c :: (bs ++ rest)) := by
    show (if c = b then _ else _ : Cursor Byte Unit) _ = _
    rw [if_neg hc]
    rfl
  rwa [List.cons_append, hskip] at hr

/-- The optional `BYREF` before a type. -/
theorem takes_skip_byRef {f : Unit → Cursor Byte Unit} {Q : Unit → Prop} (byRef : Bool)
    (t : SigType) (h : Takes (f ()) t.bytes Q) :
    Takes (skip elementTypeByRef >>= f) (byRefBytes byRef ++ t.bytes) Q := by
  cases byRef with
  | true => exact takes_skip h
  | false =>
      obtain ⟨bs, hbs⟩ := t.bytes_eq
      rw [hbs] at h
      rw [byRefBytes, if_neg Bool.false_ne_true, List.nil_append, hbs]
      exact takes_skip_ne t.head_ne.2.2.1 h

/-- The first byte of an optional `BYREF` and a type. -/
theorem byRefBytes_head (byRef : Bool) (t : SigType) : ∃ b bs, byRefBytes byRef ++ t.bytes = b :: bs ∧
    isCustomMod b = false ∧ b ≠ elementTypeTypedByRef ∧ b ≠ elementTypeVoid ∧
    b ≠ elementTypeSentinel := by
  cases byRef with
  | true => exact ⟨_, _, rfl, rfl, by decide, by decide, by decide⟩
  | false =>
      obtain ⟨bs, hbs⟩ := t.bytes_eq
      obtain ⟨hmod, htyped, -, hvoid, hsent⟩ := t.head_ne
      exact ⟨_, bs, hbs, hmod, htyped, hvoid, hsent⟩

theorem modsBytes_cons (m : CustomMod) (mods : List CustomMod) (bs : List Byte) :
    modsBytes (m :: mods) ++ bs =
      (if m.required then elementTypeCModReqd else elementTypeCModOpt) ::
        (m.token.bytes ++ (modsBytes mods ++ bs)) := by
  simp [modsBytes, CustomMod.bytes]

/-- Both parsers reject what begins with a custom modifier. -/
theorem parseParamOrLocal_mods (m : CustomMod) (mods : List CustomMod) (bs : List Byte)
    (Q : Unit → Prop) : Takes parseParamOrLocal (modsBytes (m :: mods) ++ bs) Q := by
  rw [modsBytes_cons]
  refine takes_peek ?_
  rw [if_pos (isCustomMod_byte m)]
  exact takes_failure _ _

theorem parseRetType_mods (m : CustomMod) (mods : List CustomMod) (bs : List Byte)
    (Q : Unit → Prop) : Takes parseRetType (modsBytes (m :: mods) ++ bs) Q := by
  rw [modsBytes_cons]
  refine takes_peek ?_
  rw [if_pos (isCustomMod_byte m)]
  exact takes_failure _ _

/-- The parameter is a pointer, or a reference to one, whose target carries custom
modifiers. -/
def Param.pointsToModified : Param → Bool
  | .type _ _ (.ptr (_ :: _) _) | .type _ _ (.ptrVoid (_ :: _)) => true
  | _ => false

/-- What a parameter's type is for `ParseParamOrLocal`: a supported type, or a pointer to
one or to `VOID`. -/
def SigType.SupportedParam : SigType → Prop
  | .ptrVoid _ => True
  | .ptr _ target => target.Supported
  | t => t.Supported

/-- Past an optional `PTR`, a parameter's type is consumed exactly. -/
theorem skipPtr_takes (t : SigType) (ht : t.WellFormed) {mods : List CustomMod} {byRef : Bool}
    (hnot : (Param.type mods byRef t).pointsToModified = false) :
    Takes (skip elementTypePtr >>= fun _ => parseType) t.bytes fun _ => t.SupportedParam := by
  have hother : t.head ≠ elementTypePtr →
      Takes (skip elementTypePtr >>= fun _ => parseType) t.bytes fun _ => t.Supported := by
    intro hne
    have h := parseType_takes_supported t ht
    obtain ⟨bs, hbs⟩ := t.bytes_eq
    rw [hbs] at h ⊢
    exact takes_skip_ne hne h
  cases t with
  | ptrVoid mods =>
      cases mods with
      | nil =>
          rw [SigType.bytes]
          have hvoid : Takes parseType [elementTypeVoid] fun _ => True :=
            parseType_takes_cons (takes_pure trivial)
          exact takes_skip hvoid
      | cons m mods => cases hnot
  | ptr mods target =>
      cases mods with
      | nil =>
          rw [SigType.WellFormed] at ht
          rw [SigType.bytes]
          exact takes_skip (parseType_takes_supported target ht)
      | cons m mods => cases hnot
  | primitive p => exact hother (by cases p <;> decide)
  | _ =>
      refine hother ?_
      simp only [SigType.head]
      decide

/-- The parameters that `ParseParamOrLocal` may accept. -/
def Param.Accepted : Param → Prop
  | .typedByRef _ => False
  | .type mods _ t => mods = [] ∧ t.SupportedParam

/-- **Parameters.** `ParseParamOrLocal` rejects a parameter or consumes exactly its
encoding, unless it points to a modified type. -/
theorem parseParamOrLocal_takes_accepted (p : Param) (hp : p.WellFormed)
    (hnot : p.pointsToModified = false) :
    Takes parseParamOrLocal p.bytes fun _ => p.Accepted := by
  cases p with
  | typedByRef mods =>
      rw [Param.bytes]
      cases mods with
      | nil =>
          refine takes_peek ?_
          rw [if_neg (by decide), if_pos rfl]
          exact takes_failure _ _
      | cons m mods => exact parseParamOrLocal_mods m mods _ _
  | type mods byRef t =>
      rw [Param.WellFormed] at hp
      rw [Param.bytes]
      cases mods with
      | nil =>
          rw [modsBytes, List.flatMap_nil, List.nil_append]
          have htype := (skipPtr_takes t hp hnot).mono
            (R := fun _ => (Param.type [] byRef t).Accepted) fun _ ht => ⟨rfl, ht⟩
          have h := takes_skip_byRef (f := fun _ => skip elementTypePtr >>= fun _ => parseType) byRef t
            htype
          obtain ⟨b, bs, hbs, hmod, htyped, -, -⟩ := byRefBytes_head byRef t
          rw [hbs] at h ⊢
          refine takes_peek ?_
          rw [if_neg (by simp [hmod]), if_neg htyped]
          exact h
      | cons m mods => exact parseParamOrLocal_mods m mods _ _

theorem parseParamOrLocal_takes (p : Param) (hp : p.WellFormed)
    (hnot : p.pointsToModified = false) : Takes parseParamOrLocal p.bytes fun _ => True :=
  (parseParamOrLocal_takes_accepted p hp hnot).mono fun _ _ => trivial

/-- No pointer is accepted where a type must stand. -/
theorem parseType_takes_head (t : SigType) (ht : t.WellFormed) :
    Takes parseType t.bytes fun _ => t.head ≠ elementTypePtr :=
  (parseType_takes_supported t ht).mono fun _ hsupported => hsupported.head_ne

/-- The return types that `ParseRetType` may accept. -/
def RetType.Accepted : RetType → Prop
  | .void mods => mods = []
  | .typedByRef _ => False
  | .type mods _ t => mods = [] ∧ t.head ≠ elementTypePtr

/-- **Return types.** `ParseRetType` rejects a return type or consumes exactly its
encoding. -/
theorem parseRetType_takes (t : RetType) (ht : t.WellFormed) :
    Takes parseRetType t.bytes fun _ => t.Accepted := by
  cases t with
  | void mods =>
      rw [RetType.bytes]
      cases mods with
      | nil =>
          refine takes_peek ?_
          rw [if_neg (by decide), if_neg (by decide), if_pos rfl]
          exact takes_next (takes_pure rfl)
      | cons m mods => exact parseRetType_mods m mods _ _
  | typedByRef mods =>
      rw [RetType.bytes]
      cases mods with
      | nil =>
          refine takes_peek ?_
          rw [if_neg (by decide), if_pos rfl]
          exact takes_failure _ _
      | cons m mods => exact parseRetType_mods m mods _ _
  | type mods byRef t =>
      rw [RetType.WellFormed] at ht
      rw [RetType.bytes]
      cases mods with
      | nil =>
          rw [modsBytes, List.flatMap_nil, List.nil_append]
          have htype : Takes parseType t.bytes fun _ => (RetType.type [] byRef t).Accepted :=
            (parseType_takes_head t ht).mono fun _ hptr => ⟨rfl, hptr⟩
          have h := takes_skip_byRef (f := fun _ => parseType) byRef t htype
          obtain ⟨b, bs, hbs, hmod, htyped, hvoid, -⟩ := byRefBytes_head byRef t
          rw [hbs] at h ⊢
          refine takes_peek ?_
          rw [if_neg (by simp [hmod]), if_neg htyped, if_neg hvoid]
          exact h
      | cons m mods => exact parseRetType_mods m mods _ _

/-- `ParseType` takes the byte of a custom modifier for a type of its own. -/
theorem parseType_customMod {b : Byte} (hb : isCustomMod b = true) (bs : List Byte) :
    parseType (b :: bs) = some ((), bs) := by
  rw [parseType_eq]
  show parseTypeBody parseType b bs = _
  have hcases : b = elementTypeCModOpt ∨ b = elementTypeCModReqd := by
    simpa [isCustomMod] using hb
  rcases hcases with rfl | rfl <;> rfl

/-- A parameter whose pointer points at a custom modifier is cut off behind the
byte of the modifier. -/
theorem parseParamOrLocal_customMod (byRef : Bool) {b : Byte} (hb : isCustomMod b = true)
    (bs : List Byte) :
    parseParamOrLocal (byRefBytes byRef ++ elementTypePtr :: b :: bs) = some ((), bs) := by
  cases byRef with
  | true => exact parseType_customMod hb bs
  | false => exact parseType_customMod hb bs

/-- **The misread parameter.** A pointer to a modified type is rejected or consumed
short of its encoding. -/
theorem parseParamOrLocal_short (p : Param) (hp : p.pointsToModified = true) {rest r : List Byte}
    (h : parseParamOrLocal (p.bytes ++ rest) = some ((), r)) : rest.length < r.length := by
  -- the pointer behind its optional `BYREF`, and what it points to
  obtain ⟨mods, byRef, m, ms, target, rfl, hbytes⟩ : ∃ mods byRef m ms target,
      p = .type mods byRef target ∧
      ∃ bs, target.bytes = elementTypePtr :: (modsBytes (m :: ms) ++ bs) := by
    unfold Param.pointsToModified at hp
    split at hp
    · exact ⟨_, _, _, _, _, rfl, _, by rw [SigType.bytes]⟩
    · exact ⟨_, _, _, _, _, rfl, _, by rw [SigType.bytes]⟩
    · cases hp
  obtain ⟨bs, hbytes⟩ := hbytes
  rw [Param.bytes, hbytes] at h
  cases mods with
  | cons n ns =>
      obtain ⟨-, hfalse⟩ := parseParamOrLocal_mods n ns _ (fun _ => False) rest () r h
      exact hfalse.elim
  | nil =>
      rw [modsBytes, List.flatMap_nil, List.nil_append, modsBytes_cons, List.append_assoc,
        List.cons_append, List.cons_append, parseParamOrLocal_customMod byRef (isCustomMod_byte m)] at h
      obtain ⟨-, rfl⟩ := Prod.mk.inj (Option.some.inj h)
      have hpos := List.length_pos_iff.mpr m.token.bytes_ne_nil
      simp only [List.length_append]
      omega

/-! ### The parameter list -/

theorem param_head (p : Param) : ∃ b bs, p.bytes = b :: bs ∧ b ≠ elementTypeSentinel := by
  cases p with
  | typedByRef mods =>
      rw [Param.bytes]
      cases mods with
      | nil => exact ⟨_, _, rfl, by decide⟩
      | cons m mods =>
          rw [modsBytes_cons]
          exact ⟨_, _, rfl, by cases m.required <;> decide⟩
  | type mods byRef t =>
      rw [Param.bytes]
      cases mods with
      | nil =>
          obtain ⟨b, bs, hbs, -, -, -, hsent⟩ := byRefBytes_head byRef t
          exact ⟨b, bs, hbs, hsent⟩
      | cons m mods =>
          rw [modsBytes_cons]
          exact ⟨_, _, rfl, by cases m.required <;> decide⟩

theorem spanOf_eq_some {len : ℕ} {p : Cursor Byte Unit} {bs r : List Byte} {t : TypeSignature}
    (h : spanOf len p bs = some (t, r)) :
    p bs = some ((), r) ∧ t = ⟨len - bs.length, bs.length - r.length⟩ := by
  obtain ⟨before, m, hb, h⟩ := bind_eq_some h
  obtain ⟨rfl, rfl⟩ := Prod.mk.inj (Option.some.inj hb)
  obtain ⟨⟨⟩, m, hp, h⟩ := bind_eq_some h
  obtain ⟨after, m', ha, h⟩ := bind_eq_some h
  obtain ⟨rfl, rfl⟩ := Prod.mk.inj (Option.some.inj ha)
  obtain ⟨rfl, rfl⟩ := Prod.mk.inj (Option.some.inj h)
  exact ⟨hp, rfl⟩

/-- The span of what is consumed exactly. -/
theorem spanOf_takes {len start : ℕ} {p : Cursor Byte Unit} {bs rest r : List Byte}
    {t : TypeSignature} (hp : Takes p bs fun _ => True)
    (h : spanOf len p (bs ++ rest) = some (t, r)) (hlen : start + (bs ++ rest).length = len) :
    r = rest ∧ t = ⟨start, bs.length⟩ := by
  obtain ⟨hr, rfl⟩ := spanOf_eq_some h
  obtain ⟨rfl, -⟩ := hp rest () r hr
  refine ⟨rfl, ?_⟩
  rw [List.length_append] at hlen
  rw [List.length_append]
  congr 1 <;> omega

/-- One turn of the loop, at a parameter. -/
theorem parseParams_cons {len n : ℕ} {seen : Bool} (p : Param) {rest r : List Byte}
    {ts : List TypeSignature} (h : parseParams len (n + 1) seen (p.bytes ++ rest) = some (ts, r)) :
    ∃ t ts' m, ts = t :: ts' ∧ spanOf len parseParamOrLocal (p.bytes ++ rest) = some (t, m) ∧
      parseParams len n seen m = some (ts', r) := by
  obtain ⟨b, bs, hbs, hne⟩ := param_head p
  rw [hbs, List.cons_append] at h ⊢
  change (if b = elementTypeSentinel then _ else _ : Cursor Byte (List TypeSignature)) _ = _ at h
  rw [if_neg hne] at h
  obtain ⟨t, m, ht, h⟩ := bind_eq_some h
  obtain ⟨ts', m', hts, h⟩ := bind_eq_some h
  obtain ⟨rfl, rfl⟩ := Prod.mk.inj (Option.some.inj h)
  exact ⟨t, ts', m, rfl, ht, hts⟩

/-- The loop at the sentinel goes on behind it. -/
theorem parseParams_sentinel {len n : ℕ} (p : Param) (rest : List Byte) :
    parseParams len (n + 1) false (elementTypeSentinel :: (p.bytes ++ rest)) =
      parseParams len (n + 1) true (p.bytes ++ rest) := by
  obtain ⟨b, bs, hbs, hne⟩ := param_head p
  rw [hbs, List.cons_append]
  show _ = (if b = elementTypeSentinel then _ else _ : Cursor Byte (List TypeSignature)) _
  rw [if_neg hne]
  rfl

/-- A loop that stores the span of one piece of the blob in each turn, with a parser that
takes some pieces exactly and the others short. -/
structure StoresSpans {α : Type} (len : ℕ) (loop : ℕ → Cursor Byte (List TypeSignature))
    (p : Cursor Byte Unit) (bytes : α → List Byte) (misread : α → Bool) : Prop where
  turn : ∀ {n : ℕ} (x : α) {rest r : List Byte} {ts : List TypeSignature},
    loop (n + 1) (bytes x ++ rest) = some (ts, r) →
      ∃ t ts' m, ts = t :: ts' ∧ spanOf len p (bytes x ++ rest) = some (t, m) ∧
        loop n m = some (ts', r)
  ne_nil : ∀ x, bytes x ≠ []
  short : ∀ x, misread x = true → ∀ rest r, p (bytes x ++ rest) = some ((), r) →
    rest.length < r.length

/-- As long as no piece is misread, the loop stores the spans of the pieces and stands
behind them; from the first misread piece on, it stores others. -/
theorem StoresSpans.spans {α : Type} {len : ℕ} {loop : ℕ → Cursor Byte (List TypeSignature)}
    {p : Cursor Byte Unit} {bytes : α → List Byte} {misread : α → Bool}
    (hloop : StoresSpans len loop p bytes misread) {start k : ℕ} {xs : List α}
    (htakes : ∀ x ∈ xs, misread x = false → Takes p (bytes x) fun _ => True)
    {rest r : List Byte} {ts : List TypeSignature}
    (h : loop (xs.length + k) ((xs.map bytes).flatten ++ rest) = some (ts, r))
    (hlen : start + ((xs.map bytes).flatten ++ rest).length = len) :
    ((∀ x ∈ xs, misread x = false) → ∃ ts',
      ts = spansFrom start (xs.map bytes) ++ ts' ∧ loop k rest = some (ts', r)) ∧
    ((∃ x ∈ xs, misread x = true) → ∀ ts', ts ≠ spansFrom start (xs.map bytes) ++ ts') := by
  induction xs generalizing start ts with
  | nil =>
      rw [List.map_nil, List.flatten_nil, List.nil_append, List.length_nil, Nat.zero_add] at h
      refine ⟨fun _ => ⟨ts, rfl, h⟩, ?_⟩
      intro hmisread
      obtain ⟨x, hx, -⟩ := hmisread
      cases hx
  | cons x xs ih =>
      rw [List.map_cons, List.flatten_cons, List.append_assoc] at h hlen
      rw [List.length_cons, Nat.add_right_comm] at h
      obtain ⟨t, ts₁, m, rfl, ht, hts⟩ := hloop.turn x h
      simp only [List.map_cons, spansFrom, List.cons_append]
      cases hmisread : misread x with
      | true =>
          refine ⟨fun hall => ?_, fun _ ts' heq => ?_⟩
          · simp [hall x List.mem_cons_self] at hmisread
          · -- the stored span is shorter than the piece
            obtain ⟨hparse, rfl⟩ := spanOf_eq_some ht
            have hshort := hloop.short x hmisread _ _ hparse
            have hlength := congrArg TypeSignature.length (List.cons.inj heq).1
            simp only [List.length_append] at hlength hshort
            have hpos := List.length_pos_iff.mpr (hloop.ne_nil x)
            omega
      | false =>
          obtain ⟨rfl, rfl⟩ := spanOf_takes (htakes x List.mem_cons_self hmisread) ht hlen
          have hnext : start + (bytes x).length + ((xs.map bytes).flatten ++ rest).length = len := by
            rw [@List.length_append _ (bytes x)] at hlen
            omega
          obtain ⟨hgood, hbad⟩ := ih (fun y hy => htakes y (List.mem_cons_of_mem x hy)) hts hnext
          constructor
          · intro hall
            obtain ⟨ts', rfl, hrest⟩ := hgood fun y hy => hall y (List.mem_cons_of_mem x hy)
            exact ⟨ts', rfl, hrest⟩
          · intro hexists ts' heq
            obtain ⟨y, hy, hym⟩ := hexists
            rcases List.mem_cons.mp hy with rfl | hy
            · simp [hmisread] at hym
            · exact hbad ⟨y, hy, hym⟩ ts' (List.cons.inj heq).2

theorem parseParams_storesSpans (len : ℕ) (seen : Bool) :
    StoresSpans len (parseParams len · seen) parseParamOrLocal Param.bytes
      Param.pointsToModified where
  turn := parseParams_cons
  ne_nil p := by
    obtain ⟨b, bs, hbs, -⟩ := param_head p
    rw [hbs]
    exact List.cons_ne_nil b bs
  short p hp _ _ := parseParamOrLocal_short p hp

/-- **The parameter list.** As long as no parameter is misread, the loop stores the
spans of the grammar and stands behind the list; from the first misread parameter
on, it stores others. -/
theorem parseParams_spans {len start k : ℕ} {seen : Bool} {ps : List Param} {rest r : List Byte}
    {ts : List TypeSignature} (hps : ∀ p ∈ ps, p.WellFormed)
    (h : parseParams len (ps.length + k) seen (paramsBytes ps ++ rest) = some (ts, r))
    (hlen : start + (paramsBytes ps ++ rest).length = len) :
    ((∀ p ∈ ps, p.pointsToModified = false) → ∃ ts',
      ts = spansFrom start (ps.map Param.bytes) ++ ts' ∧
        parseParams len k seen rest = some (ts', r)) ∧
    ((∃ p ∈ ps, p.pointsToModified = true) →
      ∀ ts', ts ≠ spansFrom start (ps.map Param.bytes) ++ ts') := by
  rw [paramsBytes_eq] at h hlen
  exact (parseParams_storesSpans len seen).spans
    (fun p hp hmod => parseParamOrLocal_takes p (hps p hp) hmod) h hlen

/-! ### Whole signatures -/

/-- The spans are those of the grammar: they tile the blob from the end of the
header to its end, but for the sentinel, which belongs to no production. -/
structure FunctionMethodSignature.Exact (r : FunctionMethodSignature) (σ : MethodSig) : Prop where
  returnValue : r.returnValue = σ.retSpan
  params : r.params = σ.paramSpans
  tiles : ∃ fixed var, r.params = fixed ++ var ∧
    Tiles σ.header.length (r.returnValue :: fixed) σ.fixedEnd ∧
    if σ.varParams.isEmpty then var = [] ∧ σ.fixedEnd = σ.bytes.length
    else Tiles (σ.fixedEnd + 1) var σ.bytes.length

theorem MethodSig.bytes_eq (σ : MethodSig) :
    σ.bytes = σ.header ++ (σ.ret.bytes ++ (paramsBytes σ.params ++
      if σ.varParams.isEmpty then [] else elementTypeSentinel :: paramsBytes σ.varParams)) := by
  obtain ⟨callConv, genParamCount, paramCount, ret, params, varParams⟩ := σ
  rw [MethodSig.bytes]
  rfl

/-- The spans of the grammar tile the blob. -/
theorem exact_of_spans {r : FunctionMethodSignature} {σ : MethodSig}
    (hret : r.returnValue = σ.retSpan) (hparams : r.params = σ.paramSpans) : r.Exact σ where
  returnValue := hret
  params := hparams
  tiles := by
    refine ⟨_, _, hparams, ?_, ?_⟩
    · rw [hret]
      refine ⟨rfl, ?_⟩
      rw [MethodSig.fixedEnd, paramsBytes_eq]
      exact tiles_spansFrom _ _
    · have hlen := congrArg List.length σ.bytes_eq
      simp only [List.length_append] at hlen
      split
      · rename_i hvar
        rw [if_pos hvar, List.length_nil] at hlen
        rw [List.isEmpty_iff.mp hvar]
        refine ⟨rfl, ?_⟩
        rw [hlen, MethodSig.fixedEnd]
        omega
      · rename_i hvar
        rw [if_neg hvar, List.length_cons, paramsBytes_eq σ.varParams] at hlen
        have htiles := tiles_spansFrom (σ.fixedEnd + 1) (σ.varParams.map Param.bytes)
        convert htiles using 1
        rw [hlen, MethodSig.fixedEnd]
        omega

theorem parseGenParamCount_takes {callConv : Byte} {genParamCount : Option Number}
    (h : callConv &&& callConvGeneric ≠ 0 ↔ genParamCount.isSome) :
    Takes (parseGenParamCount callConv) (genParamCount.elim [] Number.bytes) fun _ => True := by
  unfold parseGenParamCount
  cases genParamCount with
  | none =>
      rw [if_neg (fun hc => by cases h.mp hc)]
      exact takes_pure trivial
  | some n =>
      rw [if_pos (h.mpr rfl)]
      exact (parseNumber_reads n).takes.mono fun _ _ => trivial

/-- The header of a well-formed signature is read, and the rest is left to the
loops. -/
theorem parseMethodSignature_eq_some {len : ℕ} {σ : MethodSig} (hσ : σ.WellFormed)
    {rest r : List Byte} {f : FunctionMethodSignature}
    (h : parseMethodSignature len (σ.header ++ rest) = some (f, r)) :
    ∃ m, spanOf len parseRetType rest = some (f.returnValue, m) ∧
      parseParams len (σ.params.length + σ.varParams.length) false m = some (f.params, r) := by
  obtain ⟨callConv, genParamCount, paramCount, ret, params, varParams⟩ := σ
  rw [MethodSig.WellFormed] at hσ
  obtain ⟨hgeneric, hcount, -⟩ := hσ
  change parseMethodSignature len
    (callConv :: ((genParamCount.elim [] Number.bytes ++ paramCount.bytes) ++ rest)) = _ at h
  rw [List.append_assoc] at h
  obtain ⟨elemType, m₁, he, h⟩ := bind_eq_some h
  obtain ⟨rfl, rfl⟩ := Prod.mk.inj (Option.some.inj he)
  obtain ⟨arity, m₂, ha, h⟩ := bind_eq_some h
  obtain ⟨rfl, -⟩ := parseGenParamCount_takes hgeneric _ _ _ ha
  obtain ⟨count, m₃, hc, h⟩ := bind_eq_some h
  obtain ⟨rfl, rfl⟩ := (parseNumber_reads paramCount).takes _ _ _ hc
  obtain ⟨retSpan, m₄, hr, h⟩ := bind_eq_some h
  obtain ⟨spans, m₅, hp, h⟩ := bind_eq_some h
  obtain ⟨rfl, rfl⟩ := Prod.mk.inj (Option.some.inj h)
  rw [hcount] at hp
  exact ⟨m₄, hr, hp⟩

/-- **Method signatures.** For every well-formed signature that `TryParse` accepts,
the spans it stores are those of the grammar exactly when no parameter points to a
type with custom modifiers. -/
theorem tryParse_exact_iff {σ : MethodSig} (hσ : σ.WellFormed) {f : FunctionMethodSignature}
    (h : tryParse σ.bytes = some f) :
    f.Exact σ ↔ ∀ p ∈ σ.params ++ σ.varParams, p.pointsToModified = false := by
  obtain ⟨⟨f, r⟩, hparse, rfl⟩ := Option.map_eq_some_iff.mp h
  have hlen := congrArg List.length σ.bytes_eq
  generalize σ.bytes.length = len at hparse hlen
  rw [σ.bytes_eq] at hparse
  obtain ⟨m, hret, hparams⟩ := parseMethodSignature_eq_some hσ hparse
  obtain ⟨hretWf, hfixedWf, hvarWf⟩ : σ.ret.WellFormed ∧ (∀ p ∈ σ.params, p.WellFormed) ∧
      ∀ p ∈ σ.varParams, p.WellFormed := by
    obtain ⟨callConv, genParamCount, paramCount, ret, params, varParams⟩ := σ
    rw [MethodSig.WellFormed] at hσ
    exact ⟨hσ.2.2.2.1, paramsWellFormed_iff.mp hσ.2.2.2.2.1, paramsWellFormed_iff.mp hσ.2.2.2.2.2⟩
  have hretTakes := (parseRetType_takes σ.ret hretWf).mono fun _ _ => trivial
  obtain ⟨rfl, hretSpan⟩ := spanOf_takes hretTakes hret
    (by rw [hlen]; exact List.length_append.symm)
  -- the parameters before the sentinel
  have hstart : σ.header.length + σ.ret.bytes.length + (paramsBytes σ.params ++
      if σ.varParams.isEmpty then [] else elementTypeSentinel :: paramsBytes σ.varParams).length =
        len := by
    rw [hlen]
    simp only [List.length_append, Nat.add_assoc]
  obtain ⟨hgood, hbad⟩ := parseParams_spans hfixedWf hparams hstart
  have hexact : f.Exact σ ↔ f.params = σ.paramSpans :=
    ⟨fun he => he.params, fun he => exact_of_spans hretSpan he⟩
  rw [hexact, List.forall_mem_append]
  by_cases hfixed : ∃ p ∈ σ.params, p.pointsToModified = true
  · obtain ⟨p, hp, hpm⟩ := hfixed
    refine ⟨fun he => absurd he (hbad ⟨p, hp, hpm⟩ _), fun hall => ?_⟩
    simp [hall.1 p hp] at hpm
  replace hfixed : ∀ p ∈ σ.params, p.pointsToModified = false := by simpa using hfixed
  obtain ⟨ts, hts, hvar⟩ := hgood hfixed
  rw [hts, MethodSig.paramSpans, List.append_cancel_left_eq]
  -- the parameters behind it
  cases hempty : σ.varParams with
  | nil =>
      rw [hempty] at hvar
      obtain ⟨rfl, -⟩ := Prod.mk.inj (Option.some.inj hvar)
      exact ⟨fun _ => ⟨hfixed, fun _ hp => by cases hp⟩, fun _ => rfl⟩
  | cons p ps =>
      rw [hempty] at hvar hlen hvarWf
      rw [List.isEmpty_cons, if_neg Bool.false_ne_true, List.length_cons] at hvar
      rw [paramsBytes, parseParams_sentinel, ← paramsBytes] at hvar
      have hnext : σ.fixedEnd + 1 + (paramsBytes (p :: ps) ++ []).length = len := by
        rw [List.isEmpty_cons, if_neg Bool.false_ne_true] at hlen
        simp only [List.length_append, List.length_cons, List.length_nil] at hlen ⊢
        rw [MethodSig.fixedEnd]
        omega
      rw [← List.append_nil (paramsBytes (p :: ps)), ← List.length_cons (a := p)] at hvar
      obtain ⟨hgood', hbad'⟩ := parseParams_spans hvarWf (k := 0) hvar hnext
      constructor
      · intro he
        refine ⟨hfixed, fun q hq => ?_⟩
        by_contra hqm
        exact hbad' ⟨q, hq, by simpa using hqm⟩ [] (by rw [he, List.append_nil])
      · intro hall
        obtain ⟨ts', rfl, hnil⟩ := hgood' hall.2
        obtain ⟨rfl, -⟩ := Prod.mk.inj (Option.some.inj hnil)
        rw [List.append_nil]

/-- `void (int*, ref List<string>)` with its spans. -/
theorem tryParse_exact_iff_generic :
    ∃ σ f, tryParse σ.bytes = some f ∧ f.params = [⟨3, 2⟩, ⟨5, 6⟩] ∧ f.Exact σ := by
  let σ : MethodSig := .mk 0x20 none (.one 2 (by decide)) (.void [])
    [.type [] false (.ptr [] (.primitive .i4)),
      .type [] true (.genericInst false (.one 5 (by decide)) (.one 1 (by decide))
        [.primitive .string])] []
  have hσ : σ.WellFormed := by
    simp [σ, MethodSig.WellFormed, RetType.WellFormed, paramsWellFormed, Param.WellFormed,
      SigType.WellFormed, typesWellFormed, Number.value, callConvGeneric]
  have hparse : tryParse σ.bytes = some ⟨0, 2, ⟨2, 1⟩, [⟨3, 2⟩, ⟨5, 6⟩]⟩ := by decide
  exact ⟨σ, _, hparse, rfl, (tryParse_exact_iff hσ hparse).mpr (by decide)⟩

/-- `void (int modopt(T)*)`: the parameter's span ends behind the byte of the
modifier, with its token and the type left over. -/
theorem tryParse_pointer_to_modified :
    ∃ σ f, σ.WellFormed ∧ σ.bytes = [0x00, 0x01, 0x01, 0x0f, 0x20, 0x04, 0x08] ∧
      tryParse σ.bytes = some f ∧ f.params = [⟨3, 2⟩] ∧ σ.paramSpans = [⟨3, 4⟩] ∧ ¬ f.Exact σ := by
  let σ : MethodSig := .mk 0x00 none (.one 1 (by decide)) (.void [])
    [.type [] false (.ptr [⟨false, .one 4 (by decide)⟩] (.primitive .i4))] []
  have hσ : σ.WellFormed := by
    simp [σ, MethodSig.WellFormed, RetType.WellFormed, paramsWellFormed, Param.WellFormed,
      SigType.WellFormed, Number.value, callConvGeneric]
  have hspans : σ.paramSpans = [⟨3, 4⟩] := by decide
  refine ⟨σ, ⟨0, 1, ⟨2, 1⟩, [⟨3, 2⟩]⟩, hσ, by decide, by decide, rfl, hspans, fun h => ?_⟩
  have hparams := h.params
  rw [hspans] at hparams
  exact absurd hparams (by decide)

end AutoInstrumentation.Signature
