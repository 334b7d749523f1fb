import AutoInstrumentation.Signature.TypeNames

/-!
# AutoInstrumentation.Signature.TypeNamesSound

What the printers make of the parameters that the parser accepts.

On a type that `ParseType` supports, a printer reads exactly its encoding and gives its
name, by induction on the type. Before the type a printer takes a `BYREF` and a `PTR`, and
it appends their suffixes in the same order, so a reference to a pointer has `*` behind the
`&`. It has no case for the `VOID` behind a `PTR`, which stays at the cursor.
-/

namespace AutoInstrumentation.Signature

open Lib Lib.Cursor

variable {names : TypeNaming}

/-! ### The flags before a type -/

theorem reads_skipFlag {b : Byte} {f : Bool → Cursor Byte String} {bs : List Byte} {name : String}
    (h : Reads (f true) bs name) : Reads (skipFlag b >>= f) (b :: bs) name := by
  intro rest
  have hflag : skipFlag b (b :: (bs ++ rest)) = some (true, bs ++ rest) := by
    show (if b = b then _ else _ : Cursor Byte Bool) _ = _
    rw [if_pos rfl]
    rfl
  rw [bind_apply, List.cons_append, hflag]
  exact h rest

theorem skipFlag_ne {b c : Byte} (hc : c ≠ b) (bs : List Byte) :
    skipFlag b (c :: bs) = some (false, c :: bs) := by
  show (if c = b then _ else _ : Cursor Byte Bool) _ = _
  rw [if_neg hc]
  rfl

theorem reads_skipFlag_ne {b c : Byte} {f : Bool → Cursor Byte String} {bs : List Byte}
    {name : String} (hc : c ≠ b) (h : Reads (f false) (c :: bs) name) :
    Reads (skipFlag b >>= f) (c :: bs) name := by
  intro rest
  rw [bind_apply, List.cons_append, skipFlag_ne hc]
  exact h rest

def ptrBytes (ptr : Bool) : List Byte :=
  if ptr then [elementTypePtr] else []

/-- A printer on a type behind its flags. -/
theorem printTypeBody_reads {print : Cursor Byte String} {t : SigType} {name : String}
    (byRef ptr : Bool) (hptr : t.head ≠ elementTypePtr)
    (h : Reads (printElement names print) t.bytes name) :
    Reads (printTypeBody names print) (byRefBytes byRef ++ (ptrBytes ptr ++ t.bytes))
      (name ++ flagSuffix byRef ptr) := by
  obtain ⟨bs, hbs⟩ := t.bytes_eq
  have helement (refFlag pointerFlag : Bool) : Reads (do
      let tokenName ← printElement names print
      pure (tokenName ++ flagSuffix refFlag pointerFlag)) t.bytes
      (name ++ flagSuffix refFlag pointerFlag) :=
    h.bind_pure fun tokenName => tokenName ++ flagSuffix refFlag pointerFlag
  have hpointer (refFlag : Bool) : Reads (do
      let pointerFlag ← skipFlag elementTypePtr
      let tokenName ← printElement names print
      pure (tokenName ++ flagSuffix refFlag pointerFlag)) (ptrBytes ptr ++ t.bytes)
      (name ++ flagSuffix refFlag ptr) := by
    cases ptr with
    | true => exact reads_skipFlag (helement refFlag true)
    | false =>
        have hplain := helement refFlag false
        rw [hbs] at hplain
        rw [ptrBytes, if_neg Bool.false_ne_true, List.nil_append, hbs]
        exact reads_skipFlag_ne hptr hplain
  cases byRef with
  | true => exact reads_skipFlag (hpointer true)
  | false =>
      have hplain := hpointer false
      obtain ⟨b, cs, hcs, hb⟩ : ∃ b cs, ptrBytes ptr ++ t.bytes = b :: cs
          ∧ b ≠ elementTypeByRef := by
        cases ptr with
        | true => exact ⟨_, _, rfl, by decide⟩
        | false => exact ⟨_, bs, hbs, t.head_ne.2.2.1⟩
      rw [hcs] at hplain
      rw [byRefBytes, if_neg Bool.false_ne_true, List.nil_append, hcs]
      exact reads_skipFlag_ne hb hplain

/-! ### Types -/

theorem systemTypeName_byte (p : Primitive) : systemTypeName p.byte = some p.netName := by
  cases p <;> rfl

theorem primitive_ne (p : Primitive) : p.byte ≠ elementTypeClass ∧ p.byte ≠ elementTypeValueType
    ∧ p.byte ≠ elementTypeSzArray ∧ p.byte ≠ elementTypeGenericInst
    ∧ p.byte ≠ elementTypeMVar ∧ p.byte ≠ elementTypeVar := by
  cases p <;> decide

theorem printElement_token {print : Cursor Byte String} {elemType : Byte} (token : Number)
    (h : elemType = elementTypeClass ∨ elemType = elementTypeValueType) :
    Reads (printElement names print) (elemType :: token.bytes)
      (names.typeInfoName token.token) := by
  refine reads_peek ?_
  rw [if_pos h]
  exact .next ((uncompressToken_reads token).bind_pure names.typeInfoName)

/-- The generic type in front of its arguments is read like a type of its own. -/
theorem printTypeFuel_generic (fuel : ℕ) (isValueType : Bool) (token : Number) :
    Reads (printTypeFuel names (fuel + 1))
      ((if isValueType then elementTypeValueType else elementTypeClass) :: token.bytes)
      (names.typeInfoName token.token) := by
  have hgeneric (t : SigType) (helement : Reads (printElement names (printTypeFuel names fuel))
      t.bytes (names.typeInfoName token.token)) (hptr : t.head ≠ elementTypePtr) :
      Reads (printTypeFuel names (fuel + 1)) t.bytes (names.typeInfoName token.token) := by
    have hbody := printTypeBody_reads false false hptr helement
    rwa [flagSuffix, if_neg Bool.false_ne_true, if_neg Bool.false_ne_true, String.append_empty,
      String.append_empty] at hbody
  cases isValueType with
  | true =>
      have h := hgeneric (.valueType token)
      rw [SigType.bytes] at h
      exact h (printElement_token token (.inr rfl)) (by simp only [SigType.head]; decide)
  | false =>
      have h := hgeneric (.classType token)
      rw [SigType.bytes] at h
      exact h (printElement_token token (.inl rfl)) (by simp only [SigType.head]; decide)

theorem joinNames_cons (separator name : String) (rest : List String) :
    joinNames separator (name :: rest)
      = name ++ (if rest.length = 0 then "" else separator) ++ joinNames separator rest := by
  cases rest with
  | nil =>
      rw [List.length_nil, if_pos rfl, String.append_empty]
      exact String.append_empty.symm
  | cons _ _ => rfl

theorem length_typesNetNames (ts : List SigType) : (typesNetNames names ts).length = ts.length := by
  induction ts with
  | nil => rw [typesNetNames, List.length_nil, List.length_nil]
  | cons t ts ih => rw [typesNetNames, List.length_cons, ih, List.length_cons]

mutual

/-- **Types.** The switch of the printers, on a supported type, reads exactly its encoding
and gives its name. -/
theorem printElement_reads : (t : SigType) → t.WellFormed → t.Supported → (fuel : ℕ) →
    t.bytes.length ≤ fuel + 1 →
      Reads (printElement names (printTypeFuel names fuel)) t.bytes (t.netName names)
  | .primitive p, _, _, _, _ => by
      rw [SigType.bytes, SigType.netName]
      refine reads_peek ?_
      obtain ⟨hclass, hvalue, hsz, hinst, hmvar, hvar⟩ := primitive_ne p
      rw [if_neg (not_or.mpr ⟨hclass, hvalue⟩), if_neg hsz, if_neg hinst, if_neg hmvar,
        if_neg hvar, systemTypeName_byte]
      exact .next (reads_pure p.netName)
  | .valueType token, _, _, _, _ => by
      rw [SigType.bytes, SigType.netName]
      exact printElement_token token (.inr rfl)
  | .classType token, _, _, _, _ => by
      rw [SigType.bytes, SigType.netName]
      exact printElement_token token (.inl rfl)
  | .var number, _, _, _, _ => by
      rw [SigType.bytes, SigType.netName]
      refine reads_peek ?_
      rw [if_neg (by decide), if_neg (by decide), if_neg (by decide), if_neg (by decide),
        if_pos rfl]
      exact .next ((uncompressData_reads number).bind_pure names.var)
  | .mvar number, _, _, _, _ => by
      rw [SigType.bytes, SigType.netName]
      refine reads_peek ?_
      rw [if_neg (by decide), if_neg (by decide), if_neg (by decide), if_pos rfl]
      exact .next ((uncompressData_reads number).bind_pure names.mvar)
  | .szArray mods element, hwf, h, fuel, hfuel => by
      rw [SigType.WellFormed] at hwf
      rw [SigType.Supported] at h
      obtain ⟨rfl, helement⟩ := h
      rw [SigType.bytes, modsBytes, List.flatMap_nil, List.nil_append] at hfuel ⊢
      rw [SigType.netName]
      refine reads_peek ?_
      rw [if_neg (by decide), if_pos rfl]
      refine .next ?_
      exact (printTypeFuel_reads element hwf helement fuel (by
        rw [List.length_cons] at hfuel
        omega)).bind_pure fun element => element ++ "[]"
  | .genericInst isValueType token genArgCount args, hwf, h, fuel, hfuel => by
      rw [SigType.WellFormed] at hwf
      rw [SigType.Supported] at h
      rw [SigType.bytes] at hfuel ⊢
      rw [SigType.netName]
      simp only [List.length_cons, List.length_append] at hfuel
      obtain ⟨fuel, rfl⟩ : ∃ n, fuel = n + 1 := ⟨fuel - 1, by omega⟩
      refine reads_peek ?_
      rw [if_neg (by decide), if_neg (by decide), if_pos rfl]
      refine .next ?_
      refine (printTypeFuel_generic fuel isValueType token).bind ?_
      refine (uncompressData_reads genArgCount).bind ?_
      rw [hwf.1]
      exact (printArguments_reads args hwf.2 h (fuel + 1) (by omega)).bind_pure fun arguments =>
        names.typeInfoName token.token ++ names.openingBrace ++ arguments ++ names.closingBrace

theorem printTypeFuel_reads (t : SigType) (hwf : t.WellFormed) (h : t.Supported) (fuel : ℕ)
    (hfuel : t.bytes.length ≤ fuel) :
    Reads (printTypeFuel names fuel) t.bytes (t.netName names) := by
  cases fuel with
  | zero =>
      obtain ⟨bs, hbs⟩ := t.bytes_eq
      rw [hbs] at hfuel
      cases hfuel
  | succ fuel =>
      have hbody := printTypeBody_reads false false h.head_ne
        (printElement_reads t hwf h fuel hfuel)
      rwa [flagSuffix, if_neg Bool.false_ne_true, if_neg Bool.false_ne_true, String.append_empty,
        String.append_empty] at hbody

theorem printArguments_reads : (ts : List SigType) → typesWellFormed ts → typesSupported ts →
    (fuel : ℕ) → (typesBytes ts).length ≤ fuel →
      Reads (printArguments (printTypeFuel names fuel) names.separator ts.length) (typesBytes ts)
        (joinNames names.separator (typesNetNames names ts))
  | [], _, _, _, _ => reads_pure ""
  | t :: ts, hwf, h, fuel, hfuel => by
      rw [typesWellFormed] at hwf
      rw [typesSupported] at h
      rw [typesBytes, List.length_append] at hfuel
      rw [typesBytes, typesNetNames, joinNames_cons, length_typesNetNames]
      refine (printTypeFuel_reads t hwf.1 h.1 fuel (by omega)).bind ?_
      exact (printArguments_reads ts hwf.2 h.2 fuel (by omega)).bind_pure fun arguments =>
        t.netName names ++ (if ts.length = 0 then "" else names.separator) ++ arguments

end

/-! ### Parameters -/

theorem printType_reads (byRef ptr : Bool) {t : SigType} (hwf : t.WellFormed) (h : t.Supported) :
    Reads (printType names) (byRefBytes byRef ++ (ptrBytes ptr ++ t.bytes))
      (t.netName names ++ flagSuffix byRef ptr) := by
  refine reads_remaining fun fuel hfuel => ?_
  obtain ⟨bs, hbs⟩ := t.bytes_eq
  simp only [List.length_append, hbs, List.length_cons] at hfuel
  obtain ⟨fuel, rfl⟩ : ∃ n, fuel = n + 1 := ⟨fuel - 1, by omega⟩
  have hlength : t.bytes.length ≤ fuel + 1 := by
    rw [hbs, List.length_cons]
    omega
  exact printTypeBody_reads byRef ptr h.head_ne (printElement_reads t hwf h fuel hlength)

/-- The bytes behind a `PTR` that the parser takes for a type, and no printer does. -/
def Unnamed (b : Byte) : Prop := b = elementTypeVoid ∨ isCustomMod b = true

theorem unnamed_cases {b : Byte} (h : Unnamed b) :
    b = elementTypeVoid ∨ b = elementTypeCModOpt ∨ b = elementTypeCModReqd := by
  simpa [Unnamed, isCustomMod] using h

/-- The printers leave such a byte at the cursor. -/
theorem printType_unnamed (byRef : Bool) {b : Byte} (hb : Unnamed b) (bs : List Byte) :
    printType names (byRefBytes byRef ++ elementTypePtr :: b :: bs)
      = some ("" ++ flagSuffix byRef true, b :: bs) := by
  rcases unnamed_cases hb with rfl | rfl | rfl
  · cases byRef <;> rfl
  · cases byRef <;> rfl
  · cases byRef <;> rfl

theorem parseParamOrLocal_unnamed (byRef : Bool) {b : Byte} (hb : Unnamed b) (bs : List Byte) :
    parseParamOrLocal (byRefBytes byRef ++ elementTypePtr :: b :: bs) = some ((), bs) := by
  rcases hb with rfl | hmod
  · have hvoid : parseType (elementTypeVoid :: bs) = some ((), bs) := by
      rw [parseType_eq]
      rfl
    cases byRef with
    | true => exact hvoid
    | false => exact hvoid
  · exact parseParamOrLocal_customMod byRef hmod bs

/-- The parameters whose types the printers print. -/
def Param.Printable : Param → Prop
  | .type _ byRef (.ptr mods _) => byRef = false ∧ mods = []
  | .type _ _ (.ptrVoid _) => False
  | _ => True

theorem printType_unnamed_ne (byRef : Bool) {b : Byte} (hb : Unnamed b) (bs : List Byte)
    {r : List Byte} {name : String}
    (h : parseParamOrLocal (byRefBytes byRef ++ elementTypePtr :: b :: bs) = some ((), r)) :
    printType names (byRefBytes byRef ++ elementTypePtr :: b :: bs) ≠ some (name, r) := by
  rw [parseParamOrLocal_unnamed byRef hb] at h
  rw [printType_unnamed byRef hb]
  obtain ⟨-, rfl⟩ := Prod.mk.inj (Option.some.inj h)
  intro heq
  have hlength := congrArg List.length (Prod.mk.inj (Option.some.inj heq)).2
  rw [List.length_cons] at hlength
  omega

/-- The suffixes of a reference to a pointer are the wrong way round. -/
theorem suffix_ne (name : String) : name ++ flagSuffix true true ≠ name ++ "*" ++ "&" := by
  intro h
  have hchars := congrArg String.toList h
  simp [flagSuffix] at hchars

/-- The pointer that is not printed, as the bytes behind its optional `BYREF`. -/
theorem exists_unnamed {mods : List CustomMod} {byRef : Bool} {t : SigType}
    (h : (Param.type mods byRef t).pointsToModified = true) :
    ∃ b bs, t.bytes = elementTypePtr :: b :: bs ∧ Unnamed b
      ∧ ¬(Param.type mods byRef t).Printable := by
  unfold Param.pointsToModified at h
  split at h
  · next m ms target heq =>
      obtain ⟨-, -, rfl⟩ := Param.type.inj heq
      refine ⟨_, _, by rw [SigType.bytes, modsBytes_cons], .inr (isCustomMod_byte m), ?_⟩
      rintro ⟨-, hmods⟩
      cases hmods
  · next m ms heq =>
      obtain ⟨-, -, rfl⟩ := Param.type.inj heq
      exact ⟨_, _, by rw [SigType.bytes, modsBytes_cons], .inr (isCustomMod_byte m), id⟩
  · cases h

theorem param_bytes (byRef : Bool) (t : SigType) :
    (Param.type [] byRef t).bytes = byRefBytes byRef ++ t.bytes := by
  rw [Param.bytes, modsBytes, List.flatMap_nil, List.nil_append]

theorem printType_supported (byRef : Bool) {t : SigType} (hwf : t.WellFormed) (h : t.Supported)
    (r : List Byte) : printType names ((Param.type [] byRef t).bytes ++ r)
      = some ((Param.type [] byRef t).netName names, r) := by
  have hreads : Reads (printType names) (byRefBytes byRef ++ (ptrBytes false ++ t.bytes))
      (t.netName names ++ flagSuffix byRef false) := printType_reads byRef false hwf h
  rw [flagSuffix, if_neg Bool.false_ne_true, String.append_empty] at hreads
  rw [param_bytes]
  exact hreads r

theorem printType_pointer_iff (byRef : Bool) {target : SigType} (hwf : target.WellFormed)
    (h : target.Supported) (r : List Byte) :
    printType names ((Param.type [] byRef (.ptr [] target)).bytes ++ r)
        = some ((Param.type [] byRef (.ptr [] target)).netName names, r) ↔ byRef = false := by
  have hreads : Reads (printType names) (byRefBytes byRef ++ (ptrBytes true ++ target.bytes))
      (target.netName names ++ flagSuffix byRef true) := printType_reads byRef true hwf h
  have hprinted : printType names ((Param.type [] byRef (.ptr [] target)).bytes ++ r)
      = some (target.netName names ++ flagSuffix byRef true, r) := by
    rw [param_bytes, SigType.bytes]
    exact hreads r
  rw [hprinted, Param.netName, SigType.netName]
  cases byRef with
  | false =>
      refine iff_of_true ?_ rfl
      rw [flagSuffix, if_neg Bool.false_ne_true, if_pos rfl, String.empty_append]
      exact congrArg (fun name => some (name, r)) String.append_empty.symm
  | true =>
      refine iff_of_false (fun heq => ?_) fun hbyRef => Bool.false_ne_true hbyRef.symm
      exact suffix_ne _ (Prod.mk.inj (Option.some.inj heq)).1

/-- **A printer on an accepted parameter.** It stops where the parser stops and gives the
name of the type, unless the type is a reference to a pointer, or a pointer to `VOID` or to
a modified type. -/
theorem printType_correct_iff {p : Param} (hwf : p.WellFormed) {rest r : List Byte}
    (h : parseParamOrLocal (p.bytes ++ rest) = some ((), r)) :
    printType names (p.bytes ++ rest) = some (p.netName names, r) ↔ p.Printable := by
  cases p with
  | typedByRef mods =>
      obtain ⟨-, hnever⟩ := parseParamOrLocal_takes_accepted (.typedByRef mods) hwf rfl rest () r h
      exact hnever.elim
  | type mods byRef t =>
      cases mods with
      | cons m mods =>
          rw [Param.bytes] at h
          obtain ⟨-, hnever⟩ := parseParamOrLocal_mods m mods _ (fun _ => False) rest () r h
          exact hnever.elim
      | nil =>
          by_cases hmod : (Param.type [] byRef t).pointsToModified = true
          · obtain ⟨b, bs, hbs, hb, hnot⟩ := exists_unnamed hmod
            rw [param_bytes, hbs, List.append_assoc] at h ⊢
            exact iff_of_false (printType_unnamed_ne byRef hb (bs ++ rest) h) hnot
          · have hunmodified : (Param.type [] byRef t).pointsToModified = false :=
              eq_false_of_ne_true hmod
            obtain ⟨rfl, -, hsupported⟩ := parseParamOrLocal_takes_accepted (.type [] byRef t) hwf
              hunmodified rest () r h
            rw [Param.WellFormed] at hwf
            cases t with
            | ptrVoid mods =>
                cases mods with
                | nil =>
                    rw [param_bytes, SigType.bytes, List.append_assoc] at h ⊢
                    exact iff_of_false (printType_unnamed_ne byRef (.inl rfl) r h) id
                | cons m mods => cases hunmodified
            | ptr mods target =>
                cases mods with
                | nil =>
                    rw [SigType.WellFormed] at hwf
                    rw [printType_pointer_iff byRef hwf hsupported r]
                    exact (and_iff_left rfl).symm
                | cons m mods => cases hunmodified
            | _ => exact iff_of_true (printType_supported byRef hwf hsupported r) trivial

/-- **Both printers on an accepted parameter.** They stop where the parser stops and give
the name of the type, unless the type is a reference to a pointer, or a pointer to `VOID`
or to a modified type. -/
theorem getSigTypeTokNames_correct_iff (typeInfoName : ℕ × ℕ → String)
    (classParams methodParams : ℕ → Option String) {p : Param} (hwf : p.WellFormed)
    {rest r : List Byte} (h : parseParamOrLocal (p.bytes ++ rest) = some ((), r)) :
    getSigTypeTokName typeInfoName (p.bytes ++ rest)
          = some (p.netName (rejitNaming typeInfoName), r)
        ∧ getSigTypeTokNameNew typeInfoName classParams methodParams (p.bytes ++ rest)
          = some (p.netName (profilerNaming typeInfoName classParams methodParams), r)
      ↔ p.Printable := by
  have hrejit : printType (rejitNaming typeInfoName) (p.bytes ++ rest)
      = some (p.netName (rejitNaming typeInfoName), r) ↔ p.Printable :=
    printType_correct_iff hwf h
  have hprofiler : printType (profilerNaming typeInfoName classParams methodParams)
      (p.bytes ++ rest)
      = some (p.netName (profilerNaming typeInfoName classParams methodParams), r)
        ↔ p.Printable := printType_correct_iff hwf h
  rw [getSigTypeTokName, getSigTypeTokNameNew, hrejit, hprofiler, and_self]

/-- A reference to an instance of a generic class at `int[]`, with one byte behind it. -/
theorem getSigTypeTokNames_correct_generic :
    let p : Param := .type [] true (.genericInst false (.one 5 (by decide)) (.one 1 (by decide))
      [.szArray [] (.primitive .i4)])
    let typeInfoName := fun _ => "List1"
    getSigTypeTokName typeInfoName (p.bytes ++ [0x08])
          = some (p.netName (rejitNaming typeInfoName), [0x08])
        ∧ getSigTypeTokNameNew typeInfoName (fun _ => none) (fun _ => none) (p.bytes ++ [0x08])
          = some (p.netName (profilerNaming typeInfoName (fun _ => none) fun _ => none), [0x08])
        ∧ p.netName (rejitNaming typeInfoName) = "List1[System.Int32[]]&" := by
  intro p typeInfoName
  have hwf : p.WellFormed := by
    simp [p, Param.WellFormed, SigType.WellFormed, typesWellFormed, Number.value]
  have hparse : parseParamOrLocal (p.bytes ++ [0x08]) = some ((), [0x08]) := by decide
  have hprinted := (getSigTypeTokNames_correct_iff typeInfoName (fun _ => none) (fun _ => none)
    hwf hparse).mpr trivial
  exact ⟨hprinted.1, hprinted.2, by decide⟩

/-- `ref int*` is printed as `System.Int32&*`, and of `void*` the last byte is left. -/
theorem getSigTypeTokName_refPointer :
    let refPointer : Param := .type [] true (.ptr [] (.primitive .i4))
    let voidPointer : Param := .type [] false (.ptrVoid [])
    refPointer.bytes = [0x10, 0x0f, 0x08] ∧ parseParamOrLocal refPointer.bytes = some ((), [])
      ∧ getSigTypeTokName (fun _ => "") refPointer.bytes = some ("System.Int32&*", [])
      ∧ refPointer.netName (rejitNaming fun _ => "") = "System.Int32*&"
      ∧ getSigTypeTokName (fun _ => "") refPointer.bytes
        ≠ some (refPointer.netName (rejitNaming fun _ => ""), [])
      ∧ voidPointer.bytes = [0x0f, 0x01] ∧ parseParamOrLocal voidPointer.bytes = some ((), [])
      ∧ getSigTypeTokName (fun _ => "") voidPointer.bytes = some ("*", [0x01]) := by
  intro refPointer voidPointer
  have hname : refPointer.netName (rejitNaming fun _ => "") = "System.Int32*&" := rfl
  refine ⟨rfl, by decide, by decide, hname, ?_, rfl, by decide, by decide⟩
  rw [hname]
  decide

end AutoInstrumentation.Signature
