import AutoInstrumentation.NoCode.TypeNames

/-!
# AutoInstrumentation.NoCode.TypeNamesSound

When the two sides agree on the parameters of a method.

Plain types have one name (`plain_reads`): those built from primitives and top-level
types without special characters by arrays and single pointers. For any other type either
reflection has no name, and managed code throws, or the two names differ. They differ in
length: what the profiler writes for a type is at most its `weight`
(`getSigTypeTokName_bound`), also where it stops before the end of the encoding and takes
the rest for the next type, and the name of reflection is longer.
-/

namespace AutoInstrumentation.NoCode

open Lib Lib.Cursor
open Signature

variable {metadata : Metadata} {coreLibrary : WString}

/-! ### Kinds of types -/

/-- A type of its own whose name is written as it is. -/
def TypeName.Plain (t : TypeName) : Prop := t.enclosing = [] ∧ ∀ c ∈ t.name, isSpecial c = false

def ClrType.IsPtr : ClrType → Prop
  | .ptr _ => True
  | _ => False

def ClrType.IsVariable : ClrType → Prop
  | .var _ | .mvar _ => True
  | _ => False

/-- The types that both sides name alike. -/
def ClrType.Plain (metadata : Metadata) : ClrType → Prop
  | .primitive _ => True
  | .named _ token => (metadata token.token).Plain
  | .szArray element => element.Plain metadata
  | .ptr target => target.Plain metadata ∧ ¬target.IsPtr
  | _ => False

/-- The name of a plain type, and that of a type variable. -/
def ClrType.plainName (metadata : Metadata) : ClrType → WString
  | .primitive p => typeName p
  | .named _ token => (metadata token.token).name
  | .szArray element => element.plainName metadata ++ ['[', ']']
  | .ptr target => target.plainName metadata ++ ['*']
  | .var number => ['!'] ++ toText number.value
  | .mvar number => ['!', '!'] ++ toText number.value
  | _ => []

/-- The types that the profiler does not read to their end: it reads one pointer, and no
`void`. -/
def ClrType.Irregular : ClrType → Prop
  | .void => True
  | .szArray element => element.Irregular
  | .ptr target => target.IsPtr ∨ target.Irregular
  | _ => False

/-- A parameter that both sides name alike: a bare type variable, or one of a plain type,
but for references to pointers. -/
def Parameter.Simple (metadata : Metadata) (p : Parameter) : Prop :=
  p.byRef = false ∧ p.type.IsVariable ∨
    p.type.Plain metadata ∧ ¬(p.byRef = true ∧ p.type.IsPtr)

/-! ### Lengths -/

mutual

/-- The number of characters that the profiler's name of the type would have. -/
def ClrType.weight (metadata : Metadata) : ClrType → ℕ
  | .primitive p => (typeName p).length
  | .void => (system ['V', 'o', 'i', 'd']).length
  | .named _ token => (metadata token.token).name.length
  | .szArray element => element.weight metadata + 2
  | .ptr target => target.weight metadata + 1
  | .genericInst _ token _ args =>
      (metadata token.token).name.length + 2 + ClrType.weightAll metadata args + (args.length - 1)
  | .var number => 1 + (toText number.value).length
  | .mvar number => 2 + (toText number.value).length

def ClrType.weightAll (metadata : Metadata) : List ClrType → ℕ
  | [] => 0
  | t :: ts => t.weight metadata + ClrType.weightAll metadata ts

end

theorem length_intercalate (names : List WString) : ([','].intercalate names).length
    = (names.map List.length).sum + (names.length - 1) := by
  induction names with
  | nil => rfl
  | cons name names ih =>
      cases names with
      | nil => simp [List.intercalate]
      | cons other names =>
          rw [List.intercalate_cons_cons]
          simp only [List.length_append, ih, List.map_cons, List.sum_cons, List.length_cons,
            List.length_nil]
          omega

theorem typeName_length_pos (p : Primitive) : 0 < (typeName p).length := by
  cases p <;> decide

theorem weight_pos (t : ClrType) : 0 < t.weight metadata := by
  cases t with
  | primitive p => exact typeName_length_pos p
  | void => exact Nat.succ_pos _
  | named isValueType token =>
      exact List.length_pos_of_ne_nil (metadata token.token).name_ne_nil
  | szArray element => simp only [ClrType.weight]; omega
  | ptr target => simp only [ClrType.weight]; omega
  | genericInst isValueType token genArgCount args => simp only [ClrType.weight]; omega
  | var number => simp only [ClrType.weight]; omega
  | mvar number => simp only [ClrType.weight]; omega

theorem length_le_escape (name : WString) : name.length ≤ (escape name).length := by
  induction name with
  | nil => exact Nat.le_refl 0
  | cons c name ih =>
      rw [escape, List.flatMap_cons, List.length_append]
      change name.length ≤ (escape name).length at ih
      change name.length + 1 ≤ _ + (escape name).length
      split <;> simp only [List.length_cons, List.length_nil] <;> omega

theorem escape_eq {name : WString} (h : ∀ c ∈ name, isSpecial c = false) : escape name = name := by
  induction name with
  | nil => rfl
  | cons c name ih =>
      have hc : isSpecial c = false := h c List.mem_cons_self
      have hname := ih fun d hd => h d (List.mem_cons_of_mem c hd)
      rw [escape, List.flatMap_cons, hc]
      exact congrArg (c :: ·) hname

theorem length_lt_escape {name : WString} (h : ∃ c ∈ name, isSpecial c = true) :
    name.length < (escape name).length := by
  induction name with
  | nil => simp at h
  | cons c name ih =>
      obtain ⟨d, hd, hspecial⟩ := h
      rw [escape, List.flatMap_cons, List.length_append]
      change name.length + 1 < _ + (escape name).length
      rcases List.mem_cons.mp hd with rfl | hd
      · have hle := length_le_escape name
        rw [if_pos hspecial]
        simp only [List.length_cons, List.length_nil]
        omega
      · have hlt := ih ⟨d, hd, hspecial⟩
        split <;> simp only [List.length_cons, List.length_nil] <;> omega

theorem TypeName.fullName_of_plain {t : TypeName} (h : t.Plain) : t.fullName = t.name := by
  rw [TypeName.fullName, h.1]
  exact escape_eq h.2

theorem TypeName.length_le_fullName (t : TypeName) : t.name.length ≤ t.fullName.length := by
  rw [TypeName.fullName]
  induction t.enclosing with
  | nil => exact length_le_escape t.name
  | cons name names ih =>
      rw [List.foldr_cons, List.length_append, List.length_cons]
      omega

/-- The full name of a nested type, or of one with special characters, is longer. -/
theorem TypeName.length_lt_fullName {t : TypeName} (h : ¬t.Plain) :
    t.name.length < t.fullName.length := by
  rw [TypeName.fullName]
  cases henclosing : t.enclosing with
  | nil =>
      have hspecial : ∃ c ∈ t.name, isSpecial c = true := by
        by_contra hnone
        exact h ⟨henclosing, fun c hc => by simpa using fun hs => hnone ⟨c, hc, hs⟩⟩
      exact length_lt_escape hspecial
  | cons name names =>
      have htail : ∀ rest : List WString, t.name.length ≤
          (rest.foldr (fun name rest => escape name ++ '+' :: rest) (escape t.name)).length := by
        intro rest
        induction rest with
        | nil => exact length_le_escape t.name
        | cons name rest ih =>
            rw [List.foldr_cons, List.length_append, List.length_cons]
            omega
      rw [List.foldr_cons, List.length_append, List.length_cons]
      exact Nat.lt_of_lt_of_le (Nat.lt_succ_of_le (htail names)) (Nat.le_add_left _ _)

/-! ### The names of reflection -/

mutual

/-- What reflection writes for a type is no shorter than its weight. -/
theorem weight_le_fullName : (t : ClrType) → {name : WString} →
    t.fullName metadata coreLibrary = some name → t.weight metadata ≤ name.length
  | .primitive p, name, h => by
      obtain rfl := Option.some.inj h
      exact Nat.le_refl _
  | .void, name, h => by
      obtain rfl := Option.some.inj h
      exact Nat.le_refl _
  | .named isValueType token, name, h => by
      obtain rfl := Option.some.inj h
      exact TypeName.length_le_fullName _
  | .szArray element, name, h => by
      obtain ⟨inner, hinner, rfl⟩ := Option.map_eq_some_iff.mp h
      have hle := weight_le_fullName element hinner
      simpa [ClrType.weight] using hle
  | .ptr target, name, h => by
      obtain ⟨inner, hinner, rfl⟩ := Option.map_eq_some_iff.mp h
      have hle := weight_le_fullName target hinner
      simpa [ClrType.weight] using hle
  | .genericInst isValueType token genArgCount args, name, h => by
      obtain ⟨names, hnames, rfl⟩ := Option.map_eq_some_iff.mp h
      obtain ⟨hlength, hle⟩ := weightAll_le_qualifiedNames args hnames
      have hown := TypeName.length_le_fullName (metadata token.token)
      simp only [ClrType.weight, List.length_append, length_intercalate, List.length_cons,
        List.length_nil]
      omega
  | .var number, name, h => nomatch h
  | .mvar number, name, h => nomatch h

/-- Each generic argument is written with its assembly and in brackets. -/
theorem weightAll_le_qualifiedNames : (ts : List ClrType) → {names : List WString} →
    ClrType.qualifiedNames metadata coreLibrary ts = some names →
    names.length = ts.length ∧
      ClrType.weightAll metadata ts + 4 * ts.length ≤ (names.map List.length).sum
  | [], names, h => by
      obtain rfl := Option.some.inj h
      exact ⟨rfl, Nat.le_refl 0⟩
  | t :: ts, names, h => by
      rw [ClrType.qualifiedNames] at h
      split at h
      case h_1 name rest hname hrest =>
        obtain rfl := Option.some.inj h
        have hle := weight_le_fullName t hname
        obtain ⟨hlength, hall⟩ := weightAll_le_qualifiedNames ts hrest
        refine ⟨congrArg (· + 1) hlength, ?_⟩
        simp only [ClrType.weightAll, List.map_cons, List.sum_cons, List.length_append,
          List.length_cons, List.length_nil]
        omega
      case h_2 => cases h

end

/-- A type that reflection names is plain, or the profiler does not read it to its end, or
its full name is longer than its weight. -/
theorem plain_or_irregular_or_longer : (t : ClrType) → {name : WString} → t.WellFormed →
    t.fullName metadata coreLibrary = some name →
    t.Plain metadata ∨ t.Irregular ∨ t.weight metadata < name.length
  | .primitive p, name, _, _ => Or.inl trivial
  | .void, name, _, _ => Or.inr (Or.inl trivial)
  | .named isValueType token, name, _, h => by
      obtain rfl := Option.some.inj h
      by_cases hplain : (metadata token.token).Plain
      · exact Or.inl hplain
      · exact Or.inr (Or.inr (TypeName.length_lt_fullName hplain))
  | .szArray element, name, hwf, h => by
      obtain ⟨inner, hinner, rfl⟩ := Option.map_eq_some_iff.mp h
      rcases plain_or_irregular_or_longer element hwf hinner with hplain | hirregular | hlt
      · exact Or.inl hplain
      · exact Or.inr (Or.inl hirregular)
      · exact Or.inr (Or.inr (by simpa [ClrType.weight] using hlt))
  | .ptr target, name, hwf, h => by
      obtain ⟨inner, hinner, rfl⟩ := Option.map_eq_some_iff.mp h
      rcases plain_or_irregular_or_longer target hwf hinner with hplain | hirregular | hlt
      · by_cases hptr : target.IsPtr
        · exact Or.inr (Or.inl (Or.inl hptr))
        · exact Or.inl ⟨hplain, hptr⟩
      · exact Or.inr (Or.inl (Or.inr hirregular))
      · exact Or.inr (Or.inr (by simpa [ClrType.weight] using hlt))
  | .genericInst isValueType token genArgCount args, name, hwf, h => by
      obtain ⟨names, hnames, rfl⟩ := Option.map_eq_some_iff.mp h
      obtain ⟨hlength, hle⟩ := weightAll_le_qualifiedNames args hnames
      have hown := TypeName.length_le_fullName (metadata token.token)
      have hargs : 0 < args.length := List.length_pos_of_ne_nil hwf.2.1
      refine Or.inr (Or.inr ?_)
      simp only [ClrType.weight, List.length_append, length_intercalate, List.length_cons,
        List.length_nil]
      omega
  | .var number, name, _, h => nomatch h
  | .mvar number, name, _, h => nomatch h

/-! ### The switch -/

def ClrType.head : ClrType → Byte
  | .primitive p => p.byte
  | .void => elementTypeVoid
  | .named isValueType _ => if isValueType then elementTypeValueType else elementTypeClass
  | .szArray _ => elementTypeSzArray
  | .ptr _ => elementTypePtr
  | .genericInst _ _ _ _ => elementTypeGenericInst
  | .var _ => elementTypeVar
  | .mvar _ => elementTypeMVar

theorem ClrType.bytes_eq (t : ClrType) : t.bytes = t.head :: t.bytes.tail := by
  cases t <;> rfl

theorem ClrType.bytes_length_pos (t : ClrType) : 0 < t.bytes.length := by
  rw [t.bytes_eq]
  exact Nat.succ_pos _

theorem ClrType.head_ne (t : ClrType) :
    t.head ≠ elementTypeByRef ∧ (t.head = elementTypePtr ↔ t.IsPtr) := by
  cases t with
  | primitive p => cases p <;> simp [ClrType.head, ClrType.IsPtr, Primitive.byte] <;> decide
  | named isValueType token => cases isValueType <;> simp [ClrType.head, ClrType.IsPtr] <;> decide
  | ptr target =>
      have hne : elementTypePtr ≠ elementTypeByRef := by decide
      exact ⟨hne, by simp [ClrType.head, ClrType.IsPtr]⟩
  | void | szArray | genericInst | var | mvar =>
      simp [ClrType.head, ClrType.IsPtr]
      decide

variable {getSigTypeTokName : Cursor Byte WString}

theorem primitiveOf_byte (p : Primitive) : primitiveOf p.byte = some p := by
  cases p <;> decide

theorem sigTypeTokName_primitive (p : Primitive) : Reads
    (sigTypeTokName metadata getSigTypeTokName p.byte) [p.byte] (typeName p) := by
  rw [sigTypeTokName, primitiveOf_byte]
  exact (reads_next p.byte).bind_pure _

theorem sigTypeTokName_named (isValueType : Bool) (token : Number) : Reads
    (sigTypeTokName metadata getSigTypeTokName (ClrType.named isValueType token).head)
    (ClrType.named isValueType token).bytes (metadata token.token).name := by
  have hread (elemType : Byte) : Reads (next >>= fun _ => uncompressToken >>= fun token =>
      pure (metadata token).name) ([elemType] ++ token.bytes) (metadata token.token).name :=
    (reads_next elemType).bind ((uncompressToken_reads token).bind_pure _)
  cases isValueType with
  | false => exact hread elementTypeClass
  | true => exact hread elementTypeValueType

theorem sigTypeTokName_szArray (bs : List Byte) :
    sigTypeTokName metadata getSigTypeTokName elementTypeSzArray (elementTypeSzArray :: bs)
      = (getSigTypeTokName bs).map fun r => (r.1 ++ ['[', ']'], r.2) := by
  change (getSigTypeTokName bs).bind _ = _
  cases getSigTypeTokName bs <;> rfl

theorem sigTypeTokName_var (number : Number) : Reads
    (sigTypeTokName metadata getSigTypeTokName elementTypeVar) (ClrType.var number).bytes
    (['!'] ++ toText number.value) :=
  (reads_next elementTypeVar).bind ((uncompressData_reads number).bind_pure _)

theorem sigTypeTokName_mvar (number : Number) : Reads
    (sigTypeTokName metadata getSigTypeTokName elementTypeMVar) (ClrType.mvar number).bytes
    (['!', '!'] ++ toText number.value) :=
  (reads_next elementTypeMVar).bind ((uncompressData_reads number).bind_pure _)

theorem sigTypeTokName_genericInst {bs : List Byte} {name : WString}
    (hname : Reads getSigTypeTokName bs name) (genArgCount : Number) (args : List Byte) :
    sigTypeTokName metadata getSigTypeTokName elementTypeGenericInst
        (elementTypeGenericInst :: (bs ++ (genArgCount.bytes ++ args)))
      = (collect getSigTypeTokName genArgCount.value args).map fun r =>
          (name ++ ['['] ++ [','].intercalate r.1 ++ [']'], r.2) := by
  change (getSigTypeTokName (bs ++ (genArgCount.bytes ++ args))).bind _ = _
  rw [hname, Option.bind_some]
  change (uncompressData (genArgCount.bytes ++ args)).bind _ = _
  rw [uncompressData_reads, Option.bind_some]
  change (collect getSigTypeTokName genArgCount.value args).bind _ = _
  cases collect getSigTypeTokName genArgCount.value args <;> rfl

/-- What the switch has no case for stays. -/
theorem sigTypeTokName_default {b : Byte} (h : b = elementTypePtr ∨ b = elementTypeVoid)
    (bs : List Byte) : sigTypeTokName metadata getSigTypeTokName b bs = some ([], bs) := by
  rcases h with rfl | rfl <;> rfl

/-! ### One call -/

theorem flag_cons (b x : Byte) (bs : List Byte) :
    flag b (x :: bs) = if x = b then some (true, bs) else some (false, x :: bs) := by
  by_cases hx : x = b
  · rw [if_pos hx]
    change (if x = b then _ else _ : Cursor Byte Bool) (x :: bs) = _
    rw [if_pos hx]
    rfl
  · rw [if_neg hx]
    change (if x = b then _ else _ : Cursor Byte Bool) (x :: bs) = _
    rw [if_neg hx]
    rfl

/-- The switch follows the flags. -/
theorem getSigTypeTokNameBody_apply (metadata : Metadata)
    (getSigTypeTokName : Cursor Byte WString) {bs bs₁ bs₂ : List Byte} {refFlag pointerFlag : Bool} {b : Byte}
    (href : flag elementTypeByRef bs = some (refFlag, bs₁))
    (hptr : flag elementTypePtr bs₁ = some (pointerFlag, b :: bs₂)) :
    getSigTypeTokNameBody metadata getSigTypeTokName bs
      = (sigTypeTokName metadata getSigTypeTokName b (b :: bs₂)).map fun r =>
          (r.1 ++ (if refFlag then ['&'] else []) ++ (if pointerFlag then ['*'] else []), r.2) := by
  rw [getSigTypeTokNameBody, bind_apply, href]
  change (flag elementTypePtr bs₁).bind _ = _
  rw [hptr]
  change (sigTypeTokName metadata getSigTypeTokName b (b :: bs₂)).bind _ = _
  cases sigTypeTokName metadata getSigTypeTokName b (b :: bs₂) with
  | none => rfl
  | some r => cases refFlag <;> cases pointerFlag <;> simp [pure_apply]

/-- The mark of a reference. -/
def ampersand (byRef : Bool) : WString := if byRef then ['&'] else []

theorem flag_byRefBytes (byRef : Bool) {x : Byte} (hx : x ≠ elementTypeByRef) (bs : List Byte) :
    flag elementTypeByRef (byRefBytes byRef ++ x :: bs) = some (byRef, x :: bs) := by
  cases byRef with
  | false => exact (flag_cons _ _ _).trans (if_neg hx)
  | true => exact (flag_cons _ _ _).trans (if_pos rfl)

theorem getSigTypeTokName_type {t : ClrType} (ht : ¬t.IsPtr) (byRef : Bool) (fuel : ℕ)
    (r : List Byte) : getSigTypeTokNameFuel metadata (fuel + 1) (byRefBytes byRef ++ (t.bytes ++ r))
      = (sigTypeTokName metadata (getSigTypeTokNameFuel metadata fuel) t.head (t.bytes ++ r)).map
          fun x => (x.1 ++ ampersand byRef, x.2) := by
  have hptr : flag elementTypePtr (t.bytes ++ r) = some (false, t.bytes ++ r) := by
    rw [t.bytes_eq, List.cons_append, flag_cons, if_neg fun h => ht (t.head_ne.2.mp h)]
  rw [t.bytes_eq, List.cons_append] at hptr ⊢
  have happly := getSigTypeTokNameBody_apply metadata (getSigTypeTokNameFuel metadata fuel)
    (flag_byRefBytes byRef t.head_ne.1 _) hptr
  simpa [ampersand, getSigTypeTokNameFuel] using happly

/-- One pointer is read together with the switch on its target. -/
theorem getSigTypeTokName_ptr (target : ClrType) (byRef : Bool) (fuel : ℕ) (r : List Byte) :
    getSigTypeTokNameFuel metadata (fuel + 1)
        (byRefBytes byRef ++ ((ClrType.ptr target).bytes ++ r))
      = (sigTypeTokName metadata (getSigTypeTokNameFuel metadata fuel) target.head
          (target.bytes ++ r)).map fun x => (x.1 ++ ampersand byRef ++ ['*'], x.2) := by
  have hbytes : (ClrType.ptr target).bytes ++ r = elementTypePtr :: (target.bytes ++ r) := rfl
  have hptr : flag elementTypePtr (elementTypePtr :: (target.bytes ++ r))
      = some (true, target.bytes ++ r) := (flag_cons _ _ _).trans (if_pos rfl)
  rw [hbytes]
  rw [target.bytes_eq, List.cons_append] at hptr ⊢
  have happly := getSigTypeTokNameBody_apply metadata (getSigTypeTokNameFuel metadata fuel)
    (flag_byRefBytes byRef (by decide) _) hptr
  simpa [ampersand, getSigTypeTokNameFuel] using happly

/-- Where no pointer is ahead, a call is the switch. -/
theorem reads_type_iff {t : ClrType} (ht : ¬t.IsPtr) {fuel : ℕ} {name : WString} :
    Reads (getSigTypeTokNameFuel metadata (fuel + 1)) t.bytes name ↔
      Reads (sigTypeTokName metadata (getSigTypeTokNameFuel metadata fuel) t.head)
        t.bytes name := by
  have heq (r : List Byte) : getSigTypeTokNameFuel metadata (fuel + 1) (t.bytes ++ r)
      = sigTypeTokName metadata (getSigTypeTokNameFuel metadata fuel) t.head (t.bytes ++ r) := by
    simpa [byRefBytes, ampersand] using getSigTypeTokName_type ht false fuel r
  exact ⟨fun h r => (heq r).symm.trans (h r), fun h r => (heq r).trans (h r)⟩

theorem exists_fuel {t : ClrType} {fuel : ℕ} (h : t.bytes.length ≤ fuel) : ∃ n, fuel = n + 1 :=
  Nat.exists_eq_succ_of_ne_zero (Nat.ne_of_gt (Nat.lt_of_lt_of_le t.bytes_length_pos h))

/-! ### Plain types -/

/-- **A plain type has one name.** Both sides give it, and the profiler reads the encoding of
the type to its end. -/
theorem plain_reads : (t : ClrType) → t.Plain metadata →
    t.fullName metadata coreLibrary = some (t.plainName metadata) ∧
      ∀ fuel, t.bytes.length ≤ fuel →
        Reads (getSigTypeTokNameFuel metadata fuel) t.bytes (t.plainName metadata)
  | .primitive p, _ => by
      refine ⟨rfl, fun fuel hfuel => ?_⟩
      obtain ⟨fuel, rfl⟩ := exists_fuel hfuel
      exact (reads_type_iff id).mpr (sigTypeTokName_primitive p)
  | .named isValueType token, h => by
      refine ⟨congrArg some (TypeName.fullName_of_plain h), fun fuel hfuel => ?_⟩
      obtain ⟨fuel, rfl⟩ := exists_fuel hfuel
      exact (reads_type_iff id).mpr (sigTypeTokName_named isValueType token)
  | .szArray element, h => by
      obtain ⟨hname, hreads⟩ := plain_reads element h
      refine ⟨by rw [ClrType.fullName, hname]; rfl, fun fuel hfuel => ?_⟩
      obtain ⟨fuel, rfl⟩ := exists_fuel hfuel
      refine (reads_type_iff id).mpr fun r => ?_
      refine (sigTypeTokName_szArray (element.bytes ++ r)).trans ?_
      rw [hreads fuel (Nat.le_of_succ_le_succ hfuel) r]
      rfl
  | .ptr target, h => by
      obtain ⟨hname, hreads⟩ := plain_reads target h.1
      refine ⟨by rw [ClrType.fullName, hname]; rfl, fun fuel hfuel => ?_⟩
      obtain ⟨fuel, rfl⟩ := exists_fuel hfuel
      intro r
      -- the target is no pointer, so that a call on it alone is the same switch
      have hswitch := (reads_type_iff h.2).mp (hreads (fuel + 1) (Nat.le_of_succ_le hfuel))
      have hread : getSigTypeTokNameFuel metadata (fuel + 1) (byRefBytes false ++ _) = _ :=
        getSigTypeTokName_ptr target false fuel r
      rw [hswitch r] at hread
      simpa [byRefBytes, ampersand, ClrType.plainName] using hread
  | .void, h => h.elim
  | .genericInst _ _ _ _, h => h.elim
  | .var _, h => h.elim
  | .mvar _, h => h.elim

/-! ### The length of the profiler's names -/

/-- A call that has the types `t :: ts` ahead gives a name and leaves some types, which
together weigh no more, but for the length of the marks. It leaves `ts` at least, and more
than that if it stops inside `t`. -/
def Bounded (metadata : Metadata) (marks : ℕ) (stops : Prop) (t : ClrType) (ts : List ClrType)
    (r : List Byte) (result : Option (WString × List Byte)) : Prop :=
  ∃ name left, result = some (name, ClrType.bytesAll left ++ r) ∧ ClrType.WellFormedAll left ∧
    name.length + ClrType.weightAll metadata left ≤ ClrType.weightAll metadata (t :: ts) + marks ∧
    ts.length ≤ left.length ∧ (stops → ts.length < left.length) ∧
    (ClrType.bytesAll left).length ≤ (ClrType.bytesAll (t :: ts)).length

theorem Bounded.mono {marks : ℕ} {stops stops' : Prop} {t : ClrType} {ts : List ClrType} {r : List Byte}
    {result : Option (WString × List Byte)} (h : Bounded metadata marks stops t ts r result)
    (himp : stops' → stops) : Bounded metadata marks stops' t ts r result := by
  obtain ⟨name, left, hresult, hleft, hweight, hlength, hstops, hbytes⟩ := h
  exact ⟨name, left, hresult, hleft, hweight, hlength, hstops ∘ himp, hbytes⟩

theorem bounded_of_reads {t : ClrType} {ts : List ClrType} {p : Cursor Byte WString}
    {name : WString} {stops : Prop} (hp : Reads p t.bytes name) (hts : ClrType.WellFormedAll ts)
    (hname : name.length ≤ t.weight metadata) (hstops : ¬stops) (r : List Byte) :
    Bounded metadata 0 stops t ts r (p (t.bytes ++ (ClrType.bytesAll ts ++ r))) := by
  refine ⟨name, ts, hp _, hts, ?_, Nat.le_refl _, fun h => (hstops h).elim, ?_⟩
  · exact Nat.add_le_add_right hname _
  · rw [ClrType.bytesAll, List.length_append]
    exact Nat.le_add_left _ _

theorem bytesAll_append (ts us : List ClrType) :
    ClrType.bytesAll (ts ++ us) = ClrType.bytesAll ts ++ ClrType.bytesAll us := by
  induction ts with
  | nil => rfl
  | cons t ts ih => rw [List.cons_append, ClrType.bytesAll, ih, ClrType.bytesAll, List.append_assoc]

theorem weightAll_append (ts us : List ClrType) : ClrType.weightAll metadata (ts ++ us)
    = ClrType.weightAll metadata ts + ClrType.weightAll metadata us := by
  induction ts with
  | nil => exact (Nat.zero_add _).symm
  | cons t ts ih => rw [List.cons_append, ClrType.weightAll, ih, ClrType.weightAll, Nat.add_assoc]

theorem wellFormedAll_append {ts us : List ClrType} : ClrType.WellFormedAll (ts ++ us) ↔
    ClrType.WellFormedAll ts ∧ ClrType.WellFormedAll us := by
  induction ts with
  | nil => exact (true_and _).to_iff.symm
  | cons t ts ih => rw [List.cons_append, ClrType.WellFormedAll, ih, ClrType.WellFormedAll, and_assoc]

/-- Calls in a row, each of which may stop inside a type and leave the rest to the next. -/
theorem collect_bound {p : Cursor Byte WString} {fuel : ℕ} {r : List Byte}
    (hp : ∀ t ts, ClrType.WellFormedAll (t :: ts) → (ClrType.bytesAll (t :: ts)).length ≤ fuel →
      Bounded metadata 0 False t ts r (p (ClrType.bytesAll (t :: ts) ++ r))) :
    ∀ (n : ℕ) (ts : List ClrType), ClrType.WellFormedAll ts →
      (ClrType.bytesAll ts).length ≤ fuel → n ≤ ts.length →
      ∃ names left, collect p n (ClrType.bytesAll ts ++ r) = some (names, ClrType.bytesAll left ++ r) ∧
        ClrType.WellFormedAll left ∧ names.length = n ∧
        (names.map List.length).sum + ClrType.weightAll metadata left
          ≤ ClrType.weightAll metadata ts ∧
        ts.length ≤ left.length + n ∧
        (ClrType.bytesAll left).length ≤ (ClrType.bytesAll ts).length := by
  intro n
  induction n with
  | zero =>
      intro ts hts _ _
      exact ⟨[], ts, rfl, hts, rfl, by simp, Nat.le_refl _, Nat.le_refl _⟩
  | succ n ih =>
      intro ts hts hfuel hn
      cases ts with
      | nil => exact (Nat.not_succ_le_zero n hn).elim
      | cons t ts =>
          obtain ⟨name, mid, hname, hmid, hweight, hlength, -, hbytes⟩ := hp t ts hts hfuel
          rw [List.length_cons] at hn
          obtain ⟨names, left, hnames, hleft, hcount, hweights, hlengths, hbytes'⟩ :=
            ih mid hmid (Nat.le_trans hbytes hfuel) (by omega)
          refine ⟨name :: names, left, ?_, hleft, congrArg (· + 1) hcount, ?_, ?_,
            Nat.le_trans hbytes' hbytes⟩
          · rw [collect, bind_apply, hname]
            change (collect p n _).bind _ = _
            rw [hnames]
            rfl
          · rw [List.map_cons, List.sum_cons]
            omega
          · rw [List.length_cons]
            omega

/-- The types whose switch stops before their end. -/
def ClrType.Stops (t : ClrType) : Prop := t.IsPtr ∨ t.Irregular

theorem sigTypeTokName_bound {fuel : ℕ} {r : List Byte}
    (ih : ∀ t ts, ClrType.WellFormedAll (t :: ts) → (ClrType.bytesAll (t :: ts)).length ≤ fuel →
      Bounded metadata 0 t.Irregular t ts r
        (getSigTypeTokNameFuel metadata fuel (ClrType.bytesAll (t :: ts) ++ r)))
    (t : ClrType) (ts : List ClrType) (hwf : ClrType.WellFormedAll (t :: ts))
    (hfuel : (ClrType.bytesAll (t :: ts)).length ≤ fuel + 1) :
    Bounded metadata 0 t.Stops t ts r (sigTypeTokName metadata (getSigTypeTokNameFuel metadata fuel)
      t.head (t.bytes ++ (ClrType.bytesAll ts ++ r))) := by
  have hstays : t.head = elementTypePtr ∨ t.head = elementTypeVoid →
      Bounded metadata 0 t.Stops t ts r (sigTypeTokName metadata
        (getSigTypeTokNameFuel metadata fuel) t.head (t.bytes ++ (ClrType.bytesAll ts ++ r))) := by
    intro hhead
    refine ⟨[], t :: ts, ?_, hwf, Nat.le_of_eq (Nat.zero_add _), Nat.le_succ _, fun _ => Nat.lt_succ_self _,
      Nat.le_refl _⟩
    rw [sigTypeTokName_default hhead, ClrType.bytesAll, List.append_assoc]
  cases t with
  | primitive p =>
      exact bounded_of_reads (sigTypeTokName_primitive p) hwf.2 (Nat.le_refl _) (by rintro (h | h) <;> exact h) r
  | void => exact hstays (Or.inr rfl)
  | named isValueType token =>
      exact bounded_of_reads (sigTypeTokName_named isValueType token) hwf.2 (Nat.le_refl _)
        (by rintro (h | h) <;> exact h) r
  | szArray element =>
      obtain ⟨name, left, hread, hleft, hweight, hlength, hstops, hbytes⟩ :=
        ih element ts hwf (Nat.le_of_succ_le_succ hfuel)
      refine ⟨name ++ ['[', ']'], left, ?_, hleft, ?_, hlength,
        fun h => hstops (h.resolve_left id), Nat.le_succ_of_le hbytes⟩
      · refine (sigTypeTokName_szArray (element.bytes ++ (ClrType.bytesAll ts ++ r))).trans ?_
        rw [ClrType.bytesAll, List.append_assoc] at hread
        rw [hread]
        rfl
      · simp only [ClrType.weightAll, ClrType.weight, List.length_append, List.length_cons,
          List.length_nil] at hweight ⊢
        omega
  | ptr target => exact hstays (Or.inl rfl)
  | genericInst isValueType token genArgCount args =>
      obtain ⟨⟨hcount, hargs, hwfArgs⟩, hwfTs⟩ := hwf
      have hlength : (ClrType.bytesAll (.genericInst isValueType token genArgCount args :: ts)).length
          = 1 + (ClrType.named isValueType token).bytes.length + genArgCount.bytes.length
            + (ClrType.bytesAll (args ++ ts)).length := by
        simp only [ClrType.bytesAll, ClrType.bytes, bytesAll_append, List.length_cons,
          List.length_append]
        omega
      have hpos := ClrType.bytes_length_pos (.named isValueType token)
      have hown : Reads (getSigTypeTokNameFuel metadata fuel) (ClrType.named isValueType token).bytes
          (metadata token.token).name := by
        have hfuel : (ClrType.named isValueType token).bytes.length ≤ fuel := by omega
        obtain ⟨fuel, rfl⟩ := exists_fuel hfuel
        exact (reads_type_iff id).mpr (sigTypeTokName_named isValueType token)
      obtain ⟨names, left, hnames, hleft, hlengthNames, hweights, hlengths, hbytes⟩ :=
        collect_bound (fun t ts hts hle => (ih t ts hts hle).mono False.elim)
          genArgCount.value (args ++ ts) (wellFormedAll_append.mpr ⟨hwfArgs, hwfTs⟩) (by omega)
          (by rw [hcount, List.length_append]; exact Nat.le_add_right _ _)
      rw [weightAll_append] at hweights
      rw [List.length_append, hcount] at hlengths
      refine ⟨(metadata token.token).name ++ ['['] ++ [','].intercalate names ++ [']'], left, ?_,
        hleft, ?_, by omega, by rintro (h | h) <;> exact h.elim, by omega⟩
      · have hread : sigTypeTokName metadata _ _ _ = _ :=
          sigTypeTokName_genericInst hown genArgCount (ClrType.bytesAll (args ++ ts) ++ r)
        rw [hnames] at hread
        rw [bytesAll_append] at hread
        simpa [ClrType.bytes, ClrType.head] using hread
      · simp only [ClrType.weightAll, ClrType.weight, List.length_append, length_intercalate,
          List.length_cons, List.length_nil]
        omega
  | var number =>
      refine bounded_of_reads (sigTypeTokName_var number) hwf.2 ?_ (by rintro (h | h) <;> exact h) r
      simp only [ClrType.weight, List.length_append, List.length_cons, List.length_nil]
      omega
  | mvar number =>
      refine bounded_of_reads (sigTypeTokName_mvar number) hwf.2 ?_ (by rintro (h | h) <;> exact h) r
      simp only [ClrType.weight, List.length_append, List.length_cons, List.length_nil]
      omega

/-- The marks are written after the switch. -/
theorem getSigTypeTokName_bound_of_switch {fuel : ℕ} {r : List Byte} (byRef : Bool) (t : ClrType)
    (ts : List ClrType) (hwf : ClrType.WellFormedAll (t :: ts))
    (hfuel : (ClrType.bytesAll (t :: ts)).length ≤ fuel + 1)
    (hswitch : ∀ t ts, ClrType.WellFormedAll (t :: ts) →
      (ClrType.bytesAll (t :: ts)).length ≤ fuel + 1 →
      Bounded metadata 0 t.Stops t ts r (sigTypeTokName metadata
        (getSigTypeTokNameFuel metadata fuel) t.head (t.bytes ++ (ClrType.bytesAll ts ++ r)))) :
    Bounded metadata (ampersand byRef).length t.Irregular t ts r
      (getSigTypeTokNameFuel metadata (fuel + 1)
        (byRefBytes byRef ++ (t.bytes ++ (ClrType.bytesAll ts ++ r)))) := by
  by_cases ht : t.IsPtr
  · cases t with
    | ptr target =>
        obtain ⟨name, left, hread, hleft, hweight, hlength, hstops, hbytes⟩ :=
          hswitch target ts hwf (Nat.le_of_succ_le hfuel)
        refine ⟨name ++ ampersand byRef ++ ['*'], left, ?_, hleft, ?_, hlength, hstops,
          Nat.le_succ_of_le hbytes⟩
        · rw [getSigTypeTokName_ptr, hread]
          rfl
        · simp only [ClrType.weightAll, ClrType.weight, List.length_append, List.length_cons,
            List.length_nil] at hweight ⊢
          omega
    | _ => exact ht.elim
  · obtain ⟨name, left, hread, hleft, hweight, hlength, hstops, hbytes⟩ := hswitch t ts hwf hfuel
    refine ⟨name ++ ampersand byRef, left, ?_, hleft, ?_, hlength, fun h => hstops (Or.inr h),
      hbytes⟩
    · rw [getSigTypeTokName_type ht, hread]
      rfl
    · rw [List.length_append]
      omega

/-- **The profiler's names are short.** On any types the recursion ends, and a name takes no
more characters than the types that it was read from weigh. -/
theorem getSigTypeTokName_bound (fuel : ℕ) {r : List Byte} : ∀ (t : ClrType) (ts : List ClrType),
    ClrType.WellFormedAll (t :: ts) → (ClrType.bytesAll (t :: ts)).length ≤ fuel →
      Bounded metadata 0 t.Irregular t ts r
        (getSigTypeTokNameFuel metadata fuel (ClrType.bytesAll (t :: ts) ++ r)) := by
  induction fuel with
  | zero =>
      intro t ts _ hfuel
      have hpos := t.bytes_length_pos
      rw [ClrType.bytesAll, List.length_append] at hfuel
      omega
  | succ fuel ih =>
      intro t ts hwf hfuel
      have hbound := getSigTypeTokName_bound_of_switch false t ts hwf hfuel
        (sigTypeTokName_bound ih)
      rw [ClrType.bytesAll, List.append_assoc]
      exact hbound

/-! ### Parameters -/

/-- The name that both sides give a simple parameter. -/
def Parameter.plainName (metadata : Metadata) (p : Parameter) : WString :=
  p.type.plainName metadata ++ ampersand p.byRef

theorem Parameter.bytes_append (p : Parameter) (r : List Byte) :
    p.bytes ++ r = byRefBytes p.byRef ++ (p.type.bytes ++ r) := by
  rw [Parameter.bytes, List.append_assoc]

theorem getTypeTokName_eq {p : Parameter} {r : List Byte} {name : WString} (left : List Byte)
    (h : ∀ fuel, p.type.bytes.length ≤ fuel → getSigTypeTokNameFuel metadata (fuel + 1)
      (byRefBytes p.byRef ++ (p.type.bytes ++ r)) = some (name, left)) :
    getTypeTokName metadata (p.bytes ++ r) = some name := by
  rw [getTypeTokName, p.bytes_append, h _ ?_]
  · rfl
  · simp only [List.length_append]
    omega

theorem getParameterTypeNameDefinition_of_fullName {p : Parameter} {name : WString}
    (h : p.type.fullName metadata coreLibrary = some name) :
    getParameterTypeNameDefinition metadata coreLibrary p = .ok (name ++ ampersand p.byRef) := by
  have hfull : p.fullName metadata coreLibrary = some (name ++ ampersand p.byRef) := by
    rw [Parameter.fullName, h]
    cases p.byRef <;> simp [ampersand]
  have hpos := Nat.lt_of_lt_of_le (weight_pos p.type) (weight_le_fullName p.type h)
  rw [getParameterTypeNameDefinition, hfull]
  cases name with
  | nil => exact (Nat.lt_irrefl 0 hpos).elim
  | cons c name => rfl

theorem getParameterTypeNameDefinition_of_variable {p : Parameter}
    (h : p.byRef = false ∧ p.type.IsVariable) :
    getParameterTypeNameDefinition metadata coreLibrary p = .ok (p.plainName metadata) := by
  obtain ⟨byRef, t⟩ := p
  obtain ⟨rfl, h⟩ := h
  cases t with
  | var number => simp [getParameterTypeNameDefinition, Parameter.fullName, ClrType.fullName,
      Parameter.genericParameter, Parameter.plainName, ClrType.plainName, ampersand]
  | mvar number => simp [getParameterTypeNameDefinition, Parameter.fullName, ClrType.fullName,
      Parameter.genericParameter, Parameter.plainName, ClrType.plainName, ampersand]
  | _ => exact h.elim

/-- Both sides give a simple parameter its plain name. -/
theorem simple_names {p : Parameter} (h : p.Simple metadata) :
    getParameterTypeNameDefinition metadata coreLibrary p = .ok (p.plainName metadata) ∧
      ∀ r, getTypeTokName metadata (p.bytes ++ r) = some (p.plainName metadata) := by
  rcases h with hvariable | ⟨hplain, hptr⟩
  · refine ⟨getParameterTypeNameDefinition_of_variable hvariable, fun r => ?_⟩
    obtain ⟨byRef, t⟩ := p
    obtain ⟨rfl, hvariable⟩ := hvariable
    cases t with
    | var number =>
        refine getTypeTokName_eq r fun fuel _ => ?_
        have hread : getSigTypeTokNameFuel metadata (fuel + 1) ((ClrType.var number).bytes ++ r) = _ :=
          (reads_type_iff id).mpr (sigTypeTokName_var number) r
        simpa [Parameter.plainName, ClrType.plainName, ampersand, byRefBytes] using hread
    | mvar number =>
        refine getTypeTokName_eq r fun fuel _ => ?_
        have hread : getSigTypeTokNameFuel metadata (fuel + 1) ((ClrType.mvar number).bytes ++ r) = _ :=
          (reads_type_iff id).mpr (sigTypeTokName_mvar number) r
        simpa [Parameter.plainName, ClrType.plainName, ampersand, byRefBytes] using hread
    | _ => exact hvariable.elim
  · obtain ⟨hname, hreads⟩ : p.type.fullName metadata coreLibrary = _ ∧ _ :=
      plain_reads p.type hplain
    refine ⟨getParameterTypeNameDefinition_of_fullName hname, fun r => ?_⟩
    refine getTypeTokName_eq r fun fuel hfuel => ?_
    cases hbyRef : p.byRef with
    | false =>
        have hread := hreads (fuel + 1) (Nat.le_succ_of_le hfuel) r
        simpa [Parameter.plainName, ampersand, byRefBytes, hbyRef] using hread
    | true =>
        have hnot : ¬p.type.IsPtr := fun h => hptr ⟨hbyRef, h⟩
        rw [getSigTypeTokName_type hnot,
          (reads_type_iff hnot).mp (hreads (fuel + 1) (Nat.le_succ_of_le hfuel)) r, Option.map_some,
          Parameter.plainName, hbyRef]

/-- What the profiler calls a parameter, whatever its type: no name is longer than the
weight, and one that is read from a part of the type is shorter. -/
theorem getTypeTokName_le {p : Parameter} (hwf : p.type.WellFormed) (r : List Byte) :
    ∃ name, getTypeTokName metadata (p.bytes ++ r) = some name ∧
      name.length ≤ p.type.weight metadata + (ampersand p.byRef).length ∧
      (p.type.Irregular → name.length < p.type.weight metadata + (ampersand p.byRef).length) := by
  have hall : (ClrType.bytesAll [p.type]).length = p.type.bytes.length := by
    simp [ClrType.bytesAll]
  have hfuel : (ClrType.bytesAll [p.type]).length ≤ (p.bytes ++ r).length + 1 := by
    rw [hall, p.bytes_append]
    simp only [List.length_append]
    omega
  have hbound : Bounded metadata _ _ p.type [] r _ := getSigTypeTokName_bound_of_switch p.byRef
    p.type [] ⟨hwf, trivial⟩ hfuel (sigTypeTokName_bound (getSigTypeTokName_bound _))
  obtain ⟨name, left, hread, -, hweight, -, hstops, -⟩ := hbound
  refine ⟨name, ?_, ?_, fun hirregular => ?_⟩
  · rw [getTypeTokName, p.bytes_append]
    rw [p.bytes_append] at hread
    exact congrArg (Option.map Prod.fst) hread
  · simp only [ClrType.weightAll] at hweight
    omega
  · have hleft : 0 < ClrType.weightAll metadata left := by
      cases left with
      | nil => exact (Nat.lt_irrefl 0 (hstops hirregular)).elim
      | cons t left => exact Nat.lt_of_lt_of_le (weight_pos t) (Nat.le_add_right _ _)
    simp only [ClrType.weightAll] at hweight
    omega

/-- For a reference to a pointer the marks are written in another order than reflection
does. -/
theorem getTypeTokName_ref_ptr {p : Parameter} (hplain : p.type.Plain metadata)
    (hbyRef : p.byRef = true) (hptr : p.type.IsPtr) (r : List Byte) :
    ∃ name, p.type.fullName metadata coreLibrary = some (name ++ ['*']) ∧
      getTypeTokName metadata (p.bytes ++ r) = some (name ++ ['&'] ++ ['*']) := by
  obtain ⟨byRef, t⟩ := p
  obtain rfl : byRef = true := hbyRef
  cases t with
  | ptr target =>
      obtain ⟨hname, hreads⟩ : target.fullName metadata coreLibrary = _ ∧ _ :=
        plain_reads target hplain.1
      refine ⟨target.plainName metadata, by rw [ClrType.fullName, hname]; rfl, ?_⟩
      refine getTypeTokName_eq r fun fuel hfuel => ?_
      have hlength : target.bytes.length ≤ fuel := Nat.le_of_succ_le hfuel
      have hswitch := (reads_type_iff hplain.2).mp (hreads (fuel + 1) (Nat.le_succ_of_le hlength))
      rw [getSigTypeTokName_ptr, hswitch r]
      rfl
  | _ => exact hptr.elim

theorem two_le_weight : (t : ClrType) → t.Irregular → 2 ≤ t.weight metadata
  | .void, _ => by
      rw [ClrType.weight]
      decide
  | .szArray element, _ => Nat.le_add_left 2 _
  | .ptr target, _ => Nat.succ_le_succ (weight_pos target)
  | .primitive _, h => h.elim
  | .named _ _, h => h.elim
  | .genericInst _ _ _ _, h => h.elim
  | .var _, h => h.elim
  | .mvar _, h => h.elim

/-- **Any other parameter has no common name.** Either managed code throws, or it has another
name than the profiler, and more than one character long. -/
theorem other_names {p : Parameter} (hwf : p.type.WellFormed) (h : ¬p.Simple metadata)
    (r : List Byte) :
    getParameterTypeNameDefinition metadata coreLibrary p = .error .genericParameterPosition ∨
      ∃ managed native, getParameterTypeNameDefinition metadata coreLibrary p = .ok managed ∧
        getTypeTokName metadata (p.bytes ++ r) = some native ∧ native ≠ managed ∧
        2 ≤ managed.length := by
  cases hfull : p.type.fullName metadata coreLibrary with
  | none =>
      left
      have hvariable : p.genericParameter = none := by
        rw [Parameter.genericParameter]
        split
        · rfl
        · next hbyRef =>
            split
            · next number heq => exact (h (Or.inl ⟨by simpa using hbyRef, by rw [heq]; trivial⟩)).elim
            · next number heq => exact (h (Or.inl ⟨by simpa using hbyRef, by rw [heq]; trivial⟩)).elim
            · rfl
      simp [getParameterTypeNameDefinition, Parameter.fullName, hfull, hvariable]
  | some name =>
      right
      obtain ⟨native, hnative, hle, hlt⟩ : ∃ native, getTypeTokName metadata _ = some native ∧ _ :=
        getTypeTokName_le hwf r
      refine ⟨name ++ ampersand p.byRef, native, getParameterTypeNameDefinition_of_fullName hfull,
        hnative, ?_⟩
      have hpos : 0 < p.type.weight metadata := weight_pos p.type
      have hlongest := weight_le_fullName p.type hfull
      have hshorter : native.length < name.length + (ampersand p.byRef).length →
          2 ≤ name.length → native ≠ name ++ ampersand p.byRef ∧
            2 ≤ (name ++ ampersand p.byRef).length := by
        intro hlength hname
        rw [List.length_append]
        refine ⟨fun heq => ?_, Nat.le_add_right_of_le hname⟩
        rw [heq, List.length_append] at hlength
        exact Nat.lt_irrefl _ hlength
      rcases plain_or_irregular_or_longer p.type hwf hfull with hplain | hirregular | hlonger
      · -- a reference to a pointer: the marks are written in another order
        have hptr : p.byRef = true ∧ p.type.IsPtr := by
          by_contra hnot
          exact h (Or.inr ⟨hplain, hnot⟩)
        obtain ⟨inner, hinner, hread⟩ := getTypeTokName_ref_ptr hplain hptr.1 hptr.2 r
        obtain rfl := Option.some.inj (hnative.symm.trans hread)
        obtain rfl := Option.some.inj (hfull.symm.trans hinner)
        refine ⟨?_, by simp [ampersand, hptr.1]⟩
        simp [ampersand, hptr.1]
      · have hstops := hlt hirregular
        have htwo : 2 ≤ p.type.weight metadata := two_le_weight p.type hirregular
        exact hshorter (by omega) (by omega)
      · exact hshorter (by omega) (by omega)

/-! ### Methods -/

/-- Managed code answers, and as the profiler does. -/
def Agrees (metadata : Metadata) (coreLibrary : WString) (tail : List Byte)
    (signatureTypes : List WString) (ps : List Parameter) : Prop :=
  ∃ accepts, checkParameters metadata coreLibrary signatureTypes ps = .ok accepts ∧
    checkExactSignatureMatch metadata (argumentsAt tail ps) signatureTypes = some accepts

/-- A `_` of the target stands for a parameter of another name, and the rest of the target
fits: the wildcard that only the profiler knows decides. -/
def Misled (metadata : Metadata) (signatureTypes : List WString) (ps : List Parameter) : Prop :=
  signatureTypes.length = ps.length + 1 ∧
    (∀ x ∈ signatureTypes.tail.zip ps, x.1 = x.2.plainName metadata ∨ x.1 = ['_']) ∧
    ∃ x ∈ signatureTypes.tail.zip ps, x.1 ≠ x.2.plainName metadata ∧ x.1 = ['_']

theorem argumentsAt_length (tail : List Byte) (ps : List Parameter) :
    (argumentsAt tail ps).length = ps.length := by
  induction ps with
  | nil => rfl
  | cons p ps ih => exact congrArg (· + 1) ih

theorem parametersMatch_of_simple {ps : List Parameter} (h : ∀ p ∈ ps, p.Simple metadata) :
    ∀ signatureTypes : List WString, parametersMatch metadata coreLibrary signatureTypes ps
      = .ok ((signatureTypes.zip ps).all fun x => decide (x.1 = x.2.plainName metadata)) := by
  induction ps with
  | nil => intro signatureTypes; cases signatureTypes <;> rfl
  | cons p ps ih =>
      intro signatureTypes
      cases signatureTypes with
      | nil => rfl
      | cons signatureType signatureTypes =>
          obtain ⟨hname, -⟩ : getParameterTypeNameDefinition metadata coreLibrary p = _ ∧ _ :=
            simple_names (h p List.mem_cons_self)
          have hrest := ih (fun q hq => h q (List.mem_cons_of_mem p hq)) signatureTypes
          rw [List.zip_cons_cons, List.all_cons, parametersMatch, hname]
          by_cases heq : signatureType = p.plainName metadata
          · simpa [heq, bind, Except.bind] using hrest
          · simp [heq, bind, Except.bind, pure, Except.pure]

theorem argumentsMatch_of_simple {ps : List Parameter} (h : ∀ p ∈ ps, p.Simple metadata)
    (tail : List Byte) : ∀ signatureTypes : List WString,
      argumentsMatch metadata (argumentsAt tail ps) signatureTypes
        = some ((signatureTypes.zip ps).all fun x =>
            decide (x.1 = x.2.plainName metadata ∨ x.1 = ['_'])) := by
  induction ps with
  | nil => intro signatureTypes; cases signatureTypes <;> rfl
  | cons p ps ih =>
      intro signatureTypes
      cases signatureTypes with
      | nil => rfl
      | cons signatureType signatureTypes =>
          obtain ⟨-, hname⟩ : getParameterTypeNameDefinition metadata [] p = _ ∧ _ :=
            simple_names (h p List.mem_cons_self)
          have hrest := ih (fun q hq => h q (List.mem_cons_of_mem p hq)) signatureTypes
          rw [List.zip_cons_cons, List.all_cons, argumentsAt, argumentsMatch, hname,
            Option.bind_eq_bind, Option.bind_some]
          by_cases heq : signatureType = p.plainName metadata ∨ signatureType = ['_']
          · rw [if_neg (by rintro ⟨hne, hwild⟩; exact heq.elim (fun h => hne h.symm) hwild), hrest,
              decide_eq_true heq, Bool.true_and]
          · have hne : p.plainName metadata ≠ signatureType ∧ signatureType ≠ ['_'] :=
              ⟨fun h => heq (Or.inl h.symm), fun h => heq (Or.inr h)⟩
            rw [if_pos hne, decide_eq_false heq, Bool.false_and]
            rfl

/-- With simple parameters only the wildcard makes a difference. -/
theorem agrees_iff_of_simple {ps : List Parameter} (h : ∀ p ∈ ps, p.Simple metadata)
    (tail : List Byte) (signatureTypes : List WString) :
    Agrees metadata coreLibrary tail signatureTypes ps ↔ ¬Misled metadata signatureTypes ps := by
  by_cases hlength : signatureTypes.length = ps.length + 1
  · rw [Agrees, checkParameters, if_neg (not_not.mpr hlength), checkExactSignatureMatch,
      argumentsAt_length, if_neg (not_not.mpr hlength.symm), parametersMatch_of_simple h,
      argumentsMatch_of_simple h]
    constructor
    · rintro ⟨accepts, hmanaged, hnative⟩ ⟨-, hfits, x, hx, hne, -⟩
      have haccepts : accepts = true := by
        rw [← Option.some.inj hnative, List.all_eq_true]
        exact fun y hy => decide_eq_true (hfits y hy)
      have hall := (Except.ok.inj hmanaged).trans haccepts
      exact hne (of_decide_eq_true (List.all_eq_true.mp hall x hx))
    · intro hmisled
      refine ⟨_, rfl, congrArg some (Bool.eq_iff_iff.mpr ?_)⟩
      rw [List.all_eq_true, List.all_eq_true]
      constructor
      · intro hfits x hx
        have hfit := of_decide_eq_true (hfits x hx)
        by_contra hne
        have hne : x.1 ≠ x.2.plainName metadata := fun heq => hne (decide_eq_true heq)
        exact hmisled ⟨hlength, fun y hy => of_decide_eq_true (hfits y hy), x, hx, hne,
          hfit.resolve_left hne⟩
      · intro hfits x hx
        exact decide_eq_true (Or.inl (of_decide_eq_true (hfits x hx)))
  · have hagrees : Agrees metadata coreLibrary tail signatureTypes ps :=
      ⟨false, if_pos hlength, if_pos (by rw [argumentsAt_length]; exact fun h => hlength h.symm)⟩
    exact ⟨fun _ hmisled => hlength hmisled.1, fun _ => hagrees⟩

/-- The target that names a parameter as reflection does. -/
def managedName (metadata : Metadata) (coreLibrary : WString) (p : Parameter) : WString :=
  match getParameterTypeNameDefinition metadata coreLibrary p with
  | .ok name => name
  | .error _ => []

/-- Managed code does not refuse its own names. -/
theorem parametersMatch_managedName (ps : List Parameter) :
    parametersMatch metadata coreLibrary (ps.map (managedName metadata coreLibrary)) ps ≠ .ok false := by
  induction ps with
  | nil => exact fun h => nomatch h
  | cons p ps ih =>
      rw [List.map_cons, parametersMatch, managedName]
      cases getParameterTypeNameDefinition metadata coreLibrary p with
      | error e => exact fun h => nomatch h
      | ok name => simpa [bind, Except.bind] using ih

/-- The profiler refuses them where they differ from its own. -/
theorem argumentsMatch_managedName {ps : List Parameter} (hwf : ∀ p ∈ ps, p.type.WellFormed)
    (h : ∃ p ∈ ps, ¬p.Simple metadata) (tail : List Byte)
    (hok : parametersMatch metadata coreLibrary (ps.map (managedName metadata coreLibrary)) ps
      = .ok true) :
    argumentsMatch metadata (argumentsAt tail ps) (ps.map (managedName metadata coreLibrary))
      = some false := by
  induction ps with
  | nil => simp at h
  | cons p ps ih =>
      rw [List.map_cons, parametersMatch, managedName] at hok
      rw [List.map_cons, argumentsAt, argumentsMatch, managedName]
      by_cases hsimple : p.Simple metadata
      · obtain ⟨hmanaged, hnative⟩ : getParameterTypeNameDefinition metadata coreLibrary p = _ ∧ _ :=
          simple_names hsimple
        have hrest : ∃ q ∈ ps, ¬q.Simple metadata := by
          obtain ⟨q, hq, hother⟩ := h
          rcases List.mem_cons.mp hq with rfl | hq
          · exact (hother hsimple).elim
          · exact ⟨q, hq, hother⟩
        rw [hmanaged] at hok
        have hmatch := ih (fun q hq => hwf q (List.mem_cons_of_mem p hq)) hrest
          (by simpa [bind, Except.bind] using hok)
        rw [hmanaged, hnative]
        simpa using hmatch
      · have hother : getParameterTypeNameDefinition metadata coreLibrary p = _ ∨ _ :=
          other_names (hwf p List.mem_cons_self) hsimple (ps.flatMap Parameter.bytes ++ tail)
        rcases hother with herror | ⟨managed, native, hm, hn, hne, htwo⟩
        · rw [herror] at hok
          cases hok
        · rw [hm, hn]
          have hwild : managed ≠ ['_'] := by
            rintro rfl
            exact absurd htwo (by decide)
          simp [hne, hwild]

/-- The names of reflection contain no wildcard that stands for another name. -/
theorem not_misled_managedName {ps : List Parameter} (hwf : ∀ p ∈ ps, p.type.WellFormed) :
    ¬Misled metadata ([] :: ps.map (managedName metadata coreLibrary)) ps := by
  rintro ⟨-, -, x, hx, hne, hwild⟩
  rw [List.tail_cons, ← List.map_prod_right_eq_zip, List.mem_map] at hx
  obtain ⟨p, hp, rfl⟩ := hx
  by_cases hsimple : p.Simple metadata
  · obtain ⟨hname, -⟩ : getParameterTypeNameDefinition metadata coreLibrary p = _ ∧ _ :=
      simple_names hsimple
    exact hne (by rw [managedName, hname])
  · rcases other_names (hwf p hp) hsimple [] with herror | ⟨managed, native, hm, -, -, htwo⟩
    · rw [managedName, herror] at hwild
      cases hwild
    · rw [managedName, hm] at hwild
      obtain rfl : managed = ['_'] := hwild
      exact absurd htwo (by decide)

/-- A generic type with one type parameter. -/
def listName : TypeName where
  enclosing := []
  name := ['L', 'i', 's', 't', '`', '1']
  assembly := ['L']
  name_ne_nil := by decide

/-- A parameter of the type `List<int>`. -/
def listOfInt : Parameter :=
  ⟨false, .genericInst false (.one 5 (by decide)) (.one 1 (by decide)) [.primitive .i4]⟩

/-- A parameter of the type `T[]`. -/
def arrayOfVariable : Parameter := ⟨false, .szArray (.mvar (.one 0 (by decide)))⟩

end AutoInstrumentation.NoCode
