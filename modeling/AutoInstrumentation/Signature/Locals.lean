import AutoInstrumentation.Signature.ParseSound

/-!
# AutoInstrumentation.Signature.Locals

Local-variable signatures as the metadata standard defines them (ECMA-335, II.23.2.6),
and what `FunctionLocalSignature::TryParse` consumes of them.

The type of a local may have custom modifiers and `PINNED` constraints ahead of it, in any
order. `ParseParamOrLocal` rejects the modifiers; the constraint it does not know, and
`ParseType`, which has no default case, takes the byte for a type of its own.
-/

namespace AutoInstrumentation.Signature

open Lib Lib.Cursor

def elementTypePinned : Byte := 0x45

/-- `IMAGE_CEE_CS_CALLCONV_LOCAL_SIG`. -/
def localVarSig : Byte := 0x07

/-! ### The grammar -/

/-- What may stand ahead of the type of a local. -/
inductive LocalAnnotation
  | customMod (mod : CustomMod)
  | pinned

def LocalAnnotation.bytes : LocalAnnotation → List Byte
  | .customMod mod => mod.bytes
  | .pinned => [elementTypePinned]

def annotationsBytes (annotations : List LocalAnnotation) : List Byte :=
  annotations.flatMap LocalAnnotation.bytes

/-- One local. -/
inductive LocalVar
  | typedByRef (annotations : List LocalAnnotation)
  | type (annotations : List LocalAnnotation) (byRef : Bool) (type : SigType)

namespace LocalVar

def annotations : LocalVar → List LocalAnnotation
  | typedByRef annotations | type annotations _ _ => annotations

/-- The local without its annotations, which is a parameter. -/
def param : LocalVar → Param
  | typedByRef _ => .typedByRef []
  | type _ byRef t => .type [] byRef t

def bytes (v : LocalVar) : List Byte := annotationsBytes v.annotations ++ v.param.bytes

def WellFormed (v : LocalVar) : Prop := v.param.WellFormed

end LocalVar

/-- `LocalVarSig`. -/
structure LocalVarSig where
  count : Number
  locals : List LocalVar

namespace LocalVarSig

def header (σ : LocalVarSig) : List Byte := localVarSig :: σ.count.bytes

def bytes (σ : LocalVarSig) : List Byte := σ.header ++ (σ.locals.map LocalVar.bytes).flatten

/-- The count is the number of locals. -/
structure WellFormed (σ : LocalVarSig) : Prop where
  count : σ.count.value = σ.locals.length
  locals : ∀ v ∈ σ.locals, v.WellFormed

/-- The spans of the locals. -/
def localSpans (σ : LocalVarSig) : List TypeSignature :=
  spansFrom σ.header.length (σ.locals.map LocalVar.bytes)

end LocalVarSig

/-! ### The parser -/

/-- The loop of `TryParse` over the `n` locals still to come. -/
def parseLocals (len : ℕ) : ℕ → Cursor Byte (List TypeSignature)
  | 0 => pure []
  | n + 1 => do
      let _ ← peek
      let v ← spanOf len parseParamOrLocal
      let vs ← parseLocals len n
      pure (v :: vs)

def parseLocalSignature (len : ℕ) : Cursor Byte (List TypeSignature) := do
  let temp ← parseByte
  if temp ≠ localVarSig then failure
  else do
    let localsCount ← parseNumber
    parseLocals len localsCount

/-- `FunctionLocalSignature::TryParse`; `none` is `E_FAIL`. -/
def tryParseLocals (blob : List Byte) : Option (List TypeSignature) :=
  (parseLocalSignature blob.length blob).map Prod.fst

/-! ### One local -/

/-- The local is read short: `PINNED` stands first, or nothing does and the local is a
pointer to a modified type. -/
def LocalVar.misread (v : LocalVar) : Bool :=
  match v.annotations with
  | .pinned :: _ => true
  | .customMod _ :: _ => false
  | [] => v.param.pointsToModified

theorem LocalVar.bytes_eq_param {v : LocalVar} (h : v.annotations = []) :
    v.bytes = v.param.bytes := by
  rw [LocalVar.bytes, h]
  rfl

theorem LocalVar.bytes_customMod {v : LocalVar} {mod : CustomMod}
    {annotations : List LocalAnnotation} (h : v.annotations = .customMod mod :: annotations) :
    v.bytes = modsBytes [mod] ++ (annotationsBytes annotations ++ v.param.bytes) := by
  rw [LocalVar.bytes, h]
  simp [annotationsBytes, modsBytes, LocalAnnotation.bytes]

theorem LocalVar.bytes_pinned {v : LocalVar} {annotations : List LocalAnnotation}
    (h : v.annotations = .pinned :: annotations) :
    v.bytes = elementTypePinned :: (annotationsBytes annotations ++ v.param.bytes) := by
  rw [LocalVar.bytes, h]
  rfl

theorem param_bytes_ne_nil (p : Param) : p.bytes ≠ [] := by
  obtain ⟨b, bs, hbs, -⟩ := param_head p
  rw [hbs]
  exact List.cons_ne_nil b bs

theorem LocalVar.bytes_ne_nil (v : LocalVar) : v.bytes ≠ [] := by
  rw [LocalVar.bytes]
  exact List.append_ne_nil_of_right_ne_nil _ (param_bytes_ne_nil v.param)

/-- `PINNED` passes for a type. -/
theorem parseParamOrLocal_pinned (bs : List Byte) :
    parseParamOrLocal (elementTypePinned :: bs) = some ((), bs) := rfl

/-- **Locals.** `ParseParamOrLocal` rejects a local or consumes exactly its encoding,
unless it misreads it. -/
theorem parseParamOrLocal_takes_local (v : LocalVar) (hv : v.WellFormed)
    (hread : v.misread = false) : Takes parseParamOrLocal v.bytes fun _ => True := by
  rw [LocalVar.misread] at hread
  cases hannotations : v.annotations with
  | nil =>
      rw [hannotations] at hread
      rw [LocalVar.bytes_eq_param hannotations]
      exact parseParamOrLocal_takes v.param hv hread
  | cons annotation annotations =>
      cases annotation with
      | customMod mod =>
          rw [LocalVar.bytes_customMod hannotations]
          exact parseParamOrLocal_mods mod [] _ _
      | pinned => simp [hannotations] at hread

/-- **The misread local** is rejected or consumed short of its encoding. -/
theorem parseParamOrLocal_short_local (v : LocalVar) (hv : v.misread = true) {rest r : List Byte}
    (h : parseParamOrLocal (v.bytes ++ rest) = some ((), r)) : rest.length < r.length := by
  rw [LocalVar.misread] at hv
  cases hannotations : v.annotations with
  | nil =>
      rw [hannotations] at hv
      rw [LocalVar.bytes_eq_param hannotations] at h
      exact parseParamOrLocal_short v.param hv h
  | cons annotation annotations =>
      cases annotation with
      | customMod mod => simp [hannotations] at hv
      | pinned =>
          rw [LocalVar.bytes_pinned hannotations, List.cons_append,
            parseParamOrLocal_pinned] at h
          obtain ⟨-, rfl⟩ := Prod.mk.inj (Option.some.inj h)
          have hpos := List.length_pos_iff.mpr (param_bytes_ne_nil v.param)
          simp only [List.length_append]
          omega

/-! ### Whole signatures -/

theorem parseLocals_cons {len n : ℕ} (v : LocalVar) {rest r : List Byte}
    {ts : List TypeSignature} (h : parseLocals len (n + 1) (v.bytes ++ rest) = some (ts, r)) :
    ∃ t ts' m, ts = t :: ts' ∧ spanOf len parseParamOrLocal (v.bytes ++ rest) = some (t, m) ∧
      parseLocals len n m = some (ts', r) := by
  obtain ⟨b, bs, hbs⟩ := List.exists_cons_of_ne_nil v.bytes_ne_nil
  rw [hbs, List.cons_append] at h ⊢
  obtain ⟨ahead, m₁, hahead, h⟩ := bind_eq_some h
  obtain ⟨-, rfl⟩ := Prod.mk.inj (Option.some.inj hahead)
  obtain ⟨t, m, ht, h⟩ := bind_eq_some h
  obtain ⟨ts', m', hts, h⟩ := bind_eq_some h
  obtain ⟨rfl, rfl⟩ := Prod.mk.inj (Option.some.inj h)
  exact ⟨t, ts', m, rfl, ht, hts⟩

theorem parseLocals_storesSpans (len : ℕ) :
    StoresSpans len (parseLocals len) parseParamOrLocal LocalVar.bytes LocalVar.misread where
  turn := parseLocals_cons
  ne_nil := LocalVar.bytes_ne_nil
  short v hv _ _ := parseParamOrLocal_short_local v hv

/-- The header of a well-formed signature is read, and the rest is left to the loop. -/
theorem parseLocalSignature_eq_some {len : ℕ} {σ : LocalVarSig} (hσ : σ.WellFormed)
    {rest r : List Byte} {ts : List TypeSignature}
    (h : parseLocalSignature len (σ.header ++ rest) = some (ts, r)) :
    parseLocals len σ.locals.length rest = some (ts, r) := by
  rw [LocalVarSig.header, List.cons_append] at h
  obtain ⟨temp, m₁, htemp, h⟩ := bind_eq_some h
  obtain ⟨rfl, rfl⟩ := Prod.mk.inj (Option.some.inj htemp)
  rw [if_neg (not_not.mpr rfl)] at h
  obtain ⟨count, m₂, hcount, h⟩ := bind_eq_some h
  obtain ⟨rfl, rfl⟩ := (parseNumber_reads σ.count).takes _ _ _ hcount
  rwa [hσ.count] at h

/-- The spans that are stored are those of the grammar, one for each local; they tile the
blob from the end of the count to its end. -/
structure ExactLocals (ts : List TypeSignature) (σ : LocalVarSig) : Prop where
  spans : ts = σ.localSpans
  length : ts.length = σ.locals.length
  tiles : Tiles σ.header.length ts σ.bytes.length

theorem length_spansFrom (start : ℕ) (bss : List (List Byte)) :
    (spansFrom start bss).length = bss.length := by
  induction bss generalizing start with
  | nil => rfl
  | cons bs bss ih => rw [spansFrom, List.length_cons, List.length_cons, ih]

theorem exactLocals_iff {ts : List TypeSignature} {σ : LocalVarSig} :
    ExactLocals ts σ ↔ ts = σ.localSpans := by
  refine ⟨fun h => h.spans, fun h => ⟨h, ?_, ?_⟩⟩
  · rw [h, LocalVarSig.localSpans, length_spansFrom, List.length_map]
  · rw [h, LocalVarSig.bytes, List.length_append]
    exact tiles_spansFrom _ _

/-- **Local-variable signatures.** For every well-formed signature that `TryParse` accepts,
the spans it stores are those of the grammar exactly when no local has `PINNED` first, or is
a pointer to a type with custom modifiers. -/
theorem tryParseLocals_exact_iff {σ : LocalVarSig} (hσ : σ.WellFormed) {ts : List TypeSignature}
    (h : tryParseLocals σ.bytes = some ts) :
    ExactLocals ts σ ↔ ∀ v ∈ σ.locals, v.misread = false := by
  obtain ⟨⟨ts, r⟩, hparse, rfl⟩ := Option.map_eq_some_iff.mp h
  have hlen : σ.header.length + ((σ.locals.map LocalVar.bytes).flatten ++ []).length
      = σ.bytes.length := by
    rw [List.append_nil, LocalVarSig.bytes, List.length_append]
  generalize σ.bytes.length = len at hparse hlen
  rw [LocalVarSig.bytes] at hparse
  have hlocals := parseLocalSignature_eq_some hσ hparse
  rw [← List.append_nil (List.flatten _)] at hlocals
  obtain ⟨hgood, hbad⟩ := (parseLocals_storesSpans len).spans (k := 0)
    (fun v hv hread => parseParamOrLocal_takes_local v (hσ.locals v hv) hread) hlocals hlen
  rw [exactLocals_iff, LocalVarSig.localSpans]
  constructor
  · intro hexact v hv
    by_contra hmisread
    refine hbad ⟨v, hv, by simpa using hmisread⟩ [] ?_
    rw [List.append_nil]
    exact hexact
  · intro hall
    obtain ⟨ts', rfl, hnil⟩ := hgood hall
    obtain ⟨rfl, -⟩ := Prod.mk.inj (Option.some.inj hnil)
    rw [List.append_nil]

/-- `int, ref string` with its spans. -/
theorem tryParseLocals_exact_byRef :
    ∃ σ ts, tryParseLocals σ.bytes = some ts ∧ ts = [⟨2, 1⟩, ⟨3, 2⟩] ∧ ExactLocals ts σ := by
  let σ : LocalVarSig := ⟨.one 2 (by decide),
    [.type [] false (.primitive .i4), .type [] true (.primitive .string)]⟩
  have hσ : σ.WellFormed := by
    refine ⟨rfl, ?_⟩
    simp [σ, LocalVar.WellFormed, LocalVar.param, Param.WellFormed, SigType.WellFormed]
  have hparse : tryParseLocals σ.bytes = some [⟨2, 1⟩, ⟨3, 2⟩] := by decide
  exact ⟨σ, _, hparse, rfl, (tryParseLocals_exact_iff hσ hparse).mpr (by decide)⟩

/-- `pinned ref int, string`: the first span is `PINNED` alone, the second one is the type of
the first local, and the second local is left over. -/
theorem tryParseLocals_pinned :
    ∃ σ ts, σ.WellFormed ∧ σ.bytes = [0x07, 0x02, 0x45, 0x10, 0x08, 0x0e] ∧
      tryParseLocals σ.bytes = some ts ∧ ts = [⟨2, 1⟩, ⟨3, 2⟩] ∧
      σ.localSpans = [⟨2, 3⟩, ⟨5, 1⟩] ∧ ¬ ExactLocals ts σ := by
  let σ : LocalVarSig := ⟨.one 2 (by decide),
    [.type [.pinned] true (.primitive .i4), .type [] false (.primitive .string)]⟩
  have hσ : σ.WellFormed := by
    refine ⟨rfl, ?_⟩
    simp [σ, LocalVar.WellFormed, LocalVar.param, Param.WellFormed, SigType.WellFormed]
  have hspans : σ.localSpans = [⟨2, 3⟩, ⟨5, 1⟩] := by decide
  refine ⟨σ, [⟨2, 1⟩, ⟨3, 2⟩], hσ, by decide, by decide, rfl, hspans, fun h => ?_⟩
  have hlocals := h.spans
  rw [hspans] at hlocals
  exact absurd hlocals (by decide)

end AutoInstrumentation.Signature
