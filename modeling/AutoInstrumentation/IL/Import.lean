import AutoInstrumentation.IL.Reading
import Mathlib.Data.List.Chain

/-!
# AutoInstrumentation.IL.Import

The list that `ImportIL` makes of a code.

The instructions are numbered in their order, and each branch target is resolved through
the table of offsets, which knows the starts of the instructions and the end of the code.
So an imported list has the code that it was imported from, and a code whose targets are
such offsets is imported.
-/

namespace AutoInstrumentation.IL

open AutoInstrumentation.Lib

/-! ### What the loop leaves -/

/-- The instructions `rs` as the loop numbers them, behind `k` others. -/
def numbered : ℕ → List RawInstr → List ILInstr
  | _, [] => []
  | k, r :: rs =>
      { ptr := k + 1, opcode := r.opcode, target := .il, arg := r.arg } :: numbered (k + 1) rs

/-- The entries that the loop makes in the table of offsets. -/
def starts : ℕ → ℕ → List RawInstr → ℕ → Option InstrPtr
  | _, _, [], _ => none
  | here, k, r :: rs, o =>
      (starts (here + instrSize r.opcode) (k + 1) rs o).or
        (if r.opcode ≠ ceeSwitchArg ∧ o = here then some (.instr (k + 1)) else none)

theorem linkBefore_il (what : ILInstr) (is : List ILInstr) : linkBefore .il what is = is ++ [what] := by
  induction is with
  | nil => rfl
  | cons i is ih => rw [linkBefore, if_neg (fun h => nomatch h), ih, List.cons_append]

theorem append_instrs (s : ILRewriter) (opcode : ℕ) (arg : BitVec 64) :
    (s.append opcode arg).instrs
      = s.instrs ++ [{ ptr := s.nInstrs + 1, opcode := opcode, target := .il, arg := arg }] :=
  linkBefore_il _ _

theorem addRaw_instrs (st : Import) (r : RawInstr) :
    (addRaw st r).rewriter.instrs
      = st.rewriter.instrs ++ [{ ptr := st.rewriter.nInstrs + 1, opcode := r.opcode, target := .il,
                                 arg := r.arg }] := by
  rw [addRaw]
  dsimp only
  split <;> exact append_instrs _ _ _

theorem addRaw_nInstrs (st : Import) (r : RawInstr) :
    (addRaw st r).rewriter.nInstrs = st.rewriter.nInstrs + 1 := by
  rw [addRaw]
  dsimp only
  split <;> rfl

theorem addRaw_codeSize (st : Import) (r : RawInstr) :
    (addRaw st r).rewriter.codeSize = st.rewriter.codeSize := by
  rw [addRaw]
  dsimp only
  split <;> rfl

theorem addRaw_offsetToInstr (st : Import) (r : RawInstr) (o : ℕ) :
    (addRaw st r).rewriter.offsetToInstr o
      = (if r.opcode ≠ ceeSwitchArg ∧ o = st.offset then
          some (InstrPtr.instr (st.rewriter.nInstrs + 1)) else none).or
        (st.rewriter.offsetToInstr o) := by
  rw [addRaw]
  dsimp only
  by_cases harg : r.opcode = ceeSwitchArg
  · rw [if_pos harg, if_neg fun h => h.1 harg]
    rfl
  · rw [if_neg harg]
    by_cases ho : o = st.offset
    · rw [if_pos ⟨harg, ho⟩]
      exact if_pos ho
    · rw [if_neg fun h => ho h.2]
      exact if_neg ho

theorem addAll_instrs (st : Import) (rs : List RawInstr) :
    (addAll st rs).rewriter.instrs
      = st.rewriter.instrs ++ numbered st.rewriter.nInstrs rs := by
  induction rs generalizing st with
  | nil => exact (List.append_nil _).symm
  | cons r rs ih =>
      rw [addAll, List.foldl_cons, ← addAll, ih, addRaw_instrs, addRaw_nInstrs, numbered,
        List.append_assoc, List.singleton_append]

theorem addAll_nInstrs (st : Import) (rs : List RawInstr) :
    (addAll st rs).rewriter.nInstrs = st.rewriter.nInstrs + rs.length := by
  induction rs generalizing st with
  | nil => rfl
  | cons r rs ih =>
      rw [addAll, List.foldl_cons, ← addAll, ih, addRaw_nInstrs, List.length_cons]
      omega

theorem addAll_codeSize (st : Import) (rs : List RawInstr) :
    (addAll st rs).rewriter.codeSize = st.rewriter.codeSize := by
  induction rs generalizing st with
  | nil => rfl
  | cons r rs ih => rw [addAll, List.foldl_cons, ← addAll, ih, addRaw_codeSize]

theorem addAll_offsetToInstr (st : Import) (rs : List RawInstr) (o : ℕ) :
    (addAll st rs).rewriter.offsetToInstr o
      = (starts st.offset st.rewriter.nInstrs rs o).or (st.rewriter.offsetToInstr o) := by
  induction rs generalizing st with
  | nil => rfl
  | cons r rs ih =>
      rw [addAll, List.foldl_cons, ← addAll, ih, addRaw_offsetToInstr, addRaw_nInstrs, starts,
        Option.or_assoc]
      rfl

theorem addAll_fBranch (st : Import) (rs : List RawInstr) :
    st.fBranch = true ∨ (∃ r ∈ rs, (opCodeFlags r.opcode).branchTarget = true) →
      (addAll st rs).fBranch = true := by
  induction rs generalizing st with
  | nil =>
      rintro (h | ⟨r, hr, -⟩)
      · exact h
      · cases hr
  | cons r rs ih =>
      intro h
      refine ih (addRaw st r) ?_
      rcases h with h | ⟨a, ha, hbranch⟩
      · exact .inl (addRaw_fBranch r h)
      · rcases List.mem_cons.mp ha with rfl | ha
        · refine .inl ?_
          rw [addRaw, hbranch, Bool.true_or, Bool.or_true]
        · exact .inr ⟨a, ha, hbranch⟩

theorem length_numbered (k : ℕ) (rs : List RawInstr) : (numbered k rs).length = rs.length := by
  induction rs generalizing k with
  | nil => rfl
  | cons r rs ih => rw [numbered, List.length_cons, List.length_cons, ih]

/-! ### The table of offsets -/

/-- The address of the instruction at the position `m`, or of the sentinel behind the
last one. -/
def ptrAt (length m : ℕ) : InstrPtr := if m < length then .instr (m + 1) else .il

/-- The offset `o` is the start of the instruction at the position `m`, or the end. -/
def StartsAt (rs : List RawInstr) (m o : ℕ) : Prop :=
  m ≤ rs.length ∧ o = rawSize (rs.take m) ∧ ∀ r, rs[m]? = some r → r.opcode ≠ ceeSwitchArg

theorem rawSize_take_lt {rs : List RawInstr} (h : ∀ r ∈ rs, Normal r) {m n : ℕ} (hmn : m < n)
    (hn : n ≤ rs.length) : rawSize (rs.take m) < rawSize (rs.take n) := by
  have hm : m < rs.length := Nat.lt_of_lt_of_le hmn hn
  have hsplit : rs.take n = rs.take m ++ rs[m] :: (rs.take n).drop (m + 1) := by
    have hget : m < (rs.take n).length := by rw [List.length_take]; omega
    have := List.take_append_drop m (rs.take n)
    rw [List.take_take, Nat.min_eq_left (Nat.le_of_lt hmn), List.drop_eq_getElem_cons hget,
      List.getElem_take] at this
    exact this.symm
  have hpos : 0 < rawSize (rs[m] :: (rs.take n).drop (m + 1)) :=
    rawSize_pos (h rs[m] (List.getElem_mem hm))
  rw [hsplit, rawSize_append]
  omega

theorem startsAt_unique {rs : List RawInstr} (h : ∀ r ∈ rs, Normal r) {m n o : ℕ}
    (hm : StartsAt rs m o) (hn : StartsAt rs n o) : m = n := by
  rcases Nat.lt_trichotomy m n with hlt | heq | hlt
  · have := rawSize_take_lt h hlt hn.1
    rw [← hm.2.1, ← hn.2.1] at this
    exact absurd this (Nat.lt_irrefl _)
  · exact heq
  · have := rawSize_take_lt h hlt hm.1
    rw [← hm.2.1, ← hn.2.1] at this
    exact absurd this (Nat.lt_irrefl _)

theorem starts_eq_some {rs : List RawInstr} (h : ∀ r ∈ rs, Normal r) {here k o : ℕ}
    {p : InstrPtr} : starts here k rs o = some p ↔
      ∃ m, m < rs.length ∧ (∃ o', o = here + o' ∧ StartsAt rs m o') ∧ p = .instr (k + m + 1) := by
  induction rs generalizing here k p with
  | nil => exact ⟨(fun h => nomatch h), fun ⟨m, hm, _⟩ => absurd hm (Nat.not_lt_zero m)⟩
  | cons r rs ih =>
      have hrs : ∀ r ∈ rs, Normal r := fun a ha => h a (List.mem_cons_of_mem r ha)
      have hpos := (h r List.mem_cons_self).importable.size_pos
      rw [starts, Option.or_eq_some_iff]
      constructor
      · rintro (hlater | ⟨-, hfirst⟩)
        · obtain ⟨m, hm, ⟨o', rfl, hle, ho', hop⟩, rfl⟩ := (ih hrs).mp hlater
          refine ⟨m + 1, Nat.succ_lt_succ hm, ⟨instrSize r.opcode + o', Nat.add_assoc _ _ _,
            Nat.succ_le_succ hle, ?_, ?_⟩, ?_⟩
          · rw [List.take_succ_cons, rawSize_cons, ho']
          · rwa [List.getElem?_cons_succ]
          · congr 1
            omega
        · split at hfirst
          · next hcond =>
              cases hfirst
              refine ⟨0, Nat.succ_pos _, ⟨0, hcond.2, Nat.zero_le _, rfl, ?_⟩, rfl⟩
              intro a ha
              cases ha
              exact hcond.1
          · cases hfirst
      · rintro ⟨m, hm, ⟨o', rfl, hle, ho', hop⟩, rfl⟩
        cases m with
        | zero =>
            have hzero : o' = 0 := ho'
            subst hzero
            have hnone : starts (here + instrSize r.opcode) (k + 1) rs (here + 0) = none := by
              cases hs : starts (here + instrSize r.opcode) (k + 1) rs (here + 0) with
              | none => rfl
              | some p =>
                  obtain ⟨m, -, ⟨o', ho, -⟩, -⟩ := (ih hrs).mp hs
                  omega
            refine .inr ⟨hnone, ?_⟩
            rw [if_pos ⟨hop r rfl, rfl⟩]
        | succ m =>
            refine .inl ((ih hrs).mpr ⟨m, Nat.lt_of_succ_lt_succ hm, ⟨rawSize (rs.take m), ?_,
              Nat.le_of_succ_le_succ hle, rfl, ?_⟩, ?_⟩)
            · rw [ho', List.take_succ_cons, rawSize_cons, Nat.add_assoc]
            · rwa [List.getElem?_cons_succ] at hop
            · congr 1
              omega

/-! ### Targets -/

/-- The table of offsets knows the starts of the instructions, but not of the targets of
a switch, and the end of the code. -/
theorem getInstrFromOffset_eq_some {s : ILRewriter} {rs : List RawInstr} {code : List Byte}
    (h : ∀ r ∈ rs, Normal r) (hn : s.nInstrs = 0) (hlen : code.length = rawSize rs) {o : ℕ}
    {p : InstrPtr} :
    (addAll (s.importStart code) rs).rewriter.getInstrFromOffset o = some p ↔
      ∃ m, StartsAt rs m o ∧ p = ptrAt rs.length m := by
  have htable : (addAll (s.importStart code) rs).rewriter.offsetToInstr o = some p ↔
      ∃ m, StartsAt rs m o ∧ p = ptrAt rs.length m := by
    rw [addAll_offsetToInstr, Option.or_eq_some_iff, starts_eq_some h]
    constructor
    · rintro (⟨m, hm, ⟨o', ho, hstart⟩, rfl⟩ | ⟨-, hend⟩)
      · have ho' : o = o' := by rw [ho]; exact Nat.zero_add o'
        refine ⟨m, ho' ▸ hstart, ?_⟩
        rw [ptrAt, if_pos hm]
        congr 1
        change s.nInstrs + m + 1 = m + 1
        rw [hn, Nat.zero_add]
      · dsimp only [ILRewriter.importStart] at hend
        split at hend
        · next ho =>
            cases hend
            refine ⟨rs.length, ⟨Nat.le_refl _, by rw [ho, hlen, List.take_length], ?_⟩, ?_⟩
            · intro r hr
              rw [List.getElem?_eq_none (Nat.le_refl _)] at hr
              cases hr
            · rw [ptrAt, if_neg (Nat.lt_irrefl _)]
        · cases hend
    · rintro ⟨m, hstart, rfl⟩
      by_cases hm : m < rs.length
      · refine .inl ⟨m, hm, ⟨o, (Nat.zero_add o).symm, hstart⟩, ?_⟩
        rw [ptrAt, if_pos hm]
        congr 1
        change m + 1 = s.nInstrs + m + 1
        rw [hn, Nat.zero_add]
      · have hmEq : m = rs.length := Nat.le_antisymm hstart.1 (Nat.le_of_not_lt hm)
        subst hmEq
        refine .inr ⟨?_, ?_⟩
        · cases hs : starts (s.importStart code).offset (s.importStart code).rewriter.nInstrs rs o with
          | none => rfl
          | some p =>
              obtain ⟨n, hn, ⟨o', ho, hstart'⟩, -⟩ := (starts_eq_some h).mp hs
              have ho' : o = o' := by rw [ho]; exact Nat.zero_add o'
              exact absurd (startsAt_unique h (ho' ▸ hstart') hstart) (Nat.ne_of_lt hn)
        · have ho : o = code.length := by rw [hstart.2.1, List.take_length, hlen]
          dsimp only [ILRewriter.importStart]
          rw [if_pos ho, ptrAt, if_neg hm]
  rw [ILRewriter.getInstrFromOffset, addAll_codeSize]
  split
  · exact htable
  · next hle =>
      refine ⟨(fun h => nomatch h), fun ⟨m, hstart, _⟩ => absurd ?_ hle⟩
      have hsplit := rawSize_append (rs.take m) (rs.drop m)
      rw [List.take_append_drop] at hsplit
      dsimp only [ILRewriter.importStart]
      rw [hlen, hstart.2.1, hsplit]
      exact Nat.le_add_right _ _

/-- `i'` is `i` with its target resolved. -/
def Resolves (s : ILRewriter) (i i' : ILInstr) : Prop :=
  if (opCodeFlags i.opcode).branchTarget = true then
    ∃ p, s.getInstrFromOffset i.arg32.toNat = some p ∧ i' = { i with target := p }
  else i' = i

theorem resolveTarget_eq_some {s : ILRewriter} {i i' : ILInstr} :
    s.resolveTarget i = some i' ↔ Resolves s i i' := by
  rw [ILRewriter.resolveTarget, Resolves]
  split
  · rw [Option.map_eq_some_iff]
    exact ⟨fun ⟨p, hp, h⟩ => ⟨p, hp, h.symm⟩, fun ⟨p, hp, h⟩ => ⟨p, hp, h.symm⟩⟩
  · rw [Option.some_inj]
    exact eq_comm

theorem resolveTargets_eq_some {s : ILRewriter} {is is' : List ILInstr} :
    s.resolveTargets is = some is' ↔ List.Forall₂ (Resolves s) is is' := by
  induction is generalizing is' with
  | nil =>
      rw [ILRewriter.resolveTargets, List.forall₂_nil_left_iff]
      exact ⟨fun h => (Option.some.inj h).symm, fun h => by rw [h]⟩
  | cons i is ih =>
      rw [ILRewriter.resolveTargets, Option.bind_eq_some_iff, List.forall₂_cons_left_iff]
      constructor
      · rintro ⟨i', hi, hrest⟩
        obtain ⟨js, hjs, hcons⟩ := Option.map_eq_some_iff.mp hrest
        exact ⟨i', js, resolveTarget_eq_some.mp hi, ih.mp hjs, hcons.symm⟩
      · rintro ⟨i', js, hi, hjs, rfl⟩
        exact ⟨i', resolveTarget_eq_some.mpr hi, Option.map_eq_some_iff.mpr ⟨js, ih.mpr hjs, rfl⟩⟩

theorem resolveTargets_of_no_branch {s : ILRewriter} {is : List ILInstr}
    (h : ∀ i ∈ is, (opCodeFlags i.opcode).branchTarget = false) :
    s.resolveTargets is = some is := by
  rw [resolveTargets_eq_some, List.forall₂_same]
  intro i hi
  rw [Resolves, if_neg (by rw [h i hi]; exact Bool.false_ne_true)]

theorem mem_numbered {k : ℕ} {rs : List RawInstr} {i : ILInstr} (h : i ∈ numbered k rs) :
    ∃ r ∈ rs, i.opcode = r.opcode := by
  induction rs generalizing k with
  | nil => cases h
  | cons r rs ih =>
      rcases List.mem_cons.mp h with rfl | h
      · exact ⟨r, List.mem_cons_self, rfl⟩
      · obtain ⟨a, ha, heq⟩ := ih h
        exact ⟨a, List.mem_cons_of_mem r ha, heq⟩

theorem getElem?_numbered (k : ℕ) (rs : List RawInstr) (m : ℕ) :
    (numbered k rs)[m]? = (rs[m]?).map fun r =>
      { ptr := k + m + 1, opcode := r.opcode, target := .il, arg := r.arg } := by
  induction rs generalizing k m with
  | nil => rfl
  | cons r rs ih =>
      cases m with
      | zero => rfl
      | succ m =>
          have hnumber : k + 1 + m + 1 = k + (m + 1) + 1 := by omega
          rw [numbered, List.getElem?_cons_succ, ih, List.getElem?_cons_succ, hnumber]

/-! ### The imported list -/

/-- `is` is the list made of the instructions `rs`: they are numbered in their order, and
the targets are the instructions at their offsets. -/
structure ImportedAs (rs : List RawInstr) (is : List ILInstr) : Prop where
  length : is.length = rs.length
  instrs : ∀ m i, is[m]? = some i → ∃ r, rs[m]? = some r ∧ i.ptr = m + 1 ∧ i.opcode = r.opcode
    ∧ i.arg = r.arg ∧ ((opCodeFlags r.opcode).branchTarget = true →
        ∃ n, StartsAt rs n r.arg32.toNat ∧ i.target = ptrAt rs.length n)

/-- The outcome of `ImportIL` on the code of `rs`. -/
theorem importIL_encode {s : ILRewriter} {rs : List RawInstr} (hinstrs : s.instrs = [])
    (hn : s.nInstrs = 0) (hnormal : ∀ r ∈ rs, Normal r)
    (hblocks : blocks 0 (rs.map RawInstr.part) = true) (hreach : Reaches 0 rs) :
    s.importIL (encodeAll 0 0 rs) =
      ((addAll (s.importStart (encodeAll 0 0 rs)) rs).rewriter.resolveTargets
        (numbered 0 rs)).map fun is =>
          { (addAll (s.importStart (encodeAll 0 0 rs)) rs).rewriter with instrs := is } := by
  have hloop : importLoop (encodeAll 0 0 rs).length (s.importStart (encodeAll 0 0 rs))
      (encodeAll 0 0 rs) = some (addAll (s.importStart (encodeAll 0 0 rs)) rs) :=
    importLoop_reads hnormal hblocks hreach (Nat.le_of_eq (length_encode 0 0 rs).symm)
  have hnumbered : (addAll (s.importStart (encodeAll 0 0 rs)) rs).rewriter.instrs
      = numbered 0 rs := by
    rw [addAll_instrs]
    change s.instrs ++ numbered s.nInstrs rs = _
    rw [hinstrs, hn, List.nil_append]
  rw [ILRewriter.importIL, hloop, Option.bind_some, hnumbered]
  by_cases hbranch : (addAll (s.importStart (encodeAll 0 0 rs)) rs).fBranch = true
  · rw [if_pos hbranch]
  · rw [if_neg hbranch, resolveTargets_of_no_branch, Option.map_some, ← hnumbered]
    intro i hi
    obtain ⟨r, hr, hop⟩ := mem_numbered hi
    rw [hop]
    by_contra hflag
    exact hbranch (addAll_fBranch _ rs (.inr ⟨r, hr, Bool.eq_true_of_not_eq_false hflag⟩))

/-- What does not concern the code is kept by `ImportIL`. -/
structure SameHeader (s t : ILRewriter) : Prop where
  tkLocalVarSig : t.tkLocalVarSig = s.tkLocalVarSig
  flags : t.flags = s.flags
  fGenerateTinyHeader : t.fGenerateTinyHeader = s.fGenerateTinyHeader
  eh : t.eh = s.eh

theorem sameHeader_addAll (st : Import) (rs : List RawInstr) :
    SameHeader st.rewriter (addAll st rs).rewriter := by
  induction rs generalizing st with
  | nil => exact ⟨rfl, rfl, rfl, rfl⟩
  | cons r rs ih =>
      have hstep : SameHeader st.rewriter (addRaw st r).rewriter := by
        rw [addRaw]
        dsimp only
        split <;> exact ⟨rfl, rfl, rfl, rfl⟩
      have hrest := ih (addRaw st r)
      exact ⟨hrest.tkLocalVarSig.trans hstep.tkLocalVarSig, hrest.flags.trans hstep.flags,
        hrest.fGenerateTinyHeader.trans hstep.fGenerateTinyHeader, hrest.eh.trans hstep.eh⟩

/-- A rewriter that has imported the code of `rs`. -/
structure Imports (s : ILRewriter) (rs : List RawInstr) (t : ILRewriter) : Prop where
  instrs : ImportedAs rs t.instrs
  nInstrs : t.nInstrs = rs.length
  header : SameHeader s t
  offsets : ∀ o p, t.getInstrFromOffset o = some p ↔
    ∃ m, StartsAt rs m o ∧ p = ptrAt rs.length m

theorem importedAs_of_resolves {s : ILRewriter} {rs : List RawInstr} {is : List ILInstr}
    (hoffsets : ∀ o p, s.getInstrFromOffset o = some p ↔
      ∃ m, StartsAt rs m o ∧ p = ptrAt rs.length m)
    (h : List.Forall₂ (Resolves s) (numbered 0 rs) is) : ImportedAs rs is where
  length := by rw [← h.length_eq, length_numbered]
  instrs := by
    intro m i hi
    obtain ⟨hlt, rfl⟩ := List.getElem?_eq_some_iff.mp hi
    have hlt' : m < (numbered 0 rs).length := h.length_eq ▸ hlt
    have hm : m < rs.length := length_numbered 0 rs ▸ hlt'
    have hres := h.get hlt' hlt
    have hnum := getElem?_numbered 0 rs m
    rw [List.getElem?_eq_getElem hlt', List.getElem?_eq_getElem hm, Option.map_some,
      Option.some_inj] at hnum
    simp only [List.get_eq_getElem] at hres
    rw [hnum, Resolves] at hres
    refine ⟨rs[m], List.getElem?_eq_getElem hm, ?_⟩
    split at hres
    · obtain ⟨p, hp, heq⟩ := hres
      obtain ⟨n, hstart, rfl⟩ := (hoffsets _ _).mp hp
      rw [heq]
      exact ⟨by rw [Nat.zero_add], rfl, rfl, fun _ => ⟨n, hstart, rfl⟩⟩
    · next hbranch =>
        rw [hres]
        exact ⟨by rw [Nat.zero_add], rfl, rfl, fun h => absurd h hbranch⟩

/-- What `ImportIL` makes of the code of `rs`. -/
theorem imports_encodeAll {s t : ILRewriter} {rs : List RawInstr} (hinstrs : s.instrs = [])
    (hn : s.nInstrs = 0) (hnormal : ∀ r ∈ rs, Normal r)
    (hblocks : blocks 0 (rs.map RawInstr.part) = true) (hreach : Reaches 0 rs)
    (h : s.importIL (encodeAll 0 0 rs) = some t) : Imports s rs t := by
  rw [importIL_encode hinstrs hn hnormal hblocks hreach] at h
  obtain ⟨is, his, rfl⟩ := Option.map_eq_some_iff.mp h
  have hoffsets : ∀ o p, ILRewriter.getInstrFromOffset _ o = some p ↔ _ := fun o p =>
    getInstrFromOffset_eq_some hnormal hn (length_encode 0 0 rs)
  have hheader := sameHeader_addAll (s.importStart (encodeAll 0 0 rs)) rs
  refine ⟨importedAs_of_resolves hoffsets (resolveTargets_eq_some.mp his), ?_,
    ⟨hheader.1, hheader.2, hheader.3, hheader.4⟩, hoffsets⟩
  rw [addAll_nInstrs]
  change s.nInstrs + rs.length = rs.length
  rw [hn, Nat.zero_add]

/-- **What `ImportIL` accepts is the code of a list of instructions**, which it imports. -/
theorem importIL_eq_some {s t : ILRewriter} {code : List Byte} (hinstrs : s.instrs = [])
    (hn : s.nInstrs = 0) (h : s.importIL code = some t) :
    ∃ rs, (∀ r ∈ rs, Normal r) ∧ blocks 0 (rs.map RawInstr.part) = true ∧ Reaches 0 rs
      ∧ code = encodeAll 0 0 rs ∧ Imports s rs t := by
  have hread := h
  rw [ILRewriter.importIL] at hread
  obtain ⟨st, hloop, -⟩ := Option.bind_eq_some_iff.mp hread
  obtain ⟨rs, hnormal, hblocks, hreach, hcode, -⟩ := importLoop_eq_some hloop
  have hcode' : code = encodeAll 0 0 rs := hcode
  exact ⟨rs, hnormal, hblocks, hreach, hcode',
    imports_encodeAll hinstrs hn hnormal hblocks hreach (hcode' ▸ h)⟩

/-- A code whose branch targets are instructions is imported. -/
theorem importIL_progress {s : ILRewriter} {rs : List RawInstr} (hinstrs : s.instrs = [])
    (hn : s.nInstrs = 0) (hnormal : ∀ r ∈ rs, Normal r)
    (hblocks : blocks 0 (rs.map RawInstr.part) = true) (hreach : Reaches 0 rs)
    (htargets : ∀ r ∈ rs, (opCodeFlags r.opcode).branchTarget = true →
      ∃ n, StartsAt rs n r.arg32.toNat) :
    ∃ t, s.importIL (encodeAll 0 0 rs) = some t := by
  rw [importIL_encode hinstrs hn hnormal hblocks hreach]
  have hoffsets := fun o p => getInstrFromOffset_eq_some (o := o) (p := p) hnormal hn
    (length_encode 0 0 rs)
  have hresolve : ∀ is : List ILInstr, (∀ i ∈ is, ∃ r ∈ rs, i.opcode = r.opcode ∧ i.arg = r.arg) →
      ∃ is', (addAll (s.importStart (encodeAll 0 0 rs)) rs).rewriter.resolveTargets is
        = some is' := by
    intro is
    induction is with
    | nil => exact fun _ => ⟨[], rfl⟩
    | cons i is ih =>
        intro his
        obtain ⟨js, hjs⟩ := ih fun j hj => his j (List.mem_cons_of_mem i hj)
        obtain ⟨r, hr, hop, harg⟩ := his i List.mem_cons_self
        have htarget : ∃ j, (addAll (s.importStart (encodeAll 0 0 rs)) rs).rewriter.resolveTarget i
            = some j := by
          rw [ILRewriter.resolveTarget]
          split
          · next hbranch =>
              obtain ⟨n, hstart⟩ := htargets r hr (hop ▸ hbranch)
              have harg32 : i.arg32 = r.arg32 := by rw [ILInstr.arg32, RawInstr.arg32, harg]
              rw [harg32, (hoffsets _ _).mpr ⟨n, hstart, rfl⟩]
              exact ⟨_, rfl⟩
          · exact ⟨i, rfl⟩
        obtain ⟨j, hj⟩ := htarget
        exact ⟨j :: js, by rw [ILRewriter.resolveTargets, hj, hjs]; rfl⟩
  obtain ⟨is', his'⟩ := hresolve (numbered 0 rs) fun i hi => by
    obtain ⟨m, hm, rfl⟩ := List.mem_iff_getElem.mp hi
    have hlt : m < rs.length := length_numbered 0 rs ▸ hm
    have hnum := getElem?_numbered 0 rs m
    rw [List.getElem?_eq_getElem hm, List.getElem?_eq_getElem hlt, Option.map_some,
      Option.some_inj] at hnum
    rw [hnum]
    exact ⟨rs[m], List.getElem_mem hlt, rfl, rfl⟩
  exact ⟨_, by rw [his', Option.map_some]⟩

end AutoInstrumentation.IL
