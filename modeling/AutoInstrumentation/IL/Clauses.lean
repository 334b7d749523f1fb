import AutoInstrumentation.IL.RoundTrip
import AutoInstrumentation.Lib.Regions

/-!
# AutoInstrumentation.IL.Clauses

The exception table between its offsets and the instruction list.

A clause of the list is taken by the positions of the instructions that it names. A clause
of a method body is imported to the positions of the instructions at its offsets, and
exported to the offsets of the instructions at its positions.
-/

namespace AutoInstrumentation.IL

open AutoInstrumentation.Lib

/-! ### The intervals of a clause -/

/-- The intervals of a clause in the code. -/
def EHClauseFat.regions (c : EHClauseFat) : Clause ℕ where
  tryRange := ⟨c.tryOffset.toNat, c.tryOffset.toNat + c.tryLength.toNat⟩
  filter :=
    if c.flags &&& corILExceptionClauseFilter = 0 then none
    else some ⟨c.classTokenOrFilterOffset.toNat, c.handlerOffset.toNat⟩
  handler := ⟨c.handlerOffset.toNat, c.handlerOffset.toNat + c.handlerLength.toNat⟩

/-- The intervals of a clause in the instruction list. -/
def EHClause.positions (is : List ILInstr) (c : EHClause) : Clause ℕ where
  tryRange := ⟨position is c.tryBegin, position is c.tryEnd⟩
  filter :=
    if c.flags &&& corILExceptionClauseFilter = 0 then none
    else some ⟨position is c.filter, position is c.handlerBegin⟩
  handler := ⟨position is c.handlerBegin, position is (nextPtr is c.handlerEnd)⟩

/-- The intervals of the table are places of the code, and none is empty. -/
structure MethodBody.RegionsInCode (body : MethodBody) : Prop where
  nonempty : ∀ c ∈ body.eh, ∀ r ∈ c.regions.ranges, r.Nonempty
  within : ∀ c ∈ body.eh, ∀ r ∈ c.regions.ranges, r.hi ≤ body.code.length
  size : body.code.length < 2 ^ 32

/-- **The exception table of a method body is well formed.** -/
structure MethodBody.WellFormedEH (body : MethodBody) : Prop where
  table : WellFormedTable (body.eh.map (·.regions))
  within : ∀ c ∈ body.eh, ∀ r ∈ c.regions.ranges, r.hi ≤ body.code.length
  size : body.code.length < 2 ^ 32

theorem MethodBody.WellFormedEH.regionsInCode {body : MethodBody} (h : body.WellFormedEH) :
    body.RegionsInCode :=
  ⟨fun _ hc => h.table.nonempty _ (List.mem_map_of_mem hc), h.within, h.size⟩

/-- The instructions that a clause names are in the list. -/
structure EHClause.In (is : List ILInstr) (c : EHClause) : Prop where
  tryBegin : Linked is c.tryBegin
  tryEnd : Linked is c.tryEnd
  handlerBegin : Linked is c.handlerBegin
  handlerEnd : ∃ i ∈ is, c.handlerEnd = .instr i.ptr
  filter : c.flags &&& corILExceptionClauseFilter ≠ 0 → Linked is c.filter

/-! ### Positions and offsets -/

/-- The offset of the instruction at a position, or of the end of the code. -/
def offsetAt (is : List ILInstr) (m : ℕ) : ℕ := codeSize (is.take m)

theorem offsetAt_position (is : List ILInstr) (p : InstrPtr) :
    offsetAt is (position is p) = offsetOf is p := (offsetOf_eq is p).symm

theorem codeSize_append (is js : List ILInstr) :
    codeSize (is ++ js) = codeSize is + codeSize js := by
  induction is with
  | nil => exact (Nat.zero_add _).symm
  | cons i is ih => rw [List.cons_append, codeSize, ih, codeSize, Nat.add_assoc]

theorem offsetAt_le (is : List ILInstr) (m : ℕ) : offsetAt is m ≤ codeSize is := by
  have hsplit := codeSize_append (is.take m) (is.drop m)
  rw [List.take_append_drop] at hsplit
  rw [offsetAt, hsplit]
  exact Nat.le_add_right _ _

theorem offsetAt_succ {is : List ILInstr} {m : ℕ} {i : ILInstr} (h : is[m]? = some i) :
    offsetAt is (m + 1) = offsetAt is m + instrSize i.opcode := by
  obtain ⟨hlt, rfl⟩ := List.getElem?_eq_some_iff.mp h
  rw [offsetAt, List.take_succ_eq_append_getElem hlt, codeSize_append, offsetAt]
  rfl

theorem offsetAt_strictMono {is : List ILInstr} (h : ∀ i ∈ is, Importable i.opcode) :
    StrictMonoOn (offsetAt is) {m | m ≤ is.length} := by
  intro m hm n hn hmn
  have hlt : m < is.length := Nat.lt_of_lt_of_le hmn hn
  have hnext := offsetAt_succ (List.getElem?_eq_getElem hlt)
  have hle : offsetAt is (m + 1) ≤ offsetAt is n := by
    have := offsetAt_le (is.take n) (m + 1)
    rwa [offsetAt, List.take_take, Nat.min_eq_left hmn] at this
  have := (h is[m] (List.getElem_mem hlt)).size_pos
  omega

theorem position_cons (i : ILInstr) (is : List ILInstr) (p : InstrPtr) :
    position (i :: is) p = if p = .instr i.ptr then 0 else position is p + 1 := by
  rw [position, List.findIdx_cons]
  by_cases hp : p = .instr i.ptr
  · rw [if_pos hp, decide_eq_true hp]
    rfl
  · rw [if_neg hp, decide_eq_false hp]
    rfl

theorem position_headPtr_drop {is : List ILInstr} (hnodup : (is.map (·.ptr)).Nodup) {m : ℕ}
    (hm : m ≤ is.length) : position is (headPtr (is.drop m)) = m := by
  rcases Nat.lt_or_eq_of_le hm with hlt | rfl
  · rw [List.drop_eq_getElem_cons hlt]
    exact position_ptr hnodup (List.getElem?_eq_getElem hlt)
  · rw [List.drop_length]
    exact position_il is

/-- The instruction behind the one at a position. -/
theorem nextPtr_getElem {is : List ILInstr} (hnodup : (is.map (·.ptr)).Nodup) {m : ℕ}
    {i : ILInstr} (h : is[m]? = some i) : nextPtr is (.instr i.ptr) = headPtr (is.drop (m + 1)) := by
  obtain ⟨hlt, rfl⟩ := List.getElem?_eq_some_iff.mp h
  have hsplit : is.take m ++ [is[m]] = is.take (m + 1) :=
    (List.take_succ_eq_append_getElem hlt).symm
  have hends : EndsAt (is.take (m + 1)) (.instr is[m].ptr) := by
    refine .inr ⟨is.take m, is[m], hsplit.symm, rfl, fun j hj heq => ?_⟩
    rw [← List.take_append_drop (m + 1) is, ← hsplit, List.append_assoc, List.map_append,
      List.nodup_append] at hnodup
    exact hnodup.2.2 j.ptr (List.mem_map_of_mem hj) is[m].ptr List.mem_cons_self heq
  have hnext : nextPtr (is.take (m + 1) ++ is.drop (m + 1)) (.instr is[m].ptr)
      = headPtr (is.drop (m + 1)) := nextPtr_append hends
  rwa [List.take_append_drop] at hnext

theorem position_nextPtr {is : List ILInstr} (hnodup : (is.map (·.ptr)).Nodup) {m : ℕ}
    {i : ILInstr} (h : is[m]? = some i) : position is (nextPtr is (.instr i.ptr)) = m + 1 := by
  rw [nextPtr_getElem hnodup h]
  exact position_headPtr_drop hnodup (List.getElem?_eq_some_iff.mp h).1

/-- The instruction before the one at a position. -/
theorem prevPtrFrom_position {is : List ILInstr} {p : InstrPtr} {m : ℕ} (prev : InstrPtr)
    (hm : position is p = m + 1) : ∃ i, is[m]? = some i ∧ prevPtrFrom prev is p = .instr i.ptr := by
  induction is generalizing prev m with
  | nil => cases hm
  | cons i is ih =>
      rw [position_cons] at hm
      by_cases hp : p = .instr i.ptr
      · rw [if_pos hp] at hm
        cases hm
      · rw [if_neg hp, Nat.add_right_cancel_iff] at hm
        rw [prevPtrFrom, if_neg hp]
        cases m with
        | zero =>
            refine ⟨i, rfl, ?_⟩
            cases is with
            | nil => rfl
            | cons j is =>
                rw [position_cons] at hm
                rw [prevPtrFrom, if_pos]
                by_contra hne
                rw [if_neg hne] at hm
                cases hm
        | succ m =>
            obtain ⟨j, hj, hprev⟩ := ih (.instr i.ptr) hm
            exact ⟨j, hj, hprev⟩

/-! ### Importing a clause -/

/-- The instruction at `p` starts at the offset `o`. -/
structure PlacedAt (is : List ILInstr) (p : InstrPtr) (o : ℕ) : Prop where
  linked : Linked is p
  offset : offsetOf is p = o

/-- What `ImportEH` makes of a clause. -/
structure ImportedClause (is : List ILInstr) (c : EHClauseFat) (e : EHClause) : Prop where
  flags : e.flags = c.flags
  tryBegin : PlacedAt is e.tryBegin c.tryOffset.toNat
  tryEnd : PlacedAt is e.tryEnd (c.tryOffset + c.tryLength).toNat
  handlerBegin : PlacedAt is e.handlerBegin c.handlerOffset.toNat
  handlerEnd : ∃ p, PlacedAt is p (c.handlerOffset + c.handlerLength).toNat
    ∧ e.handlerEnd = prevPtr is p
  filter : c.flags &&& corILExceptionClauseFilter ≠ 0 →
    PlacedAt is e.filter c.classTokenOrFilterOffset.toNat

theorem Imports.placedAt {s t : ILRewriter} {rs : List RawInstr} (h : Imports s rs t) {o : ℕ}
    {p : InstrPtr} (hp : t.getInstrFromOffset o = some p) : PlacedAt t.instrs p o := by
  obtain ⟨m, hstarts, rfl⟩ := (h.offsets o p).mp hp
  obtain ⟨hlinked, hposition⟩ := h.instrs.ptrAt hstarts.1
  refine ⟨hlinked, ?_⟩
  rw [offsetOf_eq, hposition, hstarts.2.1, rawSize_eq_codeSize h.instrs.opcodes]

theorem importEHClause_spec {s t : ILRewriter} {rs : List RawInstr} (h : Imports s rs t)
    {c : EHClauseFat} {e : EHClause} (he : t.importEHClause c = some e) :
    ImportedClause t.instrs c e := by
  rw [ILRewriter.importEHClause] at he
  obtain ⟨tryBegin, htryBegin, he⟩ := Option.bind_eq_some_iff.mp he
  obtain ⟨tryEnd, htryEnd, he⟩ := Option.bind_eq_some_iff.mp he
  obtain ⟨handlerBegin, hhandlerBegin, he⟩ := Option.bind_eq_some_iff.mp he
  obtain ⟨behindHandler, hbehind, he⟩ := Option.bind_eq_some_iff.mp he
  split at he
  · next hflags =>
      cases he
      exact ⟨rfl, h.placedAt htryBegin, h.placedAt htryEnd, h.placedAt hhandlerBegin,
        ⟨behindHandler, h.placedAt hbehind, rfl⟩, fun hne => absurd hflags hne⟩
  · obtain ⟨filter, hfilter, he⟩ := Option.bind_eq_some_iff.mp he
    cases he
    exact ⟨rfl, h.placedAt htryBegin, h.placedAt htryEnd, h.placedAt hhandlerBegin,
      ⟨behindHandler, h.placedAt hbehind, rfl⟩, fun _ => h.placedAt hfilter⟩

theorem PlacedAt.offsetAt_position {is : List ILInstr} {p : InstrPtr} {o : ℕ}
    (h : PlacedAt is p o) : offsetAt is (position is p) = o := by
  rw [IL.offsetAt_position]
  exact h.offset

/-- **A clause is imported to the instructions at its offsets.** -/
theorem ImportedClause.positions {is : List ILInstr} {c : EHClauseFat} {e : EHClause}
    (h : ImportedClause is c e) (hnodup : (is.map (·.ptr)).Nodup)
    (hnonempty : ∀ r ∈ c.regions.ranges, r.Nonempty)
    (hwithin : ∀ r ∈ c.regions.ranges, r.hi ≤ codeSize is) (hsize : codeSize is < 2 ^ 32) :
    e.In is ∧ c.regions = (e.positions is).map (offsetAt is) (offsetAt is) := by
  have hsum {lo length : BitVec 32} (hle : lo.toNat + length.toNat ≤ codeSize is) :
      (lo + length).toNat = lo.toNat + length.toNat := by
    rw [BitVec.toNat_add]
    exact Nat.mod_eq_of_lt (Nat.lt_of_le_of_lt hle hsize)
  have htryEnd := h.tryEnd
  rw [hsum (hwithin _ (c.regions.guards_subset c.regions.tryRange_mem))] at htryEnd
  obtain ⟨behind, hbehind, hhandlerEnd⟩ := h.handlerEnd
  rw [hsum (hwithin _ c.regions.handler_mem)] at hbehind
  -- the handler is not empty, so that an instruction stands before its end
  have hpos : position is behind ≠ 0 := by
    intro hzero
    have hoffset := hbehind.offsetAt_position
    rw [hzero] at hoffset
    have hlt : c.handlerOffset.toNat < c.handlerOffset.toNat + c.handlerLength.toNat :=
      hnonempty _ c.regions.handler_mem
    rw [← hoffset] at hlt
    cases hlt
  obtain ⟨m, hm⟩ := Nat.exists_eq_succ_of_ne_zero hpos
  obtain ⟨i, hi, hprev⟩ := prevPtrFrom_position .il hm
  have hend : e.handlerEnd = .instr i.ptr := hhandlerEnd.trans hprev
  have hnext : offsetAt is (position is (nextPtr is e.handlerEnd))
      = c.handlerOffset.toNat + c.handlerLength.toNat := by
    rw [hend, position_nextPtr hnodup hi, ← hbehind.offsetAt_position, hm]
  refine ⟨⟨h.tryBegin.linked, h.tryEnd.linked, h.handlerBegin.linked,
    ⟨i, List.mem_of_getElem? hi, hend⟩, fun hflags => (h.filter (h.flags ▸ hflags)).linked⟩, ?_⟩
  rw [EHClauseFat.regions, EHClause.positions, Clause.map, Region.map, Region.map,
    h.tryBegin.offsetAt_position, htryEnd.offsetAt_position, h.handlerBegin.offsetAt_position,
    hnext, h.flags]
  congr 1
  split
  · rfl
  · next hflags =>
      rw [Option.map_some, Region.map, (h.filter hflags).offsetAt_position,
        h.handlerBegin.offsetAt_position]

/-- What `Import` makes of a method body. -/
structure ImportedBody (body : MethodBody) (s : ILRewriter) : Prop where
  wellFormed : WellFormed s.instrs
  numbered : ∀ m i, s.instrs[m]? = some i → i.ptr = m + 1
  nInstrs : s.nInstrs = s.instrs.length
  codeSize : codeSize s.instrs = body.code.length
  fGenerateTinyHeader : s.fGenerateTinyHeader = false
  clauses : List.Forall₂ (ImportedClause s.instrs) body.eh s.eh

theorem forall₂_of_mapM {α β : Type} {f : α → Option β} {R : α → β → Prop}
    (hR : ∀ a b, f a = some b → R a b) {as : List α} {bs : List β} (h : as.mapM f = some bs) :
    List.Forall₂ R as bs := by
  induction as generalizing bs with
  | nil =>
      cases h
      exact .nil
  | cons a as ih =>
      rw [List.mapM_cons] at h
      obtain ⟨b, hb, h⟩ := Option.bind_eq_some_iff.mp h
      obtain ⟨bs', hbs, h⟩ := Option.bind_eq_some_iff.mp h
      cases h
      exact .cons (hR a b hb) (ih hbs)

theorem importBody_spec {body : MethodBody} {s : ILRewriter}
    (h : ILRewriter.init.importBody body = .ok s) : ImportedBody body s := by
  rw [ILRewriter.importBody] at h
  split at h
  · cases h
  · next t himport =>
      obtain ⟨rs, hnormal, hblocks, hreach, hcode, himports⟩ := importIL_eq_some rfl rfl himport
      obtain ⟨hwf, -, -⟩ := imported_wellFormed himports.instrs hnormal hblocks hreach
      rw [ILRewriter.importEH] at h
      split at h
      · cases h
      · split at h
        · cases h
        · next eh heh =>
            cases h
            refine ⟨hwf, fun m i hi => ?_, ?_, ?_, himports.header.fGenerateTinyHeader,
              forall₂_of_mapM (fun c e => importEHClause_spec himports) heh⟩
            · obtain ⟨-, -, hptr, -⟩ := himports.instrs.instrs m i hi
              exact hptr
            · exact himports.nInstrs.trans himports.instrs.length.symm
            · have hraw := rawSize_eq_codeSize himports.instrs.opcodes rs.length
              rw [List.take_length, ← himports.instrs.length, List.take_length] at hraw
              rw [hcode, length_encode, ← hraw]

/-! ### Exporting a clause -/

theorem linked_settle {is : List ILInstr} {p : InstrPtr} (h : Linked is p) :
    Linked (settle is) p := by
  have hmap (js : List ILInstr) :
      (js.map fun i => InstrPtr.instr i.ptr) = (js.map (·.ptr)).map InstrPtr.instr := by
    rw [List.map_map]
    rfl
  rw [linked_iff_ptrs, hmap] at h
  rw [linked_iff_ptrs, hmap, ptrs_settle]
  exact h

theorem linked_headPtr_drop (is : List ILInstr) (m : ℕ) : Linked is (headPtr (is.drop m)) := by
  cases hdrop : is.drop m with
  | nil => exact .inl rfl
  | cons i js =>
      refine .inr ⟨i, List.mem_of_mem_drop (i := m) ?_, rfl⟩
      rw [hdrop]
      exact List.mem_cons_self

/-- **A clause is exported to the offsets of its instructions.** -/
theorem exportEHClause_regions {is : List ILInstr} (hclosed : Closed is) {offsets : InstrPtr → ℕ}
    (hlaid : LaidOut offsets 0 (settle is)) (hsize : codeSize (settle is) < 2 ^ 32)
    {e : EHClause} (he : e.In is)
    (htry : position is e.tryBegin ≤ position is e.tryEnd)
    (hhandler : position is e.handlerBegin ≤ position is (nextPtr is e.handlerEnd)) :
    (exportEHClause (settle is) offsets e).regions
      = (e.positions is).map (offsetAt (settle is)) (offsetAt (settle is)) := by
  have hoffset {p : InstrPtr} (hp : Linked is p) :
      (BitVec.ofNat 32 (offsets p)).toNat = offsetAt (settle is) (position is p) := by
    rw [hlaid.offset_eq (linked_settle hp), Nat.zero_add, ← offsetAt_position,
      position_congr (ptrs_settle is), BitVec.toNat_ofNat]
    exact Nat.mod_eq_of_lt (Nat.lt_of_le_of_lt (offsetAt_le _ _) hsize)
  have hmono := (offsetAt_strictMono hclosed.settle.importable).monotoneOn
  have hlength {p q : InstrPtr} (hp : Linked is p) (hq : Linked is q)
      (hle : position is p ≤ position is q) :
      (BitVec.ofNat 32 (offsets p)).toNat
        + (BitVec.ofNat 32 (offsets q) - BitVec.ofNat 32 (offsets p)).toNat
        = offsetAt (settle is) (position is q) := by
    have hplace (p : InstrPtr) : position is p ≤ (settle is).length := by
      rw [length_settle]
      exact position_le is p
    have hoffsets := hmono (hplace p) (hplace q) hle
    rw [← hoffset hp, ← hoffset hq] at hoffsets
    rw [BitVec.toNat_sub_of_le hoffsets, hoffset hq]
    rw [hoffset hp, hoffset hq] at hoffsets
    rw [hoffset hp]
    omega
  obtain ⟨i, hi, hend⟩ := he.handlerEnd
  obtain ⟨m, hm⟩ := List.mem_iff_getElem?.mp hi
  have hnext : Linked is (nextPtr is e.handlerEnd) := by
    rw [hend, nextPtr_getElem hclosed.nodup hm]
    exact linked_headPtr_drop is (m + 1)
  rw [EHClauseFat.regions, EHClause.positions, Clause.map, Region.map, Region.map,
    exportEHClause]
  dsimp only
  rw [nextPtr_congr (ptrs_settle is), hlength he.tryBegin he.tryEnd htry,
    hlength he.handlerBegin hnext hhandler, hoffset he.tryBegin, hoffset he.handlerBegin]
  congr 1
  by_cases hflags : e.flags &&& corILExceptionClauseFilter = 0
  · rw [if_pos hflags, if_pos hflags, Option.map_none]
  · rw [if_neg hflags, if_neg hflags, if_neg hflags, hoffset (he.filter hflags)]
    rfl

/-- What `Export` makes of a rewriter. -/
structure ExportedBody (t : ILRewriter) (body : MethodBody) : Prop where
  code : body.code = code (settle t.instrs)
  length : body.code.length = codeSize (settle t.instrs)
  size : codeSize (settle t.instrs) < 2 ^ 32
  eh : ∃ offsets, LaidOut offsets 0 (settle t.instrs)
    ∧ body.eh = t.eh.map (exportEHClause (settle t.instrs) offsets)

theorem export_spec {t exported : ILRewriter} {fill : ℕ → Byte} {body : MethodBody}
    (hclosed : Closed t.instrs) (htiny : t.fGenerateTinyHeader = false)
    (h : t.export fill = .ok (body, exported)) : ExportedBody t body := by
  obtain ⟨⟨is, e⟩, hpasses, hbody⟩ := bind_eq_ok h
  obtain ⟨rfl, hexported, hsize⟩ : is = settle t.instrs ∧ Exported is e
      ∧ codeSize is ≤ t.nInstrs * 10 % 2 ^ 32 := exportPasses_spec hclosed rfl hpasses
  dsimp only at hbody
  rw [if_neg (by rw [htiny]; exact Bool.false_ne_true)] at hbody
  split at hbody
  · cases hbody
  · cases hbody
    refine ⟨hexported.code, ?_, ?_, ⟨e.offsets, hexported.laidOut, rfl⟩⟩
    · show (e.buffer.take e.offset).length = _
      rw [hexported.code, IL.code, length_encodeAll]
    · exact Nat.lt_of_le_of_lt hsize (Nat.mod_lt _ (by decide))

/-- The exported table, when no try block and no handler is the wrong way round. -/
theorem ExportedBody.regions {t : ILRewriter} {body : MethodBody} (h : ExportedBody t body)
    (hclosed : Closed t.instrs) (hin : ∀ e ∈ t.eh, e.In t.instrs)
    (hle : ∀ e ∈ t.eh, (e.positions t.instrs).tryRange.lo ≤ (e.positions t.instrs).tryRange.hi
      ∧ (e.positions t.instrs).handler.lo ≤ (e.positions t.instrs).handler.hi) :
    body.eh.map (·.regions) = (t.eh.map (EHClause.positions t.instrs)).map
      (Clause.map (offsetAt (settle t.instrs)) (offsetAt (settle t.instrs))) := by
  obtain ⟨offsets, hlaid, heh⟩ := h.eh
  rw [heh, List.map_map, List.map_map]
  refine List.map_congr_left fun e he => ?_
  exact exportEHClause_regions hclosed hlaid h.size (hin e he) (hle e he).1 (hle e he).2

end AutoInstrumentation.IL
