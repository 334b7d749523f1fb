import AutoInstrumentation.CallTarget.ClausesSound

/-!
# AutoInstrumentation.CallTarget.ClausesKept

What the clauses of a method cover after `Rewrite`.

An imported instruction keeps its place among the others, and a returned value takes the
place of its return with the jump behind the store. A clause covers the instructions that
stand for those it covered, unless what it protects ended with the code, or its handler
ended with a value being returned.
-/

namespace AutoInstrumentation.CallTarget

open AutoInstrumentation.IL AutoInstrumentation.Lib

/-- `j` is what has become of `i`: the instruction itself, or the jump behind a stored return
value. -/
def StandsFor (isVoid : Bool) (new : List ILInstr) (i j : ILInstr) : Prop :=
  j.ptr = i.ptr
    ∨ isVoid = false ∧ i.opcode = ceeRet ∧ nextPtr new (.instr i.ptr) = .instr j.ptr

/-- The interval `r'` of the new code has what has become of the instructions in the interval
`r` of the old code, and nothing else. -/
def Covers (isVoid : Bool) (old new : List ILInstr) (r r' : Region ℕ) : Prop :=
  ∀ j ∈ new, r'.Contains (offsetOf (settle new) (.instr j.ptr))
    ↔ ∃ i ∈ old, r.Contains (offsetOf old (.instr i.ptr)) ∧ StandsFor isVoid new i j

/-- The clause `d` of the new code covers what `c` covered. -/
structure ClauseKept (isVoid : Bool) (old new : List ILInstr) (c d : EHClauseFat) : Prop where
  flags : d.flags = c.flags
  tryRange : Covers isVoid old new c.regions.tryRange d.regions.tryRange
  filter : Option.Rel (Covers isVoid old new) c.regions.filter d.regions.filter
  handler : Covers isVoid old new c.regions.handler d.regions.handler

/-! ### Intervals of positions -/

section rewriting

variable {isVoid : Bool} {body newBody : MethodBody} {s t : ILRewriter} {m : Emitted}
  {begin : List ILInstr} {K M : ℕ} {es : List EHClause}

theorem eq_instr_iff_position {is : List ILInstr} (hnodup : (is.map (·.ptr)).Nodup) {p : ℕ}
    {j : ILInstr} (hj : is[p]? = some j) {q : InstrPtr} :
    q = .instr j.ptr ↔ position is q = p := by
  constructor
  · rintro rfl
    exact position_ptr hnodup hj
  · rintro rfl
    exact position_getElem hj

/-- What has become of an instruction, by positions. -/
theorem Rewriting.standsFor_iff (h : Rewriting isVoid body newBody s t m begin K M es) {k p : ℕ}
    {i j : ILInstr} (hi : s.instrs[k]? = some i) (hj : t.instrs[p]? = some j) :
    StandsFor isVoid t.instrs i j
      ↔ place isVoid m.methodReturnInstr begin.length s.instrs k ≤ p
        ∧ p < place isVoid m.methodReturnInstr begin.length s.instrs (k + 1) := by
  obtain ⟨middle, ending, methodReturn, -, r, ht, hr⟩ := h.rewritten
  have hinstrs : t.instrs = r.instrs := by rw [ht]; rfl
  have hnodup := h.closed.nodup
  have hposition := hr.position hi
  rw [← hinstrs] at hposition
  obtain ⟨hplace, hbehind⟩ := hposition
  have hsame : j.ptr = i.ptr ↔ place isVoid m.methodReturnInstr begin.length s.instrs k = p := by
    rw [← hplace, ← eq_instr_iff_position hnodup hj, InstrPtr.instr.injEq, eq_comm]
  have hnext : nextPtr t.instrs (.instr i.ptr) = .instr j.ptr
      ↔ place isVoid m.methodReturnInstr begin.length s.instrs k + 1 = p := by
    rw [eq_instr_iff_position hnodup hj, hbehind]
    rfl
  have hreturn := hr.isReturn i (List.mem_of_getElem? hi)
  rw [StandsFor, hsame, hnext, place_succ hi]
  by_cases hstored : isVoid = false ∧ i.opcode = ceeRet
  · rw [if_pos ⟨hstored.1, hreturn.mpr hstored.2⟩]
    simp only [hstored, true_and]
    omega
  · rw [if_neg fun hif => hstored ⟨hif.1, hreturn.mp hif.2⟩, ← and_assoc]
    simp only [hstored, false_and, or_false]
    omega

/-- **What an interval covers** is kept just when its end moves with the instructions. -/
theorem Rewriting.covers_iff (h : Rewriting isVoid body newBody s t m begin K M es)
    {r r' : Region ℕ} (hr : r.Nonempty) (hhi : r.hi ≤ s.instrs.length)
    (hlo : r'.lo = place isVoid m.methodReturnInstr begin.length s.instrs r.lo)
    (hr' : r'.Nonempty) (hhi' : r'.hi ≤ t.instrs.length) :
    Covers isVoid s.instrs t.instrs (r.map (offsetAt s.instrs) (offsetAt s.instrs))
        (r'.map (offsetAt (settle t.instrs)) (offsetAt (settle t.instrs)))
      ↔ r'.hi = place isVoid m.methodReturnInstr begin.length s.instrs r.hi := by
  let f := place isVoid m.methodReturnInstr begin.length s.instrs
  have hf : StrictMono f := fun j k hjk => place_lt hjk
  -- an interval of offsets contains the instructions at its positions
  have hcontains {g : ℕ → ℕ} {n : ℕ} (hg : StrictMonoOn g {k | k ≤ n}) {q : Region ℕ}
      (hne : q.Nonempty) (hq : q.hi ≤ n) {p : ℕ} (hp : p < n) :
      (q.map g g).Contains (g p) ↔ q.Contains p :=
    and_congr (hg.le_iff_le (Nat.le_trans (Nat.le_of_lt hne) hq) (Nat.le_of_lt hp))
      (hg.lt_iff_lt (Nat.le_of_lt hp) hq)
  have hold {k : ℕ} {i : ILInstr} (hi : s.instrs[k]? = some i) :
      (r.map (offsetAt s.instrs) (offsetAt s.instrs)).Contains (offsetOf s.instrs (.instr i.ptr))
        ↔ r.Contains k := by
    rw [← offsetAt_position, position_ptr h.imported.wellFormed.nodup hi]
    exact hcontains h.oldMono hr hhi (List.getElem?_eq_some_iff.mp hi).1
  have hnew {p : ℕ} {j : ILInstr} (hj : t.instrs[p]? = some j) :
      (r'.map (offsetAt (settle t.instrs)) (offsetAt (settle t.instrs))).Contains
        (offsetOf (settle t.instrs) (.instr j.ptr)) ↔ r'.Contains p := by
    rw [← offsetAt_position, position_congr (ptrs_settle t.instrs),
      position_ptr h.closed.nodup hj]
    exact hcontains h.newMono hr' hhi' (List.getElem?_eq_some_iff.mp hj).1
  have hstands {p : ℕ} {j : ILInstr} (hj : t.instrs[p]? = some j) :
      (∃ i ∈ s.instrs, (r.map (offsetAt s.instrs) (offsetAt s.instrs)).Contains
          (offsetOf s.instrs (.instr i.ptr)) ∧ StandsFor isVoid t.instrs i j)
        ↔ (r.map f f).Contains p := by
    rw [Region.contains_map_iff hf.monotone]
    constructor
    · intro ⟨i, hi, hin, hstands⟩
      obtain ⟨k, hk⟩ := List.mem_iff_getElem?.mp hi
      exact ⟨k, (hold hk).mp hin, (h.standsFor_iff hk hj).mp hstands⟩
    · intro ⟨k, hin, hbetween⟩
      have hk := List.getElem?_eq_getElem (Nat.lt_of_lt_of_le hin.2 hhi)
      exact ⟨_, List.getElem_mem _, (hold hk).mpr hin, (h.standsFor_iff hk hj).mpr hbetween⟩
  have hplaces : Covers isVoid s.instrs t.instrs (r.map (offsetAt s.instrs) (offsetAt s.instrs))
      (r'.map (offsetAt (settle t.instrs)) (offsetAt (settle t.instrs)))
        ↔ ∀ p < t.instrs.length, r'.Contains p ↔ (r.map f f).Contains p := by
    constructor
    · intro hcovers p hp
      have hj := List.getElem?_eq_getElem hp
      rw [← hnew hj, ← hstands hj]
      exact hcovers _ (List.getElem_mem hp)
    · intro hsame j hj
      obtain ⟨p, hp⟩ := List.mem_iff_getElem?.mp hj
      rw [hnew hp, hstands hp]
      exact hsame p (List.getElem?_eq_some_iff.mp hp).1
  rw [hplaces]
  exact Region.forall_contains_iff (r := r.map f f) hlo (hf hr) hr'
    (Nat.le_trans (h.place_le hhi) (Nat.le_of_lt h.K_lt.2)) hhi'

/-- **What a clause covers** is kept just when the block that it protects does not end with
the code, nor its handler with a value being returned. -/
theorem Rewriting.clauseKept_iff (h : Rewriting isVoid body newBody s t m begin K M es)
    (hvalid : body.RegionsInCode) {e : EHClause} (he : e ∈ s.eh) {c d : EHClauseFat}
    (hflags : d.flags = c.flags)
    (hc : c.regions = (e.positions s.instrs).map (offsetAt s.instrs) (offsetAt s.instrs))
    (hd : d.regions = (e.positions t.instrs).map (offsetAt (settle t.instrs))
      (offsetAt (settle t.instrs))) :
    ClauseKept isVoid s.instrs t.instrs c d
      ↔ c.regions.tryRange.hi ≠ body.code.length
        ∧ (isVoid = true ∨ ¬RetBefore s.instrs c.regions.handler.hi) := by
  obtain ⟨-, hclause⟩ := h.clause hvalid he
  have hold := h.nonempty hvalid e he
  have hnew := h.nonempty_moved hvalid he
  have hends := endsIn_positions s.instrs s.eh _ (List.mem_map_of_mem he)
  have hends' := endsIn_positions t.instrs [e] _ (List.mem_map_of_mem (List.mem_singleton_self e))
  have htry : Covers isVoid s.instrs t.instrs c.regions.tryRange d.regions.tryRange
      ↔ c.regions.tryRange.hi ≠ body.code.length := by
    have hmem := Clause.guards_subset _ (Clause.tryRange_mem (e.positions s.instrs))
    have hmem' := Clause.guards_subset _ (Clause.tryRange_mem (e.positions t.instrs))
    rw [hc, hd]
    refine (h.covers_iff (hold _ hmem) (hends _ hmem).2 (by rw [hclause]; rfl) (hnew _ hmem')
      (hends' _ hmem').2).trans ?_
    refine Iff.trans ?_ (not_congr (h.offsetAt_eq_length (position_le _ _))).symm
    show position t.instrs e.tryEnd
        = place isVoid m.methodReturnInstr begin.length s.instrs (position s.instrs e.tryEnd)
      ↔ position s.instrs e.tryEnd ≠ s.instrs.length
    rcases h.tryEnd he with ⟨heq, hend⟩ | ⟨hlt, hend⟩
    · rw [heq, hend, h.place_length]
      exact iff_of_false (Nat.ne_of_gt h.K_lt.2) (fun hne => hne rfl)
    · exact iff_of_true hend (Nat.ne_of_lt hlt)
  have hhandler : Covers isVoid s.instrs t.instrs c.regions.handler d.regions.handler
      ↔ isVoid = true ∨ ¬RetBefore s.instrs c.regions.handler.hi := by
    have hmem := Clause.handler_mem (e.positions s.instrs)
    have hmem' := Clause.handler_mem (e.positions t.instrs)
    have hpos : 0 < (e.positions s.instrs).handler.hi :=
      Nat.lt_of_le_of_lt (Nat.zero_le _) (hold _ hmem)
    rw [hc, hd]
    refine (h.covers_iff (hold _ hmem) (hends _ hmem).2 (by rw [hclause]; rfl) (hnew _ hmem')
      (hends' _ hmem').2).trans ?_
    rw [hclause]
    exact h.placeEnd_eq_iff hpos (hends _ hmem).2
  have hfilter : Option.Rel (Covers isVoid s.instrs t.instrs) c.regions.filter
      d.regions.filter := by
    have hfilters : (e.positions t.instrs).filter = (e.positions s.instrs).filter.map
        (Region.map (place isVoid m.methodReturnInstr begin.length s.instrs)
          (place isVoid m.methodReturnInstr begin.length s.instrs)) := by
      rw [hclause]
      rfl
    rw [hc, hd, Clause.map, Clause.map, hfilters]
    cases hf : (e.positions s.instrs).filter with
    | none => exact .none
    | some r =>
        have hmem : r ∈ (e.positions s.instrs).ranges := by
          refine Clause.guards_subset _ (List.mem_cons_of_mem _ ?_)
          exact Option.mem_toList.mpr hf
        have hhi := (hends _ hmem).2
        refine .some ((h.covers_iff (hold _ hmem) hhi rfl ?_ ?_).mpr rfl)
        · exact place_lt (hold _ hmem)
        · exact Nat.le_trans (h.place_le hhi) (Nat.le_of_lt h.K_lt.2)
  constructor
  · intro hkept
    exact ⟨htry.mp hkept.tryRange, hhandler.mp hkept.handler⟩
  · intro hboth
    exact ⟨hflags, htry.mpr hboth.1, hfilter, hhandler.mpr hboth.2⟩

end rewriting

/-- A relation that the related elements have or not by the left one alone. -/
theorem forall₂_iff_forall {α β : Type} {R S : α → β → Prop} {P : α → Prop} {as : List α}
    {bs : List β} (hR : List.Forall₂ R as bs) (hS : ∀ a, ∀ b ∈ bs, R a b → (S a b ↔ P a)) :
    List.Forall₂ S as bs ↔ ∀ a ∈ as, P a := by
  induction hR with
  | nil => simp
  | cons hab _ ih =>
      rw [List.forall₂_cons, List.forall_mem_cons, hS _ _ List.mem_cons_self hab,
        ih fun a b hb => hS a b (List.mem_cons_of_mem _ hb)]

/-- The clauses of the method are the first ones of the new table. -/
theorem Rewriting.clausesKept_iff {isVoid : Bool} {body newBody : MethodBody} {s t : ILRewriter}
    {m : Emitted} {begin : List ILInstr} {K M : ℕ} {es : List EHClause}
    (h : Rewriting isVoid body newBody s t m begin K M es) (hvalid : body.RegionsInCode) :
    List.Forall₂ (ClauseKept isVoid s.instrs t.instrs) body.eh (newBody.eh.take body.eh.length)
      ↔ (∀ c ∈ body.eh, c.regions.tryRange.hi ≠ body.code.length)
        ∧ (isVoid = true ∨ ∀ c ∈ body.eh, ¬RetBefore s.instrs c.regions.handler.hi) := by
  obtain ⟨offsets, hlaid, heh⟩ := h.exported.eh
  have hlength : body.eh.length = s.eh.length := h.regions.length_eq
  rw [heh, h.clauses, List.map_append, hlength, List.take_left' (List.length_map _),
    List.forall₂_map_right_iff,
    forall₂_iff_forall (P := fun c => c.regions.tryRange.hi ≠ body.code.length
      ∧ (isVoid = true ∨ ¬RetBefore s.instrs c.regions.handler.hi)) h.regions]
  · constructor
    · intro hall
      refine ⟨fun c hc => (hall c hc).1, ?_⟩
      cases isVoid with
      | true => exact .inl rfl
      | false =>
          exact .inr fun c hc => (hall c hc).2.resolve_left Bool.false_ne_true
    · intro ⟨hend, hret⟩ c hc
      exact ⟨hend c hc, hret.imp_right fun hret => hret c hc⟩
  · intro c e he ⟨hflags, hregions⟩
    refine h.clauseKept_iff hvalid he hflags hregions ?_
    have hnonempty := h.nonempty_moved hvalid he
    exact exportEHClause_regions h.closed hlaid h.exported.size (h.clause hvalid he).1
      (Nat.le_of_lt (hnonempty _ (Clause.guards_subset _ (Clause.tryRange_mem _))))
      (Nat.le_of_lt (hnonempty _ (Clause.handler_mem _)))

/-- **What the clauses cover.** Each clause of the method covers in the new code what has
become of the instructions that it covered, and nothing that was added, just when no try
block ends with the code, and no handler with a value being returned. -/
theorem rewrite_clausesKept_iff {profiler : CorProfiler} {tokens : TracerTokens}
    {caller : FunctionInfo} {fill : ℕ → Byte} {body newBody : MethodBody} {s t : ILRewriter}
    (himport : ILRewriter.init.importBody body = .ok s)
    (h : rewrite profiler tokens caller fill body = .ok (newBody, t))
    (hvalid : body.RegionsInCode) :
    newBody.code = code (settle t.instrs)
      ∧ (List.Forall₂ (ClauseKept caller.isVoid s.instrs t.instrs) body.eh
          (newBody.eh.take body.eh.length)
        ↔ (∀ c ∈ body.eh, c.regions.tryRange.hi ≠ body.code.length)
          ∧ (caller.isVoid = true
            ∨ ∀ c ∈ body.eh, ¬RetBefore s.instrs c.regions.handler.hi)) := by
  obtain ⟨m, begin, K, M, es, hr⟩ := rewriting_of_rewrite himport h hvalid
  exact ⟨hr.exported.code, hr.clausesKept_iff hvalid⟩

theorem regionsInCode_singleton {body : MethodBody} {c : EHClauseFat} (heh : body.eh = [c])
    (hnonempty : ∀ r ∈ c.regions.ranges, r.Nonempty)
    (hwithin : ∀ r ∈ c.regions.ranges, r.hi ≤ body.code.length)
    (hsize : body.code.length < 2 ^ 32) : body.RegionsInCode := by
  refine ⟨?_, ?_, hsize⟩
  · rw [heh]
    exact List.forall_mem_singleton.mpr hnonempty
  · rw [heh]
    exact List.forall_mem_singleton.mpr hwithin

/-- The handler ends before the return. -/
theorem rewrite_clausesKept_iff_returnsLast :
    ∃ s newBody t, ILRewriter.init.importBody returnsLast = .ok s
      ∧ rewrite plainProfiler plainTokens plainCaller (fun _ => 0) returnsLast = .ok (newBody, t)
      ∧ List.Forall₂ (ClauseKept true s.instrs t.instrs) returnsLast.eh (newBody.eh.take 1) := by
  obtain ⟨s, newBody, t, himport, h⟩ := rewrite_plain (.inr rfl) fun _ => 0
  have hvalid : returnsLast.RegionsInCode :=
    regionsInCode_singleton rfl (by decide) (by decide) (by decide)
  refine ⟨s, newBody, t, himport, h, ?_⟩
  exact (rewrite_clausesKept_iff himport h hvalid).2.mpr ⟨by decide, .inl rfl⟩

/-- A try block that ends with the code covers what is added behind it. -/
theorem not_clausesKept_throwsLast :
    throwsLast.RegionsInCode
      ∧ ∃ s newBody t, ILRewriter.init.importBody throwsLast = .ok s
        ∧ rewrite plainProfiler plainTokens plainCaller (fun _ => 0) throwsLast = .ok (newBody, t)
        ∧ ¬List.Forall₂ (ClauseKept true s.instrs t.instrs) throwsLast.eh
          (newBody.eh.take 1) := by
  obtain ⟨s, newBody, t, himport, h⟩ := rewrite_plain (.inl rfl) fun _ => 0
  have hvalid : throwsLast.RegionsInCode :=
    regionsInCode_singleton rfl (by decide) (by decide) (by decide)
  obtain ⟨m, begin, K, M, es, hr⟩ := rewriting_of_rewrite himport h hvalid
  refine ⟨hvalid, s, newBody, t, himport, h, fun hkept => ?_⟩
  exact absurd ((hr.clausesKept_iff hvalid).mp hkept).1 (by decide)

end AutoInstrumentation.CallTarget
