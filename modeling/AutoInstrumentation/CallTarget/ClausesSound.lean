import AutoInstrumentation.CallTarget.Clauses
import Mathlib.Data.List.Forall2

/-!
# AutoInstrumentation.CallTarget.ClausesSound

The exception table that `Rewrite` exports.

The clauses of a method keep their order and stay nested or disjoint when they move to
their new places, and the clauses that are added enclose them or are apart from them. This
fails in two ways. What is protected up to the end of the code is protected up to the end
of the new code. And the jump that is put behind a stored return value is not in a handler
that the return ended, although it is in what was protected up to the same place.
-/

namespace AutoInstrumentation.CallTarget

open AutoInstrumentation.IL AutoInstrumentation.Lib

/-! ### The new clauses -/

theorem IsCallbackClause.within {lo hi : ℕ} {c : Clause ℕ} (h : IsCallbackClause lo hi c) :
    ∀ r ∈ c.ranges, r.lo < r.hi ∧ lo ≤ r.lo ∧ r.hi ≤ hi ∧ (lo < r.lo ∨ r.hi < hi) := by
  cases h with
  | caught u hlo hhi =>
      simp only [Clause.ranges, Clause.guards, Option.toList_none, List.forall_mem_cons]
      exact ⟨by omega, by omega, by simp⟩
  | filtered u v hlo huv hhi =>
      simp only [Clause.ranges, Clause.guards, Option.toList_some, List.forall_mem_cons]
      exact ⟨by omega, by omega, by omega, by simp⟩

theorem IsCallbackClause.wellFormed {lo hi : ℕ} {c : Clause ℕ} (h : IsCallbackClause lo hi c) :
    WellFormedTable [c] := by
  refine wellFormedTable_singleton (fun r hr => (h.within r hr).1) ?_ ?_
  · cases h with
    | caught u hlo hhi => exact .inl (Nat.le_refl u)
    | filtered u v hlo huv hhi => exact .inl (Nat.le_of_lt huv)
  · cases h with
    | caught u hlo hhi =>
        simp only [Clause.ranges, Clause.guards, Option.toList_none, List.forall_mem_cons,
          Region.Laminar, Region.Inside, Region.Disjoint]
        simp
    | filtered u v hlo huv hhi =>
        simp only [Clause.ranges, Clause.guards, Option.toList_some, List.forall_mem_cons,
          Region.Laminar, Region.Inside, Region.Disjoint]
        simp
        omega

/-- The clauses of the method's exceptions and of its end. -/
theorem outerClause_ranges {K L : ℕ} {P : Region ℕ → Prop} (htry : P ⟨0, K⟩)
    (hhandler : P ⟨K, L⟩) : ∀ r ∈ (⟨⟨0, K⟩, none, ⟨K, L⟩⟩ : Clause ℕ).ranges, P r := by
  simp only [Clause.ranges, Clause.guards, Option.toList_none, List.forall_mem_cons]
  exact ⟨hhandler, htry, by simp⟩

theorem outerClause_wellFormed {K L : ℕ} (hK : 0 < K) (hL : K < L) :
    WellFormedTable [(⟨⟨0, K⟩, none, ⟨K, L⟩⟩ : Clause ℕ)] := by
  refine wellFormedTable_singleton (outerClause_ranges hK hL) (.inl (Nat.le_refl K)) ?_
  refine outerClause_ranges (outerClause_ranges ?_ ?_) (outerClause_ranges ?_ ?_)
  · exact .inl ⟨Nat.le_refl _, Nat.le_refl _⟩
  · exact .inr (.inr (.inl (Nat.le_refl K)))
  · exact .inr (.inr (.inr (Nat.le_refl K)))
  · exact .inl ⟨Nat.le_refl _, Nat.le_refl _⟩

theorem IsCallbackClause.lt {lo hi : ℕ} {c : Clause ℕ} (h : IsCallbackClause lo hi c) :
    lo + 1 < hi := by
  cases h with
  | caught u hlo hhi => omega
  | filtered u v hlo huv hhi => omega

theorem AreNewClauses.wellFormed {b K M : ℕ} {cs : List (Clause ℕ)} (h : AreNewClauses b K M cs)
    (hbK : b ≤ K) : WellFormedTable cs := by
  obtain ⟨c, d, hc, hd, rfl⟩ := h.clauses
  have hb := hc.lt
  have hM := hd.lt
  refine wellFormedTable_cons hc.wellFormed (wellFormedTable_cons hd.wellFormed
    (wellFormedTable_cons (outerClause_wellFormed (by omega) (by omega))
      (outerClause_wellFormed (by omega) (by omega)) ?_) ?_) ?_
  · simp only [List.forall_mem_cons, List.not_mem_nil, false_implies, implies_true, and_true]
    refine follows_of_within 0 (K + 2) (outerClause_ranges ⟨?_, ?_⟩ ⟨?_, ?_⟩)
      (outerClause_ranges ?_ ?_) (outerClause_ranges ?_ ?_)
    all_goals simp only [Region.Inside]
    all_goals omega
  · have hplace (r : Region ℕ) (hr : r ∈ d.ranges) : K + 2 ≤ r.lo ∧ r.hi ≤ M :=
      ⟨(hd.within r hr).2.1, (hd.within r hr).2.2.1⟩
    have hout (L : ℕ) (r : Region ℕ) (hr : r ∈ d.ranges) :
        ¬(⟨0, L⟩ : Region ℕ).Inside r := by
      rintro ⟨hlo, -⟩
      have := (hplace r hr).1
      simp only at hlo
      omega
    simp only [List.forall_mem_cons, List.not_mem_nil, false_implies, implies_true, and_true]
    refine ⟨follows_of_within (K + 2) M hplace (outerClause_ranges ?_ ?_) (hout K),
      follows_of_within (K + 2) M hplace (outerClause_ranges ?_ ?_) (hout (K + 2))⟩
    all_goals simp only
    all_goals omega
  · have hplace (r : Region ℕ) (hr : r ∈ c.ranges) : 0 ≤ r.lo ∧ r.hi ≤ b :=
      ⟨(hc.within r hr).2.1, (hc.within r hr).2.2.1⟩
    have hout (L : ℕ) (hL : b ≤ L) (r : Region ℕ) (hr : r ∈ c.ranges) :
        ¬(⟨0, L⟩ : Region ℕ).Inside r := by
      rintro ⟨hlo, hhi⟩
      have := hc.within r hr
      simp only at hlo hhi
      omega
    simp only [List.forall_mem_cons, List.not_mem_nil, false_implies, implies_true, and_true]
    refine ⟨follows_of_within 0 b hplace (fun r hr => .inr (.inl ?_)) (fun r hr hin => ?_),
      follows_of_within 0 b hplace (outerClause_ranges ?_ ?_) (hout K hbK),
      follows_of_within 0 b hplace (outerClause_ranges ?_ ?_) (hout (K + 2) (by omega))⟩
    · have := hd.within r hr
      omega
    · have htry := hd.within _ (d.guards_subset d.tryRange_mem)
      have := hplace r hr
      have := hin.2
      omega
    all_goals simp only
    all_goals omega

/-- What stands between the code that begins the call and the code behind the method may be
followed by the new clauses. -/
theorem AreNewClauses.follows {b K M : ℕ} {cs : List (Clause ℕ)} (h : AreNewClauses b K M cs)
    {c : Clause ℕ} (hc : ∀ r ∈ c.ranges, b ≤ r.lo ∧ r.hi ≤ K) : ∀ d ∈ cs, Follows c d := by
  obtain ⟨begin, end_, hbegin, hend, rfl⟩ := h.clauses
  have hb := hbegin.lt
  have hM := hend.lt
  have hout (L : ℕ) (r : Region ℕ) (hr : r ∈ c.ranges) :
      ¬(⟨0, L⟩ : Region ℕ).Inside r := by
    rintro ⟨hlo, -⟩
    have := (hc r hr).1
    simp only at hlo
    omega
  simp only [List.forall_mem_cons, List.not_mem_nil, false_implies, implies_true, and_true]
  refine ⟨follows_of_within b K hc (fun r hr => .inr (.inr (hbegin.within r hr).2.2.1)) ?_,
    follows_of_within b K hc (fun r hr => .inr (.inl ?_)) ?_,
    follows_of_within b K hc (outerClause_ranges ?_ ?_) (hout K),
    follows_of_within b K hc (outerClause_ranges ?_ ?_) (hout (K + 2))⟩
  · intro r hr hin
    have htry := hbegin.within _ (begin.guards_subset begin.tryRange_mem)
    have := hc r hr
    have := hin.1
    omega
  · have := hend.within r hr
    omega
  · intro r hr hin
    have htry := hend.within _ (end_.guards_subset end_.tryRange_mem)
    have := hc r hr
    have := hin.2
    omega
  all_goals simp only
  all_goals omega

/-! ### The exported table -/

/-- The return type, as far as it matters for the returns. -/
def FunctionInfo.isVoid (caller : FunctionInfo) : Bool := caller.retTypeFlags.any (·.void)

/-- The instruction that ends at the offset `o` is a return. -/
def RetBefore (is : List ILInstr) (o : ℕ) : Prop :=
  ∃ i ∈ is, i.opcode = ceeRet ∧ offsetOf is (.instr i.ptr) + instrSize i.opcode = o

/-- No try block and no filter starts within a handler that a return ends, and ends with it. -/
def ReturnsApart (is : List ILInstr) (t : List (Clause ℕ)) : Prop :=
  ∀ c ∈ t, RetBefore is c.handler.hi →
    ∀ d ∈ t, ∀ r ∈ d.guards, r.hi = c.handler.hi → r.lo ≤ c.handler.lo

theorem retBefore_offsetAt {is : List ILInstr} (hclosed : Closed is) {k : ℕ}
    (hk : k ≤ is.length) :
    RetBefore is (offsetAt is k) ↔ ∃ m i, k = m + 1 ∧ is[m]? = some i ∧ i.opcode = ceeRet := by
  have hmono := offsetAt_strictMono hclosed.importable
  have hbehind {m : ℕ} {i : ILInstr} (hi : is[m]? = some i) :
      offsetOf is (.instr i.ptr) + instrSize i.opcode = offsetAt is (m + 1) := by
    rw [← offsetAt_position, position_ptr hclosed.nodup hi, offsetAt_succ hi]
  constructor
  · intro ⟨i, hi, hret, hoffset⟩
    obtain ⟨m, hm⟩ := List.mem_iff_getElem?.mp hi
    have hlt : m < is.length := (List.getElem?_eq_some_iff.mp hm).1
    rw [hbehind hm] at hoffset
    exact ⟨m, i, ((hmono.eq_iff_eq hlt hk).mp hoffset).symm, hm, hret⟩
  · intro ⟨m, i, hk, hm, hret⟩
    exact ⟨i, List.mem_of_getElem? hm, hret, by rw [hbehind hm, hk]⟩

theorem rewrite_eq_ok {profiler : CorProfiler} {tokens : TracerTokens} {caller : FunctionInfo}
    {fill : ℕ → Byte} {body newBody : MethodBody} {t : ILRewriter}
    (h : rewrite profiler tokens caller fill body = .ok (newBody, t)) :
    ∃ retTypeFlags s clauses r es exported, caller.retTypeFlags = some retTypeFlags
      ∧ ILRewriter.init.importBody body = .ok s
      ∧ emitMethod profiler tokens caller retTypeFlags ⟨s, headPtr s.instrs⟩ = .ok (clauses, r)
      ∧ clauses.allSome = some es ∧ t = r.setEHClause (r.eh ++ es)
      ∧ t.export fill = .ok (newBody, exported) := by
  rw [rewrite] at h
  split at h
  · cases h
  · split at h
    · cases h
    · next retTypeFlags hret =>
        split at h
        · cases h
        · split at h
          · cases h
          · split at h
            · cases h
            · split at h
              · cases h
              · next s himport =>
                  split at h
                  · cases h
                  · next clauses r hemit =>
                      split at h
                      · cases h
                      · next es hes =>
                          dsimp only at h
                          split at h
                          · cases h
                          · cases h
                          · next exported hexport =>
                              cases h
                              exact ⟨retTypeFlags, s, clauses, r, es, exported, hret, himport,
                                hemit, hes, rfl, hexport⟩

/-- The new list of an imported method. -/
theorem rewritten_of_import {profiler : CorProfiler} {tokens : TracerTokens}
    {caller : FunctionInfo} {retTypeFlags : TypeFlags} {body : MethodBody} {s r : ILRewriter}
    {clauses : List (Option EHClause)} (h : ImportedBody body s)
    (hemit : emitMethod profiler tokens caller retTypeFlags ⟨s, headPtr s.instrs⟩
      = .ok (clauses, r)) :
    ∃ m begin middle ending methodReturn, clauses = m.clauses tokens r.instrs
      ∧ Rewritten s retTypeFlags.void m begin middle ending methodReturn r := by
  refine emitMethod_spec h.wellFormed.toClosed ?_ h.fGenerateTinyHeader hemit
  intro i hi
  obtain ⟨k, hk⟩ := List.mem_iff_getElem?.mp hi
  rw [h.numbered k i hk, h.nInstrs]
  exact (List.getElem?_eq_some_iff.mp hk).1

/-- What `Rewrite` checks, and that the new code is small. -/
def rewritable (profiler : CorProfiler) (tokens : TracerTokens) (caller : FunctionInfo)
    (body : MethodBody) : Bool :=
  !caller.isRuntimeAsync && profiler.hasIntegrationTypeRef && profiler.profilerAssemblyIsLoaded &&
    match caller.retTypeFlags, ILRewriter.init.importBody body with
    | some retTypeFlags, .ok s =>
        match emitMethod profiler tokens caller retTypeFlags ⟨s, headPtr s.instrs⟩ with
        | .ok (clauses, r) =>
            match clauses.allSome with
            | some es => 9 * r.instrs.length ≤ r.nInstrs * 10 % 2 ^ 32
                && fatSize (9 * r.instrs.length) (r.eh ++ es).length < 2 ^ 32
            | none => false
        | .error _ => false
    | _, _ => false

/-- A small list fits the buffer. -/
theorem fits_of_length {t : ILRewriter}
    (hcode : 9 * t.instrs.length ≤ t.nInstrs * 10 % 2 ^ 32)
    (hsize : fatSize (9 * t.instrs.length) t.eh.length < 2 ^ 32) : Fits t := by
  have hle := codeSize_le (settle t.instrs)
  rw [length_settle] at hle
  refine ⟨Nat.le_trans hle hcode, Nat.lt_of_le_of_lt ?_ hsize⟩
  rw [fatSize, fatSize]
  omega

/-- **Small methods are rewritten.** -/
theorem rewrite_progress {profiler : CorProfiler} {tokens : TracerTokens}
    {caller : FunctionInfo} {body : MethodBody} (fill : ℕ → Byte)
    (h : rewritable profiler tokens caller body = true) :
    ∃ s newBody t, ILRewriter.init.importBody body = .ok s
      ∧ rewrite profiler tokens caller fill body = .ok (newBody, t) := by
  rw [rewritable] at h
  simp only [Bool.and_eq_true, Bool.not_eq_true'] at h
  obtain ⟨⟨⟨hasync, htypeRef⟩, hloaded⟩, h⟩ := h
  split at h
  · next retTypeFlags s hret himport =>
      split at h
      · next clauses r hemit =>
          split at h
          · next es hes =>
              simp only [Bool.and_eq_true, decide_eq_true_eq] at h
              obtain ⟨m, begin, middle, ending, methodReturn, -, hr⟩ :=
                rewritten_of_import (importBody_spec himport) hemit
              obtain ⟨⟨newBody, exported⟩, hexport⟩ :=
                (export_eq_ok (t := r.setEHClause (r.eh ++ es)) hr.closed
                  hr.fGenerateTinyHeader fill).1.mpr
                  (fits_of_length h.1 h.2)
              refine ⟨s, newBody, r.setEHClause (r.eh ++ es), himport, ?_⟩
              rw [rewrite]
              simp [hasync, htypeRef, hloaded, hret, himport, hemit, hes, hexport]
          · cases h
      · cases h
  · cases h

/-- A rewriting, from the imported list of `s` to the new list of `t`. -/
structure Rewriting (isVoid : Bool) (body newBody : MethodBody) (s t : ILRewriter) (m : Emitted)
    (begin : List ILInstr) (K M : ℕ) (es : List EHClause) : Prop where
  imported : ImportedBody body s
  rewritten : ∃ middle ending methodReturn, K = begin.length + middle.length
    ∧ ∃ r, t = r.setEHClause (s.eh ++ es)
      ∧ Rewritten s isVoid m begin middle ending methodReturn r
  closed : Closed t.instrs
  exported : ExportedBody t newBody
  clauses : t.eh = s.eh ++ es
  newIn : ∀ e ∈ es, e.In t.instrs
  length : M + 1 < t.instrs.length
  new : AreNewClauses begin.length K M (es.map (EHClause.positions t.instrs))
  oldIn : ∀ e ∈ s.eh, e.In s.instrs
  regions : List.Forall₂ (fun c e => e.flags = c.flags ∧ c.regions
    = (e.positions s.instrs).map (offsetAt s.instrs) (offsetAt s.instrs)) body.eh s.eh

theorem rewriting_of_rewrite {profiler : CorProfiler} {tokens : TracerTokens}
    {caller : FunctionInfo} {fill : ℕ → Byte} {body newBody : MethodBody} {s t : ILRewriter}
    (himport : ILRewriter.init.importBody body = .ok s)
    (h : rewrite profiler tokens caller fill body = .ok (newBody, t))
    (hvalid : body.RegionsInCode) :
    ∃ m begin K M es, Rewriting caller.isVoid body newBody s t m begin K M es := by
  obtain ⟨retTypeFlags, s', clauses, r, es, exported, hret, himport', hemit, hes, ht, hexport⟩ :=
    rewrite_eq_ok h
  rw [himport] at himport'
  cases himport'
  have hvoid : caller.isVoid = retTypeFlags.void := by rw [FunctionInfo.isVoid, hret]; rfl
  rw [hvoid]
  have himported := importBody_spec himport
  obtain ⟨m, begin, middle, ending, methodReturn, rfl, hr⟩ := rewritten_of_import himported hemit
  obtain ⟨hnewIn, M, hM, hnew⟩ := hr.newClauses hes
  have hinstrs : t.instrs = r.instrs := by rw [ht]; rfl
  have heh : t.eh = s.eh ++ es := by rw [ht, ← hr.eh]; rfl
  have htiny : t.fGenerateTinyHeader = false := by
    rw [ht]
    exact hr.fGenerateTinyHeader
  have hclosed : Closed t.instrs := hinstrs ▸ hr.closed
  have hclauses : List.Forall₂ (fun c e => e.In s.instrs ∧ e.flags = c.flags ∧ c.regions
      = (e.positions s.instrs).map (offsetAt s.instrs) (offsetAt s.instrs)) body.eh s.eh := by
    refine ((List.forall₂_and_left _ _).mpr ⟨fun c hc => And.intro (hvalid.nonempty c hc)
      (hvalid.within c hc), himported.clauses⟩).imp ?_
    rintro c e ⟨⟨hnonempty, hwithin⟩, hclause⟩
    rw [← himported.codeSize] at hwithin
    obtain ⟨hin, hregions⟩ := hclause.positions himported.wellFormed.nodup hnonempty hwithin
      (himported.codeSize ▸ hvalid.size)
    exact ⟨hin, hclause.flags, hregions⟩
  refine ⟨m, begin, begin.length + middle.length, M, es, himported,
    ⟨middle, ending, methodReturn, rfl, r, by rw [ht, hr.eh], hr⟩, hclosed,
    export_spec hclosed htiny hexport, heh, hinstrs ▸ hnewIn, hinstrs ▸ hM, hinstrs ▸ hnew,
    ((List.forall₂_and_left _ _).mp hclauses.flip).1, hclauses.imp fun _ _ hce => hce.2⟩

section rewriting

variable {isVoid : Bool} {body newBody : MethodBody} {s t : ILRewriter} {m : Emitted}
  {begin : List ILInstr} {K M : ℕ} {es : List EHClause}

theorem Rewriting.old_regions (h : Rewriting isVoid body newBody s t m begin K M es) :
    body.eh.map (·.regions) = (s.eh.map (EHClause.positions s.instrs)).map
      (Clause.map (offsetAt s.instrs) (offsetAt s.instrs)) := by
  rw [List.map_map]
  refine List.forall₂_eq_eq_eq ▸ ?_
  rw [List.forall₂_map_left_iff, List.forall₂_map_right_iff]
  exact h.regions.imp fun _ _ hce => hce.2

theorem endsIn_positions (is : List ILInstr) (es : List EHClause) :
    EndsIn {k | k ≤ is.length} (es.map (EHClause.positions is)) := by
  rw [EndsIn, List.forall_mem_map]
  intro e he
  rw [Clause.ranges, Clause.guards, EHClause.positions]
  split
  · simp [position_le]
  · simp [position_le]

/-- Offsets and positions of the imported clauses. -/
theorem Rewriting.oldMono (h : Rewriting isVoid body newBody s t m begin K M es) :
    StrictMonoOn (offsetAt s.instrs) {k | k ≤ s.instrs.length} :=
  offsetAt_strictMono h.imported.wellFormed.importable

theorem Rewriting.newMono (h : Rewriting isVoid body newBody s t m begin K M es) :
    StrictMonoOn (offsetAt (settle t.instrs)) {k | k ≤ t.instrs.length} := by
  have hmono := offsetAt_strictMono h.closed.settle.importable
  rwa [length_settle] at hmono

/-- No interval of an imported clause is empty. -/
theorem Rewriting.nonempty (h : Rewriting isVoid body newBody s t m begin K M es)
    (hvalid : body.RegionsInCode) :
    ∀ e ∈ s.eh, ∀ r ∈ (e.positions s.instrs).ranges, r.Nonempty := by
  intro e he r hr
  have hmem : (e.positions s.instrs).map (offsetAt s.instrs) (offsetAt s.instrs)
      ∈ body.eh.map (·.regions) := by
    rw [h.old_regions]
    exact List.mem_map_of_mem (List.mem_map_of_mem he)
  obtain ⟨c, hc, heq⟩ := List.mem_map.mp hmem
  have hmoved := hvalid.nonempty c hc (r.map (offsetAt s.instrs) (offsetAt s.instrs)) (by
    simp only [heq]
    exact Clause.map_mem_ranges _ hr)
  have hends := endsIn_positions s.instrs s.eh _ (List.mem_map_of_mem he) r hr
  exact (h.oldMono.lt_iff_lt hends.1 hends.2).mp hmoved

/-- What an imported clause has become. -/
theorem Rewriting.clause (h : Rewriting isVoid body newBody s t m begin K M es)
    (hvalid : body.RegionsInCode) {e : EHClause} (he : e ∈ s.eh) :
    e.In t.instrs ∧ e.positions t.instrs
      = { (e.positions s.instrs).map (place isVoid m.methodReturnInstr begin.length s.instrs)
            (placeEnd isVoid m.methodReturnInstr begin.length s.instrs) with
          tryRange :=
            ⟨place isVoid m.methodReturnInstr begin.length s.instrs
              (position s.instrs e.tryBegin), position t.instrs e.tryEnd⟩ } := by
  obtain ⟨middle, ending, methodReturn, -, r, ht, hr⟩ := h.rewritten
  have hinstrs : t.instrs = r.instrs := by rw [ht]; rfl
  rw [hinstrs]
  exact hr.clause h.imported.wellFormed.nodup (h.oldIn e he) (h.nonempty hvalid e he)

theorem Rewriting.place_length (h : Rewriting isVoid body newBody s t m begin K M es) :
    place isVoid m.methodReturnInstr begin.length s.instrs s.instrs.length = K := by
  obtain ⟨middle, ending, methodReturn, hK, r, -, hr⟩ := h.rewritten
  rw [hr.place_length, hK]

/-- Only what ends with the imported list ends at the new sentinel. -/
theorem Rewriting.tryEnd (h : Rewriting isVoid body newBody s t m begin K M es) {e : EHClause}
    (he : e ∈ s.eh) :
    position s.instrs e.tryEnd = s.instrs.length
        ∧ position t.instrs e.tryEnd = t.instrs.length
      ∨ position s.instrs e.tryEnd < s.instrs.length
        ∧ position t.instrs e.tryEnd = place isVoid m.methodReturnInstr begin.length s.instrs
          (position s.instrs e.tryEnd) := by
  obtain ⟨middle, ending, methodReturn, -, r, ht, hr⟩ := h.rewritten
  have hinstrs : t.instrs = r.instrs := by rw [ht]; rfl
  rcases (h.oldIn e he).tryEnd with hil | ⟨i, hi, hptr⟩
  · rw [hil, position_il, position_il]
    exact .inl ⟨rfl, rfl⟩
  · obtain ⟨k, hk⟩ := List.mem_iff_getElem?.mp hi
    have hlt : position s.instrs e.tryEnd < s.instrs.length := by
      rw [hptr, position_ptr h.imported.wellFormed.nodup hk]
      exact (List.getElem?_eq_some_iff.mp hk).1
    rw [hinstrs]
    exact .inr ⟨hlt, hr.position_of_lt hlt⟩

theorem Rewriting.K_lt (h : Rewriting isVoid body newBody s t m begin K M es) :
    0 < begin.length ∧ K < t.instrs.length := by
  obtain ⟨c, d, hc, hd, -⟩ := h.new.clauses
  have := hc.lt
  have := hd.lt
  have := h.length
  omega

theorem Rewriting.place_le (h : Rewriting isVoid body newBody s t m begin K M es) {k : ℕ}
    (hk : k ≤ s.instrs.length) :
    place isVoid m.methodReturnInstr begin.length s.instrs k ≤ K := by
  rw [← h.place_length]
  rcases Nat.lt_or_eq_of_le hk with hlt | rfl
  · exact Nat.le_of_lt (place_lt hlt)
  · exact Nat.le_refl _

theorem Rewriting.le_K (h : Rewriting isVoid body newBody s t m begin K M es) :
    begin.length ≤ K := by
  obtain ⟨middle, -, -, hK, -⟩ := h.rewritten
  rw [hK]
  exact Nat.le_add_right _ _

/-- No interval of an imported clause is empty in the new list. -/
theorem Rewriting.nonempty_moved (h : Rewriting isVoid body newBody s t m begin K M es)
    (hvalid : body.RegionsInCode) {e : EHClause} (he : e ∈ s.eh) :
    ∀ r ∈ (e.positions t.instrs).ranges, r.Nonempty := by
  obtain ⟨-, hpositions⟩ := h.clause hvalid he
  have hnonempty := h.nonempty hvalid e he
  have hends := endsIn_positions s.instrs s.eh _ (List.mem_map_of_mem he)
  have htry : position s.instrs e.tryBegin < position s.instrs e.tryEnd :=
    hnonempty _ (Clause.guards_subset _ (Clause.tryRange_mem _))
  rw [hpositions, Clause.ranges, Clause.guards, List.forall_mem_cons, List.forall_mem_cons]
  refine ⟨?_, ?_, fun r hr => ?_⟩
  · exact shortens_placeEnd.lt _ (hends _ (Clause.handler_mem _)).1
      _ (hends _ (Clause.handler_mem _)).2 (hnonempty _ (Clause.handler_mem _))
  · show place _ _ _ _ _ < position t.instrs e.tryEnd
    rcases h.tryEnd he with ⟨-, hend⟩ | ⟨-, hend⟩
    · have hle := h.place_le (position_le s.instrs e.tryBegin)
      have hlt := h.K_lt.2
      omega
    · rw [hend]
      exact place_lt htry
  · obtain ⟨r, hfilter, rfl⟩ := Option.map_eq_some_iff.mp (Option.mem_toList.mp hr)
    refine place_lt (hnonempty r (Clause.guards_subset _ (List.mem_cons_of_mem _ ?_)))
    exact Option.mem_toList.mpr hfilter

/-- **The exported table**, by the positions in the new list. -/
theorem Rewriting.new_regions (h : Rewriting isVoid body newBody s t m begin K M es)
    (hvalid : body.RegionsInCode) :
    newBody.eh.map (·.regions) = (s.eh.map (EHClause.positions t.instrs)
        ++ es.map (EHClause.positions t.instrs)).map
      (Clause.map (offsetAt (settle t.instrs)) (offsetAt (settle t.instrs))) := by
  rw [← List.map_append, ← h.clauses]
  have hnonempty : ∀ e ∈ t.eh, ∀ r ∈ (e.positions t.instrs).ranges, r.Nonempty := by
    rw [h.clauses, List.forall_mem_append]
    exact ⟨fun e he => h.nonempty_moved hvalid he,
      fun e he => (h.new.wellFormed h.le_K).nonempty _ (List.mem_map_of_mem he)⟩
  have hin : ∀ e ∈ t.eh, e.In t.instrs := by
    rw [h.clauses, List.forall_mem_append]
    exact ⟨fun e he => (h.clause hvalid he).1, h.newIn⟩
  exact h.exported.regions h.closed hin fun e he =>
    ⟨Nat.le_of_lt (hnonempty e he _ (Clause.guards_subset _ (Clause.tryRange_mem _))),
      Nat.le_of_lt (hnonempty e he _ (Clause.handler_mem _))⟩

/-- What holds of the intervals of a method body, by the positions of its instructions. -/
theorem Rewriting.forall_regions (h : Rewriting isVoid body newBody s t m begin K M es)
    {P : Clause ℕ → Prop} :
    (∀ c ∈ body.eh, P c.regions) ↔ ∀ e ∈ s.eh,
      P ((e.positions s.instrs).map (offsetAt s.instrs) (offsetAt s.instrs)) := by
  have hmap := List.forall_mem_map (f := EHClauseFat.regions) (l := body.eh) (P := P)
  rw [h.old_regions, List.forall_mem_map, List.forall_mem_map] at hmap
  exact hmap.symm

theorem Rewriting.offsetAt_eq_length (h : Rewriting isVoid body newBody s t m begin K M es) {k : ℕ}
    (hk : k ≤ s.instrs.length) :
    offsetAt s.instrs k = body.code.length ↔ k = s.instrs.length := by
  have hlength : offsetAt s.instrs s.instrs.length = body.code.length := by
    rw [offsetAt, List.take_length, h.imported.codeSize]
  rw [← hlength]
  exact h.oldMono.eq_iff_eq hk (Nat.le_refl _)

/-- What is protected ends before the end of the code. -/
theorem Rewriting.tryEnd_ne_iff (h : Rewriting isVoid body newBody s t m begin K M es) :
    (∀ c ∈ body.eh, c.regions.tryRange.hi ≠ body.code.length)
      ↔ ∀ e ∈ s.eh, position s.instrs e.tryEnd ≠ s.instrs.length := by
  rw [h.forall_regions (P := fun c => c.tryRange.hi ≠ body.code.length)]
  exact forall₂_congr fun e _ => not_congr (h.offsetAt_eq_length (position_le _ _))

/-- The end of a handler moves with the instruction behind it, or before a stored return. -/
theorem Rewriting.placeEnd_eq_iff (h : Rewriting isVoid body newBody s t m begin K M es) {k : ℕ}
    (hpos : 0 < k) (hk : k ≤ s.instrs.length) :
    placeEnd isVoid m.methodReturnInstr begin.length s.instrs k
        = place isVoid m.methodReturnInstr begin.length s.instrs k
      ↔ isVoid = true ∨ ¬RetBefore s.instrs (offsetAt s.instrs k) := by
  obtain ⟨middle, ending, methodReturn, -, r, -, hr⟩ := h.rewritten
  obtain ⟨k, rfl⟩ := Nat.exists_eq_succ_of_ne_zero (Nat.ne_of_gt hpos)
  have hget := List.getElem?_eq_getElem (Nat.lt_of_succ_le hk)
  rw [CallTarget.placeEnd_eq_iff hget, hr.isReturn _ (List.getElem_mem _),
    retBefore_offsetAt h.imported.wellFormed.toClosed hk]
  refine or_congr_right (not_congr ⟨fun hret => ⟨k, _, rfl, hget, hret⟩, ?_⟩)
  rintro ⟨k', i, heq, hi, hret⟩
  cases heq
  cases hget.symm.trans hi
  exact hret

/-- The imported table by positions. -/
theorem Rewriting.wellFormed_positions (h : Rewriting isVoid body newBody s t m begin K M es)
    (hwf : body.WellFormedEH) : WellFormedTable (s.eh.map (EHClause.positions s.instrs)) := by
  have htable := hwf.table
  rw [h.old_regions] at htable
  exact (wellFormedTable_map h.oldMono (endsIn_positions _ _)).mp htable

/-- The handlers that end earlier spoil nothing just when no try block ends with them. -/
theorem Rewriting.wellFormed_moved_iff (h : Rewriting isVoid body newBody s t m begin K M es)
    (hwf : body.WellFormedEH) :
    WellFormedTable ((s.eh.map (EHClause.positions s.instrs)).map (Clause.map
        (place isVoid m.methodReturnInstr begin.length s.instrs)
        (placeEnd isVoid m.methodReturnInstr begin.length s.instrs)))
      ↔ isVoid = true ∨ ReturnsApart s.instrs (body.eh.map (·.regions)) := by
  have hends := endsIn_positions s.instrs s.eh
  have hpositions := h.wellFormed_positions hwf
  have handler {c : Clause ℕ} (hc : c ∈ s.eh.map (EHClause.positions s.instrs)) :=
    hends c hc _ c.handler_mem
  have guard {d : Clause ℕ} (hd : d ∈ s.eh.map (EHClause.positions s.instrs))
      {r : Region ℕ} (hr : r ∈ d.guards) := hends d hd r (d.guards_subset hr)
  have hshort {c : Clause ℕ} (hc : c ∈ s.eh.map (EHClause.positions s.instrs)) :=
    h.placeEnd_eq_iff (Nat.lt_of_le_of_lt (Nat.zero_le _)
      (hpositions.nonempty c hc _ c.handler_mem)) (handler hc).2
  -- the condition on the offsets, by positions
  have hapart : ReturnsApart s.instrs (body.eh.map (·.regions))
      ↔ ∀ c ∈ s.eh.map (EHClause.positions s.instrs),
        RetBefore s.instrs (offsetAt s.instrs c.handler.hi) →
          ∀ d ∈ s.eh.map (EHClause.positions s.instrs), ∀ r ∈ d.guards,
            r.hi = c.handler.hi → r.lo ≤ c.handler.lo := by
    rw [h.old_regions, ReturnsApart, List.forall_mem_map]
    refine forall₂_congr fun c hc => imp_congr_right fun _ => ?_
    rw [List.forall_mem_map]
    refine forall₂_congr fun d hd => ?_
    rw [Clause.guards_map, List.forall_mem_map]
    refine forall₂_congr fun r hr => ?_
    exact imp_congr (h.oldMono.eq_iff_eq (guard hd hr).2 (handler hc).2)
      (h.oldMono.le_iff_le (guard hd hr).1 (handler hc).1)
  rw [wellFormedTable_map_iff shortens_placeEnd hends hpositions, hapart]
  constructor
  · intro hclash
    cases hvoid : isVoid with
    | true => exact .inl rfl
    | false =>
        refine .inr fun c hc hret d hd r hr heq => ?_
        by_contra hgt
        rcases (hshort hc).mp (hclash c hc d hd r hr heq (Nat.lt_of_not_le hgt)) with htrue | hno
        · rw [hvoid] at htrue
          cases htrue
        · exact hno hret
  · intro hcond c hc d hd r hr heq hlt
    rcases hcond with htrue | hcond
    · exact (hshort hc).mpr (.inl htrue)
    · exact (hshort hc).mpr (.inr fun hret =>
        absurd (hcond c hc hret d hd r hr heq) (Nat.not_le_of_lt hlt))

/-- Where no try block ends with the code, the whole clauses move. -/
theorem Rewriting.clauses_moved (h : Rewriting isVoid body newBody s t m begin K M es)
    (hvalid : body.RegionsInCode)
    (hend : ∀ e ∈ s.eh, position s.instrs e.tryEnd ≠ s.instrs.length) :
    s.eh.map (EHClause.positions t.instrs) = (s.eh.map (EHClause.positions s.instrs)).map
      (Clause.map (place isVoid m.methodReturnInstr begin.length s.instrs)
        (placeEnd isVoid m.methodReturnInstr begin.length s.instrs)) := by
  rw [List.map_map]
  refine List.map_congr_left fun e he => ?_
  obtain ⟨-, hclause⟩ := h.clause hvalid he
  rw [hclause]
  rcases h.tryEnd he with ⟨heq, -⟩ | ⟨-, htry⟩
  · exact absurd heq (hend e he)
  · rw [htry]
    rfl

/-- The moved clauses stand between the code that is added. -/
theorem Rewriting.moved_within (h : Rewriting isVoid body newBody s t m begin K M es)
    {c : Clause ℕ} (hc : c ∈ (s.eh.map (EHClause.positions s.instrs)).map
      (Clause.map (place isVoid m.methodReturnInstr begin.length s.instrs)
        (placeEnd isVoid m.methodReturnInstr begin.length s.instrs))) :
    ∀ r ∈ c.ranges, begin.length ≤ r.lo ∧ r.hi ≤ K := by
  obtain ⟨old, hold, rfl⟩ := List.mem_map.mp hc
  have hends := endsIn_positions s.instrs s.eh old hold
  have hle (k : ℕ) : begin.length ≤ place isVoid m.methodReturnInstr begin.length s.instrs k := by
    rw [place]
    omega
  refine Clause.forall_ranges_map.mpr ⟨⟨hle _, ?_⟩, fun r hr => ⟨hle _, ?_⟩⟩
  · obtain ⟨-, hhi⟩ := hends _ old.handler_mem
    exact Nat.le_trans (shortens_placeEnd.le _ hhi) (h.place_le hhi)
  · exact h.place_le (hends r (old.guards_subset hr)).2

/-- A try block that ends with the new code overlaps what the method's exceptions are caught
for. -/
theorem Rewriting.not_wellFormed_of_tryEnd
    (h : Rewriting isVoid body newBody s t m begin K M es) (hvalid : body.RegionsInCode)
    {e : EHClause} (he : e ∈ s.eh) (hend : position s.instrs e.tryEnd = s.instrs.length) :
    ¬WellFormedTable (s.eh.map (EHClause.positions t.instrs)
      ++ es.map (EHClause.positions t.instrs)) := by
  intro hwf
  obtain ⟨-, -, hfollows⟩ := wellFormedTable_append.mp hwf
  obtain ⟨c, d, -, -, hnew⟩ := h.new.clauses
  have hcaught : (⟨⟨0, K⟩, none, ⟨K, K + 2⟩⟩ : Clause ℕ) ∈ es.map (EHClause.positions t.instrs) := by
    rw [hnew]
    simp
  have hlaminar := (hfollows _ (List.mem_map_of_mem he) _ hcaught).laminar
    _ (Clause.guards_subset _ (Clause.tryRange_mem _))
    _ (Clause.guards_subset _ (Clause.tryRange_mem _))
  obtain ⟨-, hclause⟩ := h.clause hvalid he
  have htry : position s.instrs e.tryBegin < position s.instrs e.tryEnd :=
    h.nonempty hvalid e he _ (Clause.guards_subset _ (Clause.tryRange_mem _))
  have hlt : place isVoid m.methodReturnInstr begin.length s.instrs
      (position s.instrs e.tryBegin) < K := by
    rw [← h.place_length, ← hend]
    exact place_lt htry
  have hle : begin.length ≤ place isVoid m.methodReturnInstr begin.length s.instrs
      (position s.instrs e.tryBegin) := by
    rw [place]
    omega
  have hnewEnd : position t.instrs e.tryEnd = t.instrs.length := by
    rcases h.tryEnd he with ⟨-, heq⟩ | ⟨hne, -⟩
    · exact heq
    · exact absurd hend (Nat.ne_of_lt hne)
  rw [hclause, hnewEnd] at hlaminar
  obtain ⟨hbegin, hK⟩ := h.K_lt
  simp only [Region.Laminar, Region.Inside, Region.Disjoint] at hlaminar
  omega

/-- The exported table is well formed just when the moved one is. -/
theorem Rewriting.wellFormedEH_iff (h : Rewriting isVoid body newBody s t m begin K M es)
    (hwf : body.WellFormedEH) :
    newBody.WellFormedEH ↔
      (∀ c ∈ body.eh, c.regions.tryRange.hi ≠ body.code.length)
        ∧ (isVoid = true ∨ ReturnsApart s.instrs (body.eh.map (·.regions))) := by
  have hvalid := hwf.regionsInCode
  have hregions := h.new_regions hvalid
  have hends := endsIn_positions t.instrs (s.eh ++ es)
  rw [List.map_append] at hends
  have htable : WellFormedTable (newBody.eh.map (·.regions))
      ↔ WellFormedTable (s.eh.map (EHClause.positions t.instrs)
        ++ es.map (EHClause.positions t.instrs)) := by
    rw [hregions]
    exact wellFormedTable_map h.newMono hends
  rw [h.tryEnd_ne_iff, ← h.wellFormed_moved_iff hwf]
  constructor
  · intro hnew
    have hpositions := htable.mp hnew.table
    have hend : ∀ e ∈ s.eh, position s.instrs e.tryEnd ≠ s.instrs.length :=
      fun e he heq => h.not_wellFormed_of_tryEnd hvalid he heq hpositions
    refine ⟨hend, ?_⟩
    rw [← h.clauses_moved hvalid hend]
    exact (wellFormedTable_append.mp hpositions).1
  · intro ⟨hend, hmoved⟩
    refine ⟨htable.mpr ?_, ?_, ?_⟩
    · rw [h.clauses_moved hvalid hend]
      exact wellFormedTable_append.mpr ⟨hmoved, h.new.wellFormed h.le_K,
        fun c hc => h.new.follows (h.moved_within hc)⟩
    · intro c hc
      have hmem : c.regions ∈ newBody.eh.map (·.regions) := List.mem_map_of_mem hc
      rw [hregions] at hmem
      obtain ⟨d, -, hd⟩ := List.mem_map.mp hmem
      rw [← hd, h.exported.length]
      exact Clause.forall_ranges_map.mpr ⟨offsetAt_le _ _, fun r _ => offsetAt_le _ _⟩
    · rw [h.exported.length]
      exact h.exported.size

end rewriting

/-! ### A method whose last instructions are protected -/

def plainProfiler : CorProfiler where
  enableByRefInstrumentation := true
  enableCallTargetStateByRef := true
  callTargetBubbleUpExceptionAvailable := false
  callTargetBubbleUpExceptionFunctionAvailable := false
  callTargetRuntimeAsyncMethodsAvailable := false
  isIntegrationMethod := true
  hasIntegrationTypeRef := true
  profilerAssemblyIsLoaded := true

def plainTokens : TracerTokens where
  modifyLocalSig := some (0x11000001, 0)
  callTargetDefaultValueMethodSpec := 0x2B000001
  callTargetReturnValueDefaultMemberRef := 0x0A000001
  callTargetReturnVoidDefaultMemberRef := 0x0A000002
  ensureRuntimeAsyncCallbacksSupported := none
  currentTypeRef := 0x02000002
  objectTypeRef := 0x01000001
  exTypeRef := 0x01000002
  beginMethod := some 0x2B000002
  endMethod := some 0x2B000003
  callTargetReturnGetReturnValue := none
  beginLogException := some 0x2B000004
  endLogException := some 0x2B000005
  createRefStructMemberRef := none
  bubbleUpExceptionTypeRef := mdTypeRefNil
  bubbleUpExceptionFunctionRef := mdMemberRefNil

/-- A static method without parameters and without a result. -/
def plainCaller : FunctionInfo where
  id := 0x06000001
  type := { id := 0x02000002, typeSpec := mdTypeSpecNil, valueType := false, isGeneric := false }
  isStatic := true
  arguments := []
  isRuntimeAsync := false
  retTypeFlags := some .onlyVoid

/-- `br.s` to the try block, the handler `pop`, `leave.s`, then `ret`, and the try block
`ldnull`, `throw`. -/
def throwsLast : MethodBody where
  flags := 0
  maxStack := 8
  localVarSigTok := 0
  code := [0x2B, 4, 0x26, 0xDE, 0, 0x2A, 0x14, 0x7A]
  eh := [{ flags := 0, tryOffset := 6, tryLength := 2, handlerOffset := 2, handlerLength := 3
           classTokenOrFilterOffset := 0x01000003 }]

/-- The try block `nop`, `leave.s`, the handler `pop`, `leave.s`, and `ret`. -/
def returnsLast : MethodBody where
  flags := 0
  maxStack := 8
  localVarSigTok := 0
  code := [0, 0xDE, 3, 0x26, 0xDE, 0, 0x2A]
  eh := [{ flags := 0, tryOffset := 0, tryLength := 3, handlerOffset := 3, handlerLength := 3
           classTokenOrFilterOffset := 0x01000003 }]

/-- Both are rewritten. -/
theorem rewrite_plain {body : MethodBody} (hbody : body = throwsLast ∨ body = returnsLast)
    (fill : ℕ → Byte) :
    ∃ s newBody t, ILRewriter.init.importBody body = .ok s
      ∧ rewrite plainProfiler plainTokens plainCaller fill body = .ok (newBody, t) := by
  refine rewrite_progress fill ?_
  rcases hbody with rfl | rfl
  · decide +kernel
  · decide +kernel

/-- **The exported exception table** is well formed, for a well-formed table, just when no
try block ends with the code, and when no try block or filter ends with a handler that it
starts in and that ends with a value being returned. -/
theorem rewrite_wellFormedEH_iff {profiler : CorProfiler} {tokens : TracerTokens}
    {caller : FunctionInfo} {fill : ℕ → Byte} {body newBody : MethodBody} {s t : ILRewriter}
    (himport : ILRewriter.init.importBody body = .ok s)
    (h : rewrite profiler tokens caller fill body = .ok (newBody, t))
    (hwf : body.WellFormedEH) :
    newBody.WellFormedEH ↔
      (∀ c ∈ body.eh, c.regions.tryRange.hi ≠ body.code.length)
        ∧ (caller.isVoid = true ∨ ReturnsApart s.instrs (body.eh.map (·.regions))) := by
  obtain ⟨m, begin, K, M, es, hr⟩ := rewriting_of_rewrite himport h hwf.regionsInCode
  exact hr.wellFormedEH_iff hwf

/-- The table of one clause. -/
theorem wellFormedEH_singleton {body : MethodBody} {c : EHClauseFat} (heh : body.eh = [c])
    (hnonempty : ∀ r ∈ c.regions.ranges, r.Nonempty)
    (hapart : c.regions.tryRange.Disjoint c.regions.handler)
    (hlaminar : ∀ r ∈ c.regions.ranges, ∀ s ∈ c.regions.ranges, r.Laminar s)
    (hwithin : ∀ r ∈ c.regions.ranges, r.hi ≤ body.code.length)
    (hsize : body.code.length < 2 ^ 32) : body.WellFormedEH := by
  refine ⟨?_, ?_, hsize⟩
  · rw [heh]
    exact wellFormedTable_singleton hnonempty hapart hlaminar
  · rw [heh]
    exact List.forall_mem_singleton.mpr hwithin

/-- The handler ends before the return. -/
theorem rewrite_wellFormedEH_iff_returnsLast :
    ∃ newBody t, rewrite plainProfiler plainTokens plainCaller (fun _ => 0) returnsLast
      = .ok (newBody, t) ∧ newBody.WellFormedEH := by
  obtain ⟨s, newBody, t, himport, h⟩ := rewrite_plain (.inr rfl) fun _ => 0
  refine ⟨newBody, t, h, (rewrite_wellFormedEH_iff himport h ?_).mpr ⟨by decide, .inl rfl⟩⟩
  exact wellFormedEH_singleton rfl (by decide) (by decide) (by decide) (by decide) (by decide)

/-- What is protected up to the end of the code is protected up to the end of the new code,
and so half of the code behind the method is. -/
theorem not_wellFormedEH_throwsLast :
    throwsLast.WellFormedEH
      ∧ ∃ newBody t, rewrite plainProfiler plainTokens plainCaller (fun _ => 0) throwsLast
        = .ok (newBody, t) ∧ ¬newBody.WellFormedEH := by
  have hwf : throwsLast.WellFormedEH :=
    wellFormedEH_singleton rfl (by decide) (by decide) (by decide) (by decide) (by decide)
  obtain ⟨s, newBody, t, himport, h⟩ := rewrite_plain (.inl rfl) fun _ => 0
  obtain ⟨m, begin, K, M, es, hr⟩ := rewriting_of_rewrite himport h hwf.regionsInCode
  refine ⟨hwf, newBody, t, h, fun hnew => ?_⟩
  exact absurd ((hr.wellFormedEH_iff hwf).mp hnew).1 (by decide)

end AutoInstrumentation.CallTarget
