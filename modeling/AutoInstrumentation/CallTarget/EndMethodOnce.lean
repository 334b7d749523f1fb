import AutoInstrumentation.CallTarget.Blocks
import AutoInstrumentation.CallTarget.ClausesSound

/-!
# AutoInstrumentation.CallTarget.EndMethodOnce

The end method of an integration is called on every way out of a rewritten method, and once.

The handler that calls it is the one of a clause around all of the method and the code in
front of it. That its calls are as many as its runs is not about the code alone: the clauses
of the method have to end before the code does, and the method must not leave its frame by
`jmp` or a tail call.
-/

namespace AutoInstrumentation.CallTarget

open AutoInstrumentation.IL AutoInstrumentation.Lib AutoInstrumentation.Lib.Unwinding

/-- An imported method that is only left by returns and exceptions: it neither jumps to
another method nor branches to the end of its code. -/
structure LeftByReturns (is : List ILInstr) : Prop where
  jmp : ∀ i ∈ is, i.opcode ≠ ceeJmp
  tailcall : ∀ i ∈ is, i.opcode ≠ ceeTailcall
  inside : ∀ i ∈ is, (opCodeFlags i.opcode).branchTarget = true → i.target ≠ .il

/-! ### Opcodes -/

theorem emittedOpcodes_leftByReturns : ∀ opcode ∈ emittedOpcodes,
    opcode ≠ ceeRet ∧ opcode ≠ ceeJmp ∧ opcode ≠ ceeTailcall := by decide

/-- No return is left. -/
theorem not_isReturn_replaceReturns {isVoid : Bool} {returnValueIndex : ℕ}
    {methodReturnInstr target : InstrPtr} {n : ℕ} {is : List ILInstr} {j : ILInstr}
    (h : j ∈ replaceReturns isVoid returnValueIndex methodReturnInstr target n is) :
    ¬IsReturn methodReturnInstr j := by
  induction is generalizing n with
  | nil => cases h
  | cons i is ih =>
      have hleave (k : ILInstr) (hk : k.opcode = ceeLeaveS) : ¬IsReturn methodReturnInstr k := by
        intro hr
        rw [hr.1] at hk
        cases hk
      rw [replaceReturns] at h
      split at h
      · split at h
        · rcases List.mem_cons.mp h with rfl | h
          · exact hleave _ rfl
          · exact ih h
        · rcases List.mem_cons.mp h with rfl | h
          · exact fun hr => by cases hr.1
          · rcases List.mem_cons.mp h with rfl | h
            · exact hleave _ rfl
            · exact ih h
      · next hreturn =>
          rcases List.mem_cons.mp h with rfl | h
          · exact hreturn
          · exact ih h

/-! ### The blocks as zones -/

section blocks

variable {tokens : TracerTokens} {is : List ILInstr} {isVoid : Bool} {m : Emitted}
  {begin body callback rest : List ILInstr}
  {catchInstr rethrowInstr finallyInstr methodReturn : ILInstr} {t : ILRewriter}

/-- The position of an instruction in the part that it is in. -/
theorem position_part {front part rest : List ILInstr} {i : ILInstr}
    (hnodup : ((front ++ part ++ rest).map (·.ptr)).Nodup) (hi : i ∈ part) :
    position (front ++ part ++ rest) (.instr i.ptr)
      ∈ Set.Ico front.length (front.length + part.length) := by
  obtain ⟨k, hk⟩ := List.mem_iff_getElem?.mp hi
  have hlt : k < part.length := (List.getElem?_eq_some_iff.mp hk).1
  have hget : (front ++ part ++ rest)[front.length + k]? = some i := by
    rw [List.append_assoc, List.getElem?_append_right (Nat.le_add_right _ _),
      Nat.add_sub_cancel_left, List.getElem?_append_left hlt]
    exact hk
  rw [position_ptr hnodup hget]
  exact ⟨Nat.le_add_right _ _, Nat.add_lt_add_left hlt _⟩

/-- The instruction at a position of a part. -/
theorem getElem?_part {front part rest : List ILInstr} {p : ℕ} {i : ILInstr}
    (hp : p ∈ Set.Ico front.length (front.length + part.length))
    (h : (front ++ part ++ rest)[p]? = some i) : part[p - front.length]? = some i := by
  obtain ⟨hlo, hhi⟩ := hp
  rwa [List.append_assoc, List.getElem?_append_right hlo,
    List.getElem?_append_left (by omega)] at h

variable (h : Blocks tokens is isVoid m begin body catchInstr rethrowInstr callback finallyInstr
  rest methodReturn t)

include h

/-- The places of an imported instruction are among those of the body. -/
theorem Blocks.position_old {j : ILInstr} (hj : j ∈ is) :
    position t.instrs (.instr j.ptr) < begin.length + body.length := by
  obtain ⟨n, hbody⟩ := h.body
  have hlinked : Linked body (.instr j.ptr) := by
    rw [hbody]
    exact linked_replaceReturns n (.inr ⟨j, hj, rfl⟩)
  rcases hlinked with hil | ⟨k, hk, hptr⟩
  · cases hil
  · have hnodup := h.nodup
    rw [h.instrs, List.append_assoc _ _ [methodReturn]] at hnodup ⊢
    rw [hptr]
    exact (position_part hnodup hk).2

theorem Blocks.position_begin {j : ILInstr} (hj : j ∈ begin) :
    position t.instrs (.instr j.ptr) < begin.length + body.length := by
  have hnodup := h.nodup
  have hlist : t.instrs = [] ++ begin ++ (body ++ (catchInstr :: rethrowInstr
      :: (callback ++ finallyInstr :: rest)) ++ [methodReturn]) := by
    rw [h.instrs]
    simp only [List.append_assoc, List.nil_append]
  rw [hlist] at hnodup ⊢
  have hlt := (position_part hnodup hj).2
  rw [List.length_nil, Nat.zero_add] at hlt
  exact Nat.lt_of_lt_of_le hlt (Nat.le_add_right _ _)

/-- The last handler and what is behind it, as parts of the list. -/
theorem Blocks.parts : t.instrs = (begin ++ body ++ [catchInstr, rethrowInstr])
      ++ (callback ++ [finallyInstr]) ++ (rest ++ [methodReturn])
    ∧ (begin ++ body ++ [catchInstr, rethrowInstr]).length = begin.length + body.length + 2 := by
  refine ⟨?_, by simp [Nat.add_assoc]⟩
  rw [h.instrs]
  simp only [List.append_assoc, List.cons_append, List.nil_append]

theorem Blocks.position_handler {j : ILInstr} (hj : j ∈ callback ++ [finallyInstr]) :
    position t.instrs (.instr j.ptr) ∈ Set.Ico (begin.length + body.length + 2)
      (begin.length + body.length + 2 + callback.length + 1) := by
  obtain ⟨hparts, hlength⟩ := h.parts
  have hnodup := h.nodup
  rw [hparts] at hnodup ⊢
  have hposition := position_part hnodup hj
  rw [hlength, List.length_append, List.length_singleton, ← Nat.add_assoc] at hposition
  exact hposition

/-- What is behind the last handler starts there. -/
theorem Blocks.position_behind :
    position t.instrs (headPtr (rest ++ [methodReturn]))
      = begin.length + body.length + 2 + callback.length + 1 := by
  obtain ⟨hparts, hlength⟩ := h.parts
  have hdrop : t.instrs.drop (begin.length + body.length + 2 + callback.length + 1)
      = rest ++ [methodReturn] := by
    rw [hparts]
    refine List.drop_left' ?_
    rw [List.length_append, hlength, List.length_append, List.length_singleton]
    omega
  rw [← hdrop]
  refine position_headPtr_drop h.nodup ?_
  rw [hparts, List.length_append, List.length_append, hlength, List.length_append,
    List.length_singleton]
  omega

/-- The instructions in front of the method stay there and in the method. -/
theorem Blocks.flow_begin (hcode : is ≠ []) {i : ILInstr} (hi : i ∈ begin) {R : Set ℕ} {p : ℕ}
    (hR : Set.Iio (begin.length + body.length) ⊆ R) (hp : p + 1 ∈ R) :
    (flowOf t.instrs i).Within R p := by
  obtain ⟨hret, hjmp, htail⟩ := emittedOpcodes_leftByReturns _ (h.beginning.opcodes i hi)
  refine flowOf_within hret hjmp htail (fun hbranch => hR ?_) fun _ => hp
  rcases h.beginning.branches i hi hbranch with ⟨j, hj, htarget⟩ | ⟨-, htarget⟩
  · rw [htarget]
    exact h.position_begin hj
  · obtain ⟨j, is', rfl⟩ := List.exists_cons_of_ne_nil hcode
    rw [htarget]
    exact h.position_old List.mem_cons_self

/-- The instructions of the method stay there, or leave for behind the last handler. -/
theorem Blocks.flow_body (hclosed : Closed is) (hleft : LeftByReturns is) {i : ILInstr}
    (hi : i ∈ body) {R : Set ℕ} {p : ℕ} (hR : Set.Iio (begin.length + body.length) ⊆ R)
    (hp : p + 1 ∈ R) :
    (flowOf t.instrs i).Within R p
      ∨ flowOf t.instrs i = .leave (begin.length + body.length + 2 + callback.length + 1) := by
  obtain ⟨n, hbody⟩ := h.body
  rw [hbody] at hi
  rcases mem_replaceReturns hi with hold | hstloc | ⟨hleave, htarget⟩
  · refine .inl (flowOf_within ?_ (hleft.jmp i hold) (hleft.tailcall i hold) ?_ fun _ => hp)
    · exact fun heq => not_isReturn_replaceReturns hi ((h.isReturn i hold).mpr heq)
    · intro hbranch
      rcases hclosed.targets i hold hbranch with hil | ⟨j, hj, htarget⟩
      · exact absurd hil (hleft.inside i hold hbranch)
      · rw [htarget]
        exact hR (h.position_old hj)
  · refine .inl (flowOf_within ?_ ?_ ?_ ?_ fun _ => hp)
    · rw [hstloc]
      decide
    · rw [hstloc]
      decide
    · rw [hstloc]
      decide
    · rw [hstloc]
      exact fun hbranch => by cases hbranch
  · have hflow : flowOf t.instrs i = .leave (position t.instrs i.target) := by
      rw [flowOf, hleave]
      rfl
    rw [hflow, htarget, h.position_behind]
    exact .inr rfl

/-- **The blocks of a rewritten method are zones.** -/
theorem Blocks.encloses (hcode : is ≠ []) (hclosed : Closed is) (hleft : LeftByReturns is)
    (hguards : ∃ gs, (programOf t).guards = gs ++ [outermost (begin.length + body.length + 2)
        (begin.length + body.length + 2 + callback.length + 1)]
      ∧ ∀ g ∈ gs, g.Between 0 (begin.length + body.length + 2)
        ∨ g.Between (begin.length + body.length + 2)
          (begin.length + body.length + 2 + callback.length)) :
    Encloses (programOf t) (begin.length + body.length + 2)
      (begin.length + body.length + 2 + callback.length + 1) := by
  obtain ⟨hparts, hlength⟩ := h.parts
  have hflow {p : ℕ} {f : Flow} (hf : (programOf t).flow p = some f) :
      ∃ i, t.instrs[p]? = some i ∧ flowOf t.instrs i = f := programOf_flow_eq_some.mp hf
  refine ⟨Nat.succ_pos _, by omega, hguards, ?_, ?_, ?_⟩
  · -- the code in front, the method, and what catches its exceptions
    intro p hp f hf
    obtain ⟨i, hi, rfl⟩ := hflow hf
    rw [h.instrs] at hi
    rcases Nat.lt_or_ge p (begin.length + body.length) with hlt | hge
    · rw [List.append_assoc _ _ [methodReturn],
        List.getElem?_append_left (by simpa using hlt)] at hi
      have hsub : Set.Iio (begin.length + body.length)
          ⊆ Set.Iio (begin.length + body.length + 2) :=
        fun q hq => Nat.lt_of_lt_of_le hq (Nat.le_add_right _ _)
      have hnext : p + 1 ∈ Set.Iio (begin.length + body.length + 2) := by
        show p + 1 < begin.length + body.length + 2
        omega
      rcases List.mem_append.mp (List.mem_of_getElem? hi) with hi | hi
      · exact .inl (h.flow_begin hcode hi hsub hnext)
      · exact (h.flow_body hclosed hleft hi hsub hnext).imp_right
          fun heq => ⟨_, Nat.le_refl _, heq⟩
    · refine .inl ?_
      rw [List.append_assoc _ _ [methodReturn],
        List.getElem?_append_right (by simpa using hge)] at hi
      rcases Nat.lt_or_eq_of_le hge with hlt | rfl
      · have hindex : p - (begin ++ body).length = 1 := by
          rw [List.length_append]
          omega
        rw [hindex] at hi
        cases hi
        have hthrow : flowOf t.instrs rethrowInstr = .throw := by
          rw [flowOf, h.ending.rethrow]
          rfl
        rw [hthrow]
        trivial
      · rw [List.length_append, Nat.sub_self] at hi
        cases hi
        rw [h.ending.catchInstr]
        show begin.length + body.length + 1 < begin.length + body.length + 2
        omega
  · -- the last handler
    intro p hp f hf
    obtain ⟨i, hi, rfl⟩ := hflow hf
    rw [hparts] at hi
    have hp' := hp
    rw [← hlength, Nat.add_assoc, ← List.length_singleton (a := finallyInstr),
      ← List.length_append] at hp'
    have hpart := getElem?_part hp' hi
    rw [hlength] at hpart
    rcases Nat.lt_or_ge (p - (begin.length + body.length + 2)) callback.length with hlt | hge
    · rw [List.getElem?_append_left hlt] at hpart
      have hmem := List.mem_of_getElem? hpart
      obtain ⟨hret, hjmp, htail⟩ := emittedOpcodes_leftByReturns _ (h.ending.opcodes i hmem)
      refine flowOf_within hret hjmp htail (fun hbranch => ?_) fun _ => ?_
      · obtain ⟨j, hj, htarget⟩ := h.ending.branches i hmem hbranch
        rw [htarget]
        exact h.position_handler hj
      · obtain ⟨hlo, hhi⟩ := hp
        exact ⟨by omega, by omega⟩
    · have hlast : p - (begin.length + body.length + 2) = callback.length := by
        obtain ⟨hlo, hhi⟩ := hp
        omega
      rw [hlast, List.getElem?_concat_length] at hpart
      cases hpart
      have hend : flowOf t.instrs finallyInstr = .endfinally := by
        rw [flowOf, h.ending.endFinally]
        rfl
      rw [hend]
      trivial
  · -- what is behind it
    intro p hp f hf
    obtain ⟨i, hi, rfl⟩ := hflow hf
    have hp : begin.length + body.length + 2 + callback.length + 1 ≤ p := hp
    rw [hparts, List.getElem?_append_right (by
      rw [List.length_append, hlength, List.length_append, List.length_singleton]
      omega)] at hi
    rcases List.mem_append.mp (List.mem_of_getElem? hi) with hi | hi
    · rw [h.ending.rest i hi]
      exact .inl (Nat.le_succ_of_le hp)
    · rw [List.mem_singleton.mp hi, flowOf, if_pos h.methodReturn]
      exact .inr (.inl rfl)

end blocks

/-! ### The clauses as guards -/

/-- The filter of a clause ends where its handler starts. -/
theorem filter_positions {is : List ILInstr} {e : EHClause} {r : Region ℕ}
    (hr : (e.positions is).filter = some r) : r.hi ≤ (e.positions is).handler.lo := by
  rw [EHClause.positions] at hr
  dsimp only at hr
  split at hr
  · cases hr
  · cases hr
    exact Nat.le_refl _

theorem between_guardOf {is : List ILInstr} {e : EHClause} {lo hi : ℕ}
    (h : ∀ r ∈ (e.positions is).ranges, r.Nonempty ∧ lo ≤ r.lo ∧ r.hi ≤ hi) :
    (guardOf is e).Between lo hi where
  nonempty := fun r hr => (h r hr).1
  within := fun r hr => (h r hr).2
  filter := fun _ hr => filter_positions hr

/-- The clauses of the method. -/
theorem Rewriting.between_old {isVoid : Bool} {body newBody : MethodBody} {s t : ILRewriter}
    {m : Emitted} {begin : List ILInstr} {K M : ℕ} {es : List EHClause}
    (h : Rewriting isVoid body newBody s t m begin K M es) (hvalid : body.RegionsInCode)
    (hend : ∀ c ∈ body.eh, c.regions.tryRange.hi ≠ body.code.length) {e : EHClause}
    (he : e ∈ s.eh) : (guardOf t.instrs e).Between 0 (K + 2) := by
  have hends : ∀ e ∈ s.eh, position s.instrs e.tryEnd ≠ s.instrs.length :=
    (h.tryEnd_ne_iff).mp hend
  have hmem : e.positions t.instrs ∈ s.eh.map (EHClause.positions t.instrs) :=
    List.mem_map_of_mem he
  rw [h.clauses_moved hvalid hends] at hmem
  refine between_guardOf fun r hr => ⟨h.nonempty_moved hvalid he r hr, Nat.zero_le _, ?_⟩
  exact Nat.le_trans (h.moved_within hmem r hr).2 (Nat.le_add_right _ _)

/-- The clauses of the callbacks and of the method's exceptions, and the last one. -/
theorem AreNewClauses.between {is : List ILInstr} {b K M : ℕ} {es : List EHClause}
    (h : AreNewClauses b K M (es.map (EHClause.positions is))) (hb : b ≤ K) (hK : 0 < K) :
    ∃ es' e, es = es' ++ [e] ∧ (e.positions is) = ⟨⟨0, K + 2⟩, none, ⟨K + 2, M + 1⟩⟩
      ∧ ∀ e ∈ es', (guardOf is e).Between 0 (K + 2) ∨ (guardOf is e).Between (K + 2) M := by
  obtain ⟨c, d, hc, hd, hes⟩ := h.clauses
  obtain ⟨e₁, es, rfl, he₁, hes⟩ := List.map_eq_cons_iff.mp hes
  obtain ⟨e₂, es, rfl, he₂, hes⟩ := List.map_eq_cons_iff.mp hes
  obtain ⟨e₃, es, rfl, he₃, hes⟩ := List.map_eq_cons_iff.mp hes
  obtain ⟨e₄, rfl, he₄⟩ := List.map_eq_singleton_iff.mp hes
  refine ⟨[e₁, e₂, e₃], e₄, rfl, he₄, ?_⟩
  simp only [List.forall_mem_cons]
  refine ⟨.inl (between_guardOf ?_), .inr (between_guardOf ?_), .inl (between_guardOf ?_), ?_⟩
  · rw [he₁]
    intro r hr
    have hwithin := hc.within r hr
    exact ⟨hwithin.1, hwithin.2.1, by omega⟩
  · rw [he₂]
    intro r hr
    have hwithin := hd.within r hr
    exact ⟨hwithin.1, hwithin.2.1, by omega⟩
  · rw [he₃]
    refine outerClause_ranges ⟨hK, Nat.le_refl _, ?_⟩ ⟨?_, Nat.zero_le _, Nat.le_refl _⟩
    · exact Nat.le_add_right _ _
    · exact Nat.lt_add_of_pos_right (Nat.succ_pos 1)
  · exact fun e he => by cases he

/-- The last clause that is added is called on every way out. -/
theorem kindOf_last {m : Emitted} {tokens : TracerTokens} {is : List ILInstr}
    {es' : List EHClause} {e : EHClause} (h : (m.clauses tokens is).allSome = some (es' ++ [e])) :
    kindOf e = .always ∧ e.tryEnd = nextPtr is m.rethrowInstr
      ∧ e.handlerEnd = m.endFinallyInstr := by
  obtain ⟨e₁, e₂, -, -, hes⟩ := allSome_four h
  have hlast := congrArg List.getLast? hes
  rw [List.getLast?_concat] at hlast
  obtain rfl := Option.some.inj hlast
  refine ⟨?_, rfl, rfl⟩
  show (if corILExceptionClauseFinally &&& corILExceptionClauseFilter ≠ 0 then Kind.filtered
    else if corILExceptionClauseFinally &&& corILExceptionClauseFinally ≠ 0 then .always
    else if corILExceptionClauseFinally &&& corILExceptionClauseFault ≠ 0 then .fault
    else .caught) = .always
  decide

/-! ### The rewritten method -/

/-- **The blocks and the clauses of a rewritten method.** -/
theorem blocks_of_rewrite {profiler : CorProfiler} {tokens : TracerTokens}
    {caller : FunctionInfo} {fill : ℕ → Byte} {body newBody : MethodBody} {s t : ILRewriter}
    (himport : ILRewriter.init.importBody body = .ok s)
    (h : rewrite profiler tokens caller fill body = .ok (newBody, t))
    (hvalid : body.RegionsInCode) :
    ∃ m begin middle catchInstr rethrowInstr callback finallyInstr rest methodReturn m₁ begin₁ es,
      Blocks tokens s.instrs caller.isVoid m begin middle catchInstr rethrowInstr callback
        finallyInstr rest methodReturn t
      ∧ Rewriting caller.isVoid body newBody s t m₁ begin₁ (begin.length + middle.length)
        (begin.length + middle.length + 2 + callback.length) es
      ∧ (m.clauses tokens t.instrs).allSome = some es := by
  obtain ⟨m₁, begin₁, K, M, es₁, hr⟩ := rewriting_of_rewrite himport h hvalid
  obtain ⟨retTypeFlags, s', clauses, r, es, exported, hret, himport', hemit, hes, rfl, -⟩ :=
    rewrite_eq_ok h
  rw [himport] at himport'
  cases himport'
  have hvoid : caller.isVoid = retTypeFlags.void := by rw [FunctionInfo.isVoid, hret]; rfl
  rw [hvoid] at hr ⊢
  have himported := importBody_spec himport
  have hallocated : ∀ i ∈ s.instrs, i.ptr ≤ s.nInstrs := by
    intro i hi
    obtain ⟨k, hk⟩ := List.mem_iff_getElem?.mp hi
    rw [himported.numbered k i hk, himported.nInstrs]
    exact (List.getElem?_eq_some_iff.mp hk).1
  obtain ⟨m, begin, middle, catchInstr, rethrowInstr, callback, finallyInstr, rest, methodReturn,
    rfl, hblocks⟩ := emitMethod_blocks himported.wellFormed.toClosed hallocated
      himported.fGenerateTinyHeader hemit
  obtain ⟨_, _, _, _, _, -, hrewritten⟩ := rewritten_of_import himported hemit
  have heq : es₁ = es := by
    have hclauses : r.eh ++ es = s.eh ++ es₁ := hr.clauses
    rw [hrewritten.eh] at hclauses
    exact (List.append_cancel_left hclauses).symm
  subst heq
  have hr' : Blocks tokens s.instrs retTypeFlags.void m begin middle catchInstr rethrowInstr
      callback finallyInstr rest methodReturn (r.setEHClause (r.eh ++ es₁)) :=
    ⟨hblocks.instrs, hblocks.nodup, hblocks.beginning, hblocks.body, hblocks.isReturn,
      hblocks.ending, hblocks.methodReturn⟩
  generalize ht : r.setEHClause (r.eh ++ es₁) = t at *
  have hinstrs : r.instrs = t.instrs := by rw [← ht]; rfl
  rw [hinstrs] at hes
  obtain ⟨hb, hK⟩ := hr.K_lt
  obtain ⟨es', e, rfl, hpositions, -⟩ := hr.new.between hr.le_K
    (Nat.lt_of_lt_of_le hb hr.le_K)
  obtain ⟨-, htryEnd, hhandlerEnd⟩ := kindOf_last hes
  -- the two views of the new list agree on where the last handler is
  have hT : K + 2 = begin.length + middle.length + 2 := by
    have htry := congrArg (fun c => c.tryRange.hi) hpositions
    have hget : t.instrs[begin.length + middle.length + 1]? = some rethrowInstr := by
      rw [hr'.instrs, List.append_assoc _ _ [methodReturn], List.getElem?_append_right (by simp)]
      simp
    rw [← position_nextPtr hr'.nodup hget, ← hr'.ending.rethrowPtr, ← htryEnd]
    exact htry.symm
  have hH : M + 1 = begin.length + middle.length + 2 + callback.length + 1 := by
    have hhandler := congrArg (fun c => c.handler.hi) hpositions
    have hget : t.instrs[begin.length + middle.length + 2 + callback.length]?
        = some finallyInstr := by
      obtain ⟨hparts, hlength⟩ := hr'.parts
      rw [hparts, List.append_assoc, List.getElem?_append_right (by omega), hlength,
        Nat.add_sub_cancel_left]
      simp
    rw [← position_nextPtr hr'.nodup hget, ← hr'.ending.endFinallyInstr, ← hhandlerEnd]
    exact hhandler.symm
  obtain rfl := Nat.add_right_cancel hT
  obtain rfl := Nat.add_right_cancel hH
  exact ⟨m, begin, middle, catchInstr, rethrowInstr, callback, finallyInstr, rest, methodReturn,
    m₁, begin₁, es' ++ [e], hr', hr, hes⟩

/-- **The program of a rewritten method** is inside the guard of its end. -/
theorem encloses_of_rewriting {tokens : TracerTokens} {isVoid : Bool} {body newBody : MethodBody}
    {s t : ILRewriter} {m m₁ : Emitted} {begin middle callback rest begin₁ : List ILInstr}
    {catchInstr rethrowInstr finallyInstr methodReturn : ILInstr} {es : List EHClause}
    (hb : Blocks tokens s.instrs isVoid m begin middle catchInstr rethrowInstr callback
      finallyInstr rest methodReturn t)
    (hr : Rewriting isVoid body newBody s t m₁ begin₁ (begin.length + middle.length)
      (begin.length + middle.length + 2 + callback.length) es)
    (hes : (m.clauses tokens t.instrs).allSome = some es) (hvalid : body.RegionsInCode)
    (hend : ∀ c ∈ body.eh, c.regions.tryRange.hi ≠ body.code.length)
    (hcode : s.instrs ≠ []) (hleft : LeftByReturns s.instrs) :
    ∃ e, t.eh.getLast? = some e ∧ kindOf e = .always
      ∧ e.positions t.instrs = ⟨⟨0, begin.length + middle.length + 2⟩, none,
        ⟨begin.length + middle.length + 2, begin.length + middle.length + 2 + callback.length + 1⟩⟩
      ∧ Encloses (programOf t) (begin.length + middle.length + 2)
        (begin.length + middle.length + 2 + callback.length + 1) := by
  obtain ⟨es', e, rfl, hpositions, hbetween⟩ := hr.new.between hr.le_K
    (Nat.lt_of_lt_of_le hr.K_lt.1 hr.le_K)
  obtain ⟨hkind, -, -⟩ := kindOf_last hes
  refine ⟨e, ?_, hkind, hpositions, ?_⟩
  · rw [hr.clauses, ← List.append_assoc, List.getLast?_concat]
  · refine hb.encloses hcode hr.imported.wellFormed.toClosed hleft
      ⟨(s.eh ++ es').map (guardOf t.instrs), ?_, fun g hg => ?_⟩
    · show t.eh.map (guardOf t.instrs) = _
      have hlastGuard : guardOf t.instrs e = outermost (begin.length + middle.length + 2)
          (begin.length + middle.length + 2 + callback.length + 1) := by
        rw [guardOf, hkind, hpositions, outermost]
      rw [hr.clauses, ← hlastGuard]
      simp only [List.map_append, List.append_assoc, List.map_cons, List.map_nil]
    · rw [List.map_append] at hg
      rcases List.mem_append.mp hg with hg | hg
      · obtain ⟨e, he, rfl⟩ := List.mem_map.mp hg
        exact .inl (hr.between_old hvalid hend he)
      · obtain ⟨e, he, rfl⟩ := List.mem_map.mp hg
        exact hbetween e he

/-- An empty list has no code. -/
theorem instrs_ne_nil {body : MethodBody} {s : ILRewriter} (h : ImportedBody body s)
    (hcode : body.code ≠ []) : s.instrs ≠ [] := by
  intro hnil
  have hsize := h.codeSize
  rw [hnil] at hsize
  exact hcode (List.length_eq_zero_iff.mp hsize.symm)

/-- **The end method is called on every way out, and once.** The last clause of a rewritten
method is called on every way out, its handler calls the end method, and in a run of the
method that ends, with a return or with an exception, it has been entered just once. -/
theorem rewrite_endMethod_once {profiler : CorProfiler} {tokens : TracerTokens}
    {caller : FunctionInfo} {fill : ℕ → Byte} {body newBody : MethodBody} {s t : ILRewriter}
    (himport : ILRewriter.init.importBody body = .ok s)
    (h : rewrite profiler tokens caller fill body = .ok (newBody, t))
    (hvalid : body.RegionsInCode) (hcode : body.code ≠ [])
    (hend : ∀ c ∈ body.eh, c.regions.tryRange.hi ≠ body.code.length)
    (hleft : LeftByReturns s.instrs) :
    ∃ e methodSpec p i, t.eh.getLast? = some e ∧ kindOf e = .always
      ∧ tokens.endMethod = some methodSpec ∧ (e.positions t.instrs).handler.Contains p
      ∧ t.instrs[p]? = some i ∧ i.opcode = ceeCall ∧ i.arg = methodSpec.setWidth 64
      ∧ ∀ l u, System.Run (programOf t).system (.running 0 []) l u →
        l.count (some (e.positions t.instrs).handler) ≤ 1
          ∧ (u.Ended → l.count (some (e.positions t.instrs).handler) = 1) := by
  obtain ⟨m, begin, middle, catchInstr, rethrowInstr, callback, finallyInstr, rest, methodReturn,
    m₁, begin₁, es, hb, hr, hes⟩ := blocks_of_rewrite himport h hvalid
  obtain ⟨e, hlast, hkind, hpositions, hencloses⟩ := encloses_of_rewriting hb hr hes hvalid hend
    (instrs_ne_nil (importBody_spec himport) hcode) hleft
  obtain ⟨methodSpec, hspec, i, hi, hcall, harg⟩ := hb.ending.calls
  obtain ⟨p, hp⟩ := List.mem_iff_getElem?.mp hi
  have hlt : p < callback.length := (List.getElem?_eq_some_iff.mp hp).1
  refine ⟨e, methodSpec, begin.length + middle.length + 2 + p, i, hlast, hkind, hspec, ?_, ?_,
    hcall, harg, fun l u hrun => ?_⟩
  · rw [hpositions]
    refine ⟨Nat.le_add_right _ _, ?_⟩
    show begin.length + middle.length + 2 + p
      < begin.length + middle.length + 2 + callback.length + 1
    omega
  · obtain ⟨hparts, hlength⟩ := hb.parts
    rw [hparts, List.append_assoc, List.getElem?_append_right (by omega), hlength,
      Nat.add_sub_cancel_left, List.append_assoc, List.getElem?_append_left hlt]
    exact hp
  · rw [hpositions]
    exact hencloses.run hrun

/-- A method with a try block that it leaves. -/
theorem rewrite_endMethod_once_returnsLast :
    ∃ newBody t, rewrite plainProfiler plainTokens plainCaller (fun _ => 0) returnsLast
        = .ok (newBody, t)
      ∧ ∃ e, t.eh.getLast? = some e ∧ ∀ l u,
        System.Run (programOf t).system (.running 0 []) l u → u.Ended →
          l.count (some (e.positions t.instrs).handler) = 1 := by
  obtain ⟨s, newBody, t, himport, h⟩ := rewrite_plain (.inr rfl) fun _ => 0
  have hinstrs : (ILRewriter.init.importBody returnsLast).map (·.instrs) = .ok
      [⟨1, ceeNop, .il, 0⟩, ⟨2, ceeLeaveS, .instr 5, 6⟩, ⟨3, ceePop, .il, 0⟩,
        ⟨4, ceeLeaveS, .instr 5, 6⟩, ⟨5, ceeRet, .il, 0⟩] := by decide +kernel
  rw [himport] at hinstrs
  have heq : s.instrs = _ := Except.ok.inj hinstrs
  have hleft : LeftByReturns s.instrs := by
    rw [heq]
    exact ⟨by decide, by decide, by decide⟩
  have hvalid : returnsLast.RegionsInCode := ⟨by decide, by decide, by decide⟩
  obtain ⟨e, -, -, -, hlast, -, -, -, -, -, -, hruns⟩ :=
    rewrite_endMethod_once himport h hvalid (by decide) (by decide) hleft
  exact ⟨newBody, t, h, e, hlast, fun l u hrun hended => (hruns l u hrun).2 hended⟩

end AutoInstrumentation.CallTarget
