import AutoInstrumentation.CallTarget.EndMethodOnce
import AutoInstrumentation.Lib.WrappedRuns

/-!
# AutoInstrumentation.CallTarget.OriginalRuns

A rewritten method does what the method did.

The instructions of the method keep their order and their flow, and its clauses are moved
with them, so that the rewritten method is the method with code around it. What it runs of
the method, instructions and handlers, is what a run of the method has, in the same order;
and it returns only if the method does. As for the end method, this is about methods that
are only left by returns and exceptions. Their code must not run off its end, and a return
must not be protected by a handler that is called on the way out.
-/

namespace AutoInstrumentation.CallTarget

open AutoInstrumentation.IL AutoInstrumentation.Lib AutoInstrumentation.Lib.Unwinding

/-- The code does not run off its end. -/
def Stops (is : List ILInstr) : Prop :=
  ∀ i, is.getLast? = some i → flowOf is i ≠ .next ∧ ∀ q, flowOf is i ≠ .either q

/-- No return has to call a handler on its way out. -/
def ReturnsOutside (s : ILRewriter) : Prop :=
  ∀ k i, s.instrs[k]? = some i → i.opcode = ceeRet → ∀ e ∈ s.eh, kindOf e = .always →
    ¬(e.positions s.instrs).tryRange.Contains k

/-! ### Flows -/

/-- Whether an instruction is a return is in its opcode. -/
theorem flowOf_eq_ret {is : List ILInstr} {i : ILInstr} :
    flowOf is i = .ret ↔ i.opcode = ceeRet := by
  refine ⟨fun h => ?_, fun h => by rw [flowOf, if_pos h]⟩
  by_contra hne
  rw [flowOf, if_neg hne] at h
  split_ifs at h

/-- The flow of an instruction whose target is moved. -/
theorem flowOf_map {old new : List ILInstr} {i : ILInstr} {place : ℕ → ℕ}
    (h : (opCodeFlags i.opcode).branchTarget = true →
      position new i.target = place (position old i.target)) :
    flowOf new i = (flowOf old i).map place := by
  have hleave (hopcode : i.opcode = ceeLeave ∨ i.opcode = ceeLeaveS) :
      (opCodeFlags i.opcode).branchTarget = true := by
    rcases hopcode with heq | heq
    · rw [heq]
      rfl
    · rw [heq]
      rfl
  have hbranch (hopcode : i.opcode = ceeBr ∨ i.opcode = ceeBrS) :
      (opCodeFlags i.opcode).branchTarget = true := by
    rcases hopcode with heq | heq
    · rw [heq]
      rfl
    · rw [heq]
      rfl
  rw [flowOf, flowOf]
  split_ifs with _ _ _ _ _ hopcode hopcode hopcode
  · rfl
  · rfl
  · rfl
  · rfl
  · rfl
  · rw [h (hleave hopcode)]
    rfl
  · rw [h (hbranch hopcode)]
    rfl
  · rw [h hopcode]
    rfl
  · rfl

/-- The instructions of the method stay in it until they return. -/
theorem flow_within {s : ILRewriter} (hclosed : Closed s.instrs) (hleft : LeftByReturns s.instrs)
    (hstops : Stops s.instrs) {k : ℕ} {f : Flow} (hf : (programOf s).flow k = some f) :
    f = .ret ∨ f.Within (Set.Iio s.instrs.length) k := by
  obtain ⟨i, hi, rfl⟩ := programOf_flow_eq_some.mp hf
  have hmem := List.mem_of_getElem? hi
  have hk : k < s.instrs.length := (List.getElem?_eq_some_iff.mp hi).1
  by_cases hret : i.opcode = ceeRet
  · exact .inl (flowOf_eq_ret.mpr hret)
  · refine .inr (flowOf_within hret (hleft.jmp i hmem) (hleft.tailcall i hmem)
      (fun hbranch => ?_) fun hnext => ?_)
    · rcases hclosed.targets i hmem hbranch with hil | ⟨j, hj, htarget⟩
      · exact absurd hil (hleft.inside i hmem hbranch)
      · obtain ⟨l, hl⟩ := List.mem_iff_getElem?.mp hj
        rw [htarget, position_ptr hclosed.nodup hl]
        exact (List.getElem?_eq_some_iff.mp hl).1
    · show k + 1 < s.instrs.length
      by_contra hge
      have hlast : s.instrs.getLast? = some i := by
        rw [List.getLast?_eq_getElem?, ← hi]
        congr 1
        omega
      obtain ⟨hne, hneither⟩ := hstops i hlast
      rcases hnext with heq | ⟨q, heq⟩
      · exact hne heq
      · exact hneither q heq

/-! ### Places -/

section places

variable {isVoid : Bool} {is : List ILInstr}

/-- The places of the instructions do not depend on the return that is left out. -/
theorem place_congr {p q : InstrPtr}
    (h : ∀ i ∈ is, IsReturn p i ↔ IsReturn q i) (b : ℕ) :
    place isVoid p b is = place isVoid q b is := by
  funext k
  rw [place, place, insertions, insertions]
  refine congrArg (b + k + ·) (List.countP_congr fun i hi => ?_)
  rw [decide_eq_decide.mpr (h i (List.mem_of_mem_take hi))]

theorem placeEnd_congr {p q : InstrPtr} {b b' : ℕ}
    (h : place isVoid p b is = place isVoid q b' is) :
    placeEnd isVoid p b is = placeEnd isVoid q b' is := by
  funext k
  cases k with
  | zero => exact congrFun h 0
  | succ k => exact congrArg (· + 1) (congrFun h k)

end places

section blocks

variable {tokens : TracerTokens} {s t : ILRewriter} {isVoid : Bool} {m m₁ : Emitted}
  {begin middle callback rest begin₁ : List ILInstr}
  {catchInstr rethrowInstr finallyInstr methodReturn : ILInstr} {body newBody : MethodBody}
  {es : List EHClause}

variable (hb : Blocks tokens s.instrs isVoid m begin middle catchInstr rethrowInstr callback
  finallyInstr rest methodReturn t)

include hb

theorem Blocks.place_length :
    place isVoid m.methodReturnInstr begin.length s.instrs s.instrs.length
      = begin.length + middle.length := by
  obtain ⟨n, hbody⟩ := hb.body
  rw [place, List.take_length, hbody, length_replaceReturns, Nat.add_assoc]

/-- What has become of an instruction is at its place. -/
theorem Blocks.split {k : ℕ} {i : ILInstr} (hi : s.instrs[k]? = some i) :
    ∃ front n behind, t.instrs = front ++ replaceReturns isVoid m.locals.returnValue
        m.methodReturnInstr (headPtr (rest ++ [methodReturn])) n [i] ++ behind
      ∧ front.length = place isVoid m.methodReturnInstr begin.length s.instrs k := by
  obtain ⟨n, hbody⟩ := hb.body
  obtain ⟨front, n', behind, hsplit, hlength, -⟩ :=
    replaceReturns_split isVoid m.locals.returnValue m.methodReturnInstr
      (headPtr (rest ++ [methodReturn])) n hi
  refine ⟨begin ++ front, n', behind ++ (catchInstr :: rethrowInstr
    :: (callback ++ finallyInstr :: rest)) ++ [methodReturn], ?_, ?_⟩
  · rw [hb.instrs, hbody, hsplit]
    simp only [List.append_assoc]
  · rw [place, List.length_append, hlength, Nat.add_assoc]

/-- The targets of the method's branches are moved with the instructions. -/
theorem Blocks.position_moved {j : ILInstr} {k : ℕ} (hj : s.instrs[k]? = some j) :
    position t.instrs (.instr j.ptr)
      = place isVoid m.methodReturnInstr begin.length s.instrs k := by
  obtain ⟨front, n, behind, hsplit, hlength⟩ := hb.split hj
  obtain ⟨i, tail, hfirst, hptr⟩ := replaceReturns_first isVoid m.locals.returnValue
    m.methodReturnInstr (headPtr (rest ++ [methodReturn])) n j
  have hget : t.instrs[front.length]? = some i := by
    rw [hsplit, hfirst]
    simp
  rw [← hptr, position_ptr hb.nodup hget, hlength]

/-- **What an instruction of the method has become.** -/
theorem Blocks.flow_moved (hclosed : Closed s.instrs) (hleft : LeftByReturns s.instrs) {k : ℕ}
    (hk : k < s.instrs.length) :
    ∃ f, (programOf s).flow k = some f
      ∧ (f ≠ .ret → place isVoid m.methodReturnInstr begin.length s.instrs (k + 1)
          = place isVoid m.methodReturnInstr begin.length s.instrs k + 1
        ∧ (programOf t).flow (place isVoid m.methodReturnInstr begin.length s.instrs k)
          = some (f.map (place isVoid m.methodReturnInstr begin.length s.instrs)))
      ∧ (f = .ret → place isVoid m.methodReturnInstr begin.length s.instrs (k + 1)
            = place isVoid m.methodReturnInstr begin.length s.instrs k + 1
          ∧ (programOf t).flow (place isVoid m.methodReturnInstr begin.length s.instrs k)
            = some (.leave (begin.length + middle.length + 2 + callback.length + 1))
        ∨ place isVoid m.methodReturnInstr begin.length s.instrs (k + 1)
            = place isVoid m.methodReturnInstr begin.length s.instrs k + 2
          ∧ (programOf t).flow (place isVoid m.methodReturnInstr begin.length s.instrs k)
            = some .next
          ∧ (programOf t).flow (place isVoid m.methodReturnInstr begin.length s.instrs k + 1)
            = some (.leave (begin.length + middle.length + 2 + callback.length + 1))) := by
  obtain ⟨i, hi⟩ : ∃ i, s.instrs[k]? = some i := ⟨_, List.getElem?_eq_getElem hk⟩
  have hmem := List.mem_of_getElem? hi
  obtain ⟨front, n, behind, hsplit, hlength⟩ := hb.split hi
  have hsucc : place isVoid m.methodReturnInstr begin.length s.instrs (k + 1) = _ := place_succ hi
  have hleave (j : ILInstr) (hopcode : j.opcode = ceeLeaveS)
      (htarget : j.target = headPtr (rest ++ [methodReturn])) : flowOf t.instrs j
        = .leave (begin.length + middle.length + 2 + callback.length + 1) := by
    rw [flowOf, hopcode, htarget, hb.position_behind]
    rfl
  rw [← hlength] at hsucc ⊢
  rw [replaceReturns_singleton] at hsplit
  refine ⟨flowOf s.instrs i, programOf_flow hi, fun hne => ?_, fun hret => ?_⟩
  · have hopcode : i.opcode ≠ ceeRet := fun heq => hne (flowOf_eq_ret.mpr heq)
    have hreturn : ¬IsReturn m.methodReturnInstr i := fun h => hopcode h.1
    rw [if_neg fun h => hreturn h.2] at hsucc
    rw [if_neg hreturn] at hsplit
    have hget : t.instrs[front.length]? = some i := by
      rw [hsplit]
      simp
    refine ⟨hsucc, ?_⟩
    rw [programOf_flow hget]
    refine congrArg some (flowOf_map fun hbranch => ?_)
    rcases hclosed.targets i hmem hbranch with hil | ⟨j, hj, htarget⟩
    · exact absurd hil (hleft.inside i hmem hbranch)
    · obtain ⟨l, hl⟩ := List.mem_iff_getElem?.mp hj
      rw [htarget, hb.position_moved hl, position_ptr hclosed.nodup hl]
  · have hreturn : IsReturn m.methodReturnInstr i :=
      (hb.isReturn i hmem).mpr (flowOf_eq_ret.mp hret)
    rw [if_pos hreturn] at hsplit
    cases isVoid with
    | true =>
        rw [if_neg (by simp)] at hsucc
        rw [if_pos rfl] at hsplit
        have hget : t.instrs[front.length]?
            = some (toLeave (headPtr (rest ++ [methodReturn])) i) := by
          rw [hsplit]
          simp
        refine .inl ⟨hsucc, ?_⟩
        rw [programOf_flow hget, hleave _ rfl rfl]
    | false =>
        rw [if_pos ⟨rfl, hreturn⟩] at hsucc
        rw [if_neg Bool.false_ne_true] at hsplit
        have hget : t.instrs[front.length]? = some (toStloc m.locals.returnValue i) := by
          rw [hsplit]
          simp
        have hget' : t.instrs[front.length + 1]?
            = some ⟨n + 1, ceeLeaveS, headPtr (rest ++ [methodReturn]), 0⟩ := by
          rw [hsplit, List.append_assoc, List.getElem?_append_right (Nat.le_add_right _ _),
            Nat.add_sub_cancel_left]
          rfl
        refine .inr ⟨hsucc, ?_, ?_⟩
        · rw [programOf_flow hget]
          rfl
        · rw [programOf_flow hget', hleave _ rfl rfl]

/-! ### The code around the method -/

/-- In front of the method. -/
theorem Blocks.flow_beginning (hcode : s.instrs ≠ []) {p : ℕ} (hp : p < begin.length) {f : Flow}
    (hf : (programOf t).flow p = some f) :
    f.Within (Set.Iio begin.length) p ∨ f = .leave begin.length := by
  obtain ⟨i, hi, rfl⟩ := programOf_flow_eq_some.mp hf
  have hlist : t.instrs = begin ++ (middle ++ (catchInstr :: rethrowInstr
      :: (callback ++ finallyInstr :: rest)) ++ [methodReturn]) := by
    rw [hb.instrs]
    simp only [List.append_assoc]
  have hbegin : begin[p]? = some i := by
    rwa [hlist, List.getElem?_append_left hp] at hi
  have hmem := List.mem_of_getElem? hbegin
  have htargets {j : ILInstr} (hj : j ∈ begin) :
      position t.instrs (.instr j.ptr) ∈ Set.Iio begin.length := by
    have hnodup := hb.nodup
    rw [hlist, ← List.nil_append begin] at hnodup
    rw [hlist, ← List.nil_append begin]
    have hlt := (position_part hnodup hj).2
    rwa [List.length_nil, Nat.zero_add] at hlt
  have hfirst : position t.instrs (headPtr s.instrs) = begin.length := by
    obtain ⟨j, is, heq⟩ := List.exists_cons_of_ne_nil hcode
    have hmoved := hb.position_moved (k := 0) (j := j) (by rw [heq]; rfl)
    rw [heq]
    rw [place, List.take_zero] at hmoved
    exact hmoved
  have hleave (hopcode : i.opcode = ceeLeaveS) :
      flowOf t.instrs i = .leave (position t.instrs i.target) := by
    rw [flowOf, hopcode]
    rfl
  obtain ⟨hret, hjmp, htail⟩ := emittedOpcodes_leftByReturns _ (hb.beginning.opcodes i hmem)
  by_cases hopcode : i.opcode = ceeLeaveS
  · -- a jump, to the method or not
    rw [hleave hopcode]
    have hbranch : (opCodeFlags i.opcode).branchTarget = true := by
      rw [hopcode]
      rfl
    rcases hb.beginning.branches i hmem hbranch with ⟨j, hj, htarget⟩ | ⟨-, htarget⟩
    · rw [htarget]
      exact .inl (htargets hj)
    · rw [htarget, hfirst]
      exact .inr rfl
  · refine .inl (flowOf_within hret hjmp htail (fun hbranch => ?_) fun _ => ?_)
    · rcases hb.beginning.branches i hmem hbranch with ⟨j, hj, htarget⟩ | ⟨heq, -⟩
      · rw [htarget]
        exact htargets hj
      · exact absurd heq hopcode
    · -- the last one is a jump
      obtain ⟨front, last, hlast, hjump⟩ := hb.beginning.last
      show p + 1 < begin.length
      by_contra hge
      have hend : p = front.length := by
        rw [hlast, List.length_append, List.length_singleton] at hp hge
        omega
      rw [hlast, hend, List.getElem?_concat_length] at hbegin
      cases hbegin
      exact hopcode hjump

/-- What catches the exceptions of the method, and the last handler. -/
theorem Blocks.flow_ending {p : ℕ}
    (hencloses : Encloses (programOf t) (begin.length + middle.length + 2)
      (begin.length + middle.length + 2 + callback.length + 1))
    (hp : p ∈ Set.Ico (begin.length + middle.length)
      (begin.length + middle.length + 2 + callback.length + 1)) {f : Flow}
    (hf : (programOf t).flow p = some f) :
    f.Within (Set.Ico (begin.length + middle.length)
      (begin.length + middle.length + 2 + callback.length + 1)) p := by
  obtain ⟨hlo, hhi⟩ := hp
  rcases Nat.lt_or_ge p (begin.length + middle.length + 2) with hlt | hge
  · obtain ⟨i, hi, rfl⟩ := programOf_flow_eq_some.mp hf
    rw [hb.instrs, List.append_assoc _ _ [methodReturn],
      List.getElem?_append_right (by rw [List.length_append]; exact hlo)] at hi
    rcases Nat.lt_or_eq_of_le hlo with hnext | rfl
    · have hindex : p - (begin ++ middle).length = 1 := by
        rw [List.length_append]
        omega
      rw [hindex] at hi
      cases hi
      have hthrow : flowOf t.instrs rethrowInstr = .throw := by
        rw [flowOf, hb.ending.rethrow]
        rfl
      rw [hthrow]
      trivial
    · rw [List.length_append, Nat.sub_self] at hi
      cases hi
      rw [hb.ending.catchInstr]
      exact ⟨Nat.le_succ _, by omega⟩
  · have hsub : Set.Ico (begin.length + middle.length + 2)
        (begin.length + middle.length + 2 + callback.length + 1)
        ⊆ Set.Ico (begin.length + middle.length)
          (begin.length + middle.length + 2 + callback.length + 1) := fun q hq =>
      ⟨Nat.le_trans (Nat.le_add_right _ 2) hq.1, hq.2⟩
    exact (hencloses.handler p ⟨hge, hhi⟩ f hf).mono hsub

/-- Behind the last handler the frame is not given up. -/
theorem Blocks.flow_behind {p : ℕ}
    (hp : begin.length + middle.length + 2 + callback.length + 1 ≤ p) :
    (programOf t).flow p ≠ some .jump := by
  intro hf
  obtain ⟨i, hi, hjump⟩ := programOf_flow_eq_some.mp hf
  obtain ⟨hparts, hlength⟩ := hb.parts
  rw [hparts, List.getElem?_append_right (by
    rw [List.length_append, hlength, List.length_append, List.length_singleton]
    omega)] at hi
  rcases List.mem_append.mp (List.mem_of_getElem? hi) with hi | hi
  · rw [hb.ending.rest i hi] at hjump
    cases hjump
  · rw [List.mem_singleton.mp hi, flowOf, if_pos hb.methodReturn] at hjump
    cases hjump

/-! ### The rewritten method -/

variable (hr : Rewriting isVoid body newBody s t m₁ begin₁ (begin.length + middle.length)
  (begin.length + middle.length + 2 + callback.length) es)

include hr

/-- The two views of the new list agree on the places. -/
theorem Blocks.place_eq :
    place isVoid m₁.methodReturnInstr begin₁.length s.instrs
      = place isVoid m.methodReturnInstr begin.length s.instrs := by
  obtain ⟨_, _, _, -, _, -, hrewritten⟩ := hr.rewritten
  have hreturns (b : ℕ) : place isVoid m₁.methodReturnInstr b s.instrs
      = place isVoid m.methodReturnInstr b s.instrs :=
    place_congr (fun i hi => (hrewritten.isReturn i hi).trans (hb.isReturn i hi).symm) b
  have hlength := hr.place_length
  rw [hreturns, ← hb.place_length, place, place] at hlength
  have hbegin : begin₁.length = begin.length := by omega
  rw [hreturns, hbegin]

/-- The clauses of the method are moved. -/
theorem Blocks.guards_moved (hvalid : body.RegionsInCode)
    (hend : ∀ c ∈ body.eh, c.regions.tryRange.hi ≠ body.code.length) :
    s.eh.map (guardOf t.instrs) = (programOf s).guards.map (Guard.map
      (place isVoid m.methodReturnInstr begin.length s.instrs)
      (placeEnd isVoid m.methodReturnInstr begin.length s.instrs)) := by
  have hplace := hb.place_eq hr
  have hmoved := hr.clauses_moved hvalid ((hr.tryEnd_ne_iff).mp hend)
  rw [hplace, placeEnd_congr hplace, List.map_map] at hmoved
  show _ = (s.eh.map (guardOf s.instrs)).map _
  rw [List.map_map]
  refine List.map_congr_left fun e he => ?_
  exact congrArg (Guard.mk (kindOf e)) (List.map_inj_left.mp hmoved e he)

/-- **A rewritten method is the method with code around it.** -/
theorem Blocks.wraps (hes : (m.clauses tokens t.instrs).allSome = some es)
    (hvalid : body.RegionsInCode)
    (hend : ∀ c ∈ body.eh, c.regions.tryRange.hi ≠ body.code.length)
    (hcode : s.instrs ≠ []) (hleft : LeftByReturns s.instrs) (hstops : Stops s.instrs)
    (hreturns : ReturnsOutside s) :
    ∃ c d, Wraps (programOf s) (programOf t) s.instrs.length begin.length
      (begin.length + middle.length) (begin.length + middle.length + 2 + callback.length + 1)
      (place isVoid m.methodReturnInstr begin.length s.instrs)
      (placeEnd isVoid m.methodReturnInstr begin.length s.instrs) c d := by
  have hclosed := hr.imported.wellFormed.toClosed
  obtain ⟨-, -, -, -, hencloses⟩ := encloses_of_rewriting hb hr hes hvalid hend hcode hleft
  have hplace := hb.place_eq hr
  have hbegin : begin₁.length = begin.length := congrFun hplace 0
  obtain ⟨e₁, e₂, e₃, e₄, rfl, hflags₃, hflags₄⟩ : ∃ e₁ e₂ e₃ e₄, es = [e₁, e₂, e₃, e₄]
      ∧ e₃.flags = corILExceptionClauseNone ∧ e₄.flags = corILExceptionClauseFinally := by
    obtain ⟨e₁, e₂, -, -, heq⟩ := allSome_four hes
    exact ⟨e₁, e₂, _, _, heq, rfl, rfl⟩
  obtain ⟨c, d, hc, hd, hpositions⟩ := hr.new.clauses
  rw [hbegin] at hc
  simp only [List.map_cons, List.map_nil, List.cons.injEq] at hpositions
  obtain ⟨hpos₁, hpos₂, hpos₃, hpos₄, -⟩ := hpositions
  have hguards : (programOf t).guards = s.eh.map (guardOf t.instrs)
      ++ [guardOf t.instrs e₁, guardOf t.instrs e₂, catchAll (begin.length + middle.length),
        outermost (begin.length + middle.length + 2)
          (begin.length + middle.length + 2 + callback.length + 1)] := by
    have hthird : guardOf t.instrs e₃ = catchAll (begin.length + middle.length) := by
      have hkind : kindOf e₃ = .caught := by
        rw [kindOf, hflags₃]
        decide
      rw [guardOf, hkind, hpos₃, catchAll]
    have hlast : guardOf t.instrs e₄ = outermost (begin.length + middle.length + 2)
        (begin.length + middle.length + 2 + callback.length + 1) := by
      have hkind : kindOf e₄ = .always := by
        rw [kindOf, hflags₄]
        decide
      rw [guardOf, hkind, hpos₄, outermost]
    show t.eh.map (guardOf t.instrs) = _
    rw [hr.clauses, List.map_append, ← hthird, ← hlast]
    rfl
  refine ⟨guardOf t.instrs e₁, guardOf t.instrs e₂,
    { shortens := shortens_placeEnd
      first := rfl
      last := hb.place_length
      pos := List.length_pos_iff.mpr hcode
      regions := ?_
      within := fun k _ f hf => flow_within hclosed hleft hstops hf
      unprotected := ?_
      flow := fun k hk => hb.flow_moved hclosed hleft hk
      guards := by rw [hguards, hb.guards_moved hr hvalid hend]
      front := ?_
      back := ?_
      begin := fun p hp f hf => hb.flow_beginning hcode hp hf
      ending := fun p hp f hf => hb.flow_ending hencloses hp hf
      encloses := hencloses
      behind := fun p hp => hb.flow_behind hp }⟩
  · intro g hg r hregion
    obtain ⟨e, he, rfl⟩ := List.mem_map.mp hg
    exact ⟨hr.nonempty hvalid e he r hregion,
      (endsIn_positions s.instrs s.eh _ (List.mem_map_of_mem he) r hregion).2⟩
  · intro k _ hf g hg hkind
    obtain ⟨e, he, rfl⟩ := List.mem_map.mp hg
    obtain ⟨i, hi, hret⟩ := programOf_flow_eq_some.mp hf
    exact hreturns k i hi (flowOf_eq_ret.mp hret) e he hkind
  · refine ⟨hbegin ▸ hr.K_lt.1, between_guardOf ?_⟩
    rw [hpos₁]
    intro r hregion
    have hwithin := hc.within r hregion
    exact ⟨hwithin.1, hwithin.2.1, hwithin.2.2.1⟩
  · refine between_guardOf ?_
    rw [hpos₂]
    intro r hregion
    have hwithin := hd.within r hregion
    exact ⟨hwithin.1, hwithin.2.1, hwithin.2.2.1⟩

end blocks

/-- **A rewritten method does what the method did.** A run of the rewritten method does the
instructions of the method, and calls its handlers, as a run of the method does, in the same
order. It returns only if the method does; if it throws, the method has ended, or has not
been begun. -/
theorem rewrite_runs_original {profiler : CorProfiler} {tokens : TracerTokens}
    {caller : FunctionInfo} {fill : ℕ → Byte} {body newBody : MethodBody} {s t : ILRewriter}
    (himport : ILRewriter.init.importBody body = .ok s)
    (h : rewrite profiler tokens caller fill body = .ok (newBody, t))
    (hvalid : body.RegionsInCode) (hcode : body.code ≠ [])
    (hend : ∀ c ∈ body.eh, c.regions.tryRange.hi ≠ body.code.length)
    (hleft : LeftByReturns s.instrs) (hstops : Stops s.instrs) (hreturns : ReturnsOutside s) :
    ∃ methodReturnInstr b, (∀ i ∈ s.instrs, IsReturn methodReturnInstr i ↔ i.opcode = ceeRet)
      ∧ (∀ k i, s.instrs[k]? = some i → ∃ j,
        t.instrs[place caller.isVoid methodReturnInstr b s.instrs k]? = some j ∧ j.ptr = i.ptr)
      ∧ ∀ l' u', System.Run (programOf t).traced (.running 0 []) l' u' →
        ∃ l u, System.Run (programOf s).traced (.running 0 []) l u
          ∧ l'.flatMap (seen s.instrs.length (place caller.isVoid methodReturnInstr b s.instrs))
            = l.flatMap shown
          ∧ (u' = .returned → u = .returned)
          ∧ (u' = .threw → u = .returned ∨ u = .threw ∨ u = .running 0 []) ∧ u' ≠ .jumped := by
  obtain ⟨m, begin, middle, catchInstr, rethrowInstr, callback, finallyInstr, rest, methodReturn,
    m₁, begin₁, es, hb, hr, hes⟩ := blocks_of_rewrite himport h hvalid
  obtain ⟨c, d, hwraps⟩ := hb.wraps hr hes hvalid hend
    (instrs_ne_nil (importBody_spec himport) hcode) hleft hstops hreturns
  refine ⟨m.methodReturnInstr, begin.length, hb.isReturn, fun k i hi => ?_,
    fun l' u' hrun => hwraps.run hrun⟩
  obtain ⟨front, n, behind, hsplit, hlength⟩ := hb.split hi
  obtain ⟨j, tail, hfirst, hptr⟩ := replaceReturns_first caller.isVoid m.locals.returnValue
    m.methodReturnInstr (headPtr (rest ++ [methodReturn])) n i
  refine ⟨j, ?_, hptr⟩
  rw [← hlength, hsplit, hfirst]
  simp

/-- The try block `nop`, `leave.s`, the handler `endfinally`, and `ret`. -/
def returnsBehindFinally : MethodBody where
  flags := 0
  maxStack := 8
  localVarSigTok := 0
  code := [0, 0xDE, 1, 0xDC, 0x2A]
  eh := [{ flags := 2, tryOffset := 0, tryLength := 3, handlerOffset := 3, handlerLength := 1
           classTokenOrFilterOffset := 0 }]

/-- A method with a handler that is called on the way out. -/
theorem rewrite_runs_original_finally :
    ∃ s newBody t place, ILRewriter.init.importBody returnsBehindFinally = .ok s
      ∧ rewrite plainProfiler plainTokens plainCaller (fun _ => 0) returnsBehindFinally
        = .ok (newBody, t)
      ∧ ∀ l' u', System.Run (programOf t).traced (.running 0 []) l' u' → u' = .returned →
        ∃ l, System.Run (programOf s).traced (.running 0 []) l .returned
          ∧ l'.flatMap (seen 4 place) = l.flatMap shown := by
  have hrewritable :
      rewritable plainProfiler plainTokens plainCaller returnsBehindFinally = true := by
    decide +kernel
  obtain ⟨s, newBody, t, himport, h⟩ := rewrite_progress (fun _ => 0) hrewritable
  have hparts : (ILRewriter.init.importBody returnsBehindFinally).map (fun s => (s.instrs, s.eh))
      = .ok ([⟨1, ceeNop, .il, 0⟩, ⟨2, ceeLeaveS, .instr 4, 4⟩, ⟨3, ceeEndfinally, .il, 0⟩,
        ⟨4, ceeRet, .il, 0⟩], [⟨2, .instr 1, .instr 3, .instr 3, .instr 3, 0, .il⟩]) := by
    decide +kernel
  rw [himport] at hparts
  obtain ⟨hinstrs, heh⟩ := Prod.mk.inj (Except.ok.inj hparts)
  have hleft : LeftByReturns s.instrs := by
    rw [hinstrs]
    exact ⟨by decide, by decide, by decide⟩
  have hstops : Stops s.instrs := by
    rw [hinstrs]
    intro i hi
    cases hi
    exact ⟨nofun, fun q => nofun⟩
  have hreturns : ReturnsOutside s := by
    rw [ReturnsOutside, hinstrs, heh]
    intro k i hi hret e he _
    rw [List.mem_singleton.mp he]
    have hk : k = 3 := by
      rcases k with _ | _ | _ | _ | k
      · cases hi; cases hret
      · cases hi; cases hret
      · cases hi; cases hret
      · rfl
      · cases hi
    rw [hk]
    decide
  have hvalid : returnsBehindFinally.RegionsInCode := ⟨by decide, by decide, by decide⟩
  obtain ⟨methodReturnInstr, b, -, -, hruns⟩ :=
    rewrite_runs_original himport h hvalid (by decide) (by decide) hleft hstops hreturns
  refine ⟨s, newBody, t, place plainCaller.isVoid methodReturnInstr b s.instrs, himport, h,
    fun l' u' hrun hreturned => ?_⟩
  obtain ⟨l, u, hold, hseen, hret, -, -⟩ := hruns l' u' hrun
  rw [hret hreturned] at hold
  rw [hinstrs] at hseen ⊢
  exact ⟨l, hold, hseen⟩

end AutoInstrumentation.CallTarget
