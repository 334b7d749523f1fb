import AutoInstrumentation.CallTarget.Sections
import AutoInstrumentation.IL.Clauses

/-!
# AutoInstrumentation.CallTarget.Around

The instruction list of a rewritten method.

The imported instructions stand between the code that begins the instrumented call and the
code that ends it; a return among them has become a jump behind the end, with a store in
front of it if the method returns a value. The addresses of the imported instructions are
kept.
-/

namespace AutoInstrumentation.CallTarget

open AutoInstrumentation.IL

/-! ### The code around the method -/

/-- The rewriter `t` has the list of `s` with the code around it. -/
structure Around (s : ILRewriter) (m : Emitted) (begin ending : List ILInstr)
    (methodReturn : ILInstr) (t : ILRewriter) : Prop where
  instrs : t.instrs = begin ++ s.instrs ++ ending ++ [methodReturn]
  nodup : (t.instrs.map (·.ptr)).Nodup
  fresh : ∀ i ∈ begin ++ ending ++ [methodReturn], s.nInstrs < i.ptr
  allocated : ∀ i ∈ t.instrs, i.ptr ≤ t.nInstrs
  opcodes : ∀ i ∈ begin ++ ending, i.opcode ∈ emittedOpcodes
  targets : ∀ i ∈ begin ++ ending, Linked t.instrs i.target
  methodReturn : methodReturn.opcode = ceeRet ∧ m.methodReturnInstr = .instr methodReturn.ptr
  begins : IsCallback m.begin (begin.map erased)
  ends : IsEnding m (ending.map erased)
  eh : t.eh = s.eh
  fGenerateTinyHeader : t.fGenerateTinyHeader = false

theorem linkAfter_prevPtr_il {is : List ILInstr} (hnodup : (is.map (·.ptr)).Nodup)
    (what : ILInstr) : linkAfter (prevPtr is .il) what is = is ++ [what] := by
  have hends : EndsAt is (prevPtr is .il) := by
    rcases List.eq_nil_or_concat is with rfl | ⟨front, i, rfl⟩
    · exact .inl ⟨rfl, rfl⟩
    · rw [List.concat_eq_append] at hnodup ⊢
      obtain ⟨j, hj, hprev⟩ := prevPtrFrom_position (m := front.length) .il
        (show position (front ++ [i]) .il = front.length + 1 by
          rw [position_il, List.length_append, List.length_singleton])
      rw [List.getElem?_concat_length, Option.some_inj] at hj
      subst hj
      refine .inr ⟨front, i, rfl, hprev, fun j hj heq => ?_⟩
      rw [List.map_append, List.nodup_append] at hnodup
      exact hnodup.2.2 j.ptr (List.mem_map_of_mem hj) i.ptr List.mem_cons_self heq
  have hlink : linkAfter (prevPtr is .il) what (is ++ []) = is ++ what :: [] :=
    linkAfter_append hends
  rwa [List.append_nil] at hlink

/-- The wrapper before anything is emitted. -/
theorem emitting_nil {s : ILRewriter} (hnodup : (s.instrs.map (·.ptr)).Nodup)
    (hallocated : ∀ i ∈ s.instrs, i.ptr ≤ s.nInstrs) (htiny : s.fGenerateTinyHeader = false) :
    Emitting ⟨[], s.instrs, s.nInstrs, s.eh⟩ [] ⟨s, headPtr s.instrs⟩ := by
  refine ⟨[], rfl, rfl, rfl, hnodup, hallocated, ?_, Nat.le_refl _, ?_, ?_, rfl, htiny⟩
  · exact fun i hi => by cases hi
  · exact fun i hi => by cases hi
  · exact fun i hi => by cases hi

/-- The return behind the list, as the position of what is emitted next. -/
theorem createReturn_emitting {c : Context} {block : List ILInstr} {w w' : ILRewriterWrapper}
    {p : InstrPtr} (hw : Emitting c block w) (hrun : createReturn w = .ok (p, w')) :
    ∃ new methodReturn, new.map erased = block ∧ HasEmitted c new w
      ∧ methodReturn.opcode = ceeRet ∧ p = .instr methodReturn.ptr
      ∧ w.rewriter.nInstrs < methodReturn.ptr
      ∧ Emitting ⟨c.pre ++ new ++ c.post, [methodReturn], methodReturn.ptr, c.eh⟩ [] w' := by
  obtain ⟨new, hnew, hw⟩ := hw
  cases hrun
  refine ⟨new, ⟨w.rewriter.nInstrs + 1, ceeRet, .il, 0⟩, hnew, hw, rfl, rfl, Nat.lt_succ_self _,
    [], rfl, ?_⟩
  have hold : ∀ i ∈ c.pre ++ new ++ c.post, i.ptr ≤ w.rewriter.nInstrs := by
    intro i hi
    rcases List.mem_append.mp hi with hi | hi
    · rcases List.mem_append.mp hi with hi | hi
      · exact Nat.le_trans (hw.old i (List.mem_append_left _ hi)) hw.base
      · exact (hw.fresh i hi).2
    · exact Nat.le_trans (hw.old i (List.mem_append_right _ hi)) hw.base
  have hinstrs : linkAfter (prevPtr w.rewriter.instrs .il)
      ⟨w.rewriter.nInstrs + 1, ceeRet, .il, 0⟩ w.rewriter.instrs
      = c.pre ++ new ++ c.post ++ [⟨w.rewriter.nInstrs + 1, ceeRet, .il, 0⟩] := by
    rw [hw.instrs]
    exact linkAfter_prevPtr_il hw.nodup _
  refine
    { instrs := by rw [List.append_nil]; exact hinstrs
      position := rfl, base := Nat.le_refl _, eh := hw.eh
      fGenerateTinyHeader := hw.fGenerateTinyHeader, nodup := ?_, old := ?_
      fresh := fun i hi => by cases hi
      opcodes := fun i hi => by cases hi
      targets := fun i hi => by cases hi }
  · rw [List.append_nil, List.map_append, List.nodup_append]
    refine ⟨hw.nodup, List.nodup_singleton _, fun n hn k hk heq => ?_⟩
    obtain ⟨i, hi, rfl⟩ := List.mem_map.mp hn
    have hk' : k = w.rewriter.nInstrs + 1 := List.mem_singleton.mp hk
    have hle := hold i hi
    omega
  · intro i hi
    rcases List.mem_append.mp hi with hi | hi
    · exact Nat.le_succ_of_le (hold i hi)
    · rw [List.mem_singleton.mp hi]

/-- **The code around the method.** -/
theorem emitAround_spec {profiler : CorProfiler} {tokens : TracerTokens} {caller : FunctionInfo}
    {retTypeFlags : TypeFlags} {s : ILRewriter} {m : Emitted} {w : ILRewriterWrapper}
    (hnodup : (s.instrs.map (·.ptr)).Nodup) (hallocated : ∀ i ∈ s.instrs, i.ptr ≤ s.nInstrs)
    (htiny : s.fGenerateTinyHeader = false)
    (h : emitAround profiler tokens caller retTypeFlags ⟨s, headPtr s.instrs⟩ = .ok (m, w)) :
    ∃ begin ending methodReturn, Around s m begin ending methodReturn w.rewriter := by
  obtain ⟨⟨locals, cb⟩, w₁, hbegin, h⟩ := Emit.bind_eq_ok h
  obtain ⟨p, w₂, hreturn, hending⟩ := Emit.bind_eq_ok h
  obtain ⟨beginBlock, hemitting, hcallback⟩ :=
    emitBeginMethod_isCallback profiler tokens caller retTypeFlags (List.nil_subset _)
      (emitting_nil hnodup hallocated htiny) hbegin
  obtain ⟨begin, methodReturn, rfl, hw₁, hopcode, rfl, hlt, hemitting⟩ :=
    createReturn_emitting hemitting hreturn
  obtain ⟨endBlock, ⟨ending, rfl, hw⟩, hisEnding, hcb, hmethodReturn, -⟩ :=
    emitEnding_isEnding profiler tokens caller retTypeFlags.void locals cb
      (.instr methodReturn.ptr) (List.nil_subset _) hemitting hending
  have hbase := hw₁.base
  have hinstrs : w.rewriter.instrs = begin ++ s.instrs ++ ending ++ [methodReturn] := by
    rw [hw.instrs]
    simp only [List.nil_append]
  refine ⟨begin, ending, methodReturn, hinstrs, ?_, ?_, ?_, ?_, ?_, ⟨hopcode, hmethodReturn⟩, ?_,
    ?_, hw.eh, hw.fGenerateTinyHeader⟩
  · rw [hw.instrs]
    exact hw.nodup
  · intro i hi
    rcases List.mem_append.mp hi with hi | hi
    · rcases List.mem_append.mp hi with hi | hi
      · exact (hw₁.fresh i hi).1
      · exact Nat.lt_trans (Nat.lt_of_le_of_lt hbase hlt) (hw.fresh i hi).1
    · rw [List.mem_singleton.mp hi]
      exact Nat.lt_of_le_of_lt hbase hlt
  · intro i hi
    rw [hw.instrs] at hi
    rcases List.mem_append.mp hi with hi | hi
    · rcases List.mem_append.mp hi with hi | hi
      · exact Nat.le_trans (hw.old i (List.mem_append_left _ hi)) hw.base
      · exact (hw.fresh i hi).2
    · exact Nat.le_trans (hw.old i (List.mem_append_right _ hi)) hw.base
  · intro i hi
    rcases List.mem_append.mp hi with hi | hi
    · exact hw₁.opcodes i hi
    · exact hw.opcodes i hi
  · intro i hi
    rcases List.mem_append.mp hi with hi | hi
    · refine linked_append (fun j hj => ?_) (hw₁.targets i hi)
      rw [hinstrs, List.append_assoc]
      exact List.mem_append_left _ hj
    · rw [hw.instrs]
      exact hw.targets i hi
  · rw [hcb]
    exact hcallback
  · exact hisEnding

/-! ### The returns -/

/-- What the loop makes of the instructions, when `n` addresses have been given out. -/
def replaceReturns (isVoid : Bool) (returnValueIndex : ℕ) (methodReturnInstr target : InstrPtr) :
    ℕ → List ILInstr → List ILInstr
  | _, [] => []
  | n, i :: is =>
      if IsReturn methodReturnInstr i then
        if isVoid then
          toLeave target i :: replaceReturns isVoid returnValueIndex methodReturnInstr target n is
        else
          toStloc returnValueIndex i :: ⟨n + 1, ceeLeaveS, target, 0⟩
            :: replaceReturns isVoid returnValueIndex methodReturnInstr target (n + 1) is
      else i :: replaceReturns isVoid returnValueIndex methodReturnInstr target n is

/-- The number of instructions that the loop inserts. -/
def insertions (isVoid : Bool) (methodReturnInstr : InstrPtr) (is : List ILInstr) : ℕ :=
  is.countP fun i => !isVoid && decide (IsReturn methodReturnInstr i)

/-- The rewriter has the list `is`. -/
structure Lists (s : ILRewriter) (is : List ILInstr) : Prop where
  instrs : s.instrs = is
  nodup : (is.map (·.ptr)).Nodup
  allocated : ∀ i ∈ is, i.ptr ≤ s.nInstrs

/-- An instruction of the list is changed. -/
theorem Lists.updateInstr {s : ILRewriter} {done is : List ILInstr} {i : ILInstr}
    (h : Lists s (done ++ i :: is)) {f : ILInstr → ILInstr} (hf : (f i).ptr = i.ptr) :
    Lists (updateInstr (.instr i.ptr) f s) (done ++ f i :: is) := by
  have hptrs : (done ++ f i :: is).map (·.ptr) = (done ++ i :: is).map (·.ptr) := by
    rw [List.map_append, List.map_append, List.map_cons, List.map_cons, hf]
  refine ⟨?_, by rw [hptrs]; exact h.nodup, fun j hj => ?_⟩
  · have hnodup := h.nodup
    rw [List.map_append, List.map_cons, List.nodup_append] at hnodup
    obtain ⟨-, hcons, hapart⟩ := hnodup
    show updateInstrs (.instr i.ptr) f s.instrs = _
    rw [h.instrs, updateInstrs_append, updateInstrs_of_ne]
    · show done ++ (if InstrPtr.instr i.ptr = .instr i.ptr then f i else i)
        :: updateInstrs (.instr i.ptr) f is = _
      rw [if_pos rfl, updateInstrs_of_ne]
      intro j hj heq
      exact (List.nodup_cons.mp hcons).1 (List.mem_map.mpr ⟨j, hj, (InstrPtr.instr.inj heq).symm⟩)
    · intro j hj heq
      exact hapart j.ptr (List.mem_map_of_mem hj) i.ptr List.mem_cons_self
        (InstrPtr.instr.inj heq).symm
  · rcases List.mem_append.mp hj with hj | hj
    · exact h.allocated j (List.mem_append_left _ hj)
    · rcases List.mem_cons.mp hj with rfl | hj
      · rw [hf]
        exact h.allocated i (List.mem_append_right _ List.mem_cons_self)
      · exact h.allocated j (List.mem_append_right _ (List.mem_cons_of_mem i hj))

/-- A new instruction is linked in behind one of the list. -/
theorem Lists.insertAfter {s : ILRewriter} {done is : List ILInstr} {i : ILInstr}
    (h : Lists s (done ++ i :: is)) (opcode : ℕ) (target : InstrPtr) (arg : BitVec 64) :
    Lists (s.newILInstr.2.insertAfter (.instr i.ptr) ⟨s.nInstrs + 1, opcode, target, arg⟩)
      (done ++ i :: ⟨s.nInstrs + 1, opcode, target, arg⟩ :: is) := by
  have hperm : (done ++ i :: ⟨s.nInstrs + 1, opcode, target, arg⟩ :: is).Perm
      (⟨s.nInstrs + 1, opcode, target, arg⟩ :: (done ++ i :: is)) := by
    rw [List.append_cons, List.append_cons done i is]
    exact List.perm_middle
  refine ⟨?_, ?_, fun j hj => ?_⟩
  · have hends : EndsAt (done ++ [i]) (.instr i.ptr) := by
      refine .inr ⟨done, i, rfl, rfl, fun j hj heq => ?_⟩
      have hnodup := h.nodup
      rw [List.map_append, List.map_cons, List.nodup_append] at hnodup
      exact hnodup.2.2 j.ptr (List.mem_map_of_mem hj) i.ptr List.mem_cons_self heq
    show linkAfter (.instr i.ptr) _ s.instrs = _
    rw [h.instrs, List.append_cons, linkAfter_append hends, List.append_assoc,
      List.singleton_append]
  · rw [(hperm.map _).nodup_iff, List.map_cons, List.nodup_cons]
    refine ⟨fun hmem => ?_, h.nodup⟩
    obtain ⟨j, hj, heq⟩ := List.mem_map.mp hmem
    exact absurd heq (Nat.ne_of_lt (Nat.lt_succ_of_le (h.allocated j hj)))
  · rcases List.mem_cons.mp (hperm.subset hj) with rfl | hj
    · exact Nat.le_refl _
    · exact Nat.le_succ_of_le (h.allocated j hj)

section returns

variable {isVoid : Bool} {returnValueIndex : ℕ} {methodReturnInstr target : InstrPtr}

/-- **The loop over the returns.** -/
theorem changeReturns_spec {done is : List ILInstr} {s t : ILRewriter} (hs : Lists s (done ++ is))
    (h : changeReturns isVoid returnValueIndex methodReturnInstr target is s = .ok t) :
    Lists t (done ++ replaceReturns isVoid returnValueIndex methodReturnInstr target s.nInstrs is)
      ∧ t.eh = s.eh ∧ t.fGenerateTinyHeader = s.fGenerateTinyHeader := by
  induction is generalizing done s with
  | nil =>
      cases h
      exact ⟨hs, rfl, rfl⟩
  | cons i is ih =>
      rw [changeReturns] at h
      rw [replaceReturns]
      by_cases hreturn : IsReturn methodReturnInstr i
      · rw [if_pos hreturn] at h ⊢
        cases isVoid with
        | true =>
            rw [if_pos rfl] at h ⊢
            have hstep := hs.updateInstr (f := toLeave target) rfl
            rw [List.append_cons] at hstep ⊢
            have hrest := ih hstep h
            exact hrest
        | false =>
            rw [if_neg Bool.false_ne_true] at h ⊢
            split at h
            · cases h
            · have hstep := (hs.updateInstr (f := toStloc returnValueIndex) rfl).insertAfter
                ceeLeaveS target 0
              rw [List.append_cons, List.append_cons (done ++ _)] at hstep ⊢
              have hrest := ih hstep h
              exact hrest
      · rw [if_neg hreturn] at h ⊢
        rw [List.append_cons] at hs ⊢
        exact ih hs h

theorem insertions_append (is js : List ILInstr) :
    insertions isVoid methodReturnInstr (is ++ js)
      = insertions isVoid methodReturnInstr is + insertions isVoid methodReturnInstr js :=
  List.countP_append

theorem insertions_cons (i : ILInstr) (is : List ILInstr) :
    insertions isVoid methodReturnInstr (i :: is)
      = insertions isVoid methodReturnInstr is
        + if isVoid = false ∧ IsReturn methodReturnInstr i then 1 else 0 := by
  rw [insertions, List.countP_cons]
  cases isVoid with
  | true => simp [insertions]
  | false => simp [insertions]

theorem replaceReturns_append (n : ℕ) (is js : List ILInstr) :
    replaceReturns isVoid returnValueIndex methodReturnInstr target n (is ++ js)
      = replaceReturns isVoid returnValueIndex methodReturnInstr target n is
        ++ replaceReturns isVoid returnValueIndex methodReturnInstr target
          (n + insertions isVoid methodReturnInstr is) js := by
  induction is generalizing n with
  | nil => rfl
  | cons i is ih =>
      rw [List.cons_append, replaceReturns, replaceReturns, insertions_cons]
      by_cases hreturn : IsReturn methodReturnInstr i
      · cases isVoid with
        | true => simp [hreturn, ih]
        | false => simp [hreturn, ih, Nat.add_assoc, Nat.add_comm 1]
      · simp [hreturn, ih]

/-- Where nothing is a return, nothing is replaced. -/
theorem replaceReturns_of_no_return (n : ℕ) {is : List ILInstr}
    (h : ∀ i ∈ is, ¬IsReturn methodReturnInstr i) :
    replaceReturns isVoid returnValueIndex methodReturnInstr target n is = is := by
  induction is with
  | nil => rfl
  | cons i is ih =>
      rw [replaceReturns, if_neg (h i List.mem_cons_self),
        ih fun j hj => h j (List.mem_cons_of_mem i hj)]

theorem length_replaceReturns (n : ℕ) (is : List ILInstr) :
    (replaceReturns isVoid returnValueIndex methodReturnInstr target n is).length
      = is.length + insertions isVoid methodReturnInstr is := by
  induction is generalizing n with
  | nil => rfl
  | cons i is ih =>
      rw [replaceReturns, insertions_cons]
      by_cases hreturn : IsReturn methodReturnInstr i
      · cases isVoid with
        | true => simp [hreturn, ih, Nat.add_right_comm]
        | false => simp [hreturn, ih]; omega
      · simp [hreturn, ih, Nat.add_right_comm]

/-- The instructions of the new list: those of the old one that are no returns, stores, and
jumps to the target. -/
theorem mem_replaceReturns {n : ℕ} {is : List ILInstr} {j : ILInstr}
    (h : j ∈ replaceReturns isVoid returnValueIndex methodReturnInstr target n is) :
    j ∈ is ∨ j.opcode = ceeStloc ∨ j.opcode = ceeLeaveS ∧ j.target = target := by
  induction is generalizing n with
  | nil => cases h
  | cons i is ih =>
      have hrest {n : ℕ}
          (hj : j ∈ replaceReturns isVoid returnValueIndex methodReturnInstr target n is) :
          j ∈ i :: is ∨ j.opcode = ceeStloc ∨ j.opcode = ceeLeaveS ∧ j.target = target :=
        (ih hj).imp_left (List.mem_cons_of_mem i)
      rw [replaceReturns] at h
      split at h
      · split at h
        · rcases List.mem_cons.mp h with rfl | h
          · exact .inr (.inr ⟨rfl, rfl⟩)
          · exact hrest h
        · rcases List.mem_cons.mp h with rfl | h
          · exact .inr (.inl rfl)
          · rcases List.mem_cons.mp h with rfl | h
            · exact .inr (.inr ⟨rfl, rfl⟩)
            · exact hrest h
      · rcases List.mem_cons.mp h with rfl | h
        · exact .inl List.mem_cons_self
        · exact hrest h

variable (isVoid returnValueIndex methodReturnInstr target) in
/-- What replaces an instruction, and where. -/
theorem replaceReturns_split (n : ℕ) {is : List ILInstr} {m : ℕ} {i : ILInstr}
    (h : is[m]? = some i) :
    ∃ front k rest, replaceReturns isVoid returnValueIndex methodReturnInstr target n is
        = front ++ replaceReturns isVoid returnValueIndex methodReturnInstr target k [i] ++ rest
      ∧ front.length = m + insertions isVoid methodReturnInstr (is.take m) ∧ n ≤ k := by
  obtain ⟨hlt, rfl⟩ := List.getElem?_eq_some_iff.mp h
  have hsplit : is = is.take m ++ [is[m]] ++ is.drop (m + 1) := by
    rw [List.append_assoc, List.singleton_append, ← List.drop_eq_getElem_cons hlt,
      List.take_append_drop]
  have hlength : (replaceReturns isVoid returnValueIndex methodReturnInstr target n
      (is.take m)).length = m + insertions isVoid methodReturnInstr (is.take m) := by
    rw [length_replaceReturns, List.length_take, Nat.min_eq_left (Nat.le_of_lt hlt)]
  have hparts := congrArg (replaceReturns isVoid returnValueIndex methodReturnInstr target n) hsplit
  rw [replaceReturns_append, replaceReturns_append] at hparts
  exact ⟨_, _, _, hparts, hlength, Nat.le_add_right _ _⟩

theorem replaceReturns_singleton (n : ℕ) (i : ILInstr) :
    replaceReturns isVoid returnValueIndex methodReturnInstr target n [i]
      = if IsReturn methodReturnInstr i then
          if isVoid then [toLeave target i]
          else [toStloc returnValueIndex i, ⟨n + 1, ceeLeaveS, target, 0⟩]
        else [i] := rfl

variable (isVoid returnValueIndex methodReturnInstr target) in
/-- An instruction keeps its address. -/
theorem replaceReturns_first (n : ℕ) (i : ILInstr) :
    ∃ j rest, replaceReturns isVoid returnValueIndex methodReturnInstr target n [i] = j :: rest
      ∧ j.ptr = i.ptr := by
  rw [replaceReturns_singleton]
  split
  · split
    · exact ⟨toLeave target i, [], rfl, rfl⟩
    · exact ⟨toStloc returnValueIndex i, _, rfl, rfl⟩
  · exact ⟨i, [], rfl, rfl⟩

theorem linked_replaceReturns (n : ℕ) {is : List ILInstr} {p : InstrPtr} (h : Linked is p) :
    Linked (replaceReturns isVoid returnValueIndex methodReturnInstr target n is) p := by
  rcases h with rfl | ⟨i, hi, rfl⟩
  · exact .inl rfl
  · obtain ⟨m, hm⟩ := List.mem_iff_getElem?.mp hi
    obtain ⟨front, k, rest, hsplit, -, -⟩ :=
      replaceReturns_split isVoid returnValueIndex methodReturnInstr target n hm
    obtain ⟨j, tail, hfirst, hptr⟩ :=
      replaceReturns_first isVoid returnValueIndex methodReturnInstr target k i
    refine .inr ⟨j, ?_, by rw [hptr]⟩
    rw [hsplit, hfirst]
    simp

end returns

/-! ### The new list -/

/-- The rewriter `t` has the list of `s`, its returns replaced, with the code around it. -/
structure Rewritten (s : ILRewriter) (isVoid : Bool) (m : Emitted)
    (begin body ending : List ILInstr) (methodReturn : ILInstr) (t : ILRewriter) : Prop where
  instrs : t.instrs = begin ++ body ++ ending ++ [methodReturn]
  body : ∃ n target, s.nInstrs ≤ n
    ∧ body = replaceReturns isVoid m.locals.returnValue m.methodReturnInstr target n s.instrs
  closed : Closed t.instrs
  fresh : ∀ i ∈ begin ++ ending ++ [methodReturn], s.nInstrs < i.ptr
  isReturn : ∀ i ∈ s.instrs, IsReturn m.methodReturnInstr i ↔ i.opcode = ceeRet
  begins : IsCallback m.begin (begin.map erased)
  ends : IsEnding m (ending.map erased)
  eh : t.eh = s.eh
  fGenerateTinyHeader : t.fGenerateTinyHeader = false

/-- **The new list of a method.** -/
theorem emitMethod_spec {profiler : CorProfiler} {tokens : TracerTokens} {caller : FunctionInfo}
    {retTypeFlags : TypeFlags} {s t : ILRewriter} {clauses : List (Option EHClause)}
    (hclosed : Closed s.instrs) (hallocated : ∀ i ∈ s.instrs, i.ptr ≤ s.nInstrs)
    (htiny : s.fGenerateTinyHeader = false)
    (h : emitMethod profiler tokens caller retTypeFlags ⟨s, headPtr s.instrs⟩
      = .ok (clauses, t)) :
    ∃ m begin body ending methodReturn, clauses = m.clauses tokens t.instrs
      ∧ Rewritten s retTypeFlags.void m begin body ending methodReturn t := by
  obtain ⟨⟨m, w⟩, haround, h⟩ := IL.bind_eq_ok h
  obtain ⟨t', hreturns, h⟩ := IL.bind_eq_ok h
  cases h
  obtain ⟨begin, ending, methodReturn, ha⟩ := emitAround_spec hclosed.nodup hallocated htiny haround
  have hstart : Lists w.rewriter ([] ++ w.rewriter.instrs) := ⟨rfl, ha.nodup, ha.allocated⟩
  obtain ⟨hlists, heh, htiny'⟩ := changeReturns_spec hstart hreturns
  obtain ⟨hreturnOpcode, hmethodReturn⟩ := ha.methodReturn
  have hnone : ∀ i ∈ begin ++ ending, ¬IsReturn m.methodReturnInstr i := by
    intro i hi hreturn
    exact emittedOpcodes_ne_ret _ (ha.opcodes i hi) hreturn.1
  have hbegin : ∀ i ∈ begin, ¬IsReturn m.methodReturnInstr i :=
    fun i hi => hnone i (List.mem_append_left _ hi)
  have hending : ∀ i ∈ ending, ¬IsReturn m.methodReturnInstr i :=
    fun i hi => hnone i (List.mem_append_right _ hi)
  have hlast : ∀ i ∈ [methodReturn], ¬IsReturn m.methodReturnInstr i := by
    intro i hi hreturn
    rw [List.mem_singleton.mp hi, hmethodReturn] at hreturn
    exact hreturn.2 rfl
  have hinstrs := hlists.instrs
  rw [List.nil_append, ha.instrs, replaceReturns_append, replaceReturns_append,
    replaceReturns_append, replaceReturns_of_no_return _ hbegin,
    replaceReturns_of_no_return _ hending, replaceReturns_of_no_return _ hlast] at hinstrs
  have hlt : s.nInstrs < methodReturn.ptr :=
    ha.fresh methodReturn (List.mem_append_right _ (List.mem_singleton_self _))
  have hlinked {p : InstrPtr} (hp : Linked w.rewriter.instrs p) : Linked t.instrs p := by
    rw [hlists.instrs, List.nil_append]
    exact linked_replaceReturns _ hp
  have hold {p : InstrPtr} (hp : Linked s.instrs p) : Linked t.instrs p := by
    refine hlinked (linked_append (fun i hi => ?_) hp)
    rw [ha.instrs]
    exact List.mem_append_left _ (List.mem_append_left _ (List.mem_append_right _ hi))
  have hmem {i : ILInstr} (hi : i ∈ t.instrs) :
      (i ∈ s.instrs ∨ i ∈ begin ++ ending ∨ i = methodReturn)
        ∨ i.opcode = ceeStloc ∨ i.opcode = ceeLeaveS
          ∧ i.target = nextPtr w.rewriter.instrs m.endFinallyInstr := by
    rw [hlists.instrs, List.nil_append] at hi
    refine (mem_replaceReturns hi).imp_left fun hi => ?_
    rw [ha.instrs] at hi
    simp only [List.mem_append, List.mem_singleton] at hi ⊢
    tauto
  refine ⟨m, begin, _, ending, methodReturn, rfl, hinstrs, ⟨_, _, ?_, rfl⟩, ⟨?_, ?_, ?_⟩, ha.fresh,
    ?_, ha.begins, ha.ends, heh.trans ha.eh, htiny'.trans ha.fGenerateTinyHeader⟩
  · have hle := ha.allocated methodReturn (by
      rw [ha.instrs]
      exact List.mem_append_right _ (List.mem_singleton_self _))
    omega
  · rw [hlists.instrs]
    exact hlists.nodup
  · intro i hi
    rcases hmem hi with (hi | hi | rfl) | hop | ⟨hop, -⟩
    · exact hclosed.importable i hi
    · exact emittedOpcodes_importable _ (ha.opcodes i hi)
    · rw [hreturnOpcode]
      decide
    · rw [hop]
      decide
    · rw [hop]
      decide
  · intro i hi hbranch
    rcases hmem hi with (hi | hi | rfl) | hop | ⟨-, htarget⟩
    · exact hold (hclosed.targets i hi hbranch)
    · exact hlinked (ha.targets i hi)
    · rw [hreturnOpcode] at hbranch
      cases hbranch
    · rw [hop] at hbranch
      cases hbranch
    · rw [htarget]
      obtain ⟨catchInstr, rethrowInstr, callback, finallyInstr, rest, hblock, -, -, -, hptr⟩ :=
        ha.ends.blocks
      have hfinally : ∃ j ∈ w.rewriter.instrs, m.endFinallyInstr = .instr j.ptr := by
        have hin : finallyInstr ∈ ending.map erased := by
          rw [hblock]
          simp
        obtain ⟨j, hj, rfl⟩ := List.mem_map.mp hin
        refine ⟨j, ?_, hptr⟩
        rw [ha.instrs]
        exact List.mem_append_left _ (List.mem_append_right _ hj)
      obtain ⟨j, hj, hptr⟩ := hfinally
      obtain ⟨k, hk⟩ := List.mem_iff_getElem?.mp hj
      rw [hptr, nextPtr_getElem ha.nodup hk]
      exact hlinked (linked_headPtr_drop _ _)
  · intro i hi
    refine ⟨fun h => h.1, fun hop => ⟨hop, fun heq => ?_⟩⟩
    rw [hmethodReturn] at heq
    have hle := hallocated i hi
    have heq' : i.ptr = methodReturn.ptr := InstrPtr.instr.inj heq
    omega

end AutoInstrumentation.CallTarget
