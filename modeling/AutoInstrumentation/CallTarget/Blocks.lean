import AutoInstrumentation.CallTarget.Around
import AutoInstrumentation.CallTarget.Control
import AutoInstrumentation.CallTarget.Targets

/-!
# AutoInstrumentation.CallTarget.Blocks

The blocks of a rewritten method, with what they do to the control.

The code that begins the call branches within itself and to the method; the code that ends
it, within itself and to its last instruction; and each return of the method has become a
jump behind that.
-/

namespace AutoInstrumentation.CallTarget

open AutoInstrumentation.IL AutoInstrumentation.Lib AutoInstrumentation.Lib.Unwinding

/-! ### Locals -/

/-- The opcodes that load and store locals. -/
def localOpcodes : List ℕ :=
  [0x06, 0x07, 0x08, 0x09, 0x0A, 0x0B, 0x0C, 0x0D, ceeLdlocS, ceeStlocS, ceeLdloc, ceeStloc]

theorem goesOn_of_local {i : ILInstr} (h : i.opcode ∈ localOpcodes) : GoesOn i := by
  have hall : ∀ opcode ∈ localOpcodes, opcode ≠ ceeRet ∧ ¬(opcode = ceeJmp ∨ opcode = ceeTailcall)
      ∧ ¬(opcode = ceeThrow ∨ opcode = ceeRethrow) ∧ opcode ≠ ceeEndfinally
      ∧ opcode ≠ ceeEndfilter ∧ ¬(opcode = ceeLeave ∨ opcode = ceeLeaveS)
      ∧ ¬(opcode = ceeBr ∨ opcode = ceeBrS) ∧ (opCodeFlags opcode).branchTarget ≠ true := by
    decide
  obtain ⟨h1, h2, h3, h4, h5, h6, h7, h8⟩ := hall _ h
  intro is
  rw [flowOf, if_neg h1, if_neg h2, if_neg h3, if_neg h4, if_neg h5, if_neg h6, if_neg h7,
    if_neg h8]

/-- The block is the instruction that `p` is the address of, one for a local. -/
def IsLocal (p : InstrPtr) (block : List ILInstr) : Prop :=
  ∃ i, block = [i] ∧ p = .instr i.ptr ∧ i.opcode ∈ localOpcodes

section locals

variable {c : Context} {known : List ILInstr}

theorem createVar_isLocal {opcode0 opcodeS opcode : ℕ}
    (h0 : ∀ index ≤ 3, opcode0 + index ∈ emittedOpcodes ∧ opcode0 + index ∈ localOpcodes)
    (hS : opcodeS ∈ emittedOpcodes ∧ opcodeS ∈ localOpcodes)
    (h : opcode ∈ emittedOpcodes ∧ opcode ∈ localOpcodes) (index : ℕ) :
    Inserts c known (createVar opcode0 opcodeS opcode index) IsLocal := by
  have hone {opcode : ℕ} (hop : opcode ∈ emittedOpcodes ∧ opcode ∈ localOpcodes)
      (arg : BitVec 64) : Inserts c known (createInstr opcode arg) IsLocal := by
    refine (createInstr_inserts hop.1 arg).mono ?_
    rintro p block ⟨n, rfl, rfl⟩
    exact ⟨_, rfl, rfl, hop.2⟩
  exact .ite (fun hindex => hone (h0 index hindex) 0) fun _ =>
    .ite (fun _ => hone hS _) fun _ => hone h _

theorem stLocal_isLocal (index : ℕ) : Inserts c known (stLocal index) IsLocal :=
  createVar_isLocal (by decide) (by decide) (by decide) _

theorem loadLocal_isLocal (index : ℕ) : Inserts c known (loadLocal index) IsLocal :=
  createVar_isLocal (by decide) (by decide) (by decide) _

end locals

/-! ### The call of the end method -/

/-- The block calls `methodSpec`. -/
def Calls (methodSpec : Token) (block : List ILInstr) : Prop :=
  ∃ i ∈ block, i.opcode = ceeCall ∧ i.arg = methodSpec.setWidth 64

theorem emitEndMethod_calls {c : Context} {known : List ILInstr} (profiler : CorProfiler)
    (tokens : TracerTokens) (caller : FunctionInfo) (isVoid : Bool) (locals : Locals) :
    Inserts c known (emitEndMethod profiler tokens caller isVoid locals)
      fun _ block => ∃ methodSpec, tokens.endMethod = some methodSpec ∧ Calls methodSpec block := by
  have hgetReturnValue (memberRef : Option Token) (known : List ILInstr) :
      InsertsSome c known (writeCallTargetReturnGetReturnValue memberRef) := by
    cases memberRef with
    | none => exact InsertsSome.pure ()
    | some memberRef => exact InsertsSome.seq (callMember_one _ _).some fun _ _ => .pure trivial
  refine (loadInstance_startsWith _ _).bind fun _ start _ => ?_
  refine (when_some (loadLocal_one _).some _).bind fun _ load _ => ?_
  refine (loadLocal_one _).bind fun _ exception _ => ?_
  refine Inserts.bind (.ite (fun _ => (loadLocalAddress_one _).some)
    fun _ => (loadLocal_one _).some) fun _ state _ => ?_
  cases tokens.endMethod with
  | none => exact Inserts.bind (Q := fun _ _ => False) .skip fun _ _ h => h.elim
  | some methodSpec =>
      refine Inserts.bind (Inserts.pure (a := methodSpec) (Q := fun a block => a = methodSpec
        ∧ block = []) ⟨rfl, rfl⟩) ?_
      rintro token _ ⟨rfl, rfl⟩
      refine (createInstr_inserts (by decide) _).bind ?_
      rintro _ _ ⟨n, rfl, rfl⟩
      refine (stLocal_one _).bind fun _ store _ => ?_
      refine (when_some (InsertsSome.seq (loadLocalAddress_one _).some fun _ _ =>
        InsertsSome.seq (hgetReturnValue _ _) fun _ _ => (stLocal_one _).some) _).bind
          fun _ returnValue _ => ?_
      refine (createPlain_one (by decide)).bind fun _ leave _ => ?_
      refine (emitHandler_isHandler _ _ _ _).bind fun _ handlerBlock _ => ?_
      refine .pure ⟨_, rfl, ⟨n, ceeCall, .il, token.setWidth 64⟩, ?_, rfl, rfl⟩
      simp

/-- What has been emitted is one block. -/
theorem Emitting.unique {c : Context} {block block' : List ILInstr} {w : ILRewriterWrapper}
    (h : Emitting c block w) (h' : Emitting c block' w) : block = block' := by
  obtain ⟨new, rfl, hnew⟩ := h
  obtain ⟨new', rfl, hnew'⟩ := h'
  have heq := hnew.instrs.symm.trans hnew'.instrs
  rw [List.append_cancel_left (List.append_cancel_right heq)]

/-! ### The jumps out of the begin method -/

/-- The block ends with the jump that `p` is the address of. -/
def EndsWithLeave (p : InstrPtr) (block : List ILInstr) : Prop :=
  ∃ front n, block = front ++ [⟨n, ceeLeaveS, .il, 0⟩] ∧ p = .instr n

theorem emitHandler_leaves {c : Context} {known : List ILInstr} (profiler : CorProfiler)
    (tokens : TracerTokens) (logException : Option Token) (exceptionIndex : ℕ) :
    Inserts c known (emitHandler profiler tokens logException exceptionIndex)
      fun handler => EndsWithLeave handler.catchLeaveInstr := by
  refine .ite (fun _ => ?_) fun _ => ?_
  · refine (createFilterForException_startsWith _ _ _).bind fun filter filterBlock _ => ?_
    refine (createPlain_one (by decide)).bind fun first pop _ => ?_
    refine (loadLocal_one _).bind fun _ load _ => ?_
    refine (writeLogException_first _ _).bind ?_
    rintro _ logBlock rfl
    refine (createInstr_inserts (by decide) 0).bind ?_
    rintro _ _ ⟨n, rfl, rfl⟩
    refine .pure ⟨filterBlock ++ (pop ++ (load ++ logBlock)), n, ?_, rfl⟩
    simp only [List.append_assoc, List.append_nil]
  · refine (writeLogException_startsWith _).bind fun catchFirstInstr logBlock _ => ?_
    refine (createInstr_inserts (by decide) 0).bind ?_
    rintro _ _ ⟨n, rfl, rfl⟩
    exact .pure ⟨logBlock, n, rfl, rfl⟩

/-- The block has the two jumps, the second one at its end. -/
def LeavesTwice (cb : Callback) (block : List ILInstr) : Prop :=
  ∃ tryBlock handlerBlock, block = tryBlock ++ handlerBlock ∧ EndsWithLeave cb.tryLeave tryBlock
    ∧ EndsWithLeave cb.handler.catchLeaveInstr handlerBlock

theorem emitBeginMethod_leaves {c : Context} {known : List ILInstr} (profiler : CorProfiler)
    (tokens : TracerTokens) (caller : FunctionInfo) (retTypeFlags : TypeFlags) :
    Inserts c known (emitBeginMethod profiler tokens caller retTypeFlags)
      fun r block => LeavesTwice r.2 block := by
  refine (modifyLocalSigAndInitialize_startsWith ..).bind ?_
  rintro ⟨locals, firstInstruction⟩ startBlock hstart
  refine (when_some (InsertsSome.seq Inserts.ofOption.some
    fun _ _ => (callMember_one _ _).some) _).bind fun _ ensure _ => ?_
  refine (loadInstance_startsWith _ _).bind fun _ load _ => ?_
  refine (loadMethodArguments_some _ _ _ _).bind fun _ arguments _ => ?_
  refine Inserts.ofOption.bind ?_
  rintro _ _ rfl
  refine (callMember_one _ _).bind fun _ call _ => ?_
  refine (stLocal_one _).bind fun _ store _ => ?_
  refine (createInstr_inserts (by decide) 0).bind ?_
  rintro _ _ ⟨n, rfl, rfl⟩
  refine (emitHandler_leaves _ _ _ _).bind ?_
  rintro handler _ ⟨front, n', rfl, hleave⟩
  refine getCurrentILInstr_inserts.bind ?_
  rintro _ _ ⟨rfl, rfl⟩
  refine (setTarget_inserts ⟨⟨n, ceeLeaveS, .il, 0⟩, by simp, rfl⟩ (.inl rfl)).bind ?_
  rintro _ _ rfl
  refine (setTarget_inserts ⟨⟨n', ceeLeaveS, .il, 0⟩, by simp, hleave⟩ (.inl rfl)).bind ?_
  rintro _ _ rfl
  refine .pure ⟨(startBlock ++ (ensure ++ (load ++ (arguments ++ (call ++ store)))))
    ++ [⟨n, ceeLeaveS, .il, 0⟩], front ++ [⟨n', ceeLeaveS, .il, 0⟩], ?_, ⟨_, n, rfl, rfl⟩,
    front, n', rfl, hleave⟩
  simp only [List.append_assoc, List.append_nil, List.nil_append]

theorem EndsWithLeave.opcode {p : InstrPtr} {block new : List ILInstr}
    (h : EndsWithLeave p block) (hblock : block ⊆ new.map erased)
    (hnodup : (new.map (·.ptr)).Nodup) {i : ILInstr} (hi : i ∈ new) (hptr : .instr i.ptr = p) :
    i.opcode = ceeLeaveS := by
  obtain ⟨front, n, rfl, rfl⟩ := h
  obtain ⟨j, hj, heq⟩ :=
    List.mem_map.mp (hblock (List.mem_append_right _ (List.mem_singleton_self _)))
  have hjn : j.ptr = n := congrArg ILInstr.ptr heq
  have hij : i = j :=
    List.inj_on_of_nodup_map hnodup hi hj ((InstrPtr.instr.inj hptr).trans hjn.symm)
  rw [hij]
  exact congrArg ILInstr.opcode heq

/-! ### The ending -/

/-- What has been emitted belongs to the list around what is emitted next. -/
theorem HasEmitted.rebase {c : Context} {new : List ILInstr} {w : ILRewriterWrapper}
    (h : HasEmitted c new w) :
    HasEmitted ⟨c.pre ++ new, c.post, w.rewriter.nInstrs, c.eh⟩ [] w := by
  refine ⟨?_, h.position, ?_, ?_, ?_, Nat.le_refl _, ?_, ?_, h.eh, h.fGenerateTinyHeader⟩
  · rw [List.append_nil]
    exact h.instrs
  · rw [List.append_nil]
    exact h.nodup
  · intro i hi
    rcases List.mem_append.mp hi with hi | hi
    · rcases List.mem_append.mp hi with hi | hi
      · exact Nat.le_trans (h.old i (List.mem_append_left _ hi)) h.base
      · exact (h.fresh i hi).2
    · exact Nat.le_trans (h.old i (List.mem_append_right _ hi)) h.base
  · exact fun i hi => by cases hi
  · exact fun i hi => by cases hi
  · exact fun i hi => by cases hi

/-- The branches of the block go to instructions of `is`. -/
def BranchesTo (is block : List ILInstr) : Prop :=
  ∀ i ∈ block, (opCodeFlags i.opcode).branchTarget = true → ∃ j ∈ is, i.target = .instr j.ptr

/-- The instructions behind the method. -/
structure Ending (tokens : TracerTokens) (m : Emitted) (catchInstr rethrowInstr : ILInstr)
    (callback : List ILInstr) (finallyInstr : ILInstr) (rest : List ILInstr) : Prop where
  calls : ∃ methodSpec, tokens.endMethod = some methodSpec ∧ Calls methodSpec callback
  startExceptionCatch : m.startExceptionCatch = .instr catchInstr.ptr
  rethrowPtr : m.rethrowInstr = .instr rethrowInstr.ptr
  endFinallyInstr : m.endFinallyInstr = .instr finallyInstr.ptr
  catchInstr : GoesOn catchInstr
  rethrow : rethrowInstr.opcode = ceeRethrow
  opcodes : ∀ i ∈ callback, i.opcode ∈ emittedOpcodes
  branches : BranchesTo (callback ++ [finallyInstr]) callback
  endFinally : finallyInstr.opcode = ceeEndfinally
  rest : ∀ i ∈ rest, GoesOn i

/-- An address that was given out in a scope is one of the new instructions. -/
theorem HasEmitted.mem_of_above {c : Context} {new : List ILInstr} {w : ILRewriterWrapper}
    {p : InstrPtr} (h : HasEmitted c new w) (hlinked : Linked (c.pre ++ new ++ c.post) p)
    {here : InstrPtr} {allowed : Set InstrPtr} (habove : Scope.Above ⟨c.base, here, allowed⟩ p) :
    ∃ j ∈ new, p = .instr j.ptr := by
  obtain ⟨n, rfl, hlt⟩ := habove
  rcases hlinked with hil | ⟨j, hj, heq⟩
  · cases hil
  · have hptr : n = j.ptr := InstrPtr.instr.inj heq
    have hold : ¬(j ∈ c.pre ++ c.post) := fun hj => by
      have := h.old j hj
      have hlt : c.base < n := hlt
      omega
    refine ⟨j, ?_, heq⟩
    rcases List.mem_append.mp hj with hj | hj
    · rcases List.mem_append.mp hj with hj | hj
      · exact absurd (List.mem_append_left _ hj) hold
      · exact hj
    · exact absurd (List.mem_append_right _ hj) hold

/-- Only what is new in a scope is aimed at from it. -/
theorem HasEmitted.branchesTo {c : Context} {new : List ILInstr} {w : ILRewriterWrapper}
    {here : InstrPtr} (h : HasEmitted c new w) (haimed : Aimed ⟨c.base, here, ∅⟩ ∅ w) :
    BranchesTo new new := by
  intro i hi hbranch
  have hmem : i ∈ w.rewriter.instrs := by
    rw [h.instrs]
    exact List.mem_append_left _ (List.mem_append_right _ hi)
  rcases haimed.targets i hmem (h.fresh i hi).1 hbranch with hp | habove | hp
  · cases hp
  · exact h.mem_of_above (h.targets i hi) habove
  · cases hp

theorem HasEmitted.aimed_nil {c : Context} {w : ILRewriterWrapper} (h : HasEmitted c [] w)
    (allowed : Set InstrPtr) : Aimed ⟨c.base, headPtr c.post, allowed⟩ ∅ w := by
  refine ⟨h.base, h.position, fun i hi hlt _ => ?_⟩
  rw [h.instrs, List.append_nil] at hi
  exact absurd hlt (Nat.not_lt_of_le (h.old i hi))

/-- The end method part with the end of its handler, from where it starts. -/
theorem emitEndMethod_blocks {c : Context} {profiler : CorProfiler} {tokens : TracerTokens}
    {caller : FunctionInfo} {isVoid : Bool} {locals : Locals} {w w₁ w₂ w₃ w₄ : ILRewriterWrapper}
    {cb : Callback} {p : InstrPtr} (hw : HasEmitted c [] w)
    (hcallback : emitEndMethod profiler tokens caller isVoid locals w = .ok (cb, w₁))
    (hfinally : endFinally w₁ = .ok (p, w₂))
    (htryLeave : setTarget cb.tryLeave p w₂ = .ok ((), w₃))
    (hcatchLeave : setTarget cb.handler.catchLeaveInstr p w₃ = .ok ((), w₄)) :
    ∃ callback finallyInstr, HasEmitted c (callback ++ [finallyInstr]) w₄
      ∧ p = .instr finallyInstr.ptr ∧ finallyInstr.opcode = ceeEndfinally
      ∧ BranchesTo (callback ++ [finallyInstr]) callback
      ∧ ∃ methodSpec, tokens.endMethod = some methodSpec ∧ Calls methodSpec callback := by
  have hstart : Emitting c [] w := ⟨[], rfl, hw⟩
  obtain ⟨block, hw₁, hisCallback⟩ :=
    emitEndMethod_isCallback profiler tokens caller isVoid locals (List.nil_subset _) hstart
      hcallback
  obtain ⟨block', hw₁', methodSpec, hspec, hcalls⟩ :=
    emitEndMethod_calls profiler tokens caller isVoid locals (List.nil_subset _) hstart hcallback
  obtain rfl : block' = block := hw₁'.unique hw₁
  obtain ⟨_, hw₂, n, rfl, rfl⟩ :=
    createInstr_inserts (by decide) 0 (List.subset_append_right [] block') hw₁ hfinally
  obtain ⟨tryBlock, _, rfl, hblocks⟩ := hisCallback
  obtain ⟨i, hi, htry⟩ := hblocks.tryLeave
  obtain ⟨filterBlock, catchBlock, rfl, hhandler⟩ := hblocks.handler
  obtain ⟨j, hj, hcatch⟩ := hhandler.catchLeaveInstr.mem
  rw [List.nil_append] at hw₂
  obtain ⟨_, hw₃, rfl⟩ := setTarget_inserts ⟨i, by simp [hi], htry⟩
    (.inr ⟨⟨n, ceeEndfinally, .il, 0⟩, by simp, rfl⟩) (List.Subset.refl _) hw₂ htryLeave
  rw [List.append_nil] at hw₃
  obtain ⟨_, hw₄, rfl⟩ := setTarget_inserts ⟨j, by simp [hj], hcatch⟩
    (.inr ⟨⟨n, ceeEndfinally, .il, 0⟩, by simp, rfl⟩) (List.Subset.refl _) hw₃ hcatchLeave
  rw [List.append_nil] at hw₄
  -- where the branches go
  have haimed := hw.aimed_nil ∅
  obtain ⟨_, haimed₁, rfl⟩ :=
    emitEndMethod_aims profiler tokens caller isVoid locals haimed hcallback
  obtain ⟨_, haimed₂, rfl, habove⟩ := createPlain_settles rfl _ haimed₁ hfinally
  obtain ⟨_, haimed₃, rfl⟩ := setTarget_aims (.inl habove) haimed₂ htryLeave
  obtain ⟨_, haimed₄, rfl⟩ := setTarget_aims (.inl habove) haimed₃ hcatchLeave
  have hsettled : Aimed ⟨c.base, headPtr c.post, ∅⟩ ∅ w₄ := by
    refine haimed₄.mono ?_
    rintro q ⟨⟨rfl | rfl | hq, hne⟩, hne'⟩
    · exact absurd rfl hne'
    · exact absurd rfl hne
    · exact hq
  obtain ⟨new, hnew, hw₄⟩ := hw₄
  obtain ⟨callback, last, rfl, hblock, hend⟩ := List.map_eq_append_iff.mp hnew
  obtain ⟨finallyInstr, rfl, hlast⟩ := List.map_eq_singleton_iff.mp hend
  have hptr : (erased finallyInstr).ptr = n := by rw [hlast]
  rw [erased_ptr] at hptr
  refine ⟨callback, finallyInstr, hw₄, by rw [hptr], congrArg ILInstr.opcode hlast, ?_, methodSpec,
    hspec, ?_⟩
  · exact fun i hi => hw₄.branchesTo hsettled i (List.mem_append_left _ hi)
  · obtain ⟨i, hi, hopcode, harg⟩ := hcalls
    rw [← hblock] at hi
    obtain ⟨j, hj, rfl⟩ := List.mem_map.mp hi
    exact ⟨j, hj, hopcode, harg⟩

/-- **The ending.** -/
theorem emitEnding_blocks {c : Context} {profiler : CorProfiler} {tokens : TracerTokens}
    {caller : FunctionInfo} {isVoid : Bool} {locals : Locals} {begin : Callback}
    {methodReturnInstr : InstrPtr} {w w' : ILRewriterWrapper} {m : Emitted}
    (hw : HasEmitted c [] w)
    (h : emitEnding profiler tokens caller isVoid locals begin methodReturnInstr w
      = .ok (m, w')) :
    ∃ catchInstr rethrowInstr callback finallyInstr rest,
      w'.rewriter.instrs = c.pre ++ (catchInstr :: rethrowInstr
        :: (callback ++ finallyInstr :: rest)) ++ c.post
      ∧ Ending tokens m catchInstr rethrowInstr callback finallyInstr rest := by
  obtain ⟨startExceptionCatch, w₁, hcatch, h⟩ := Emit.bind_eq_ok h
  obtain ⟨rethrowPtr, w₂, hrethrow, h⟩ := Emit.bind_eq_ok h
  obtain ⟨end_, w₃, hend, h⟩ := Emit.bind_eq_ok h
  obtain ⟨endFinallyInstr, w₄, hfinally, h⟩ := Emit.bind_eq_ok h
  obtain ⟨_, w₅, htryLeave, h⟩ := Emit.bind_eq_ok h
  obtain ⟨_, w₆, hcatchLeave, h⟩ := Emit.bind_eq_ok h
  obtain ⟨_, w₇, hvalue, h⟩ := Emit.bind_eq_ok h
  cases h
  have hstart : Emitting c [] w := ⟨[], rfl, hw⟩
  obtain ⟨_, hw₁, i, rfl, rfl, hlocal⟩ :=
    stLocal_isLocal locals.exception (List.nil_subset _) hstart hcatch
  obtain ⟨_, hw₂, n, rfl, rfl⟩ :=
    createInstr_inserts (by decide) 0 (List.nil_subset _) hw₁ hrethrow
  obtain ⟨new, hnew, hw₂⟩ := hw₂
  obtain ⟨catchInstr, _, rfl, rfl, htail⟩ := List.map_eq_cons_iff.mp hnew
  obtain ⟨rethrowInstr, rfl, hrethrowInstr⟩ := List.map_eq_singleton_iff.mp htail
  obtain ⟨callback, finallyInstr, hw₆, rfl, hopcode, hbranches, hcalls⟩ :=
    emitEndMethod_blocks hw₂.rebase hend hfinally htryLeave hcatchLeave
  -- the value that is returned
  have hrest : Inserts ⟨c.pre ++ [catchInstr, rethrowInstr] ++ (callback ++ [finallyInstr]), c.post,
      w₆.rewriter.nInstrs, c.eh⟩ [] (Emit.when (!isVoid) (loadLocal locals.returnValue))
      fun _ block => ∀ i ∈ block, i.opcode ∈ localOpcodes := by
    refine .ite (fun _ => (loadLocal_isLocal _).bind ?_) fun _ => .pure (fun _ hi => by cases hi)
    rintro p block ⟨i, rfl, -, hi⟩
    exact .pure fun j hj => by
      rw [List.append_nil, List.mem_singleton] at hj
      rwa [hj]
  obtain ⟨block, ⟨rest, hblock, hw₇⟩, hopcodes⟩ :=
    hrest (List.nil_subset _) ⟨[], rfl, hw₆.rebase⟩ hvalue
  rw [List.map_nil, List.nil_append] at hblock
  refine ⟨catchInstr, rethrowInstr, callback, finallyInstr, rest, ?_, hcalls, rfl, ?_, rfl,
    goesOn_of_local hlocal, ?_, fun i hi => hw₆.opcodes i (List.mem_append_left _ hi), hbranches,
    hopcode, fun i hi => goesOn_of_local (hopcodes (erased i) (hblock ▸ List.mem_map_of_mem hi))⟩
  · rw [hw₇.instrs]
    simp only [List.append_assoc, List.cons_append, List.nil_append]
  · have hptr : (erased rethrowInstr).ptr = n := by rw [hrethrowInstr]
    exact congrArg InstrPtr.instr hptr.symm
  · exact congrArg ILInstr.opcode hrethrowInstr

/-! ### The method -/

/-- The code in front of the method: it is left by jumps to the method, and ends with one. -/
structure Beginning (is begin : List ILInstr) : Prop where
  opcodes : ∀ i ∈ begin, i.opcode ∈ emittedOpcodes
  branches : ∀ i ∈ begin, (opCodeFlags i.opcode).branchTarget = true →
    (∃ j ∈ begin, i.target = .instr j.ptr) ∨ i.opcode = ceeLeaveS ∧ i.target = headPtr is
  last : ∃ front i, begin = front ++ [i] ∧ i.opcode = ceeLeaveS

/-- The list of `t`: the instructions of `is`, whose returns are replaced, and the blocks
around them. -/
structure Blocks (tokens : TracerTokens) (is : List ILInstr) (isVoid : Bool) (m : Emitted)
    (begin body : List ILInstr) (catchInstr rethrowInstr : ILInstr) (callback : List ILInstr)
    (finallyInstr : ILInstr) (rest : List ILInstr) (methodReturn : ILInstr) (t : ILRewriter) :
    Prop where
  instrs : t.instrs = begin ++ body ++ (catchInstr :: rethrowInstr
    :: (callback ++ finallyInstr :: rest)) ++ [methodReturn]
  nodup : (t.instrs.map (·.ptr)).Nodup
  beginning : Beginning is begin
  body : ∃ n, body = replaceReturns isVoid m.locals.returnValue m.methodReturnInstr
    (headPtr (rest ++ [methodReturn])) n is
  isReturn : ∀ i ∈ is, IsReturn m.methodReturnInstr i ↔ i.opcode = ceeRet
  ending : Ending tokens m catchInstr rethrowInstr callback finallyInstr rest
  methodReturn : methodReturn.opcode = ceeRet

/-- The jumps to the method are the two of the callback. -/
theorem HasEmitted.beginning {c : Context} {begin : List ILInstr} {w : ILRewriterWrapper}
    {cb : Callback} (h : HasEmitted c begin w) (hleaves : LeavesTwice cb (begin.map erased))
    (hsettled : ∃ rest, Aimed ⟨c.base, headPtr c.post, {headPtr c.post}⟩ rest w
      ∧ rest = ∅ ∧ True)
    (hpending : ∃ rest, Aimed ⟨c.base, headPtr c.post, ∅⟩ rest w
      ∧ rest = insert cb.handler.catchLeaveInstr (insert cb.tryLeave ∅)) :
    Beginning c.post begin := by
  obtain ⟨_, hsettled, rfl, -⟩ := hsettled
  obtain ⟨_, hpending, rfl⟩ := hpending
  obtain ⟨tryBlock, handlerBlock, hsplit, htry, hhandler⟩ := hleaves
  have hnodup : (begin.map (·.ptr)).Nodup := by
    have hnodup := h.nodup
    rw [List.map_append, List.map_append] at hnodup
    exact (List.nodup_append.mp (List.nodup_append.mp hnodup).1).2.1
  refine ⟨h.opcodes, fun i hi hbranch => ?_, ?_⟩
  · have hmem : i ∈ w.rewriter.instrs := by
      rw [h.instrs]
      exact List.mem_append_left _ (List.mem_append_right _ hi)
    have hlinked := h.targets i hi
    have hfresh := (h.fresh i hi).1
    rcases hpending.targets i hmem hfresh hbranch with hjump | habove | hnone
    · -- one of the two jumps
      have hopcode : i.opcode = ceeLeaveS := by
        rcases hjump with hp | hp | hp
        · exact hhandler.opcode (hsplit ▸ List.subset_append_right _ _) hnodup hi hp
        · exact htry.opcode (hsplit ▸ List.subset_append_left _ _) hnodup hi hp
        · cases hp
      rcases hsettled.targets i hmem hfresh hbranch with hp | habove | hhere
      · cases hp
      · exact .inl (h.mem_of_above hlinked habove)
      · exact .inr ⟨hopcode, hhere⟩
    · exact .inl (h.mem_of_above hlinked habove)
    · cases hnone
  · obtain ⟨front, n, rfl, -⟩ := hhandler
    rw [← List.append_assoc] at hsplit
    obtain ⟨front, last, rfl, -, hlast⟩ := List.map_eq_append_iff.mp hsplit
    obtain ⟨i, rfl, hi⟩ := List.map_eq_singleton_iff.mp hlast
    exact ⟨front, i, rfl, congrArg ILInstr.opcode hi⟩

theorem emitAround_blocks {profiler : CorProfiler} {tokens : TracerTokens}
    {caller : FunctionInfo} {retTypeFlags : TypeFlags} {s : ILRewriter} {m : Emitted}
    {w : ILRewriterWrapper} (hnodup : (s.instrs.map (·.ptr)).Nodup)
    (hallocated : ∀ i ∈ s.instrs, i.ptr ≤ s.nInstrs) (htiny : s.fGenerateTinyHeader = false)
    (h : emitAround profiler tokens caller retTypeFlags ⟨s, headPtr s.instrs⟩ = .ok (m, w)) :
    ∃ begin catchInstr rethrowInstr callback finallyInstr rest methodReturn,
      w.rewriter.instrs = begin ++ s.instrs ++ (catchInstr :: rethrowInstr
        :: (callback ++ finallyInstr :: rest)) ++ [methodReturn]
      ∧ Beginning s.instrs begin
      ∧ Ending tokens m catchInstr rethrowInstr callback finallyInstr rest
      ∧ methodReturn.opcode = ceeRet ∧ m.methodReturnInstr = .instr methodReturn.ptr
      ∧ s.nInstrs < methodReturn.ptr := by
  obtain ⟨⟨locals, cb⟩, w₁, hbegin, h⟩ := Emit.bind_eq_ok h
  obtain ⟨p, w₂, hreturn, hending⟩ := Emit.bind_eq_ok h
  have hstart := emitting_nil hnodup hallocated htiny
  obtain ⟨_, hw₁, hleaves⟩ :=
    emitBeginMethod_leaves profiler tokens caller retTypeFlags (List.nil_subset _) hstart hbegin
  obtain ⟨begin, methodReturn, hblock, hw₁, hopcode, rfl, hlt, hw₂⟩ :=
    createReturn_emitting hw₁ hreturn
  rw [List.nil_append] at hblock
  obtain ⟨new, hnew, hw₂⟩ := hw₂
  obtain rfl := List.map_eq_nil_iff.mp hnew
  obtain ⟨catchInstr, rethrowInstr, callback, finallyInstr, rest, hinstrs, hblocks⟩ :=
    emitEnding_blocks hw₂ hending
  obtain ⟨-, -, -, -, hmethodReturn, -⟩ :=
    emitEnding_isEnding profiler tokens caller retTypeFlags.void locals cb
      (.instr methodReturn.ptr) (List.nil_subset _) ⟨[], rfl, hw₂⟩ hending
  refine ⟨begin, catchInstr, rethrowInstr, callback, finallyInstr, rest, methodReturn, ?_,
    ?_, hblocks, hopcode, ?_, Nat.lt_of_le_of_lt hw₁.base hlt⟩
  · rw [hinstrs]
    simp only [List.nil_append]
  · obtain ⟨new, hnew, hw⟩ := hstart
    obtain rfl := List.map_eq_nil_iff.mp hnew
    exact hw₁.beginning (hblock ▸ hleaves)
      (emitBeginMethod_settles profiler tokens caller retTypeFlags (Set.mem_singleton _) ∅
        (hw.aimed_nil {headPtr s.instrs}) hbegin)
      (emitBeginMethod_pending profiler tokens caller retTypeFlags (hw.aimed_nil ∅) hbegin)
  · exact hmethodReturn

theorem nextPtr_middle {front rest : List ILInstr} {i : ILInstr}
    (hnodup : ((front ++ i :: rest).map (·.ptr)).Nodup) :
    nextPtr (front ++ i :: rest) (.instr i.ptr) = headPtr rest := by
  have hget : (front ++ i :: rest)[front.length]? = some i := by
    rw [List.getElem?_append_right (Nat.le_refl _), Nat.sub_self]
    rfl
  have hdrop : (front ++ i :: rest).drop (front.length + 1) = rest := by
    rw [List.append_cons]
    exact List.drop_left' (by simp)
  rw [nextPtr_getElem hnodup hget, hdrop]

/-- **The blocks of a rewritten method.** -/
theorem emitMethod_blocks {profiler : CorProfiler} {tokens : TracerTokens}
    {caller : FunctionInfo} {retTypeFlags : TypeFlags} {s t : ILRewriter}
    {clauses : List (Option EHClause)} (hclosed : Closed s.instrs)
    (hallocated : ∀ i ∈ s.instrs, i.ptr ≤ s.nInstrs) (htiny : s.fGenerateTinyHeader = false)
    (h : emitMethod profiler tokens caller retTypeFlags ⟨s, headPtr s.instrs⟩
      = .ok (clauses, t)) :
    ∃ m begin body catchInstr rethrowInstr callback finallyInstr rest methodReturn,
      clauses = m.clauses tokens t.instrs
      ∧ Blocks tokens s.instrs retTypeFlags.void m begin body catchInstr rethrowInstr callback
        finallyInstr rest methodReturn t := by
  obtain ⟨⟨m, w⟩, haround, h⟩ := IL.bind_eq_ok h
  obtain ⟨t', hreturns, h⟩ := IL.bind_eq_ok h
  cases h
  obtain ⟨_, _, _, ha⟩ := emitAround_spec hclosed.nodup hallocated htiny haround
  obtain ⟨begin, catchInstr, rethrowInstr, callback, finallyInstr, rest, methodReturn, hinstrs,
    hbegin, hending, hreturn, hmethodReturn, hlt⟩ :=
    emitAround_blocks hclosed.nodup hallocated htiny haround
  have hstart : Lists w.rewriter ([] ++ w.rewriter.instrs) := ⟨rfl, ha.nodup, ha.allocated⟩
  obtain ⟨hlists, -, -⟩ := changeReturns_spec hstart hreturns
  have htarget :
      nextPtr w.rewriter.instrs m.endFinallyInstr = headPtr (rest ++ [methodReturn]) := by
    have hsplit : w.rewriter.instrs = (begin ++ s.instrs ++ catchInstr :: rethrowInstr :: callback)
        ++ finallyInstr :: (rest ++ [methodReturn]) := by
      rw [hinstrs]
      simp only [List.append_assoc, List.cons_append]
    have hnodup := ha.nodup
    rw [hsplit] at hnodup ⊢
    rw [hending.endFinallyInstr]
    exact nextPtr_middle hnodup
  have hnone {is : List ILInstr} (his : ∀ i ∈ is, i.opcode ≠ ceeRet) :
      ∀ i ∈ is, ¬IsReturn m.methodReturnInstr i := fun i hi hr => his i hi hr.1
  have hlast : ∀ i ∈ [methodReturn], ¬IsReturn m.methodReturnInstr i := by
    intro i hi hr
    rw [List.mem_singleton.mp hi, hmethodReturn] at hr
    exact hr.2 rfl
  have hgoesOn {i : ILInstr} (hi : GoesOn i) : i.opcode ≠ ceeRet := by
    intro heq
    have hflow := hi []
    rw [flowOf, if_pos heq] at hflow
    cases hflow
  have hendingRet : ∀ i ∈ catchInstr :: rethrowInstr :: (callback ++ finallyInstr :: rest),
      i.opcode ≠ ceeRet := by
    intro i hi
    simp only [List.mem_cons, List.mem_append] at hi
    rcases hi with rfl | rfl | hi | rfl | hi
    · exact hgoesOn hending.catchInstr
    · rw [hending.rethrow]
      decide
    · exact emittedOpcodes_ne_ret _ (hending.opcodes i hi)
    · rw [hending.endFinally]
      decide
    · exact hgoesOn (hending.rest i hi)
  have hnew := hlists.instrs
  rw [List.nil_append, hinstrs, replaceReturns_append, replaceReturns_append,
    replaceReturns_append,
    replaceReturns_of_no_return _ (hnone fun i hi => emittedOpcodes_ne_ret _ (hbegin.opcodes i hi)),
    replaceReturns_of_no_return _ (hnone hendingRet), replaceReturns_of_no_return _ hlast,
    ← hinstrs, htarget] at hnew
  refine ⟨m, begin, _, catchInstr, rethrowInstr, callback, finallyInstr, rest, methodReturn, rfl,
    hnew, ?_, hbegin, ⟨_, rfl⟩, ?_, hending, hreturn⟩
  · rw [hlists.instrs]
    exact hlists.nodup
  · intro i hi
    refine ⟨fun hr => hr.1, fun hop => ⟨hop, fun heq => ?_⟩⟩
    rw [hmethodReturn] at heq
    have hle := hallocated i hi
    have hptr : i.ptr = methodReturn.ptr := InstrPtr.instr.inj heq
    omega

end AutoInstrumentation.CallTarget
