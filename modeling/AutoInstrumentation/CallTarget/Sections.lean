import AutoInstrumentation.CallTarget.Emission

/-!
# AutoInstrumentation.CallTarget.Sections

The blocks that the sections of `Rewrite` emit, from the methods of the wrapper up to the
begin method part and the end method part.
-/

namespace AutoInstrumentation.CallTarget

open AutoInstrumentation.IL

variable {c : Context} {known : List ILInstr}

/-! ### The methods of the wrapper -/

/-- The block is the instruction that `p` is the address of. -/
def IsOne (p : InstrPtr) (block : List ILInstr) : Prop := ∃ i, block = [i] ∧ p = .instr i.ptr

/-- The block begins with the instruction that `p` is the address of. -/
def StartsWith (p : InstrPtr) (block : List ILInstr) : Prop :=
  ∃ i rest, block = i :: rest ∧ p = .instr i.ptr

/-- The block ends with the instruction that `p` is the address of. -/
def EndsWith (p : InstrPtr) (block : List ILInstr) : Prop :=
  ∃ front i, block = front ++ [i] ∧ p = .instr i.ptr

theorem IsOne.startsWith {p : InstrPtr} {block : List ILInstr} (h : IsOne p block)
    (rest : List ILInstr) : StartsWith p (block ++ rest) := by
  obtain ⟨i, rfl, rfl⟩ := h
  exact ⟨i, rest, rfl, rfl⟩

theorem IsOne.mem {p : InstrPtr} {block : List ILInstr} (h : IsOne p block) :
    ∃ i ∈ block, p = .instr i.ptr := by
  obtain ⟨i, rfl, rfl⟩ := h
  exact ⟨i, List.mem_singleton_self i, rfl⟩

theorem StartsWith.append {p : InstrPtr} {block : List ILInstr} (h : StartsWith p block)
    (rest : List ILInstr) : StartsWith p (block ++ rest) := by
  obtain ⟨i, front, rfl, rfl⟩ := h
  exact ⟨i, front ++ rest, rfl, rfl⟩

theorem IsOne.endsWith {p : InstrPtr} {block : List ILInstr} (h : IsOne p block)
    (front : List ILInstr) : EndsWith p (front ++ block) := by
  obtain ⟨i, rfl, rfl⟩ := h
  exact ⟨front, i, rfl, rfl⟩

theorem StartsWith.mem {p : InstrPtr} {block : List ILInstr} (h : StartsWith p block) :
    ∃ i ∈ block, p = .instr i.ptr := by
  obtain ⟨i, rest, rfl, rfl⟩ := h
  exact ⟨i, List.mem_cons_self, rfl⟩

theorem EndsWith.mem {p : InstrPtr} {block : List ILInstr} (h : EndsWith p block) :
    ∃ i ∈ block, p = .instr i.ptr := by
  obtain ⟨front, i, rfl, rfl⟩ := h
  exact ⟨i, List.mem_append_right _ (List.mem_singleton_self i), rfl⟩

theorem createInstr_one {opCode : ℕ} (hop : opCode ∈ emittedOpcodes) (arg : BitVec 64) :
    Inserts c known (createInstr opCode arg) IsOne :=
  (createInstr_inserts hop arg).mono fun _ _ ⟨_, hp, hblock⟩ => ⟨_, hblock, hp⟩

theorem createPlain_one {opCode : ℕ} (hop : opCode ∈ emittedOpcodes) :
    Inserts c known (createPlain opCode) IsOne := createInstr_one hop _

theorem createWithToken_one {opCode : ℕ} (hop : opCode ∈ emittedOpcodes) (token : Token) :
    Inserts c known (createWithToken opCode token) IsOne := createInstr_one hop _

theorem callMember_one (memberRef : Token) (isVirtual : Bool) :
    Inserts c known (callMember memberRef isVirtual) IsOne := by
  cases isVirtual with
  | false => exact createWithToken_one (by decide) memberRef
  | true => exact createWithToken_one (by decide) memberRef

theorem loadInt32_one (value : ℤ) : Inserts c known (loadInt32 value) IsOne := by
  refine .ite (fun h => createPlain_one ?_) fun _ => .ite (fun _ => createInstr_one (by decide) _)
    fun _ => createInstr_one (by decide) _
  have hsmall : value.toNat ≤ 8 := by omega
  interval_cases value.toNat <;> decide

theorem createVar_one {opcode0 opcodeS opcode : ℕ}
    (h0 : ∀ index ≤ 3, opcode0 + index ∈ emittedOpcodes) (hS : opcodeS ∈ emittedOpcodes)
    (h : opcode ∈ emittedOpcodes) (index : ℕ) :
    Inserts c known (createVar opcode0 opcodeS opcode index) IsOne :=
  .ite (fun hindex => createPlain_one (h0 index hindex)) fun _ =>
    .ite (fun _ => createInstr_one hS _) fun _ => createInstr_one h _

theorem loadArgument_one (index : ℕ) : Inserts c known (loadArgument index) IsOne :=
  createVar_one (by decide) (by decide) (by decide) _

theorem stLocal_one (index : ℕ) : Inserts c known (stLocal index) IsOne :=
  createVar_one (by decide) (by decide) (by decide) _

theorem loadLocal_one (index : ℕ) : Inserts c known (loadLocal index) IsOne :=
  createVar_one (by decide) (by decide) (by decide) _

theorem loadArgumentRef_one (index : ℕ) : Inserts c known (loadArgumentRef index) IsOne :=
  .ite (fun _ => createInstr_one (by decide) _) fun _ => createInstr_one (by decide) _

theorem loadLocalAddress_one (index : ℕ) : Inserts c known (loadLocalAddress index) IsOne :=
  .ite (fun _ => createInstr_one (by decide) _) fun _ => createInstr_one (by decide) _

/-! ### Sections whose block does not matter -/

/-- An emission of some block. -/
abbrev InsertsSome {α : Type} (c : Context) (known : List ILInstr) (m : Emit α) : Prop :=
  Inserts c known m fun _ _ => True

theorem Inserts.some {α : Type} {m : Emit α} {Q : α → List ILInstr → Prop}
    (hm : Inserts c known m Q) : InsertsSome c known m := hm.mono fun _ _ _ => trivial

/-- One emission after another, when the blocks do not matter. -/
theorem InsertsSome.seq {α β : Type} {m : Emit α} {f : α → Emit β} {P : β → Prop}
    (hm : InsertsSome c known m)
    (hf : ∀ a block, Inserts c (known ++ block) (f a) fun b _ => P b) :
    Inserts c known (m >>= f) fun b _ => P b :=
  hm.bind fun a block _ => hf a block

theorem InsertsSome.pure {α : Type} (a : α) : InsertsSome c known (Pure.pure a : Emit α) :=
  Inserts.pure trivial

/-- Behind the first instruction. -/
theorem Inserts.startsWith {α : Type} {m : Emit InstrPtr} {f : InstrPtr → Emit α}
    {g : α → InstrPtr} (hm : Inserts c known m IsOne)
    (hf : ∀ p block, Inserts c (known ++ block) (f p) fun a _ => g a = p) :
    Inserts c known (m >>= f) fun a block => StartsWith (g a) block := by
  refine hm.bind fun p block hp => (hf p block).mono ?_
  rintro a rest rfl
  exact hp.startsWith rest

theorem when_some {α : Type} {m : Emit α} (hm : InsertsSome c known m) (condition : Bool) :
    InsertsSome c known (Emit.when condition m) :=
  .ite (fun _ => hm.seq fun _ _ => InsertsSome.pure ()) fun _ => InsertsSome.pure ()

theorem writeRefStructCall_some (tokens : TracerTokens) (refStructTypeRef : Token)
    (refStructIndex : ℕ) :
    InsertsSome c known (writeRefStructCall tokens refStructTypeRef refStructIndex) := by
  refine InsertsSome.seq Inserts.ofOption.some fun _ _ => ?_
  refine InsertsSome.seq (createPlain_one (by decide)).some fun _ _ => ?_
  refine InsertsSome.seq (createWithToken_one (by decide) _).some fun _ _ => ?_
  refine InsertsSome.seq (callMember_one _ _).some fun _ _ => ?_
  refine InsertsSome.seq (stLocal_one _).some fun _ _ => ?_
  exact InsertsSome.seq (loadLocalAddress_one _).some fun _ _ => .pure trivial

theorem loadArgumentsFast_some (profiler : CorProfiler) (tokens : TracerTokens)
    (refStructs : ℕ → ℕ) (firstArg i structRefCount : ℕ) (arguments : List Argument) :
    InsertsSome c known
      (loadArgumentsFast profiler tokens refStructs firstArg i structRefCount arguments) := by
  induction arguments generalizing known i structRefCount with
  | nil => exact InsertsSome.pure ()
  | cons a as ih =>
      rw [loadArgumentsFast]
      refine .ite (fun _ => ?_) fun _ => ?_
      · refine InsertsSome.seq (.ite (fun _ => (loadArgument_one _).some)
          fun _ => (loadArgumentRef_one _).some) fun _ _ => ?_
        exact .ite (fun _ => (writeRefStructCall_some _ _ _).seq fun _ _ => ih _ _)
          fun _ => ih _ _
      · exact InsertsSome.seq (loadArgument_one _).some fun _ _ =>
          .ite (fun _ => .skip) fun _ => ih _ _

theorem loadArgumentsSlow_some (firstArg i : ℕ) (arguments : List Argument) :
    InsertsSome c known (loadArgumentsSlow firstArg i arguments) := by
  induction arguments generalizing known i with
  | nil => exact InsertsSome.pure ()
  | cons a as ih =>
      have hbegin (known : List ILInstr) : InsertsSome c known (beginLoadValueIntoArray i) :=
        InsertsSome.seq (createPlain_one (by decide)).some fun _ _ =>
          InsertsSome.seq (loadInt32_one _).some fun _ _ => .pure trivial
      refine (hbegin known).seq fun _ _ => ?_
      refine InsertsSome.seq (loadArgument_one _).some fun _ _ => ?_
      refine .ite (fun _ => .skip) fun _ => ?_
      refine InsertsSome.seq (when_some (.ite (fun _ => .skip)
        fun _ => (createWithToken_one (by decide) _).some) _) fun _ _ => ?_
      exact InsertsSome.seq (createPlain_one (by decide)).some fun _ _ => ih _

theorem loadMethodArguments_some (profiler : CorProfiler) (tokens : TracerTokens)
    (caller : FunctionInfo) (refStructs : ℕ → ℕ) :
    InsertsSome c known (loadMethodArguments profiler tokens caller refStructs) := by
  refine .ite (fun _ => .ite (fun _ => loadArgumentsFast_some ..) fun _ => ?_) fun _ => ?_
  · have harray : InsertsSome c known
        (createArray tokens.objectTypeRef caller.arguments.length) :=
      InsertsSome.seq (loadInt32_one _).some fun _ _ =>
        InsertsSome.seq (createWithToken_one (by decide) _).some fun _ _ => .pure trivial
    exact harray.seq fun _ _ => loadArgumentsSlow_some ..
  · exact InsertsSome.seq (createWithToken_one (by decide) _).some fun _ _ =>
      InsertsSome.seq (createWithToken_one (by decide) _).some fun _ _ => .pure trivial

/-! ### The first instructions of the sections -/

theorem modifyLocalSig_none (profiler : CorProfiler) (tokens : TracerTokens)
    (retTypeFlags : TypeFlags) (arguments : List Argument) :
    Inserts c known (modifyLocalSig profiler tokens retTypeFlags arguments)
      fun _ block => block = [] := by
  rintro shape w locals w' - ⟨new, rfl, hw⟩ hrun
  rw [modifyLocalSig] at hrun
  split at hrun
  · cases hrun
  · cases hrun
    refine ⟨[], ⟨new, (List.append_nil _).symm, ?_⟩, rfl⟩
    exact ⟨hw.instrs, hw.position, hw.nodup, hw.old, hw.fresh, hw.base, hw.opcodes, hw.targets,
      hw.eh, rfl⟩

theorem modifyLocalSigAndInitialize_startsWith (profiler : CorProfiler) (tokens : TracerTokens)
    (retTypeFlags : TypeFlags) (arguments : List Argument) :
    Inserts c known (modifyLocalSigAndInitialize profiler tokens retTypeFlags arguments)
      fun r block => StartsWith r.2 block := by
  refine (modifyLocalSig_none profiler tokens retTypeFlags arguments).bind ?_
  rintro locals block rfl
  simp only [List.nil_append]
  refine .ite (fun _ => .ite (fun _ => .skip) fun _ => ?_) fun _ => ?_
  · refine Inserts.startsWith (callMember_one _ _) fun first _ => ?_
    refine InsertsSome.seq (stLocal_one _).some fun _ _ => ?_
    refine InsertsSome.seq (callMember_one _ _).some fun _ _ => ?_
    refine InsertsSome.seq (stLocal_one _).some fun _ _ => ?_
    refine InsertsSome.seq (createPlain_one (by decide)).some fun _ _ => ?_
    exact InsertsSome.seq (stLocal_one _).some fun _ _ => .pure rfl
  · refine Inserts.startsWith (callMember_one _ _) fun first _ => ?_
    refine InsertsSome.seq (stLocal_one _).some fun _ _ => ?_
    refine InsertsSome.seq (createPlain_one (by decide)).some fun _ _ => ?_
    exact InsertsSome.seq (stLocal_one _).some fun _ _ => .pure rfl

theorem loadInstance_startsWith (tokens : TracerTokens) (caller : FunctionInfo) :
    Inserts c known (loadInstance tokens caller) StartsWith := by
  have hone {m : Emit InstrPtr} (hm : Inserts c known m IsOne) : Inserts c known m StartsWith := by
    refine hm.mono ?_
    rintro p block ⟨i, rfl, rfl⟩
    exact ⟨i, [], rfl, rfl⟩
  have hnull : Inserts c known (createPlain ceeLdnull) StartsWith :=
    hone (createPlain_one (by decide))
  refine .ite (fun _ => .ite (fun _ => .skip) fun _ => hnull) fun _ =>
    .ite (fun _ => hnull) fun _ => ?_
  refine Inserts.startsWith (g := id) (loadArgument_one 0) fun first _ => ?_
  have hobj (token : Token) (known : List ILInstr) :
      Inserts c known (loadObj token >>= fun _ => pure first) fun p _ => p = first :=
    InsertsSome.seq (createWithToken_one (by decide) _).some fun _ _ => .pure rfl
  exact .ite (fun _ => .ite (fun _ => hobj _ _) fun _ => .ite (fun _ => .skip) fun _ => hobj _ _)
    fun _ => .pure rfl

/-! ### The handlers of the callbacks -/

/-- `p` is the address of an instruction of the list. -/
def Known (known : List ILInstr) (p : InstrPtr) : Prop := ∃ i ∈ known, p = .instr i.ptr

theorem Known.append {p : InstrPtr} (h : Known known p) (block : List ILInstr) :
    Known (known ++ block) p := by
  obtain ⟨i, hi, hp⟩ := h
  exact ⟨i, List.mem_append_left _ hi, hp⟩

theorem IsOne.isKnown {p : InstrPtr} {block : List ILInstr} (h : IsOne p block) :
    Known (known ++ block) p := by
  obtain ⟨i, rfl, rfl⟩ := h
  exact ⟨i, List.mem_append_right _ (List.mem_singleton_self i), rfl⟩

theorem setTarget_known {p target : InstrPtr} (hp : Known known p)
    (htarget : target = headPtr c.post ∨ Known known target) :
    InsertsSome c known (setTarget p target) := (setTarget_inserts hp htarget).some

theorem createFilterForException_startsWith (profiler : CorProfiler) (tokens : TracerTokens)
    (exceptionValueIndex : ℕ) :
    Inserts c known (createFilterForException profiler tokens exceptionValueIndex) StartsWith := by
  refine Inserts.startsWith (g := id) (createWithToken_one (by decide) _) fun filter _ => ?_
  refine InsertsSome.seq (createPlain_one (by decide)).some fun _ _ => ?_
  refine (createPlain_one (by decide)).bind fun isException _ hisException => ?_
  refine InsertsSome.seq (createPlain_one (by decide)).some fun _ _ => ?_
  refine InsertsSome.seq (loadInt32_one 0).some fun _ _ => ?_
  refine (createPlain_one (by decide)).bind fun endNotException _ hendNotException => ?_
  refine (stLocal_one _).bind fun storeException _ hstoreException => ?_
  obtain ⟨i, rfl, rfl⟩ := hisException
  obtain ⟨j, rfl, rfl⟩ := hendNotException
  obtain ⟨k, rfl, rfl⟩ := hstoreException
  refine InsertsSome.seq (setTarget_known ⟨i, by simp, rfl⟩ (.inr ⟨k, by simp, rfl⟩)) fun _ _ => ?_
  refine InsertsSome.seq (loadLocal_one _).some fun _ _ => ?_
  refine InsertsSome.seq (.ite (fun _ => (callMember_one _ _).some) fun _ =>
    InsertsSome.seq (createWithToken_one (by decide) _).some fun _ _ =>
      InsertsSome.seq (createPlain_one (by decide)).some fun _ _ =>
        (createPlain_one (by decide)).some) fun _ _ => ?_
  refine InsertsSome.seq (loadInt32_one 0).some fun _ _ => ?_
  refine InsertsSome.seq (createPlain_one (by decide)).some fun _ _ => ?_
  refine InsertsSome.seq (loadInt32_one 0).some fun _ _ => ?_
  refine InsertsSome.seq (createPlain_one (by decide)).some fun _ _ => ?_
  refine (createPlain_one (by decide)).bind fun endFilter _ hendFilter => ?_
  obtain ⟨l, rfl, rfl⟩ := hendFilter
  exact InsertsSome.seq (setTarget_known ⟨j, by simp, rfl⟩ (.inr ⟨l, by simp, rfl⟩))
    fun _ _ => .pure rfl

theorem writeLogException_first (logException : Option Token) (first : InstrPtr) :
    Inserts c known (writeLogException logException (some first))
      fun catchFirstInstr _ => catchFirstInstr = some first := by
  cases logException with
  | none => exact .pure rfl
  | some methodSpec => exact InsertsSome.seq (callMember_one _ _).some fun _ _ => .pure rfl

theorem writeLogException_startsWith (logException : Option Token) :
    Inserts c known (writeLogException logException none)
      fun catchFirstInstr block => ∀ p, catchFirstInstr = some p → StartsWith p block := by
  cases logException with
  | none => exact .pure fun p hp => by cases hp
  | some methodSpec =>
      refine (callMember_one _ _).bind fun call block hcall => .pure fun p hp => ?_
      cases hp
      exact hcall.startsWith []

/-- The blocks of the filter and of the handler of a callback. -/
structure HandlerBlocks (h : Handler) (filterBlock catchBlock : List ILInstr) : Prop where
  filter : ∀ p, h.filter = some p → StartsWith p filterBlock
  noFilter : h.filter = none → filterBlock = []
  catchFirstInstr : ∀ p, h.catchFirstInstr = some p → StartsWith p catchBlock
  catchLeaveInstr : EndsWith h.catchLeaveInstr catchBlock

def IsHandler (h : Handler) (block : List ILInstr) : Prop :=
  ∃ filterBlock catchBlock, block = filterBlock ++ catchBlock
    ∧ HandlerBlocks h filterBlock catchBlock

theorem emitHandler_isHandler (profiler : CorProfiler) (tokens : TracerTokens)
    (logException : Option Token) (exceptionIndex : ℕ) :
    Inserts c known (emitHandler profiler tokens logException exceptionIndex) IsHandler := by
  refine .ite (fun _ => ?_) fun _ => ?_
  · refine (createFilterForException_startsWith _ _ _).bind fun filter filterBlock hfilter => ?_
    refine (createPlain_one (by decide)).bind fun first _ hfirst => ?_
    refine (loadLocal_one _).bind fun _ _ _ => ?_
    refine (writeLogException_first _ _).bind ?_
    rintro _ logBlock rfl
    refine (createPlain_one (by decide)).bind fun leave _ hleave => .pure ?_
    refine ⟨filterBlock, _, rfl, fun p hp => ?_, (fun h => by cases h), fun p hp => ?_, ?_⟩
    · cases hp
      exact hfilter
    · cases hp
      exact hfirst.startsWith _
    · rw [List.append_nil, ← List.append_assoc, ← List.append_assoc]
      exact hleave.endsWith _
  · refine (writeLogException_startsWith _).bind fun catchFirstInstr logBlock hfirst => ?_
    refine (createPlain_one (by decide)).bind fun leave _ hleave => .pure ?_
    refine ⟨[], _, rfl, (fun p hp => by cases hp), fun _ => rfl,
      fun p hp => (hfirst p hp).append _, ?_⟩
    rw [List.append_nil]
    exact hleave.endsWith _

/-! ### The callbacks -/

/-- The block of a callback, and the block of its handler. -/
structure CallbackBlocks (cb : Callback) (tryBlock handlerBlock : List ILInstr) : Prop where
  tryStartInstr : StartsWith cb.tryStartInstr tryBlock
  tryLeave : Known tryBlock cb.tryLeave
  handler : IsHandler cb.handler handlerBlock

def IsCallback (cb : Callback) (block : List ILInstr) : Prop :=
  ∃ tryBlock handlerBlock, block = tryBlock ++ handlerBlock
    ∧ CallbackBlocks cb tryBlock handlerBlock

theorem emitBeginMethod_isCallback (profiler : CorProfiler) (tokens : TracerTokens)
    (caller : FunctionInfo) (retTypeFlags : TypeFlags) :
    Inserts c known (emitBeginMethod profiler tokens caller retTypeFlags)
      fun r block => IsCallback r.2 block := by
  refine (modifyLocalSigAndInitialize_startsWith ..).bind ?_
  rintro ⟨locals, firstInstruction⟩ startBlock hstart
  refine (when_some (InsertsSome.seq Inserts.ofOption.some
    fun _ _ => (callMember_one _ _).some) _).bind fun _ ensure _ => ?_
  refine (loadInstance_startsWith _ _).bind fun _ load _ => ?_
  refine (loadMethodArguments_some _ _ _ _).bind fun _ arguments _ => ?_
  refine Inserts.ofOption.bind ?_
  rintro _ _ rfl
  refine (callMember_one _ _).bind fun _ call _ => ?_
  refine (stLocal_one _).bind fun _ store _ => ?_
  refine (createPlain_one (by decide)).bind fun tryLeave _ htryLeave => ?_
  refine (emitHandler_isHandler _ _ _ _).bind fun handler handlerBlock hhandler => ?_
  refine getCurrentILInstr_inserts.bind ?_
  rintro _ _ ⟨rfl, rfl⟩
  obtain ⟨filterBlock, catchBlock, rfl, hblocks⟩ := hhandler
  obtain ⟨i, rfl, rfl⟩ := htryLeave
  obtain ⟨front, j, rfl, hleave⟩ := hblocks.catchLeaveInstr
  refine (setTarget_inserts ⟨i, by simp, rfl⟩ (.inl rfl)).bind ?_
  rintro _ _ rfl
  refine (setTarget_inserts ⟨j, by simp, hleave⟩ (.inl rfl)).bind ?_
  rintro _ _ rfl
  refine .pure ⟨startBlock ++ (ensure ++ (load ++ (arguments ++ (call ++ (store ++ [i]))))),
    filterBlock ++ (front ++ [j]), ?_, ?_⟩
  · simp only [List.append_assoc, List.append_nil, List.nil_append]
  · exact ⟨hstart.append _, ⟨i, by simp, rfl⟩, filterBlock, _, rfl, hblocks⟩

theorem emitEndMethod_isCallback (profiler : CorProfiler) (tokens : TracerTokens)
    (caller : FunctionInfo) (isVoid : Bool) (locals : Locals) :
    Inserts c known (emitEndMethod profiler tokens caller isVoid locals) IsCallback := by
  have hgetReturnValue (memberRef : Option Token) (known : List ILInstr) :
      InsertsSome c known (writeCallTargetReturnGetReturnValue memberRef) := by
    cases memberRef with
    | none => exact InsertsSome.pure ()
    | some memberRef => exact InsertsSome.seq (callMember_one _ _).some fun _ _ => .pure trivial
  refine (loadInstance_startsWith _ _).bind fun tryStart startBlock hstart => ?_
  refine (when_some (loadLocal_one _).some _).bind fun _ load _ => ?_
  refine (loadLocal_one _).bind fun _ exception _ => ?_
  refine Inserts.bind (.ite (fun _ => (loadLocalAddress_one _).some)
    fun _ => (loadLocal_one _).some) fun _ state _ => ?_
  refine Inserts.ofOption.bind ?_
  rintro _ _ rfl
  refine (callMember_one _ _).bind fun _ call _ => ?_
  refine (stLocal_one _).bind fun _ store _ => ?_
  refine (when_some (InsertsSome.seq (loadLocalAddress_one _).some fun _ _ =>
    InsertsSome.seq (hgetReturnValue _ _) fun _ _ => (stLocal_one _).some) _).bind
      fun _ returnValue _ => ?_
  refine (createPlain_one (by decide)).bind fun tryLeave _ htryLeave => ?_
  refine (emitHandler_isHandler _ _ _ _).bind fun handler handlerBlock hhandler => ?_
  obtain ⟨i, rfl, rfl⟩ := htryLeave
  refine .pure ⟨startBlock ++ (load ++ (exception ++ (state ++ (call ++ (store ++
    (returnValue ++ [i])))))), handlerBlock, ?_, ⟨hstart.append _, ⟨i, by simp, rfl⟩, hhandler⟩⟩
  simp only [List.append_assoc, List.append_nil, List.nil_append]

/-! ### The ending -/

/-- The blocks behind the method: the handler of its exceptions, the handler of its end, and
what loads the value that is returned. -/
structure IsEnding (m : Emitted) (block : List ILInstr) : Prop where
  blocks : ∃ catchInstr rethrowInstr callback finallyInstr rest,
    block = catchInstr :: rethrowInstr :: (callback ++ finallyInstr :: rest)
      ∧ m.startExceptionCatch = .instr catchInstr.ptr ∧ m.rethrowInstr = .instr rethrowInstr.ptr
      ∧ IsCallback m.end_ callback ∧ m.endFinallyInstr = .instr finallyInstr.ptr

theorem emitEnding_isEnding (profiler : CorProfiler) (tokens : TracerTokens)
    (caller : FunctionInfo) (isVoid : Bool) (locals : Locals) (begin : Callback)
    (methodReturnInstr : InstrPtr) :
    Inserts c known (emitEnding profiler tokens caller isVoid locals begin methodReturnInstr)
      fun m block => IsEnding m block ∧ m.begin = begin
        ∧ m.methodReturnInstr = methodReturnInstr ∧ m.locals = locals := by
  refine (stLocal_one _).bind fun _ _ hcatch => ?_
  refine (createPlain_one (by decide)).bind fun _ _ hrethrow => ?_
  refine (emitEndMethod_isCallback ..).bind fun end_ callback hcallback => ?_
  refine (createPlain_one (by decide)).bind fun _ _ hfinally => ?_
  obtain ⟨i, rfl, rfl⟩ := hcatch
  obtain ⟨j, rfl, rfl⟩ := hrethrow
  obtain ⟨k, rfl, rfl⟩ := hfinally
  obtain ⟨tryBlock, handlerBlock, rfl, hblocks⟩ := id hcallback
  obtain ⟨l, hl, htryLeave⟩ := hblocks.tryLeave
  obtain ⟨filterBlock, catchBlock, rfl, hhandler⟩ := hblocks.handler
  obtain ⟨front, n, rfl, hcatchLeave⟩ := hhandler.catchLeaveInstr
  refine (setTarget_inserts ⟨l, by simp [hl], htryLeave⟩ (.inr ⟨k, by simp, rfl⟩)).bind ?_
  rintro _ _ rfl
  refine (setTarget_inserts ⟨n, by simp, hcatchLeave⟩ (.inr ⟨k, by simp, rfl⟩)).bind ?_
  rintro _ _ rfl
  refine (when_some (loadLocal_one _).some _).bind fun _ rest _ => .pure ⟨⟨?_⟩, rfl, rfl, rfl⟩
  refine ⟨i, j, tryBlock ++ (filterBlock ++ (front ++ [n])), k, rest, ?_, rfl, rfl, hcallback, rfl⟩
  simp only [List.append_assoc, List.append_nil, List.nil_append, List.cons_append]

end AutoInstrumentation.CallTarget
