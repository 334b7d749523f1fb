import AutoInstrumentation.CallTarget.Sections

/-!
# AutoInstrumentation.CallTarget.Targets

Where the branches of the emitted code go.

A branch is emitted without its target, which is set when the code that it goes to is there.
While a section is emitted some branches are pending; a section leaves none behind that it
does not hand to its caller.
-/

namespace AutoInstrumentation.CallTarget

open AutoInstrumentation.IL

/-- The code that branches may go to: what gets its address after `base`, and the places
`allowed`; it is emitted before `here`. -/
structure Scope where
  base : ℕ
  here : InstrPtr
  allowed : Set InstrPtr

/-- The address was given out after the scope began. -/
def Scope.Above (c : Scope) (p : InstrPtr) : Prop := ∃ n, p = .instr n ∧ c.base < n

def Scope.Target (c : Scope) (p : InstrPtr) : Prop := c.Above p ∨ p ∈ c.allowed

/-- Every branch that is new in the scope goes to a target, or is pending. -/
structure Aimed (c : Scope) (pending : Set InstrPtr) (w : ILRewriterWrapper) : Prop where
  base : c.base ≤ w.rewriter.nInstrs
  position : w.ilInstr = c.here
  targets : ∀ i ∈ w.rewriter.instrs, c.base < i.ptr → (opCodeFlags i.opcode).branchTarget = true →
    .instr i.ptr ∈ pending ∨ c.Target i.target

/-- What an emission leaves pending, and its result. -/
def Aims {α : Type} (c : Scope) (pending : Set InstrPtr) (m : Emit α)
    (Q : α → Set InstrPtr → Prop) : Prop :=
  ∀ ⦃w a w'⦄, Aimed c pending w → m w = .ok (a, w') → ∃ rest, Aimed c rest w' ∧ Q a rest

/-- An emission that leaves nothing more pending. -/
abbrev Settles {α : Type} (c : Scope) (m : Emit α) (Q : α → Prop) : Prop :=
  ∀ pending, Aims c pending m fun a rest => rest = pending ∧ Q a

/-- An emission that leaves nothing more pending, whatever its result is. -/
abbrev SettlesAll {α : Type} (c : Scope) (m : Emit α) : Prop := Settles c m fun _ => True

/-! ### Composing -/

theorem Aimed.mono {c : Scope} {pending rest : Set InstrPtr} {w : ILRewriterWrapper}
    (h : Aimed c pending w) (hsub : pending ⊆ rest) : Aimed c rest w :=
  ⟨h.base, h.position,
    fun i hi hbase hbranch => (h.targets i hi hbase hbranch).imp_left fun hp => hsub hp⟩

section composing

variable {α β : Type} {c : Scope} {pending : Set InstrPtr}

theorem Aims.pure {a : α} {Q : α → Set InstrPtr → Prop} (h : Q a pending) :
    Aims c pending (Pure.pure a : Emit α) Q := by
  intro w b w' hw hrun
  cases hrun
  exact ⟨pending, hw, h⟩

theorem Aims.bind {m : Emit α} {f : α → Emit β} {Q : α → Set InstrPtr → Prop}
    {R : β → Set InstrPtr → Prop} (hm : Aims c pending m Q)
    (hf : ∀ a rest, Q a rest → Aims c rest (f a) R) : Aims c pending (m >>= f) R := by
  intro w b w' hw hrun
  obtain ⟨a, w₁, hfirst, hsecond⟩ := Emit.bind_eq_ok hrun
  obtain ⟨rest, hw₁, hQ⟩ := hm hw hfirst
  exact hf a rest hQ hw₁ hsecond

theorem Aims.skip {Q : α → Set InstrPtr → Prop} : Aims c pending (Emit.skip : Emit α) Q := by
  intro w a w' _ hrun
  cases hrun

theorem Aims.ite {p : Prop} [Decidable p] {m m' : Emit α} {Q : α → Set InstrPtr → Prop}
    (ht : p → Aims c pending m Q) (he : ¬p → Aims c pending m' Q) :
    Aims c pending (if p then m else m') Q := by
  split
  · next h => exact ht h
  · next h => exact he h

/-- Fewer branches may be pending than is said. -/
theorem Aims.settled {m : Emit α} {Q : α → Prop}
    (h : Aims c pending m fun a rest => rest ⊆ pending ∧ Q a) :
    Aims c pending m fun a rest => rest = pending ∧ Q a := by
  intro w a w' hw hrun
  obtain ⟨rest, hw', hsub, hQ⟩ := h hw hrun
  exact ⟨pending, hw'.mono hsub, rfl, hQ⟩

/-- Behind an emission that leaves nothing more pending. -/
theorem Settles.seq {m : Emit α} {f : α → Emit β} {Q : α → Prop} {R : β → Set InstrPtr → Prop}
    (hm : Settles c m Q) (hf : ∀ a, Q a → Aims c pending (f a) R) :
    Aims c pending (m >>= f) R := by
  refine (hm pending).bind ?_
  rintro a _ ⟨rfl, ha⟩
  exact hf a ha

theorem Settles.all {m : Emit α} {Q : α → Prop} (hm : Settles c m Q) : SettlesAll c m := by
  intro pending w a w' hw hrun
  obtain ⟨rest, hw', hrest, -⟩ := hm pending hw hrun
  exact ⟨rest, hw', hrest, trivial⟩

theorem SettlesAll.pure (a : α) : SettlesAll c (Pure.pure a : Emit α) :=
  fun _ => Aims.pure ⟨rfl, trivial⟩

theorem SettlesAll.skip : SettlesAll c (Emit.skip : Emit α) := fun _ => Aims.skip

theorem settlesAll_ofOption (o : Option α) : SettlesAll c (Emit.ofOption o) := by
  intro pending w a w' hw hrun
  cases o with
  | none => cases hrun
  | some a =>
      cases hrun
      exact ⟨pending, hw, rfl, trivial⟩

theorem settlesAll_when {m : Emit α} (hm : SettlesAll c m) (condition : Bool) :
    SettlesAll c (Emit.when condition m) := by
  intro pending
  exact .ite (fun _ => Settles.seq hm fun _ _ => .pure ⟨rfl, trivial⟩)
    fun _ => .pure ⟨rfl, trivial⟩

end composing

/-! ### One instruction -/

theorem mem_linkBefore {p : InstrPtr} {what i : ILInstr} {is : List ILInstr}
    (h : i ∈ linkBefore p what is) : i = what ∨ i ∈ is := by
  induction is with
  | nil => exact .inl (List.mem_singleton.mp h)
  | cons j is ih =>
      rw [linkBefore] at h
      split at h
      · exact List.mem_cons.mp h
      · rcases List.mem_cons.mp h with rfl | h
        · exact .inr List.mem_cons_self
        · exact (ih h).imp_right (List.mem_cons_of_mem j)

variable {c : Scope} {pending : Set InstrPtr}

theorem createInstr_aims (opCode : ℕ) (arg : BitVec 64) :
    Aims c pending (createInstr opCode arg) fun p rest =>
      rest = (if (opCodeFlags opCode).branchTarget = true then insert p pending else pending)
        ∧ c.Above p := by
  intro w p w' hw hrun
  cases hrun
  have hbase : c.base < w.rewriter.nInstrs + 1 := Nat.lt_succ_of_le hw.base
  refine ⟨_, ⟨Nat.le_of_lt hbase, hw.position, fun i hi hlt hbranch => ?_⟩, rfl, _, rfl, hbase⟩
  rcases mem_linkBefore hi with rfl | hi
  · rw [if_pos hbranch]
    exact .inl (Set.mem_insert _ _)
  · refine (hw.targets i hi hlt hbranch).imp_left fun hp => ?_
    split
    · exact Set.mem_insert_of_mem _ hp
    · exact hp

/-- An instruction that is no branch. -/
theorem createInstr_settles {opCode : ℕ} (h : (opCodeFlags opCode).branchTarget = false)
    (arg : BitVec 64) : Settles c (createInstr opCode arg) c.Above := by
  intro pending w p w' hw hrun
  obtain ⟨rest, hw', hrest, hp⟩ := createInstr_aims opCode arg hw hrun
  rw [h, if_neg Bool.false_ne_true] at hrest
  exact ⟨rest, hw', hrest, hp⟩

theorem createPlain_settles {opCode : ℕ} (h : (opCodeFlags opCode).branchTarget = false) :
    Settles c (createPlain opCode) c.Above := createInstr_settles h 0

theorem createWithToken_settles {opCode : ℕ} (h : (opCodeFlags opCode).branchTarget = false)
    (token : Token) : Settles c (createWithToken opCode token) c.Above := createInstr_settles h _

/-- A branch is pending. -/
theorem createPlain_pending {opCode : ℕ} (h : (opCodeFlags opCode).branchTarget = true) :
    Aims c pending (createPlain opCode) fun p rest => rest = insert p pending := by
  intro w p w' hw hrun
  obtain ⟨rest, hw', hrest, -⟩ := createInstr_aims opCode 0 hw hrun
  rw [if_pos h] at hrest
  exact ⟨rest, hw', hrest⟩

/-- A branch gets its target. -/
theorem setTarget_aims {p target : InstrPtr} (htarget : c.Target target) :
    Aims c pending (setTarget p target) fun _ rest => rest = pending \ {p} := by
  intro w u w' hw hrun
  cases hrun
  refine ⟨_, ⟨hw.base, hw.position, fun i hi hlt hbranch => ?_⟩, rfl⟩
  obtain ⟨j, hj, rfl⟩ := List.mem_map.mp hi
  dsimp only at hlt hbranch ⊢
  by_cases hp : p = .instr j.ptr
  · rw [if_pos hp]
    exact .inr htarget
  · rw [if_neg hp] at hlt hbranch ⊢
    exact (hw.targets j hj hlt hbranch).imp_left fun hpending => ⟨hpending, Ne.symm hp⟩

theorem callMember_settles (memberRef : Token) (isVirtual : Bool) :
    Settles c (callMember memberRef isVirtual) c.Above := by
  cases isVirtual with
  | false => exact createWithToken_settles rfl memberRef
  | true => exact createWithToken_settles rfl memberRef

theorem loadInt32_settles (value : ℤ) : Settles c (loadInt32 value) c.Above := by
  intro pending
  refine .ite (fun h => createPlain_settles ?_ pending) fun _ =>
    .ite (fun _ => createInstr_settles rfl _ pending) fun _ => createInstr_settles rfl _ pending
  have hsmall : value.toNat ≤ 8 := by omega
  interval_cases value.toNat <;> rfl

theorem createVar_settles {opcode0 opcodeS opcode : ℕ}
    (h0 : ∀ index ≤ 3, (opCodeFlags (opcode0 + index)).branchTarget = false)
    (hS : (opCodeFlags opcodeS).branchTarget = false)
    (h : (opCodeFlags opcode).branchTarget = false) (index : ℕ) :
    Settles c (createVar opcode0 opcodeS opcode index) c.Above := fun pending =>
  .ite (fun hindex => createPlain_settles (h0 index hindex) pending) fun _ =>
    .ite (fun _ => createInstr_settles hS _ pending) fun _ => createInstr_settles h _ pending

theorem loadArgument_settles (index : ℕ) : Settles c (loadArgument index) c.Above :=
  createVar_settles (by decide) rfl rfl _

theorem stLocal_settles (index : ℕ) : Settles c (stLocal index) c.Above :=
  createVar_settles (by decide) rfl rfl _

theorem loadLocal_settles (index : ℕ) : Settles c (loadLocal index) c.Above :=
  createVar_settles (by decide) rfl rfl _

theorem loadArgumentRef_settles (index : ℕ) : Settles c (loadArgumentRef index) c.Above :=
  fun pending => .ite (fun _ => createInstr_settles rfl _ pending)
    fun _ => createInstr_settles rfl _ pending

theorem loadLocalAddress_settles (index : ℕ) : Settles c (loadLocalAddress index) c.Above :=
  fun pending => .ite (fun _ => createInstr_settles rfl _ pending)
    fun _ => createInstr_settles rfl _ pending

/-! ### Sections without branches -/

theorem modifyLocalSig_settles (profiler : CorProfiler) (tokens : TracerTokens)
    (retTypeFlags : TypeFlags) (arguments : List Argument) :
    SettlesAll c (modifyLocalSig profiler tokens retTypeFlags arguments) := by
  intro pending w locals w' hw hrun
  rw [modifyLocalSig] at hrun
  split at hrun
  · cases hrun
  · cases hrun
    exact ⟨pending, ⟨hw.base, hw.position, hw.targets⟩, rfl, trivial⟩

theorem modifyLocalSigAndInitialize_settles (profiler : CorProfiler) (tokens : TracerTokens)
    (retTypeFlags : TypeFlags) (arguments : List Argument) :
    SettlesAll c (modifyLocalSigAndInitialize profiler tokens retTypeFlags arguments) := by
  intro pending
  refine (modifyLocalSig_settles profiler tokens retTypeFlags arguments).seq fun locals _ => ?_
  refine .ite (fun _ => .ite (fun _ => .skip) fun _ => ?_) fun _ => ?_
  · refine (callMember_settles _ _).seq fun _ _ => ?_
    refine (stLocal_settles _).seq fun _ _ => ?_
    refine (callMember_settles _ _).seq fun _ _ => ?_
    refine (stLocal_settles _).seq fun _ _ => ?_
    refine Settles.seq (createPlain_settles rfl) fun _ _ => ?_
    exact (stLocal_settles _).seq fun _ _ => .pure ⟨rfl, trivial⟩
  · refine (callMember_settles _ _).seq fun _ _ => ?_
    refine (stLocal_settles _).seq fun _ _ => ?_
    refine Settles.seq (createPlain_settles rfl) fun _ _ => ?_
    exact (stLocal_settles _).seq fun _ _ => .pure ⟨rfl, trivial⟩

theorem loadInstance_settles (tokens : TracerTokens) (caller : FunctionInfo) :
    SettlesAll c (loadInstance tokens caller) := by
  intro pending
  have hnull : SettlesAll c loadNull := (createPlain_settles rfl).all
  have hobj (token : Token) (first : InstrPtr) :
      SettlesAll c (loadObj token >>= fun _ => pure first) := fun _ =>
    Settles.seq (createWithToken_settles rfl _) fun _ _ => .pure ⟨rfl, trivial⟩
  refine .ite (fun _ => .ite (fun _ => .skip) fun _ => hnull pending) fun _ =>
    .ite (fun _ => hnull pending) fun _ => ?_
  refine (loadArgument_settles 0).seq fun first _ => ?_
  exact .ite (fun _ => .ite (fun _ => hobj _ _ pending) fun _ =>
    .ite (fun _ => .skip) fun _ => hobj _ _ pending) fun _ => .pure ⟨rfl, trivial⟩

theorem writeRefStructCall_settles (tokens : TracerTokens) (refStructTypeRef : Token)
    (refStructIndex : ℕ) :
    SettlesAll c (writeRefStructCall tokens refStructTypeRef refStructIndex) := by
  intro pending
  refine (settlesAll_ofOption _).seq fun _ _ => ?_
  refine Settles.seq (createPlain_settles rfl) fun _ _ => ?_
  refine Settles.seq (createWithToken_settles rfl _) fun _ _ => ?_
  refine (callMember_settles _ _).seq fun _ _ => ?_
  refine (stLocal_settles _).seq fun _ _ => ?_
  exact (loadLocalAddress_settles _).seq fun _ _ => .pure ⟨rfl, trivial⟩

theorem loadArgumentsFast_settles (profiler : CorProfiler) (tokens : TracerTokens)
    (refStructs : ℕ → ℕ) (firstArg i structRefCount : ℕ) (arguments : List Argument) :
    SettlesAll c
      (loadArgumentsFast profiler tokens refStructs firstArg i structRefCount arguments) := by
  intro pending
  induction arguments generalizing i structRefCount with
  | nil => exact .pure ⟨rfl, trivial⟩
  | cons a as ih =>
      rw [loadArgumentsFast]
      refine .ite (fun _ => ?_) fun _ => ?_
      · have hload : SettlesAll c (if a.flags.byRef then loadArgument (i + firstArg)
            else loadArgumentRef (i + firstArg)) := fun _ =>
          .ite (fun _ => (loadArgument_settles _).all _) fun _ => (loadArgumentRef_settles _).all _
        refine hload.seq fun _ _ => ?_
        exact .ite (fun _ => (writeRefStructCall_settles _ _ _).seq fun _ _ => ih _ _)
          fun _ => ih _ _
      · exact (loadArgument_settles _).seq fun _ _ => .ite (fun _ => .skip) fun _ => ih _ _

theorem loadArgumentsSlow_settles (firstArg i : ℕ) (arguments : List Argument) :
    SettlesAll c (loadArgumentsSlow firstArg i arguments) := by
  intro pending
  induction arguments generalizing i with
  | nil => exact .pure ⟨rfl, trivial⟩
  | cons a as ih =>
      have hbegin : SettlesAll c (beginLoadValueIntoArray i) := fun _ =>
        Settles.seq (createPlain_settles rfl) fun _ _ =>
          (loadInt32_settles _).seq fun _ _ => .pure ⟨rfl, trivial⟩
      have hbox : SettlesAll c (if a.typeTok = mdTokenNil then Emit.skip else box a.typeTok) :=
        fun _ => .ite (fun _ => .skip) fun _ => Settles.all (createWithToken_settles rfl _) _
      refine hbegin.seq fun _ _ => ?_
      refine (loadArgument_settles _).seq fun _ _ => ?_
      refine .ite (fun _ => .skip) fun _ => ?_
      refine (settlesAll_when hbox _).seq fun _ _ => ?_
      exact Settles.seq (createPlain_settles rfl) fun _ _ => ih _

theorem loadMethodArguments_settles (profiler : CorProfiler) (tokens : TracerTokens)
    (caller : FunctionInfo) (refStructs : ℕ → ℕ) :
    SettlesAll c (loadMethodArguments profiler tokens caller refStructs) := by
  intro pending
  refine .ite (fun _ => .ite (fun _ => loadArgumentsFast_settles _ _ _ _ _ _ _ pending)
    fun _ => ?_) fun _ => ?_
  · have harray : SettlesAll c (createArray tokens.objectTypeRef caller.arguments.length) :=
      fun _ => (loadInt32_settles _).seq fun _ _ =>
        Settles.seq (createWithToken_settles rfl _) fun _ _ => .pure ⟨rfl, trivial⟩
    exact harray.seq fun _ _ => loadArgumentsSlow_settles _ _ _ pending
  · exact Settles.seq (createWithToken_settles rfl _) fun _ _ =>
      Settles.seq (createWithToken_settles rfl _) fun _ _ => .pure ⟨rfl, trivial⟩

theorem writeLogException_settles (logException : Option Token) (instruction : Option InstrPtr) :
    SettlesAll c (writeLogException logException instruction) := by
  intro pending
  cases logException with
  | none => exact .pure ⟨rfl, trivial⟩
  | some methodSpec => exact (callMember_settles _ _).seq fun _ _ => .pure ⟨rfl, trivial⟩

theorem writeCallTargetReturnGetReturnValue_settles (memberRef : Option Token) :
    SettlesAll c (writeCallTargetReturnGetReturnValue memberRef) := by
  intro pending
  cases memberRef with
  | none => exact .pure ⟨rfl, trivial⟩
  | some memberRef => exact (callMember_settles _ _).seq fun _ _ => .pure ⟨rfl, trivial⟩

/-! ### Sections with branches -/

theorem createFilterForException_settles (profiler : CorProfiler) (tokens : TracerTokens)
    (exceptionValueIndex : ℕ) :
    SettlesAll c (createFilterForException profiler tokens exceptionValueIndex) := by
  have hbubble : SettlesAll c (if profiler.callTargetBubbleUpExceptionFunctionAvailable
      && tokens.bubbleUpExceptionFunctionRef != mdMemberRefNil then
        callMember tokens.bubbleUpExceptionFunctionRef false
      else do
        let _ ← createWithToken ceeIsinst tokens.bubbleUpExceptionTypeRef
        let _ ← loadNull
        createPlain ceeCgtUn) := fun _ =>
    .ite (fun _ => (callMember_settles _ _).all _) fun _ =>
      Settles.seq (createWithToken_settles rfl _) fun _ _ =>
        Settles.seq (createPlain_settles rfl) fun _ _ => Settles.all (createPlain_settles rfl) _
  intro pending
  refine .settled ?_
  refine Settles.seq (createWithToken_settles rfl _) fun filter _ => ?_
  refine Settles.seq (createPlain_settles rfl) fun _ _ => ?_
  refine (createPlain_pending rfl).bind ?_
  rintro isException _ rfl
  refine Settles.seq (createPlain_settles rfl) fun _ _ => ?_
  refine (loadInt32_settles 0).seq fun _ _ => ?_
  refine (createPlain_pending rfl).bind ?_
  rintro endNotException _ rfl
  refine (stLocal_settles _).seq fun storeException hstoreException => ?_
  refine (setTarget_aims (.inl hstoreException)).bind ?_
  rintro _ _ rfl
  refine (loadLocal_settles _).seq fun _ _ => ?_
  refine hbubble.seq fun _ _ => ?_
  refine (loadInt32_settles 0).seq fun _ _ => ?_
  refine Settles.seq (createPlain_settles rfl) fun _ _ => ?_
  refine (loadInt32_settles 0).seq fun _ _ => ?_
  refine Settles.seq (createPlain_settles rfl) fun _ _ => ?_
  refine Settles.seq (createPlain_settles rfl) fun endFilter hendFilter => ?_
  refine (setTarget_aims (.inl hendFilter)).bind ?_
  rintro _ _ rfl
  refine .pure ⟨?_, trivial⟩
  -- both branches have their targets
  rintro p ⟨⟨rfl | rfl | hp, hne⟩, hne'⟩
  · exact absurd rfl hne'
  · exact absurd rfl hne
  · exact hp

/-- The handler leaves the jump out of it to its caller. -/
theorem emitHandler_aims (profiler : CorProfiler) (tokens : TracerTokens)
    (logException : Option Token) (exceptionIndex : ℕ) :
    Aims c pending (emitHandler profiler tokens logException exceptionIndex)
      fun handler rest => rest = insert handler.catchLeaveInstr pending := by
  refine .ite (fun _ => ?_) fun _ => ?_
  · refine (createFilterForException_settles _ _ _).seq fun _ _ => ?_
    refine Settles.seq (createPlain_settles rfl) fun _ _ => ?_
    refine (loadLocal_settles _).seq fun _ _ => ?_
    refine (writeLogException_settles _ _).seq fun _ _ => ?_
    refine (createPlain_pending rfl).bind ?_
    rintro catchLeaveInstr _ rfl
    exact .pure rfl
  · refine (writeLogException_settles _ _).seq fun _ _ => ?_
    refine (createPlain_pending rfl).bind ?_
    rintro catchLeaveInstr _ rfl
    exact .pure rfl

/-- Two branches get their target. -/
theorem setTargets_aims {α : Type} {p q target : InstrPtr} {a : α} (htarget : c.Target target) :
    Aims c (insert q (insert p pending))
      (do
        setTarget p target
        setTarget q target
        pure a : Emit α) fun _ rest => rest ⊆ pending ∧ True := by
  refine (setTarget_aims htarget).bind ?_
  rintro _ _ rfl
  refine (setTarget_aims htarget).bind ?_
  rintro _ _ rfl
  refine .pure ⟨?_, trivial⟩
  rintro r ⟨⟨rfl | rfl | hr, hne⟩, hne'⟩
  · exact absurd rfl hne'
  · exact absurd rfl hne
  · exact hr

theorem getCurrentILInstr_settles : Settles c getCurrentILInstr (· = c.here) := by
  intro pending w p w' hw hrun
  cases hrun
  exact ⟨pending, hw, rfl, hw.position⟩

/-- A branch that stays pending may get any target. -/
theorem setTarget_pending {p target : InstrPtr} (hp : p ∈ pending) :
    Aims c pending (setTarget p target) fun _ rest => rest = pending := by
  intro w u w' hw hrun
  cases hrun
  refine ⟨pending, ⟨hw.base, hw.position, fun i hi hlt hbranch => ?_⟩, rfl⟩
  obtain ⟨j, hj, rfl⟩ := List.mem_map.mp hi
  dsimp only at hlt hbranch ⊢
  by_cases heq : p = .instr j.ptr
  · rw [if_pos heq]
    exact .inl (heq ▸ hp)
  · rw [if_neg heq] at hlt hbranch ⊢
    exact hw.targets j hj hlt hbranch

/-- The begin method part, up to the two jumps out of it. -/
theorem emitBeginMethod_aims (profiler : CorProfiler) (tokens : TracerTokens)
    (caller : FunctionInfo) (retTypeFlags : TypeFlags)
    {Q : Locals × Callback → Set InstrPtr → Prop}
    (h : ∀ locals firstInstruction tryLeave handler,
      Aims c (insert handler.catchLeaveInstr (insert tryLeave pending))
        (do
          setTarget tryLeave c.here
          setTarget handler.catchLeaveInstr c.here
          pure (locals, ⟨firstInstruction, tryLeave, handler⟩) : Emit (Locals × Callback)) Q) :
    Aims c pending (emitBeginMethod profiler tokens caller retTypeFlags) Q := by
  refine (modifyLocalSigAndInitialize_settles _ _ _ _).seq fun r _ => ?_
  have hensure : SettlesAll c (do
      let methodSpec ← Emit.ofOption tokens.ensureRuntimeAsyncCallbacksSupported
      callMember methodSpec false) := fun _ =>
    (settlesAll_ofOption _).seq fun _ _ => (callMember_settles _ _).all _
  refine (settlesAll_when hensure _).seq fun _ _ => ?_
  refine (loadInstance_settles _ _).seq fun _ _ => ?_
  refine (loadMethodArguments_settles _ _ _ _).seq fun _ _ => ?_
  refine (settlesAll_ofOption _).seq fun _ _ => ?_
  refine (callMember_settles _ _).seq fun _ _ => ?_
  refine (stLocal_settles _).seq fun _ _ => ?_
  refine (createPlain_pending rfl).bind ?_
  rintro tryLeave _ rfl
  refine (emitHandler_aims _ _ _ _).bind ?_
  rintro handler _ rfl
  refine getCurrentILInstr_settles.seq ?_
  rintro _ rfl
  exact h r.1 r.2 tryLeave handler

/-- Only the two jumps leave the begin method part. -/
theorem emitBeginMethod_pending (profiler : CorProfiler) (tokens : TracerTokens)
    (caller : FunctionInfo) (retTypeFlags : TypeFlags) :
    Aims c pending (emitBeginMethod profiler tokens caller retTypeFlags) fun r rest =>
      rest = insert r.2.handler.catchLeaveInstr (insert r.2.tryLeave pending) := by
  refine emitBeginMethod_aims profiler tokens caller retTypeFlags
    fun locals firstInstruction tryLeave handler => ?_
  refine (setTarget_pending (Set.mem_insert_of_mem _ (Set.mem_insert _ _))).bind ?_
  rintro _ _ rfl
  refine (setTarget_pending (Set.mem_insert _ _)).bind ?_
  rintro _ _ rfl
  exact .pure rfl

/-- The begin method part goes on at the position. -/
theorem emitBeginMethod_settles (profiler : CorProfiler) (tokens : TracerTokens)
    (caller : FunctionInfo) (retTypeFlags : TypeFlags) (hhere : c.here ∈ c.allowed) :
    SettlesAll c (emitBeginMethod profiler tokens caller retTypeFlags) := by
  intro pending
  exact .settled (emitBeginMethod_aims profiler tokens caller retTypeFlags
    fun _ _ _ _ => setTargets_aims (.inr hhere))

/-- The end method part leaves the jumps out of it to its caller. -/
theorem emitEndMethod_aims (profiler : CorProfiler) (tokens : TracerTokens)
    (caller : FunctionInfo) (isVoid : Bool) (locals : Locals) :
    Aims c pending (emitEndMethod profiler tokens caller isVoid locals) fun callback rest =>
      rest = insert callback.handler.catchLeaveInstr (insert callback.tryLeave pending) := by
  refine (loadInstance_settles _ _).seq fun _ _ => ?_
  refine (settlesAll_when (loadLocal_settles _).all _).seq fun _ _ => ?_
  refine (loadLocal_settles _).seq fun _ _ => ?_
  have hstate : SettlesAll c (if profiler.enableCallTargetStateByRef then
      loadLocalAddress locals.callTargetState else loadLocal locals.callTargetState) := fun _ =>
    .ite (fun _ => (loadLocalAddress_settles _).all _) fun _ => (loadLocal_settles _).all _
  refine hstate.seq fun _ _ => ?_
  refine (settlesAll_ofOption _).seq fun _ _ => ?_
  refine (callMember_settles _ _).seq fun _ _ => ?_
  refine (stLocal_settles _).seq fun _ _ => ?_
  have hvalue : SettlesAll c (do
      let _ ← loadLocalAddress locals.callTargetReturn
      writeCallTargetReturnGetReturnValue tokens.callTargetReturnGetReturnValue
      stLocal locals.returnValue) := fun _ =>
    (loadLocalAddress_settles _).seq fun _ _ =>
      (writeCallTargetReturnGetReturnValue_settles _).seq fun _ _ => (stLocal_settles _).all _
  refine (settlesAll_when hvalue _).seq fun _ _ => ?_
  refine (createPlain_pending rfl).bind ?_
  rintro tryLeave _ rfl
  refine (emitHandler_aims _ _ _ _).bind ?_
  rintro handler _ rfl
  exact .pure rfl

end AutoInstrumentation.CallTarget
