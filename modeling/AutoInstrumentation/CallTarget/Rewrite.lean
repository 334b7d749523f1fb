import AutoInstrumentation.CallTarget.Wrapper

/-!
# AutoInstrumentation.CallTarget.Rewrite

`TracerMethodRewriter::Rewrite`: the new body of an instrumented method.

The code that begins the instrumented call is emitted before the first instruction of the
method, and the code that ends it after the last one; the returns in between become
stores and jumps to the end; and four exception clauses are added. What the metadata of
the module answers, and the signatures that are built for it, are given: the rewriter
reads the tokens and whether they could be defined.
-/

namespace AutoInstrumentation.CallTarget

open AutoInstrumentation.IL AutoInstrumentation.Lib

def mdTokenNil : Token := 0
def mdTypeRefNil : Token := 0x01000000
def mdMemberRefNil : Token := 0x0A000000
def mdTypeSpecNil : Token := 0x1B000000
def mdMethodSpecNil : Token := 0x2B000000

/-- `static_cast<ULONG>(ULONG_MAX)`, the index of a local that does not exist. -/
def ulongMax : ℕ := 2 ^ 32 - 1

def fastPathCount : ℕ := 9

/-- The flags of `GetElementTypeAndFlags`. -/
structure TypeFlags where
  byRef : Bool
  void : Bool
  boxed : Bool
  pinned : Bool
  deriving Repr, DecidableEq

/-- `TypeFlagVoid`. -/
def TypeFlags.onlyVoid : TypeFlags := ⟨false, true, false, false⟩

/-- What the rewriter reads off the signature of a parameter. -/
structure Argument where
  /-- of `GetElementTypeAndFlags` -/
  flags : TypeFlags
  /-- `IsTypeByRefLike` succeeds, and reports `true` -/
  isByRefLike : Bool
  /-- `GetTypeTok` -/
  typeTok : Token

/-- The type of the instrumented method. -/
structure TypeInfo where
  id : Token
  typeSpec : Token
  valueType : Bool
  isGeneric : Bool

/-- The instrumented method. -/
structure FunctionInfo where
  id : Token
  type : TypeInfo
  /-- the calling convention has no `HASTHIS` -/
  isStatic : Bool
  arguments : List Argument
  isRuntimeAsync : Bool
  /-- the flags of the return type, the effective one of a runtime-async method; none if
  `TryGetRuntimeAsyncEffectiveReturnType` fails -/
  retTypeFlags : Option TypeFlags

/-- The members of `CorProfiler`, and what it answers about the integration. -/
structure CorProfiler where
  enableByRefInstrumentation : Bool
  enableCallTargetStateByRef : Bool
  callTargetBubbleUpExceptionAvailable : Bool
  callTargetBubbleUpExceptionFunctionAvailable : Bool
  callTargetRuntimeAsyncMethodsAvailable : Bool
  /-- the integration is no trace method -/
  isIntegrationMethod : Bool
  /-- `GetIntegrationTypeRef` -/
  hasIntegrationTypeRef : Bool
  /-- `ProfilerAssemblyIsLoadedIntoAppDomain` -/
  profilerAssemblyIsLoaded : Bool

/-- The tokens that `TracerTokens` defines for a method; those that it can fail to define
and reports are optional. -/
structure TracerTokens where
  /-- `GetTokenFromSig`, of the new signature, and the number of the old locals -/
  modifyLocalSig : Option (Token × ℕ)
  callTargetDefaultValueMethodSpec : Token
  callTargetReturnValueDefaultMemberRef : Token
  callTargetReturnVoidDefaultMemberRef : Token
  ensureRuntimeAsyncCallbacksSupported : Option Token
  /-- `GetCurrentTypeRef` -/
  currentTypeRef : Token
  objectTypeRef : Token
  exTypeRef : Token
  beginMethod : Option Token
  endMethod : Option Token
  callTargetReturnGetReturnValue : Option Token
  /-- `WriteLogException`, of the begin method and of the end method -/
  beginLogException : Option Token
  endLogException : Option Token
  createRefStructMemberRef : Option Token
  bubbleUpExceptionTypeRef : Token
  bubbleUpExceptionFunctionRef : Token

/-! ### Locals -/

/-- The indices of the new locals. -/
structure Locals where
  callTargetState : ℕ
  exception : ℕ
  callTargetReturn : ℕ
  returnValue : ℕ
  additional : ℕ → ℕ

/-- `GetAdditionalLocalsCount`. -/
def getAdditionalLocalsCount (profiler : CorProfiler) (arguments : List Argument) : ℕ :=
  2 + if profiler.enableByRefInstrumentation then arguments.countP (·.isByRefLike) else 0

/-- `ModifyLocalSig`. -/
def modifyLocalSig (profiler : CorProfiler) (tokens : TracerTokens) (retTypeFlags : TypeFlags)
    (arguments : List Argument) : Emit Locals := fun w =>
  match tokens.modifyLocalSig with
  | none => .error .skipped
  | some (newLocalVarSig, oldLocalsCount) =>
      let indexStart := 3 + getAdditionalLocalsCount profiler arguments
      let hasReturnValue := retTypeFlags ≠ .onlyVoid
      let newLocalsCount := oldLocalsCount + indexStart + if hasReturnValue then 1 else 0
      .ok ({ callTargetState := newLocalsCount - 1
             exception := newLocalsCount - indexStart
             callTargetReturn := newLocalsCount - (indexStart - 1)
             returnValue :=
               if hasReturnValue then newLocalsCount - (indexStart + 1) else ulongMax
             additional := fun i => newLocalsCount - (indexStart - 2 - i) },
           { w with rewriter := w.rewriter.setTkLocalVarSig newLocalVarSig })

/-- `ModifyLocalSigAndInitialize`: the locals, and the first instruction. -/
def modifyLocalSigAndInitialize (profiler : CorProfiler) (tokens : TracerTokens)
    (retTypeFlags : TypeFlags) (arguments : List Argument) : Emit (Locals × InstrPtr) := do
  let locals ← modifyLocalSig profiler tokens retTypeFlags arguments
  if locals.returnValue ≠ ulongMax then
    if tokens.callTargetDefaultValueMethodSpec = mdMethodSpecNil then Emit.skip
    else do
      let firstInstruction ← callMember tokens.callTargetDefaultValueMethodSpec false
      let _ ← stLocal locals.returnValue
      let _ ← callMember tokens.callTargetReturnValueDefaultMemberRef false
      let _ ← stLocal locals.callTargetReturn
      let _ ← loadNull
      let _ ← stLocal locals.exception
      pure (locals, firstInstruction)
  else do
    let firstInstruction ← callMember tokens.callTargetReturnVoidDefaultMemberRef false
    let _ ← stLocal locals.callTargetReturn
    let _ ← loadNull
    let _ ← stLocal locals.exception
    pure (locals, firstInstruction)

/-! ### Instance and arguments -/

/-- The instance on the stack, or null: its first instruction. -/
def loadInstance (tokens : TracerTokens) (caller : FunctionInfo) : Emit InstrPtr :=
  if caller.isStatic then
    if caller.type.valueType then Emit.skip else loadNull
  else if tokens.currentTypeRef = mdTokenNil then loadNull
  else do
    let first ← loadArgument 0
    if caller.type.valueType then
      if caller.type.typeSpec ≠ mdTypeSpecNil then do
        let _ ← loadObj caller.type.typeSpec
        pure first
      else if caller.type.isGeneric then Emit.skip
      else do
        let _ ← loadObj caller.type.id
        pure first
    else pure first

/-- `WriteRefStructCall`. -/
def writeRefStructCall (tokens : TracerTokens) (refStructTypeRef : Token) (refStructIndex : ℕ) :
    Emit Unit := do
  let createRefStructMemberRef ← Emit.ofOption tokens.createRefStructMemberRef
  let _ ← createPlain ceeConvU
  let _ ← loadToken refStructTypeRef
  let _ ← callMember createRefStructMemberRef false
  let _ ← stLocal refStructIndex
  let _ ← loadLocalAddress refStructIndex

/-- The arguments on the stack (FastPath). -/
def loadArgumentsFast (profiler : CorProfiler) (tokens : TracerTokens) (refStructs : ℕ → ℕ)
    (firstArg : ℕ) : ℕ → ℕ → List Argument → Emit Unit
  | _, _, [] => pure ()
  | i, structRefCount, a :: as => do
      if profiler.enableByRefInstrumentation then do
        let _ ← (if a.flags.byRef then loadArgument (i + firstArg)
          else loadArgumentRef (i + firstArg) : Emit InstrPtr)
        if a.isByRefLike then do
          writeRefStructCall tokens a.typeTok (refStructs structRefCount)
          loadArgumentsFast profiler tokens refStructs firstArg (i + 1) (structRefCount + 1) as
        else loadArgumentsFast profiler tokens refStructs firstArg (i + 1) structRefCount as
      else do
        let _ ← loadArgument (i + firstArg)
        if a.flags.byRef then Emit.skip
        else loadArgumentsFast profiler tokens refStructs firstArg (i + 1) structRefCount as

/-- The arguments inside an object array (SlowPath). -/
def loadArgumentsSlow (firstArg : ℕ) : ℕ → List Argument → Emit Unit
  | _, [] => pure ()
  | i, a :: as => do
      beginLoadValueIntoArray i
      let _ ← loadArgument (i + firstArg)
      if a.flags.byRef || a.flags.pinned then Emit.skip
      else do
        Emit.when a.flags.boxed (if a.typeTok = mdTokenNil then Emit.skip else box a.typeTok)
        let _ ← endLoadValueIntoArray
        loadArgumentsSlow firstArg (i + 1) as

/-- The method arguments on the stack; of a trace method, its handles instead. -/
def loadMethodArguments (profiler : CorProfiler) (tokens : TracerTokens) (caller : FunctionInfo)
    (refStructs : ℕ → ℕ) : Emit Unit :=
  let firstArg := if caller.isStatic then 0 else 1
  if profiler.isIntegrationMethod then
    if caller.arguments.length < fastPathCount then
      loadArgumentsFast profiler tokens refStructs firstArg 0 0 caller.arguments
    else do
      createArray tokens.objectTypeRef caller.arguments.length
      loadArgumentsSlow firstArg 0 caller.arguments
  else do
    let _ ← loadToken caller.id
    let _ ← loadToken caller.type.id

/-! ### Exceptions of the callbacks -/

/-- `CreateFilterForException`. -/
def createFilterForException (profiler : CorProfiler) (tokens : TracerTokens)
    (exceptionValueIndex : ℕ) : Emit InstrPtr := do
  let filter ← createWithToken ceeIsinst tokens.exTypeRef
  let _ ← createPlain ceeDup
  let isException ← createPlain ceeBrtrueS
  let _ ← createPlain ceePop
  let _ ← loadInt32 0
  let endNotException ← createPlain ceeBrS
  let storeException ← stLocal exceptionValueIndex
  setTarget isException storeException
  let _ ← loadLocal exceptionValueIndex
  let _ ← (if profiler.callTargetBubbleUpExceptionFunctionAvailable
        && tokens.bubbleUpExceptionFunctionRef != mdMemberRefNil then
      callMember tokens.bubbleUpExceptionFunctionRef false
    else do
      let _ ← createWithToken ceeIsinst tokens.bubbleUpExceptionTypeRef
      let _ ← loadNull
      createPlain ceeCgtUn : Emit InstrPtr)
  let _ ← loadInt32 0
  let _ ← createPlain ceeCeq
  let _ ← loadInt32 0
  let _ ← createPlain ceeCgtUn
  let endFilter ← createPlain ceeEndfilter
  setTarget endNotException endFilter
  pure filter

/-- `WriteLogException`: the first instruction of the handler, if there is one. Its
failure is not looked at. -/
def writeLogException (logException : Option Token) (instruction : Option InstrPtr) :
    Emit (Option InstrPtr) :=
  match logException with
  | none => pure instruction
  | some methodSpec => do
      let callInstruction ← callMember methodSpec false
      pure (some (instruction.getD callInstruction))

/-- The instructions of a handler that the clause needs. -/
structure Handler where
  filter : Option InstrPtr
  catchFirstInstr : Option InstrPtr
  catchLeaveInstr : InstrPtr

/-- The handler of the exceptions of a callback. -/
def emitHandler (profiler : CorProfiler) (tokens : TracerTokens) (logException : Option Token)
    (exceptionIndex : ℕ) : Emit Handler := do
  if profiler.callTargetBubbleUpExceptionAvailable
      && tokens.bubbleUpExceptionTypeRef != mdTypeRefNil then do
    let filter ← createFilterForException profiler tokens exceptionIndex
    let first ← pop
    let _ ← loadLocal exceptionIndex
    let catchFirstInstr ← writeLogException logException (some first)
    let catchLeaveInstr ← createPlain ceeLeaveS
    pure ⟨some filter, catchFirstInstr, catchLeaveInstr⟩
  else do
    let catchFirstInstr ← writeLogException logException none
    let catchLeaveInstr ← createPlain ceeLeaveS
    pure ⟨none, catchFirstInstr, catchLeaveInstr⟩

def corILExceptionClauseNone : BitVec 32 := 0x0
def corILExceptionClauseFinally : BitVec 32 := 0x2

/-- `beginMethodExClause` and `endMethodExClause`, unless an instruction is null, which
`Export` then dereferences. -/
def Handler.clause (h : Handler) (tokens : TracerTokens) (tryBegin : InstrPtr) :
    Option EHClause :=
  h.catchFirstInstr.map fun catchFirstInstr =>
    match h.filter with
    | some filter =>
        { flags := corILExceptionClauseFilter, tryBegin := tryBegin, tryEnd := filter
          handlerBegin := catchFirstInstr, handlerEnd := h.catchLeaveInstr, classToken := 0
          filter := filter }
    | none =>
        { flags := corILExceptionClauseNone, tryBegin := tryBegin, tryEnd := catchFirstInstr
          handlerBegin := catchFirstInstr, handlerEnd := h.catchLeaveInstr
          classToken := tokens.exTypeRef, filter := .il }

/-! ### The begin method part -/

/-- The instructions of a callback that the clauses need. -/
structure Callback where
  tryStartInstr : InstrPtr
  tryLeave : InstrPtr
  handler : Handler

/-- The begin method part, with the locals. -/
def emitBeginMethod (profiler : CorProfiler) (tokens : TracerTokens) (caller : FunctionInfo)
    (retTypeFlags : TypeFlags) : Emit (Locals × Callback) := do
  let (locals, firstInstruction) ←
    modifyLocalSigAndInitialize profiler tokens retTypeFlags caller.arguments
  Emit.when caller.isRuntimeAsync (do
    let methodSpec ← Emit.ofOption tokens.ensureRuntimeAsyncCallbacksSupported
    callMember methodSpec false)
  let _ ← loadInstance tokens caller
  loadMethodArguments profiler tokens caller fun i => locals.additional (i + 2)
  let beginMethodSpec ← Emit.ofOption tokens.beginMethod
  let _ ← callMember beginMethodSpec false
  let _ ← stLocal locals.callTargetState
  let tryLeave ← createPlain ceeLeaveS
  let handler ← emitHandler profiler tokens tokens.beginLogException (locals.additional 0)
  let beginOriginalMethodInstr ← getCurrentILInstr
  setTarget tryLeave beginOriginalMethodInstr
  setTarget handler.catchLeaveInstr beginOriginalMethodInstr
  pure (locals, ⟨firstInstruction, tryLeave, handler⟩)

/-! ### The end of the method -/

/-- The return instruction behind the end of the list, and the position on it. -/
def createReturn : Emit InstrPtr := fun w =>
  let methodReturnInstr : ILInstr :=
    { ptr := w.rewriter.newILInstr.1, opcode := ceeRet, target := .il, arg := 0 }
  .ok (.instr methodReturnInstr.ptr,
    { rewriter := w.rewriter.newILInstr.2.insertAfter
        (prevPtr w.rewriter.instrs .il) methodReturnInstr
      ilInstr := .instr methodReturnInstr.ptr })

/-- `WriteCallTargetReturnGetReturnValue`, whose failure is not looked at. -/
def writeCallTargetReturnGetReturnValue (memberRef : Option Token) : Emit Unit :=
  match memberRef with
  | none => pure ()
  | some memberRef => do
      let _ ← callMember memberRef false

/-- The end method part. -/
def emitEndMethod (profiler : CorProfiler) (tokens : TracerTokens) (caller : FunctionInfo)
    (isVoid : Bool) (locals : Locals) : Emit Callback := do
  let endMethodTryStartInstr ← loadInstance tokens caller
  Emit.when (!isVoid) (loadLocal locals.returnValue)
  let _ ← loadLocal locals.exception
  let _ ← (if profiler.enableCallTargetStateByRef then loadLocalAddress locals.callTargetState
    else loadLocal locals.callTargetState : Emit InstrPtr)
  let endMethodSpec ← Emit.ofOption tokens.endMethod
  let _ ← callMember endMethodSpec false
  let _ ← stLocal locals.callTargetReturn
  Emit.when (!isVoid) (do
    let _ ← loadLocalAddress locals.callTargetReturn
    writeCallTargetReturnGetReturnValue tokens.callTargetReturnGetReturnValue
    stLocal locals.returnValue)
  let endMethodTryLeave ← createPlain ceeLeaveS
  let handler ← emitHandler profiler tokens tokens.endLogException (locals.additional 1)
  pure ⟨endMethodTryStartInstr, endMethodTryLeave, handler⟩

/-! ### Returns -/

/-- A return of a method without a value, changed. -/
def toLeave (target : InstrPtr) (i : ILInstr) : ILInstr :=
  { i with opcode := ceeLeaveS, target := target }

/-- A return of a method with a value, changed; `m_Arg16` is the low 16 bits of `arg`. -/
def toStloc (returnValueIndex : ℕ) (i : ILInstr) : ILInstr :=
  { i with opcode := ceeStloc
           arg := .ofNat 64 (i.arg.toNat / 2 ^ 16 * 2 ^ 16 + returnValueIndex % 2 ^ 16) }

/-- A return that the loop changes. -/
def IsReturn (methodReturnInstr : InstrPtr) (i : ILInstr) : Prop :=
  i.opcode = ceeRet ∧ .instr i.ptr ≠ methodReturnInstr

instance (methodReturnInstr : InstrPtr) (i : ILInstr) : Decidable (IsReturn methodReturnInstr i) :=
  inferInstanceAs (Decidable (_ ∧ _))

/-- The loop that changes the returns to `leave.s`, over the instructions that the list had
before it; those it inserts are no returns. -/
def changeReturns (isVoid : Bool) (returnValueIndex : ℕ) (methodReturnInstr target : InstrPtr) :
    List ILInstr → ILRewriter → Except Abort ILRewriter
  | [], s => .ok s
  | i :: is, s =>
      if IsReturn methodReturnInstr i then
        if isVoid then
          changeReturns isVoid returnValueIndex methodReturnInstr target is
            (updateInstr (.instr i.ptr) (toLeave target) s)
        -- the index does not fit an `INT16`
        else if 2 ^ 15 ≤ returnValueIndex % 2 ^ 16 then .error .skipped
        else
          let s := updateInstr (.instr i.ptr) (toStloc returnValueIndex) s
          let leaveInstr : ILInstr :=
            { ptr := s.newILInstr.1, opcode := ceeLeaveS, target := target, arg := 0 }
          changeReturns isVoid returnValueIndex methodReturnInstr target is
            (s.newILInstr.2.insertAfter (.instr i.ptr) leaveInstr)
      else changeReturns isVoid returnValueIndex methodReturnInstr target is s

/-! ### The method -/

/-- The instructions that the new clauses and the changed returns need. -/
structure Emitted where
  locals : Locals
  begin : Callback
  methodReturnInstr : InstrPtr
  startExceptionCatch : InstrPtr
  rethrowInstr : InstrPtr
  end_ : Callback
  endFinallyInstr : InstrPtr

/-- The instructions behind the method: for its exceptions, and its end. -/
def emitEnding (profiler : CorProfiler) (tokens : TracerTokens) (caller : FunctionInfo)
    (isVoid : Bool) (locals : Locals) (begin : Callback) (methodReturnInstr : InstrPtr) :
    Emit Emitted := do
  let startExceptionCatch ← stLocal locals.exception
  let rethrowInstr ← rethrow
  let end_ ← emitEndMethod profiler tokens caller isVoid locals
  let endFinallyInstr ← endFinally
  setTarget end_.tryLeave endFinallyInstr
  setTarget end_.handler.catchLeaveInstr endFinallyInstr
  Emit.when (!isVoid) (loadLocal locals.returnValue)
  pure ⟨locals, begin, methodReturnInstr, startExceptionCatch, rethrowInstr, end_,
    endFinallyInstr⟩

/-- The instructions around the method. -/
def emitAround (profiler : CorProfiler) (tokens : TracerTokens) (caller : FunctionInfo)
    (retTypeFlags : TypeFlags) : Emit Emitted := do
  let (locals, begin) ← emitBeginMethod profiler tokens caller retTypeFlags
  let methodReturnInstr ← createReturn
  emitEnding profiler tokens caller retTypeFlags.void locals begin methodReturnInstr

/-- The new exception clauses: of the begin method, the end method, the exceptions of the
method, and its end. -/
def Emitted.clauses (m : Emitted) (tokens : TracerTokens) (is : List ILInstr) :
    List (Option EHClause) :=
  let behindRethrow := nextPtr is m.rethrowInstr
  let exClause : EHClause :=
    { flags := corILExceptionClauseNone, tryBegin := m.begin.tryStartInstr
      tryEnd := m.startExceptionCatch, handlerBegin := m.startExceptionCatch
      handlerEnd := m.rethrowInstr, classToken := tokens.exTypeRef, filter := .il }
  let finallyClause : EHClause :=
    { flags := corILExceptionClauseFinally, tryBegin := m.begin.tryStartInstr
      tryEnd := behindRethrow, handlerBegin := behindRethrow
      handlerEnd := m.endFinallyInstr, classToken := 0, filter := .il }
  [m.begin.handler.clause tokens m.begin.tryStartInstr,
    m.end_.handler.clause tokens m.end_.tryStartInstr, some exClause, some finallyClause]

/-- The edits of the instruction list, and the new exception clauses. -/
def emitMethod (profiler : CorProfiler) (tokens : TracerTokens) (caller : FunctionInfo)
    (retTypeFlags : TypeFlags) (w : ILRewriterWrapper) :
    Except Abort (List (Option EHClause) × ILRewriter) := do
  let (m, w) ← emitAround profiler tokens caller retTypeFlags w
  let target := nextPtr w.rewriter.instrs m.endFinallyInstr
  let rewriter ← changeReturns retTypeFlags.void m.locals.returnValue m.methodReturnInstr target
    w.rewriter.instrs w.rewriter
  .ok (m.clauses tokens rewriter.instrs, rewriter)

/-- `Rewrite`, with the bytes that the output buffer happens to hold: the body that is
exported, and the rewriter before its export. -/
def rewrite (profiler : CorProfiler) (tokens : TracerTokens) (caller : FunctionInfo)
    (fill : ℕ → Byte) (body : MethodBody) : Except Abort (MethodBody × ILRewriter) :=
  if caller.isRuntimeAsync ∧ ¬profiler.callTargetRuntimeAsyncMethodsAvailable then .error .skipped
  else
    match caller.retTypeFlags with
    | none => .error .skipped
    | some retTypeFlags =>
        if caller.isRuntimeAsync ∧ ¬caller.isStatic ∧ caller.type.valueType then .error .skipped
        else if ¬profiler.hasIntegrationTypeRef then .error .skipped
        else if ¬profiler.profilerAssemblyIsLoaded then .error .skipped
        else
          match ILRewriter.init.importBody body with
          | .error _ => .error .skipped
          | .ok rewriter =>
              match emitMethod profiler tokens caller retTypeFlags
                  ⟨rewriter, headPtr rewriter.instrs⟩ with
              | .error abort => .error abort
              | .ok (newClauses, rewriter) =>
                  match newClauses.allSome with
                  | none => .error .nullPointer
                  | some newClauses =>
                      let rewriter := rewriter.setEHClause (rewriter.eh ++ newClauses)
                      match rewriter.export fill with
                      | .error (.hresult _) => .error .skipped
                      | .error .overrun => .error .overrun
                      | .ok (body, _) => .ok (body, rewriter)

end AutoInstrumentation.CallTarget
