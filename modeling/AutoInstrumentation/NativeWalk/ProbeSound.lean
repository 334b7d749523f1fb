import AutoInstrumentation.NativeWalk.Service

/-!
# AutoInstrumentation.NativeWalk.ProbeSound

What a probe of the first frame stages if it succeeds.
-/

namespace AutoInstrumentation.NativeWalk

open StackWalkGuard (Context CapturedFrame Point Answer ProbeRequest Next checkStep)

variable {Regs : Type} {target : Target Regs}

/-! ### What the probe stages -/

section Probe

variable [Inhabited Regs] {Addr : Type} {req req' : ProbeRequest Regs Addr}
  {resolver resolver' : NativeSymbolResolver}

/-- What is left of a probe after a step. -/
def Remains (target : Target Regs) (req' : ProbeRequest Regs Addr)
    (resolver resolver' : NativeSymbolResolver) : Next Regs Addr → Prop
  | .at point req _ => Succeeds target point req resolver req' resolver'
  | .done ok req => ok = true ∧ req' = req ∧ resolver' = resolver

/-- A probe that succeeds has not been abandoned, so each of its steps is the one that
goes on. -/
theorem Succeeds.remains {point : Point} (h : Succeeds target point req resolver req' resolver')
    (next : Next Regs Addr)
    (hstep : ∀ abandon result,
      checkStep abandon req point (target.answer req resolver point).1 = some result →
        result = next ∨ ∃ q, result = .done false q) :
    Remains target req' (target.answer req resolver point).2 resolver' next := by
  cases h with
  | done abandon h =>
      rcases hstep abandon _ h with rfl | ⟨q, hq⟩
      · exact ⟨rfl, rfl, rfl⟩
      · cases hq
  | next abandon h hrest =>
      rcases hstep abandon _ h with rfl | ⟨q, hq⟩
      · exact hrest
      · cases hq

theorem succeeds_finalCheckpoint
    (h : Succeeds target .finalCheckpoint req resolver req' resolver') :
    req' = req ∧ resolver' = resolver := by
  have hdone := h.remains (.done true req) fun abandon result hresult => by
    cases abandon with
    | false =>
        cases hresult
        exact .inl rfl
    | true =>
        cases hresult
        exact .inr ⟨req, rfl⟩
  exact hdone.2

/-- A context that is unwound to is staged, if it is not at the same instruction. -/
theorem remains_unwound {ctx : Context Regs}
    (h : Remains target req' resolver resolver' (StackWalkGuard.unwound req ctx)) :
    ctx.rip ≠ req.stagedCtx.rip ∧ req' = { req with stagedCtx := ctx } ∧ resolver' = resolver := by
  rw [StackWalkGuard.unwound] at h
  by_cases hrip : ctx.rip = req.stagedCtx.rip
  · rw [if_pos hrip] at h
    cases h.1
  · rw [if_neg hrip] at h
    exact ⟨hrip, succeeds_finalCheckpoint h⟩

/-- The frame is unwound in place, and not to the same instruction. -/
theorem succeeds_rtlUnwind
    (h : Succeeds target (.rtlUnwind (target.functionEntry req.stagedCtx).2) req resolver req'
      resolver') :
    ∃ ctx, target.unwind req.stagedCtx = some ctx ∧ ctx.rip ≠ req.stagedCtx.rip
      ∧ req' = { req with stagedCtx := ctx } ∧ resolver' = resolver := by
  rw [Target.unwind]
  cases hentry : (target.functionEntry req.stagedCtx).2 with
  | none =>
      rw [hentry] at h
      by_cases hrsp : req.stagedCtx.rsp = 0
      · have hfailed := h.remains (.done false req) fun abandon result hresult => by
          have hstep : some (Next.done false req) = some result := by
            rw [← hresult]
            exact (if_pos hrsp).symm
          exact .inl (Option.some.inj hstep).symm
        cases hfailed.1
      · have hleft := h.remains (StackWalkGuard.unwound req
          { req.stagedCtx with
            rip := target.returnAddress req.stagedCtx, rsp := req.stagedCtx.rsp + 8 })
          fun abandon result hresult => by
            have hstep : some (StackWalkGuard.unwound req { req.stagedCtx with
                rip := target.returnAddress req.stagedCtx, rsp := req.stagedCtx.rsp + 8 })
                = some result := by
              rw [← hresult]
              exact (if_neg hrsp).symm
            exact .inl (Option.some.inj hstep).symm
        dsimp only
        rw [if_neg hrsp]
        exact ⟨_, rfl, remains_unwound hleft⟩
  | some beginAddress =>
      rw [hentry] at h
      have hleft := h.remains (StackWalkGuard.unwound req (target.virtualUnwind req.stagedCtx))
        fun abandon result hresult => .inl (Option.some.inj hresult).symm
      exact ⟨_, rfl, remains_unwound hleft⟩

/-- What the probe finds out of the module at an image base, and the resolver after it. -/
def Target.classified (target : Target Regs) (imageBase : BitVec 64)
    (resolver : NativeSymbolResolver) : Option Bool × NativeSymbolResolver :=
  match target.loader.moduleFileName imageBase with
  | none => (none, resolver)
  | some path => resolver.isSystemModuleFromPath target.loader imageBase path.buffer

/-- The instruction pointer that the probe gives a native frame, and the resolver after
it. -/
def Target.probedIp (target : Target Regs) (ctx : Context Regs)
    (resolver : NativeSymbolResolver) : BitVec 64 × NativeSymbolResolver :=
  let (imageBase, rtFunc) := target.functionEntry ctx
  let sys := if imageBase = 0 then (none, resolver) else target.classified imageBase resolver
  (StackWalkGuard.frameIp ctx.rip imageBase rtFunc sys.1, sys.2)

/-- What a successful probe stages of a native frame. -/
structure StagesNative (target : Target Regs) (req : ProbeRequest Regs Addr)
    (resolver : NativeSymbolResolver) (req' : ProbeRequest Regs Addr)
    (resolver' : NativeSymbolResolver) : Prop where
  unwind : target.unwind req.stagedCtx = some req'.stagedCtx
  rip : req'.stagedCtx.rip ≠ req.stagedCtx.rip
  frame : req'.stagedFrame = { req.stagedFrame with
    instructionPointer := (target.probedIp req.stagedCtx resolver).1 }
  resolver : resolver' = (target.probedIp req.stagedCtx resolver).2

theorem succeeds_rtlUnwindStage {ip : BitVec 64}
    (h : Succeeds target (.rtlUnwindStage (target.functionEntry req.stagedCtx).2)
      (StackWalkGuard.setFrameIp req ip) resolver req' resolver') :
    target.unwind req.stagedCtx = some req'.stagedCtx ∧ req'.stagedCtx.rip ≠ req.stagedCtx.rip
      ∧ req'.stagedFrame = { req.stagedFrame with instructionPointer := ip }
      ∧ resolver' = resolver := by
  have hunwind : Succeeds target
      (.rtlUnwind (target.functionEntry (StackWalkGuard.setFrameIp req ip).stagedCtx).2)
      (StackWalkGuard.setFrameIp req ip) resolver req' resolver' :=
    h.remains (.at (.rtlUnwind (target.functionEntry req.stagedCtx).2)
      (StackWalkGuard.setFrameIp req ip) (some .rtlUnwind))
      fun abandon result hresult => .inl (Option.some.inj hresult).symm
  obtain ⟨ctx, hctx, hrip, rfl, rfl⟩ := succeeds_rtlUnwind hunwind
  exact ⟨hctx, hrip, rfl, rfl⟩

/-- Behind `GetModuleFileNameW` the frame is composed. -/
theorem succeeds_loaderLockCheckpoint {sys : Option Bool}
    (h : Succeeds target (.loaderLockCheckpoint (target.functionEntry req.stagedCtx).1
      (target.functionEntry req.stagedCtx).2 sys) req resolver req' resolver') :
    target.unwind req.stagedCtx = some req'.stagedCtx ∧ req'.stagedCtx.rip ≠ req.stagedCtx.rip
      ∧ req'.stagedFrame = { req.stagedFrame with
          instructionPointer := StackWalkGuard.frameIp req.stagedCtx.rip
            (target.functionEntry req.stagedCtx).1 (target.functionEntry req.stagedCtx).2 sys }
      ∧ resolver' = resolver := by
  refine succeeds_rtlUnwindStage (h.remains (.at (.rtlUnwindStage _)
    (StackWalkGuard.setFrameIp req _) none) fun abandon result hresult => ?_)
  cases abandon with
  | false => exact .inl (Option.some.inj hresult).symm
  | true => exact .inr ⟨req, (Option.some.inj hresult).symm⟩

omit [Inhabited Regs] in
/-- What comes back at an image base is what its module is classified as. -/
theorem modulePath_eq (target : Target Regs) (resolver : NativeSymbolResolver)
    (imageBase : BitVec 64) :
    ∃ path, target.modulePath imageBase resolver
        = (.getModuleFileName path, (target.classified imageBase resolver).2)
      ∧ path.join = (target.classified imageBase resolver).1 := by
  rw [Target.modulePath, Target.classified]
  cases target.loader.moduleFileName imageBase with
  | none => exact ⟨none, rfl, rfl⟩
  | some path => exact ⟨some _, rfl, rfl⟩

theorem succeeds_loaderLock {imageBase : BitVec 64} {rtFunc : Option (BitVec 32)}
    (h : Succeeds target (.loaderLock imageBase rtFunc) req resolver req' resolver') :
    Succeeds target
      (.loaderLockCheckpoint imageBase rtFunc (target.classified imageBase resolver).1)
      req (target.classified imageBase resolver).2 req' resolver' := by
  obtain ⟨path, hpath, hjoin⟩ := modulePath_eq target resolver imageBase
  have hanswer : target.answer req resolver (.loaderLock imageBase rtFunc)
      = (.getModuleFileName path, (target.classified imageBase resolver).2) := hpath
  have hleft := h.remains (.at (.loaderLockCheckpoint imageBase rtFunc path.join) req none)
    fun abandon result hresult => by
      rw [hanswer] at hresult
      exact .inl (Option.some.inj hresult).symm
  rw [hanswer, hjoin] at hleft
  exact hleft

theorem succeeds_loaderLockStage
    (h : Succeeds target (.loaderLockStage (target.functionEntry req.stagedCtx).1
      (target.functionEntry req.stagedCtx).2) req resolver req' resolver') :
    StagesNative target req resolver req' resolver' := by
  by_cases hbase : (target.functionEntry req.stagedCtx).1 = 0
  · have hstage : Succeeds target (.rtlUnwindStage (target.functionEntry req.stagedCtx).2)
        (StackWalkGuard.setFrameIp req (StackWalkGuard.frameIp req.stagedCtx.rip
          (target.functionEntry req.stagedCtx).1 (target.functionEntry req.stagedCtx).2 none))
        resolver req' resolver' :=
      h.remains (.at (.rtlUnwindStage _) (StackWalkGuard.setFrameIp req _) (some .loaderLock))
        fun abandon result hresult => by
          refine .inl (Option.some.inj ?_)
          rw [← hresult]
          exact if_pos hbase
    obtain ⟨hunwind, hrip, hframe, hresolver⟩ := succeeds_rtlUnwindStage hstage
    have hprobed : target.probedIp req.stagedCtx resolver
        = (StackWalkGuard.frameIp req.stagedCtx.rip (target.functionEntry req.stagedCtx).1
            (target.functionEntry req.stagedCtx).2 none, resolver) := by
      rw [Target.probedIp]
      simp only [hbase, if_true]
    exact ⟨hunwind, hrip, by rw [hframe, hprobed], by rw [hresolver, hprobed]⟩
  · have hlock : Succeeds target (.loaderLock (target.functionEntry req.stagedCtx).1
        (target.functionEntry req.stagedCtx).2) req resolver req' resolver' :=
      h.remains (.at (.loaderLock _ _) req (some .loaderLock)) fun abandon result hresult => by
        refine .inl (Option.some.inj ?_)
        rw [← hresult]
        exact if_neg hbase
    obtain ⟨hunwind, hrip, hframe, hresolver⟩ :=
      succeeds_loaderLockCheckpoint (succeeds_loaderLock hlock)
    have hprobed : target.probedIp req.stagedCtx resolver
        = (StackWalkGuard.frameIp req.stagedCtx.rip (target.functionEntry req.stagedCtx).1
            (target.functionEntry req.stagedCtx).2
            (target.classified (target.functionEntry req.stagedCtx).1 resolver).1,
          (target.classified (target.functionEntry req.stagedCtx).1 resolver).2) := by
      rw [Target.probedIp]
      simp only [hbase, if_false]
    exact ⟨hunwind, hrip, by rw [hframe, hprobed], by rw [hresolver, hprobed]⟩

theorem succeeds_rtlLookupStage
    (h : Succeeds target .rtlLookupStage req resolver req' resolver') :
    Succeeds target (.clrIpMap (target.functionEntry req.stagedCtx).1
      (target.functionEntry req.stagedCtx).2) req resolver req' resolver' := by
  have hlookup : Succeeds target .rtlLookup req resolver req' resolver' :=
    h.remains (.at .rtlLookup req (some .rtlLookup))
      fun abandon result hresult => .inl (Option.some.inj hresult).symm
  have hcheckpoint : Succeeds target (.rtlLookupCheckpoint (target.functionEntry req.stagedCtx).1
      (target.functionEntry req.stagedCtx).2) req resolver req' resolver' :=
    hlookup.remains (.at (.rtlLookupCheckpoint _ _) req none)
      fun abandon result hresult => .inl (Option.some.inj hresult).symm
  have hstage : Succeeds target (.clrIpMapStage (target.functionEntry req.stagedCtx).1
      (target.functionEntry req.stagedCtx).2) req resolver req' resolver' :=
    hcheckpoint.remains (.at (.clrIpMapStage _ _) req none) fun abandon result hresult => by
      cases abandon with
      | false => exact .inl (Option.some.inj hresult).symm
      | true => exact .inr ⟨req, (Option.some.inj hresult).symm⟩
  exact hstage.remains (.at (.clrIpMap _ _) req (some .clrIpMap))
    fun abandon result hresult => .inl (Option.some.inj hresult).symm

/-- A successful probe stages the seed of a managed frame, or a native frame and the context
behind it. -/
def Staged (target : Target Regs) (req : ProbeRequest Regs Addr)
    (resolver : NativeSymbolResolver) (req' : ProbeRequest Regs Addr)
    (resolver' : NativeSymbolResolver) : Prop :=
  target.isManaged req.stagedCtx = true ∧ req'.stagedFrame.isUnmanagedFrame = false
      ∧ req'.stagedCtx = req.stagedCtx ∧ resolver' = resolver
    ∨ target.isManaged req.stagedCtx = false
      ∧ StagesNative target (StackWalkGuard.stageFrame req 0 true) resolver req' resolver'

theorem succeeds_clrIpMap
    (h : Succeeds target (.clrIpMap (target.functionEntry req.stagedCtx).1
      (target.functionEntry req.stagedCtx).2) req resolver req' resolver') :
    Staged target req resolver req' resolver' := by
  have hcheckpoint : Succeeds target (.clrIpMapCheckpoint (target.functionEntry req.stagedCtx).1
      (target.functionEntry req.stagedCtx).2
      (if target.isManaged req.stagedCtx then some (target.functionFromIP req.stagedCtx).2
        else none)) req resolver req' resolver' :=
    h.remains (.at (.clrIpMapCheckpoint _ _ _) req none) fun abandon result hresult => by
      left
      rw [← Option.some.inj hresult]
      rfl
  cases hmanaged : target.isManaged req.stagedCtx with
  | true =>
      rw [if_pos hmanaged] at hcheckpoint
      have hfinal := hcheckpoint.remains (.at .finalCheckpoint
        (StackWalkGuard.stageFrame req (target.functionFromIP req.stagedCtx).2 false) none)
        fun abandon result hresult => by
          cases abandon with
          | false => exact .inl (Option.some.inj hresult).symm
          | true => exact .inr ⟨req, (Option.some.inj hresult).symm⟩
      obtain ⟨rfl, rfl⟩ := succeeds_finalCheckpoint hfinal
      exact .inl ⟨hmanaged, rfl, rfl, rfl⟩
  | false =>
      rw [if_neg (by rw [hmanaged]; exact Bool.false_ne_true)] at hcheckpoint
      have hstage : Succeeds target (.loaderLockStage _ _) (StackWalkGuard.stageFrame req 0 true)
          resolver req' resolver' :=
        hcheckpoint.remains (.at (.loaderLockStage _ _) (StackWalkGuard.stageFrame req 0 true) none)
          fun abandon result hresult => by
            cases abandon with
            | false => exact .inl (Option.some.inj hresult).symm
            | true => exact .inr ⟨req, (Option.some.inj hresult).symm⟩
      exact .inr ⟨hmanaged, succeeds_loaderLockStage hstage⟩

theorem succeeds_dispatch (hkind : req.kind = .rtlFrame0)
    (h : Succeeds target .dispatch req resolver req' resolver') :
    req.stagedCtx.rip ≠ 0 ∧ Staged target req resolver req' resolver' := by
  by_cases hfails : (req.ctxInout.isNone || req.frameOut.isNone) = true ∨ req.stagedCtx.rip = 0
  · have hfailed := h.remains (.done false req) fun abandon result hresult => by
      left
      have hstep : checkStep abandon req .dispatch .silent = some (.done false req) := by
        rcases hfails with hnull | hrip
        · simp [checkStep, hkind, hnull]
        · simp [checkStep, hkind, hrip]
      exact Option.some.inj (hresult.symm.trans hstep)
    cases hfailed.1
  · have hstage : Succeeds target .rtlLookupStage req resolver req' resolver' :=
      h.remains (.at .rtlLookupStage req none) fun abandon result hresult => by
        left
        have hstep : checkStep abandon req .dispatch .silent
            = some (.at .rtlLookupStage req none) := by
          rw [not_or] at hfails
          simp [checkStep, hkind, hfails.1]
          exact hfails.2
        exact Option.some.inj (hresult.symm.trans hstep)
    rw [not_or] at hfails
    exact ⟨hfails.2, succeeds_clrIpMap (succeeds_rtlLookupStage hstage)⟩

end Probe

end AutoInstrumentation.NativeWalk
