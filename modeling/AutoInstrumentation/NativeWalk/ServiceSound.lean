import AutoInstrumentation.NativeWalk.ProbeSound

/-!
# AutoInstrumentation.NativeWalk.ServiceSound

When the continuation from the probe is the walk from the seed context.

What a walk delivers is a matter of the frames on the stack and of the callback's answers
alone, so the walk from the seed and the walk behind the probed frame are compared by what
they make of the same stack.
-/

namespace AutoInstrumentation.NativeWalk

open StackWalkGuard (Context CapturedFrame ProbeRequest)

variable {Regs : Type} {target : Target Regs} {answers : ℕ → HResult}

/-! ### The stack -/

/-- The native frames from a context on, to the end of the stack or to managed code, with
the context there. -/
inductive NativeStack (target : Target Regs) :
    Context Regs → List (Context Regs) → Option (Context Regs) → Prop
  | managed {ctx : Context Regs} :
      ctx.rip ≠ 0 → target.isManaged ctx = true → NativeStack target ctx [] (some ctx)
  | bottom {ctx : Context Regs} : ctx.rip = 0 → NativeStack target ctx [] none
  /-- Nothing to unwind to, or the same instruction again. -/
  | stuck {ctx : Context Regs} :
      ctx.rip ≠ 0 → target.isManaged ctx = false →
      (∀ next, target.unwind ctx = some next → next.rip = ctx.rip) →
      NativeStack target ctx [ctx] none
  | frame {ctx next : Context Regs} {frames : List (Context Regs)}
      {boundary : Option (Context Regs)} :
      ctx.rip ≠ 0 → target.isManaged ctx = false →
      target.unwind ctx = some next → next.rip ≠ ctx.rip →
      NativeStack target next frames boundary → NativeStack target ctx (ctx :: frames) boundary

theorem NativeStack.of_managed {ctx : Context Regs} {frames : List (Context Regs)}
    {boundary : Option (Context Regs)} (h : NativeStack target ctx frames boundary)
    (hrip : ctx.rip ≠ 0) (hmanaged : target.isManaged ctx = true) :
    frames = [] ∧ boundary = some ctx := by
  cases h with
  | managed _ _ => exact ⟨rfl, rfl⟩
  | bottom hzero => exact absurd hzero hrip
  | stuck _ hnative _ =>
      rw [hmanaged] at hnative
      cases hnative
  | frame _ hnative _ _ _ =>
      rw [hmanaged] at hnative
      cases hnative

theorem NativeStack.of_native {ctx next : Context Regs} {frames : List (Context Regs)}
    {boundary : Option (Context Regs)} (h : NativeStack target ctx frames boundary)
    (hrip : ctx.rip ≠ 0) (hnative : target.isManaged ctx = false)
    (hunwind : target.unwind ctx = some next) (hne : next.rip ≠ ctx.rip) :
    ∃ rest, frames = ctx :: rest ∧ NativeStack target next rest boundary := by
  cases h with
  | managed _ hmanaged =>
      rw [hmanaged] at hnative
      cases hnative
  | bottom hzero => exact absurd hzero hrip
  | stuck _ _ hstuck => exact absurd (hstuck next hunwind) hne
  | frame _ _ hunwind' _ hrest =>
      rw [hunwind] at hunwind'
      cases hunwind'
      exact ⟨_, rfl, hrest⟩

/-- The instruction pointers that the frames are given, one after the other. -/
def Target.frameIps (target : Target Regs) :
    NativeSymbolResolver → List (Context Regs) → List (BitVec 64)
  | _, [] => []
  | resolver, ctx :: frames =>
      (target.frameIp ctx resolver).1 :: target.frameIps (target.frameIp ctx resolver).2 frames

theorem Target.frameIps_length (target : Target Regs) (resolver : NativeSymbolResolver)
    (frames : List (Context Regs)) : (target.frameIps resolver frames).length = frames.length := by
  induction frames generalizing resolver with
  | nil => rfl
  | cons ctx frames ih => exact congrArg (· + 1) (ih _)

/-- What a callback is given of `ips` before it stops the walk, with the answer that stops
it. `told` is how many frames it has been given before. -/
def deliver (answers : ℕ → HResult) : ℕ → List (BitVec 64) → List (BitVec 64) × Option HResult
  | _, [] => ([], none)
  | told, ip :: ips =>
      if answers told = sOk then
        (ip :: (deliver answers (told + 1) ips).1, (deliver answers (told + 1) ips).2)
      else ([ip], some (answers told))

theorem deliver_ok {told : ℕ} {ip : BitVec 64} {ips : List (BitVec 64)}
    (h : answers told = sOk) :
    deliver answers told (ip :: ips)
      = (ip :: (deliver answers (told + 1) ips).1, (deliver answers (told + 1) ips).2) := by
  rw [deliver, if_pos h]

theorem deliver_stop {told : ℕ} {ip : BitVec 64} {ips : List (BitVec 64)}
    (h : answers told ≠ sOk) :
    deliver answers told (ip :: ips) = ([ip], some (answers told)) := by
  rw [deliver, if_neg h]

theorem deliver_ne_nil (told : ℕ) (ip : BitVec 64) (ips : List (BitVec 64)) :
    (deliver answers told (ip :: ips)).1 ≠ [] := by
  by_cases h : answers told = sOk
  · rw [deliver_ok h]
    exact List.cons_ne_nil _ _
  · rw [deliver_stop h]
    exact List.cons_ne_nil _ _

/-- The callback stops the walk with its first answer other than `S_OK`, or there is no
such answer and it is given everything. -/
theorem deliver_cases (answers : ℕ → HResult) (told : ℕ) (ips : List (BitVec 64)) :
    (deliver answers told ips = (ips, none) ∧ ∀ i < ips.length, answers (told + i) = sOk)
      ∨ ∃ k < ips.length,
          deliver answers told ips = (ips.take (k + 1), some (answers (told + k)))
            ∧ answers (told + k) ≠ sOk ∧ ∀ i < k, answers (told + i) = sOk := by
  induction ips generalizing told with
  | nil => exact .inl ⟨rfl, by simp⟩
  | cons ip ips ih =>
      by_cases hanswer : answers told = sOk
      · have hshift : ∀ i, answers (told + (i + 1)) = answers (told + 1 + i) := by
          intro i
          congr 1
          omega
        rcases ih (told + 1) with ⟨hall, hok⟩ | ⟨k, hk, hstop, hne, hok⟩
        · refine .inl ⟨by rw [deliver_ok hanswer, hall], ?_⟩
          intro i hi
          cases i with
          | zero => exact hanswer
          | succ i =>
              rw [hshift]
              exact hok i (Nat.lt_of_succ_lt_succ hi)
        · refine .inr ⟨k + 1, Nat.succ_lt_succ hk, ?_, ?_, ?_⟩
          · rw [deliver_ok hanswer, hstop, hshift]
            rfl
          · rw [hshift]
            exact hne
          · intro i hi
            cases i with
            | zero => exact hanswer
            | succ i =>
                rw [hshift]
                exact hok i (Nat.lt_of_succ_lt_succ hi)
      · refine .inr ⟨0, Nat.succ_pos _, deliver_stop hanswer, hanswer, ?_⟩
        intro i hi
        cases hi

/-! ### What a walk makes of the stack -/

/-- The instruction pointers of the frames that the callback has been given. -/
def Client.ips (client : Client) : List (BitVec 64) :=
  client.delivered.map CapturedFrame.instructionPointer

/-- What the callback is given of the frames on the stack, and the answer that stops the
walk. -/
def Walk.told (target : Target Regs) (answers : ℕ → HResult) (frames : List (Context Regs))
    (w : Walk Regs) : List (BitVec 64) × Option HResult :=
  deliver answers w.client.delivered.length (target.frameIps w.resolver frames)

/-- What `walkLoop` makes of the frames on the stack, with `depth` turns left. -/
structure Walked (target : Target Regs) (answers : ℕ → HResult) (depth : ℕ)
    (frames : List (Context Regs)) (boundary : Option (Context Regs)) (w w' : Walk Regs) :
    Prop where
  ips : w'.client.ips = w.client.ips ++ (w.told target answers frames).1
  stopped : ∀ answer, (w.told target answers frames).2 = some answer →
    w'.result = { w.result with hr := if answer = sFalse then sOk else answer }
      ∧ w'.frameCount + 1 + w.client.ips.length = w.frameCount + w'.client.ips.length
  through : (w.told target answers frames).2 = none →
    w'.frameCount = w.frameCount + frames.length
      ∧ w'.result = match if frames.length < depth then boundary else none with
        | some ctx => { w.result with hr := sOk, seedCtx := some ctx }
        | none => w.result

section Walk

variable {depth : ℕ} {frames : List (Context Regs)} {boundary : Option (Context Regs)}
  {w w' : Walk Regs}

/-- No frame is left. -/
theorem walked_nil (hclient : w'.client = w.client) (hcount : w'.frameCount = w.frameCount)
    (hresult : w'.result = match if 0 < depth then boundary else none with
      | some ctx => { w.result with hr := sOk, seedCtx := some ctx }
      | none => w.result) :
    Walked target answers depth [] boundary w w' where
  ips := by
    rw [hclient]
    exact (List.append_nil _).symm
  stopped := by
    intro answer hanswer
    cases hanswer
  through := by
    intro _
    exact ⟨hcount, hresult⟩

/-- The walk behind the callback for a native frame. -/
def Walk.emit (target : Target Regs) (answers : ℕ → HResult) (w : Walk Regs) : Walk Regs :=
  let ip := target.frameIp w.threadCtx w.resolver
  let frame := { w.client.frame with
    functionId := 0, instructionPointer := ip.1, frameInfo := 0, contextSize := 0, context := 0
    isUnmanagedFrame := true }
  { w with resolver := ip.2, client := ({ w.client with frame := frame }.invokeCallback answers).2 }

theorem walkTurn_native (h : target.isManaged w.threadCtx = false) :
    walkTurn target answers w
      = if answers w.client.delivered.length ≠ sOk then
          .stop { w.emit target answers with
            result := { w.result with
              hr := if answers w.client.delivered.length = sFalse then sOk
                else answers w.client.delivered.length } }
        else afterFrame target { w.emit target answers with frameCount := w.frameCount + 1 } := by
  rw [walkTurn, if_neg (by rw [h]; exact Bool.false_ne_true)]
  rfl

@[simp] theorem emit_ips : (w.emit target answers).client.ips
    = w.client.ips ++ [(target.frameIp w.threadCtx w.resolver).1] := List.map_append

@[simp] theorem emit_told (target : Target Regs) : (w.emit target answers).client.delivered.length
    = w.client.delivered.length + 1 := by
  simp [Walk.emit, Client.invokeCallback]

@[simp] theorem Client.ips_length (client : Client) :
    client.ips.length = client.delivered.length := List.length_map ..

theorem told_stop (hanswer : answers w.client.delivered.length ≠ sOk) :
    w.told target answers (w.threadCtx :: frames)
      = ([(target.frameIp w.threadCtx w.resolver).1], some (answers w.client.delivered.length)) :=
  deliver_stop hanswer

theorem told_ok {frameCount : ℕ} {ctx : Context Regs}
    (hanswer : answers w.client.delivered.length = sOk) :
    w.told target answers (w.threadCtx :: frames)
      = ((target.frameIp w.threadCtx w.resolver).1
          :: (Walk.told target answers frames
            { w.emit target answers with frameCount := frameCount, threadCtx := ctx }).1,
        (Walk.told target answers frames
          { w.emit target answers with frameCount := frameCount, threadCtx := ctx }).2) := by
  have hrest : Walk.told target answers frames
      { w.emit target answers with frameCount := frameCount, threadCtx := ctx }
      = deliver answers (w.client.delivered.length + 1)
        (target.frameIps (target.frameIp w.threadCtx w.resolver).2 frames) := by
    rw [← emit_told target]
    rfl
  rw [hrest]
  exact deliver_ok hanswer

/-- The callback stops the walk at the first of the frames. -/
theorem walked_stop (hanswer : answers w.client.delivered.length ≠ sOk) :
    Walked target answers depth (w.threadCtx :: frames) boundary w
      { w.emit target answers with
        result := { w.result with
          hr := if answers w.client.delivered.length = sFalse then sOk
            else answers w.client.delivered.length } } where
  ips := by
    rw [told_stop hanswer]
    exact emit_ips
  stopped := by
    intro answer hstop
    rw [told_stop hanswer] at hstop
    cases hstop
    refine ⟨rfl, ?_⟩
    rw [Client.ips_length, Client.ips_length, emit_told]
    show w.frameCount + 1 + _ = w.frameCount + _
    omega
  through := by
    intro hall
    rw [told_stop hanswer] at hall
    cases hall

/-- The callback goes on behind the first of the frames. -/
theorem Walked.cons {ctx : Context Regs}
    (hanswer : answers w.client.delivered.length = sOk)
    (h : Walked target answers depth frames boundary
      { w.emit target answers with frameCount := w.frameCount + 1, threadCtx := ctx } w') :
    Walked target answers (depth + 1) (w.threadCtx :: frames) boundary w w' where
  ips := by
    rw [h.ips, told_ok hanswer]
    show (w.emit target answers).client.ips ++ _ = _
    rw [emit_ips, List.append_assoc]
    rfl
  stopped := by
    intro answer hstop
    rw [told_ok hanswer] at hstop
    obtain ⟨hresult, hcount⟩ := h.stopped answer hstop
    refine ⟨hresult, ?_⟩
    have hlength : (w.emit target answers).client.ips.length = w.client.ips.length + 1 := by
      rw [emit_ips, List.length_append]
      rfl
    change w'.frameCount + 1 + (w.emit target answers).client.ips.length
      = w.frameCount + 1 + _ at hcount
    omega
  through := by
    intro hall
    rw [told_ok hanswer] at hall
    obtain ⟨hcount, hresult⟩ := h.through hall
    refine ⟨?_, ?_⟩
    · rw [hcount, List.length_cons]
      show w.frameCount + 1 + _ = _
      omega
    · rw [hresult, List.length_cons]
      simp only [Nat.add_lt_add_iff_right]
      rfl

theorem afterFrame_stuck
    (h : ∀ next, target.unwind w.threadCtx = some next → next.rip = w.threadCtx.rip) :
    ∃ ctx, afterFrame target w = .stop { w with threadCtx := ctx } := by
  rw [afterFrame]
  cases hunwind : target.unwind w.threadCtx with
  | none => exact ⟨w.threadCtx, rfl⟩
  | some next => exact ⟨next, if_pos (h next hunwind)⟩

theorem afterFrame_next {next : Context Regs} (hunwind : target.unwind w.threadCtx = some next)
    (hne : next.rip ≠ w.threadCtx.rip) :
    afterFrame target w = .next { w with threadCtx := next } := by
  rw [afterFrame, hunwind]
  exact if_neg hne

/-- **A walk with turns for all the frames of a stack** gives the callback the frames until
it stops the walk, and otherwise finds the boundary if a turn is left for it. -/
theorem walkLoop_walked {ctx : Context Regs} (hstack : NativeStack target ctx frames boundary)
    (hctx : w.threadCtx = ctx) (hdepth : frames.length ≤ depth) :
    Walked target answers depth frames boundary w (walkLoop target answers depth w) := by
  induction hstack generalizing depth w with
  | managed hrip hmanaged =>
      subst hctx
      cases depth with
      | zero => exact walked_nil rfl rfl rfl
      | succ depth =>
          rw [walkLoop, if_neg hrip, walkTurn, if_pos hmanaged]
          exact walked_nil rfl rfl rfl
  | bottom hrip =>
      subst hctx
      have hdone : walkLoop target answers depth w = w := by
        cases depth with
        | zero => rfl
        | succ depth => rw [walkLoop, if_pos hrip]
      rw [hdone]
      refine walked_nil rfl rfl ?_
      rw [ite_self]
  | stuck hrip hmanaged hstuck =>
      subst hctx
      obtain ⟨depth, rfl⟩ := Nat.exists_eq_add_of_lt hdepth
      rw [walkLoop, if_neg hrip, walkTurn_native hmanaged]
      by_cases hanswer : answers w.client.delivered.length = sOk
      · rw [if_neg (not_not_intro hanswer)]
        obtain ⟨ctx, hafter⟩ := afterFrame_stuck
          (w := { w.emit target answers with frameCount := w.frameCount + 1 }) hstuck
        rw [hafter]
        exact .cons hanswer (walked_nil rfl rfl (by rw [ite_self]))
      · rw [if_pos hanswer]
        exact walked_stop hanswer
  | @frame ctx next frames boundary hrip hmanaged hunwind hne hrest ih =>
      subst hctx
      obtain ⟨depth, rfl⟩ := Nat.exists_eq_add_of_lt hdepth
      rw [walkLoop, if_neg hrip, walkTurn_native hmanaged]
      by_cases hanswer : answers w.client.delivered.length = sOk
      · rw [if_neg (not_not_intro hanswer)]
        rw [afterFrame_next
          (w := { w.emit target answers with frameCount := w.frameCount + 1 }) hunwind hne]
        exact .cons hanswer (ih rfl (Nat.le_add_right _ _))
      · rw [if_pos hanswer]
        exact walked_stop hanswer

/-- The walk has a seed if the callback does not stop it and it comes to the boundary. -/
theorem Walked.seedCtx (h : Walked target answers depth frames boundary w w')
    (hseed : w.result.seedCtx = none) :
    w'.result.seedCtx
      = if (w.told target answers frames).2 = none ∧ frames.length < depth then boundary
        else none := by
  cases htold : (w.told target answers frames).2 with
  | some answer =>
      have hstop : ¬ (some answer = none ∧ frames.length < depth) := by
        intro hthrough
        cases hthrough.1
      rw [if_neg hstop, (h.stopped answer htold).1]
      exact hseed
  | none =>
      rw [(h.through htold).2]
      by_cases hdepth : frames.length < depth
      · rw [if_pos hdepth, if_pos ⟨rfl, hdepth⟩]
        cases boundary with
        | none => exact hseed
        | some ctx => rfl
      · rw [if_neg hdepth, if_neg (by intro hthrough; exact hdepth hthrough.2)]
        exact hseed

end Walk

/-! ### The instruction pointer of the probed frame -/

section FrameIp

variable {ctx : Context Regs} {resolver : NativeSymbolResolver}

/-- The path of the frame's module cannot be read, but the cache knows the module, as one
that is not a system module. -/
structure Target.StaleName (target : Target Regs) (ctx : Context Regs)
    (resolver : NativeSymbolResolver) : Prop where
  base : (target.functionEntry ctx).1 ≠ 0
  path : target.loader.moduleFileName (target.functionEntry ctx).1 = none
  cached : (resolver.moduleCache.find (target.functionEntry ctx).1).map ModuleInfo.isSystem
    = some false
  entry : target.entryIp ctx ≠ (target.functionEntry ctx).1

theorem frameIp_base (hbase : (target.functionEntry ctx).1 ≠ 0) (sys : Option Bool) :
    StackWalkGuard.frameIp ctx.rip (target.functionEntry ctx).1 (target.functionEntry ctx).2 sys
      = if sys = some false then (target.functionEntry ctx).1 else target.entryIp ctx := by
  rcases sys with _ | _ | _
  · exact if_neg hbase
  · rfl
  · exact if_neg hbase

theorem probedIp_zero (hbase : (target.functionEntry ctx).1 = 0) :
    target.probedIp ctx resolver = target.frameIp ctx resolver := by
  simp [Target.probedIp, Target.frameIp, hbase, StackWalkGuard.frameIp]

theorem probedIp_base (hbase : (target.functionEntry ctx).1 ≠ 0) :
    target.probedIp ctx resolver
      = (if (target.classified (target.functionEntry ctx).1 resolver).1 = some false then
          (target.functionEntry ctx).1 else target.entryIp ctx,
        (target.classified (target.functionEntry ctx).1 resolver).2) := by
  rw [Target.probedIp, ← frameIp_base hbase]
  simp only [hbase, if_false]

theorem frameIp_eq (hbase : (target.functionEntry ctx).1 ≠ 0) :
    target.frameIp ctx resolver
      = (if (resolver.isSystemModule target.loader (target.functionEntry ctx).1).1 = some false then
          (target.functionEntry ctx).1 else target.entryIp ctx,
        (resolver.isSystemModule target.loader (target.functionEntry ctx).1).2) := by
  rw [Target.frameIp]
  exact if_pos hbase

/-- The probe leaves the resolver that the walk leaves. -/
theorem probedIp_resolver :
    (target.probedIp ctx resolver).2 = (target.frameIp ctx resolver).2 := by
  by_cases hbase : (target.functionEntry ctx).1 = 0
  · rw [probedIp_zero hbase]
  · rw [probedIp_base hbase, frameIp_eq hbase, Target.classified]
    cases hpath : target.loader.moduleFileName (target.functionEntry ctx).1 with
    | none => rw [NativeSymbolResolver.isSystemModule_of_no_path hpath]
    | some path => rw [← NativeSymbolResolver.isSystemModuleFromPath_eq hpath]

/-- The probe and the walk name a frame alike, but for a stale name. -/
theorem probedIp_eq_iff :
    (target.probedIp ctx resolver).1 = (target.frameIp ctx resolver).1
      ↔ ¬ target.StaleName ctx resolver := by
  by_cases hbase : (target.functionEntry ctx).1 = 0
  · rw [probedIp_zero hbase]
    exact iff_of_true rfl fun hstale => hstale.base hbase
  · rw [probedIp_base hbase, frameIp_eq hbase, Target.classified]
    cases hpath : target.loader.moduleFileName (target.functionEntry ctx).1 with
    | some path =>
        rw [← NativeSymbolResolver.isSystemModuleFromPath_eq hpath]
        refine iff_of_true rfl fun hstale => ?_
        rw [hstale.path] at hpath
        cases hpath
    | none =>
        rw [NativeSymbolResolver.isSystemModule_of_no_path hpath]
        by_cases hcached : (resolver.moduleCache.find (target.functionEntry ctx).1).map
            ModuleInfo.isSystem = some false
        · simp only [if_pos hcached]
          rw [if_neg (by intro h; cases h)]
          refine ⟨fun heq hstale => hstale.entry heq, fun hstale => ?_⟩
          by_contra hentry
          exact hstale ⟨hbase, hpath, hcached, hentry⟩
        · simp only [if_neg hcached]
          rw [if_neg (by intro h; cases h)]
          exact iff_of_true rfl fun hstale => hcached hstale.cached

end FrameIp

/-! ### The continuation -/

section Continuation

variable {doStackSnapshot : Context Regs → HResult} {frames : List (Context Regs)}
  {boundary : Option (Context Regs)} {ctx : Context Regs} {resolver : NativeSymbolResolver}
  {client : Client} {w' : Walk Regs}

/-- A walk that the callback stops comes back as a failure only if it stops it at its first
frame. -/
theorem seedFromWalk_stopped {answer : HResult}
    (h : Walked target answers kMaxDepth frames boundary (.start ctx resolver client) w')
    (hstop : (Walk.told target answers frames (.start ctx resolver client)).2 = some answer) :
    seedFromWalk doStackSnapshot w'.finish
      = { hr := if w'.client.delivered.length = client.delivered.length + 1 then
            if answer = sFalse then sOk else answer else sOk
          client := w'.client
          seed := none } := by
  obtain ⟨hresult, hcount⟩ := h.stopped answer hstop
  have hseed : w'.result.seedCtx = none := by
    rw [hresult]
    rfl
  have hhr : w'.result.hr = if answer = sFalse then sOk else answer := by
    rw [hresult]
  rw [Client.ips_length, Client.ips_length] at hcount
  change w'.frameCount + 1 + client.delivered.length = 0 + _ at hcount
  by_cases hfirst : w'.client.delivered.length = client.delivered.length + 1
  · have hzero : w'.frameCount = 0 := by omega
    rw [if_pos hfirst, ← hhr]
    simp [seedFromWalk, Walk.finish, hseed, hzero]
  · have hpos : 0 < w'.frameCount := by omega
    rw [if_neg hfirst]
    simp [seedFromWalk, Walk.finish, hseed, hpos, failed, sOk]

/-- A walk that comes to managed code hands over to the runtime. -/
theorem seedFromWalk_boundary {seedCtx : Context Regs}
    (h : Walked target answers kMaxDepth frames (some seedCtx) (.start ctx resolver client) w')
    (hall : (Walk.told target answers frames (.start ctx resolver client)).2 = none)
    (hdepth : frames.length < kMaxDepth) :
    seedFromWalk doStackSnapshot w'.finish
      = { hr := issueSeededDss doStackSnapshot seedCtx
          client := w'.client
          seed := some seedCtx } := by
  obtain ⟨hcount, hresult⟩ := h.through hall
  rw [if_pos hdepth] at hresult
  simp [seedFromWalk, Walk.finish, hresult, failed, sOk]

/-- A walk to the end of the stack comes back as a failure if there is no frame. -/
theorem seedFromWalk_bottom
    (h : Walked target answers kMaxDepth frames none (.start ctx resolver client) w')
    (hall : (Walk.told target answers frames (.start ctx resolver client)).2 = none) :
    seedFromWalk doStackSnapshot w'.finish
      = { hr := if frames = [] then eFail else sOk
          client := w'.client
          seed := none } := by
  obtain ⟨hcount, hresult⟩ := h.through hall
  rw [ite_self] at hresult
  have hframes : w'.frameCount = frames.length := by
    rw [hcount]
    exact Nat.zero_add _
  by_cases hnil : frames = []
  · simp [seedFromWalk, Walk.finish, hresult, Walk.start, hframes, hnil, failed, eFail]
  · have hpos : 0 < frames.length := List.length_pos_iff.mpr hnil
    simp [seedFromWalk, Walk.finish, hresult, Walk.start, hframes, hpos, hnil, failed, sOk]

end Continuation

end AutoInstrumentation.NativeWalk
