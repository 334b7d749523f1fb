import AutoInstrumentation.NativeWalk.ServiceSound

/-!
# AutoInstrumentation.NativeWalk.ContinuationSound

`ContinueFromProbedFrame0` beside `WalkNativeUntilManaged` from the seed context of the
probe: when it gives the callback the same frames, hands over to the runtime at the same
context, and comes back with a failure if there was one.
-/

namespace AutoInstrumentation.NativeWalk

open StackWalkGuard (Context CapturedFrame ProbeRequest)

variable {Regs : Type} {target : Target Regs} {answers : ℕ → HResult}
  {doStackSnapshot : Context Regs → HResult}

/-- A capture agrees with a walk: it gives the callback the same frames, stops at the first
answer other than `S_OK`, has the same seed, and is a failure exactly if this answer was one
or the snapshot failed otherwise than by being aborted. -/
structure Agrees (answers : ℕ → HResult) (doStackSnapshot : Context Regs → HResult)
    (w : Walk Regs) (capture : Capture Regs) : Prop where
  ips : capture.client.ips = w.client.ips
  stops : ∀ i < capture.client.delivered.length, answers i ≠ sOk →
    i + 1 = capture.client.delivered.length ∧ capture.seed = none
  seed : capture.seed = w.result.seedCtx
  fails : failed capture.hr = true ↔
    (∃ i < capture.client.delivered.length, failed (answers i) = true)
      ∨ ∃ ctx, capture.seed = some ctx ∧ failed (doStackSnapshot ctx) = true
        ∧ doStackSnapshot ctx ≠ corprofEStacksnapshotAborted

/-- The stacks and answers for which the continuation agrees with the walk. -/
structure Faithful (target : Target Regs) (answers : ℕ → HResult)
    (resolver : NativeSymbolResolver) (frames : List (Context Regs))
    (boundary : Option (Context Regs)) : Prop where
  /-- The cache does not know a module whose path cannot be read. -/
  named : ∀ ctx ∈ frames.head?, ¬ target.StaleName ctx resolver
  /-- The first answer goes on, stops the walk, or fails. -/
  answered : frames ≠ [] → answers 0 = sOk ∨ answers 0 = sFalse ∨ failed (answers 0) = true
  /-- The first frame is not all there is. -/
  bottom : frames.length = 1 → boundary = none → answers 0 ≠ sOk
  /-- The answer that stops the walk at the third frame or behind it is not a failure. -/
  later : ∀ i, 2 ≤ i → i < frames.length → (∀ j < i, answers j = sOk) → failed (answers i) = false
  /-- Managed code is not behind the last frame that the walk would come to. -/
  depth : frames.length = kMaxDepth → boundary ≠ none → ∃ i < kMaxDepth, answers i ≠ sOk

section Walk

variable {seed : Context Regs} {frames : List (Context Regs)} {boundary : Option (Context Regs)}
  {resolver : NativeSymbolResolver} {client : Client}

theorem walkNativeUntilManaged_ips (hstack : NativeStack target seed frames boundary)
    (hdepth : frames.length ≤ kMaxDepth) :
    (walkNativeUntilManaged target answers seed resolver client.fresh).client.ips
      = (deliver answers 0 (target.frameIps resolver frames)).1 :=
  (walkLoop_walked (w := .start seed resolver client.fresh) hstack rfl hdepth).ips

theorem walkNativeUntilManaged_seedCtx (hstack : NativeStack target seed frames boundary)
    (hdepth : frames.length ≤ kMaxDepth) :
    (walkNativeUntilManaged target answers seed resolver client.fresh).result.seedCtx
      = if (deliver answers 0 (target.frameIps resolver frames)).2 = none
          ∧ frames.length < kMaxDepth then boundary else none :=
  (walkLoop_walked (w := .start seed resolver client.fresh) hstack rfl hdepth).seedCtx rfl

end Walk

/-! ### The probed frame -/

/-- The client behind the callback for the probed frame. -/
def Client.probed (answers : ℕ → HResult) (managedThreadId : BitVec 64) (frame0 : CapturedFrame)
    (client : Client) : Client :=
  ({ client.fresh with frame := { frame0 with threadId := managedThreadId } }.invokeCallback
    answers).2

section Native

variable {ctx : Context Regs} {frame0 : CapturedFrame} {managedThreadId : BitVec 64}
  {resolver : NativeSymbolResolver} {client : Client}

theorem probed_ips :
    (client.probed answers managedThreadId frame0).ips = [frame0.instructionPointer] := rfl

theorem continueFromProbedFrame0_native (hframe : frame0.isUnmanagedFrame = true) :
    continueFromProbedFrame0 target answers doStackSnapshot managedThreadId ctx frame0 resolver
        client.fresh
      = if answers 0 = sFalse then
          { hr := sOk, client := client.probed answers managedThreadId frame0, seed := none }
        else if failed (answers 0) then
          { hr := answers 0, client := client.probed answers managedThreadId frame0, seed := none }
        else seedFromWalk doStackSnapshot (walkNativeUntilManaged target answers ctx resolver
          (client.probed answers managedThreadId frame0)) := by
  rw [continueFromProbedFrame0, if_neg (by rw [hframe]; exact Bool.false_ne_true)]
  rfl

theorem continueFromProbedFrame0_managed (hframe : frame0.isUnmanagedFrame = false) :
    continueFromProbedFrame0 target answers doStackSnapshot managedThreadId ctx frame0 resolver
        client.fresh
      = { hr := issueSeededDss doStackSnapshot ctx
          client := { client.fresh with
            frame := { client.frame with threadId := managedThreadId } }
          seed := some ctx } := by
  rw [continueFromProbedFrame0, if_pos (by rw [hframe]; rfl)]
  rfl

theorem failed_issueSeededDss :
    failed (issueSeededDss doStackSnapshot ctx) = true
      ↔ failed (doStackSnapshot ctx) = true ∧ doStackSnapshot ctx ≠ corprofEStacksnapshotAborted := by
  rw [issueSeededDss]
  by_cases habort : doStackSnapshot ctx = corprofEStacksnapshotAborted
  · rw [if_pos habort]
    exact iff_of_false (by decide) fun h => h.2 habort
  · rw [if_neg habort]
    exact ⟨fun h => ⟨h, habort⟩, fun h => h.1⟩

/-- The callback stops the walk at the probed frame. -/
theorem agrees_stop {w : Walk Regs} {ip : BitVec 64} (hframe : frame0.isUnmanagedFrame = true)
    (hips : w.client.ips = [ip]) (hseed : w.result.seedCtx = none)
    (hanswer : answers 0 = sFalse ∨ failed (answers 0) = true) :
    Agrees answers doStackSnapshot w (continueFromProbedFrame0 target answers doStackSnapshot
        managedThreadId ctx frame0 resolver client.fresh)
      ↔ frame0.instructionPointer = ip := by
  obtain ⟨hr, hhr, hcontinue⟩ : ∃ hr, failed hr = failed (answers 0) ∧
      continueFromProbedFrame0 target answers doStackSnapshot managedThreadId ctx frame0 resolver
          client.fresh
        = { hr := hr, client := client.probed answers managedThreadId frame0, seed := none } := by
    rw [continueFromProbedFrame0_native hframe]
    by_cases hfalse : answers 0 = sFalse
    · rw [if_pos hfalse, hfalse]
      exact ⟨sOk, rfl, rfl⟩
    · rw [if_neg hfalse, if_pos (hanswer.resolve_left hfalse)]
      exact ⟨answers 0, rfl, rfl⟩
  rw [hcontinue]
  constructor
  · intro hagrees
    have hsame := hagrees.ips
    rw [probed_ips, hips] at hsame
    exact (List.cons.inj hsame).1
  · intro hip
    refine ⟨?_, ?_, hseed.symm, ?_⟩
    · rw [probed_ips, hips, hip]
    · intro i hi _
      have hlast : i < 1 := hi
      exact ⟨congrArg (· + 1) (Nat.lt_one_iff.mp hlast), rfl⟩
    · rw [hhr]
      constructor
      · intro hfailed
        exact .inl ⟨0, Nat.one_pos, hfailed⟩
      · rintro (⟨i, hi, hfailed⟩ | ⟨seedCtx, hsome, -⟩)
        · have hlast : i < 1 := hi
          rw [Nat.lt_one_iff.mp hlast] at hfailed
          exact hfailed
        · cases hsome

end Native

/-! ### Behind the probed frame -/

section Rest

variable {next : Context Regs} {frame0 : CapturedFrame} {managedThreadId : BitVec 64}
  {resolver : NativeSymbolResolver} {client : Client} {rest : List (Context Regs)}
  {boundary : Option (Context Regs)}

/-- What the callback is given behind the probed frame, and the answer that stops the walk. -/
def restTold (target : Target Regs) (answers : ℕ → HResult) (resolver : NativeSymbolResolver)
    (rest : List (Context Regs)) : List (BitVec 64) × Option HResult :=
  deliver answers 1 (target.frameIps resolver rest)

theorem continueFromProbedFrame0_on (hframe : frame0.isUnmanagedFrame = true)
    (hfalse : answers 0 ≠ sFalse) (hfailed : failed (answers 0) = false) :
    continueFromProbedFrame0 target answers doStackSnapshot managedThreadId next frame0 resolver
        client.fresh
      = seedFromWalk doStackSnapshot (walkNativeUntilManaged target answers next resolver
          (client.probed answers managedThreadId frame0)) := by
  rw [continueFromProbedFrame0_native hframe, if_neg hfalse, if_neg (by rw [hfailed]; decide)]

/-- What comes of the walk behind the probed frame, by the answer that stops it and by the
boundary. -/
def restCapture (doStackSnapshot : Context Regs → HResult) (rest : List (Context Regs))
    (told : ℕ) (client : Client) : Option HResult → Option (Context Regs) → Capture Regs
  | some answer, _ =>
      { hr := if told = 1 then if answer = sFalse then sOk else answer else sOk
        client := client, seed := none }
  | none, some seedCtx =>
      { hr := issueSeededDss doStackSnapshot seedCtx, client := client, seed := some seedCtx }
  | none, none => { hr := if rest = [] then eFail else sOk, client := client, seed := none }

theorem restCapture_client (told : ℕ) (stop : Option HResult) :
    (restCapture doStackSnapshot rest told client stop boundary).client = client := by
  cases stop with
  | some answer => rfl
  | none =>
      cases boundary with
      | some seedCtx => rfl
      | none => rfl

/-- The walk behind the probed frame comes back with it. -/
theorem continueFromProbedFrame0_rest (answers : ℕ → HResult)
    (doStackSnapshot : Context Regs → HResult) (managedThreadId : BitVec 64)
    (resolver : NativeSymbolResolver) (client : Client) (hstack : NativeStack target next rest boundary)
    (hdepth : rest.length < kMaxDepth) (hframe : frame0.isUnmanagedFrame = true)
    (hfalse : answers 0 ≠ sFalse) (hfailed : failed (answers 0) = false) :
    ∃ client' : Client,
      client'.ips = frame0.instructionPointer :: (restTold target answers resolver rest).1 ∧
      continueFromProbedFrame0 target answers doStackSnapshot managedThreadId next frame0 resolver
          client.fresh
        = restCapture doStackSnapshot rest (restTold target answers resolver rest).1.length
            client' (restTold target answers resolver rest).2 boundary := by
  have hwalked : Walked target answers kMaxDepth rest boundary
      (.start next resolver (client.probed answers managedThreadId frame0)) _ :=
    walkLoop_walked hstack rfl hdepth.le
  refine ⟨_, hwalked.ips, ?_⟩
  rw [continueFromProbedFrame0_on hframe hfalse hfailed]
  cases htold : (restTold target answers resolver rest).2 with
  | some answer =>
      refine (seedFromWalk_stopped hwalked htold).trans ?_
      have hlength : (walkLoop target answers kMaxDepth (.start next resolver
          (client.probed answers managedThreadId frame0))).client.delivered.length
          = 1 + (restTold target answers resolver rest).1.length := by
        rw [← Client.ips_length, hwalked.ips, List.length_append]
        rfl
      have hprobed : (client.probed answers managedThreadId frame0).delivered.length = 1 := rfl
      simp only [hlength, hprobed, Nat.add_left_cancel_iff]
      rfl
  | none =>
      cases boundary with
      | some seedCtx => exact seedFromWalk_boundary hwalked htold hdepth
      | none => exact seedFromWalk_bottom hwalked htold

variable {w : Walk Regs} {capture : Capture Regs} {ip ip' : BitVec 64}

/-- The callback stops the walk behind the probed frame. -/
theorem agrees_rest_stopped {ips : List (BitVec 64)} {k : ℕ} (hk : k < ips.length)
    (hips : capture.client.ips = ip' :: ips.take (k + 1))
    (hwalk : w.client.ips = ip :: ips.take (k + 1)) (hseed : capture.seed = none)
    (hwalkSeed : w.result.seedCtx = none)
    (hhr : capture.hr = if k = 0 then
      if answers (k + 1) = sFalse then sOk else answers (k + 1) else sOk)
    (hok : ∀ i ≤ k, answers i = sOk) :
    Agrees answers doStackSnapshot w capture
      ↔ ip' = ip ∧ (k = 0 ∨ failed (answers (k + 1)) = false) := by
  have hlength : capture.client.delivered.length = k + 2 := by
    rw [← Client.ips_length, hips, List.length_cons, List.length_take]
    omega
  have hfailed : (∃ i < capture.client.delivered.length, failed (answers i) = true)
      ↔ failed (answers (k + 1)) = true := by
    rw [hlength]
    constructor
    · rintro ⟨i, hi, hfailed⟩
      rcases Nat.lt_or_ge k i with hlt | hle
      · have hlast : i = k + 1 := by omega
        rw [← hlast]
        exact hfailed
      · rw [hok i hle] at hfailed
        cases hfailed
    · intro hfailed
      exact ⟨k + 1, Nat.lt_succ_self _, hfailed⟩
  have hhrFailed : failed capture.hr = true ↔ k = 0 ∧ failed (answers (k + 1)) = true := by
    rw [hhr]
    by_cases hzero : k = 0
    · rw [if_pos hzero]
      by_cases hfalse : answers (k + 1) = sFalse
      · rw [if_pos hfalse, hfalse]
        exact iff_of_false (by decide) fun h => absurd h.2 (by decide)
      · rw [if_neg hfalse]
        exact ⟨fun h => ⟨hzero, h⟩, fun h => h.2⟩
    · rw [if_neg hzero]
      exact iff_of_false (by decide) fun h => hzero h.1
  constructor
  · intro hagrees
    refine ⟨?_, ?_⟩
    · have hsame := hagrees.ips
      rw [hips, hwalk] at hsame
      exact (List.cons.inj hsame).1
    · by_contra hnot
      rw [not_or, Bool.not_eq_false] at hnot
      exact hnot.1 (hhrFailed.mp (hagrees.fails.mpr (.inl (hfailed.mpr hnot.2)))).1
  · rintro ⟨hip, hlate⟩
    refine ⟨by rw [hips, hwalk, hip], ?_, by rw [hseed, hwalkSeed], ?_⟩
    · intro i hi hne
      refine ⟨?_, hseed⟩
      by_contra hlast
      exact hne (hok i (by omega))
    · rw [hhrFailed, hfailed]
      constructor
      · intro h
        exact .inl h.2
      · rintro (h | ⟨seedCtx, hsome, -⟩)
        · refine ⟨?_, h⟩
          rcases hlate with hzero | hsuccess
          · exact hzero
          · rw [h] at hsuccess
            cases hsuccess
        · rw [hseed] at hsome
          cases hsome

/-- The callback is given the frames to the end of the stack, or to managed code. -/
theorem agrees_rest_through {ips : List (BitVec 64)} (hips : capture.client.ips = ip' :: ips)
    (hwalk : w.client.ips = ip :: ips) (hok : ∀ i ≤ ips.length, answers i = sOk)
    (hhr : failed capture.hr = true ↔ (capture.seed = none ∧ rest = []) ∨
      ∃ ctx, capture.seed = some ctx ∧ failed (doStackSnapshot ctx) = true
        ∧ doStackSnapshot ctx ≠ corprofEStacksnapshotAborted) :
    Agrees answers doStackSnapshot w capture
      ↔ ip' = ip ∧ capture.seed = w.result.seedCtx ∧ (rest = [] → capture.seed ≠ none) := by
  have hlength : capture.client.delivered.length = ips.length + 1 := by
    rw [← Client.ips_length, hips, List.length_cons]
  have hnone : ∀ i < capture.client.delivered.length, answers i = sOk := by
    intro i hi
    exact hok i (by omega)
  constructor
  · intro hagrees
    refine ⟨?_, hagrees.seed, ?_⟩
    · have hsame := hagrees.ips
      rw [hips, hwalk] at hsame
      exact (List.cons.inj hsame).1
    · intro hrest hseed
      rcases hagrees.fails.mp (hhr.mpr (.inl ⟨hseed, hrest⟩)) with ⟨i, hi, hfailed⟩ | ⟨ctx, hsome, -⟩
      · rw [hnone i hi] at hfailed
        cases hfailed
      · rw [hseed] at hsome
        cases hsome
  · rintro ⟨hip, hseed, hbottom⟩
    refine ⟨by rw [hips, hwalk, hip], ?_, hseed, ?_⟩
    · intro i hi hne
      exact absurd (hnone i hi) hne
    · rw [hhr]
      constructor
      · rintro (hempty | hsnapshot)
        · exact absurd hempty.1 (hbottom hempty.2)
        · exact .inr hsnapshot
      · rintro (⟨i, hi, hfailed⟩ | hsnapshot)
        · rw [hnone i hi] at hfailed
          cases hfailed
        · exact .inr hsnapshot

end Rest

/-! ### Native and managed first frames -/

section First

variable {ctx next : Context Regs} {frame0 : CapturedFrame} {managedThreadId : BitVec 64}
  {resolver : NativeSymbolResolver} {client : Client} {rest : List (Context Regs)}
  {boundary : Option (Context Regs)}

theorem walk_on (resolver : NativeSymbolResolver) (client : Client) (hanswer : answers 0 = sOk)
    (hstack : NativeStack target ctx (ctx :: rest) boundary) (hdepth : rest.length < kMaxDepth) :
    (walkNativeUntilManaged target answers ctx resolver client.fresh).client.ips
        = (target.frameIp ctx resolver).1
          :: (restTold target answers (target.frameIp ctx resolver).2 rest).1
      ∧ (walkNativeUntilManaged target answers ctx resolver client.fresh).result.seedCtx
        = if (restTold target answers (target.frameIp ctx resolver).2 rest).2 = none
            ∧ rest.length + 1 < kMaxDepth then boundary else none := by
  refine ⟨?_, ?_⟩
  · rw [walkNativeUntilManaged_ips hstack hdepth, Target.frameIps, deliver_ok hanswer]
    rfl
  · rw [walkNativeUntilManaged_seedCtx hstack hdepth, Target.frameIps, deliver_ok hanswer]
    rfl

theorem walk_stop (resolver : NativeSymbolResolver) (client : Client) (hanswer : answers 0 ≠ sOk)
    (hstack : NativeStack target ctx (ctx :: rest) boundary) (hdepth : rest.length < kMaxDepth) :
    (walkNativeUntilManaged target answers ctx resolver client.fresh).client.ips
        = [(target.frameIp ctx resolver).1]
      ∧ (walkNativeUntilManaged target answers ctx resolver client.fresh).result.seedCtx
        = none := by
  refine ⟨?_, ?_⟩
  · rw [walkNativeUntilManaged_ips hstack hdepth, Target.frameIps, deliver_stop hanswer]
  · rw [walkNativeUntilManaged_seedCtx hstack hdepth, Target.frameIps, deliver_stop hanswer]
    exact if_neg fun h => by cases h.1

/-- What `Faithful` says of the frames behind the probed one, where the first answer goes
on. -/
structure RestFaithful (answers : ℕ → HResult) (rest : List (Context Regs))
    (boundary : Option (Context Regs)) : Prop where
  bottom : rest = [] → boundary ≠ none
  later : ∀ i, 2 ≤ i → i < rest.length + 1 → (∀ j < i, answers j = sOk) →
    failed (answers i) = false
  depth : rest.length + 1 = kMaxDepth → boundary ≠ none → ∃ i < kMaxDepth, answers i ≠ sOk

/-- Where every answer goes on, the walk has the boundary for its seed unless it is behind the
last frame that the walk comes to. -/
theorem boundary_kept_iff (hdepth : rest.length < kMaxDepth)
    (hok : ∀ i ≤ rest.length, answers i = sOk) :
    boundary = (if rest.length + 1 < kMaxDepth then boundary else none)
      ↔ (rest.length + 1 = kMaxDepth → boundary ≠ none → ∃ i < kMaxDepth, answers i ≠ sOk) := by
  by_cases hlt : rest.length + 1 < kMaxDepth
  · rw [if_pos hlt]
    exact iff_of_true rfl fun hfull => absurd hfull hlt.ne
  · have hfull : rest.length + 1 = kMaxDepth := by omega
    rw [if_neg hlt]
    constructor
    · intro hnone _ hsome
      exact absurd hnone hsome
    · intro hdeep
      by_contra hsome
      obtain ⟨i, hi, hne⟩ := hdeep hfull hsome
      exact hne (hok i (by omega))

theorem restFaithful_through (hdepth : rest.length < kMaxDepth)
    (hok : ∀ i ≤ rest.length, answers i = sOk) :
    RestFaithful answers rest boundary
      ↔ boundary = (if rest.length + 1 < kMaxDepth then boundary else none)
        ∧ (rest = [] → boundary ≠ none) := by
  rw [boundary_kept_iff hdepth hok]
  constructor
  · intro hfaithful
    exact ⟨hfaithful.depth, hfaithful.bottom⟩
  · intro h
    refine ⟨h.2, ?_, h.1⟩
    intro i _ hi _
    rw [hok i (Nat.le_of_lt_succ hi)]
    rfl

theorem restFaithful_stopped {k : ℕ} (hdepth : rest.length < kMaxDepth) (hk : k < rest.length)
    (hne : answers (k + 1) ≠ sOk) (hok : ∀ i ≤ k, answers i = sOk) :
    RestFaithful answers rest boundary ↔ k = 0 ∨ failed (answers (k + 1)) = false := by
  constructor
  · intro hfaithful
    cases k with
    | zero => exact .inl rfl
    | succ k =>
        exact .inr (hfaithful.later (k + 2) (Nat.le_add_left _ _) (Nat.succ_lt_succ hk)
          fun j hj => hok j (Nat.le_of_lt_succ hj))
  · intro hlate
    refine ⟨?_, ?_, ?_⟩
    · rintro rfl
      cases hk
    · intro i hi _ hbefore
      rcases Nat.lt_trichotomy i (k + 1) with hlt | heq | hgt
      · rw [hok i (Nat.le_of_lt_succ hlt)]
        rfl
      · rw [heq]
        exact hlate.resolve_left (by omega)
      · exact absurd (hbefore (k + 1) hgt) hne
    · intro _ _
      exact ⟨k + 1, by omega, hne⟩

/-- The callback goes on behind the probed frame. -/
theorem agrees_on (hanswer : answers 0 = sOk)
    (hstack : NativeStack target ctx (ctx :: rest) boundary)
    (hrest : NativeStack target next rest boundary) (hdepth : rest.length < kMaxDepth)
    (hframe : frame0.isUnmanagedFrame = true) :
    Agrees answers doStackSnapshot
        (walkNativeUntilManaged target answers ctx resolver client.fresh)
        (continueFromProbedFrame0 target answers doStackSnapshot managedThreadId next frame0
          (target.frameIp ctx resolver).2 client.fresh)
      ↔ frame0.instructionPointer = (target.frameIp ctx resolver).1
        ∧ RestFaithful answers rest boundary := by
  obtain ⟨hwalk, hwalkSeed⟩ := walk_on resolver client hanswer hstack hdepth
  obtain ⟨client', hips, hcontinue⟩ := continueFromProbedFrame0_rest answers doStackSnapshot
    managedThreadId (target.frameIp ctx resolver).2 client hrest hdepth hframe
    (by rw [hanswer]; decide) (by rw [hanswer]; decide)
  rw [hcontinue]
  have hlength := target.frameIps_length (target.frameIp ctx resolver).2 rest
  rcases deliver_cases answers 1 (target.frameIps (target.frameIp ctx resolver).2 rest) with
    ⟨hall, hafter⟩ | ⟨k, hk, hstop, hne, hafter⟩
  · have htold : restTold target answers (target.frameIp ctx resolver).2 rest
        = (target.frameIps (target.frameIp ctx resolver).2 rest, none) := hall
    have hok : ∀ i ≤ rest.length, answers i = sOk := by
      intro i hi
      cases i with
      | zero => exact hanswer
      | succ i =>
          rw [Nat.add_comm]
          exact hafter i (by omega)
    rw [htold] at hips hwalk hwalkSeed ⊢
    simp only [true_and] at hwalkSeed
    rw [restFaithful_through hdepth hok, ← hwalkSeed]
    cases boundary with
    | some seedCtx =>
        refine agrees_rest_through hips hwalk (by rw [hlength]; exact hok) ?_
        rw [restCapture, failed_issueSeededDss]
        simp
    | none =>
        refine agrees_rest_through hips hwalk (by rw [hlength]; exact hok) ?_
        by_cases hnil : rest = []
        · have hfails : failed eFail = true := by decide
          simp [restCapture, hnil, hfails]
        · simp [restCapture, hnil, failed, sOk]
  · have htold : restTold target answers (target.frameIp ctx resolver).2 rest
        = ((target.frameIps (target.frameIp ctx resolver).2 rest).take (k + 1),
          some (answers (1 + k))) := hstop
    have hok : ∀ i ≤ k, answers i = sOk := by
      intro i hi
      cases i with
      | zero => exact hanswer
      | succ i =>
          rw [Nat.add_comm]
          exact hafter i (by omega)
    have hfirst : ((target.frameIps (target.frameIp ctx resolver).2 rest).take (k + 1)).length = 1
        ↔ k = 0 := by
      rw [List.length_take]
      omega
    rw [htold] at hips hwalk hwalkSeed ⊢
    rw [Nat.add_comm 1 k] at hne ⊢
    rw [restFaithful_stopped hdepth (by omega) hne hok]
    refine agrees_rest_stopped hk hips hwalk rfl ?_ ?_ hok
    · rw [hwalkSeed]
      exact if_neg fun h => by cases h.1
    · simp only [restCapture, hfirst]

/-- Another success than `S_OK` and `S_FALSE` stops the walk, but not the continuation. -/
theorem not_agrees_other (hok : answers 0 ≠ sOk) (hfalse : answers 0 ≠ sFalse)
    (hfailed : failed (answers 0) = false)
    (hstack : NativeStack target ctx (ctx :: rest) boundary)
    (hrest : NativeStack target next rest boundary) (hdepth : rest.length < kMaxDepth)
    (hframe : frame0.isUnmanagedFrame = true) :
    ¬ Agrees answers doStackSnapshot
      (walkNativeUntilManaged target answers ctx resolver client.fresh)
      (continueFromProbedFrame0 target answers doStackSnapshot managedThreadId next frame0
        (target.frameIp ctx resolver).2 client.fresh) := by
  obtain ⟨hwalk, hwalkSeed⟩ := walk_stop resolver client hok hstack hdepth
  obtain ⟨client', hips, hcontinue⟩ := continueFromProbedFrame0_rest answers doStackSnapshot
    managedThreadId (target.frameIp ctx resolver).2 client hrest hdepth hframe hfalse hfailed
  rw [hcontinue]
  intro hagrees
  have hsame := hagrees.ips
  rw [restCapture_client, hips, hwalk] at hsame
  have hnone := (List.cons.inj hsame).2
  cases rest with
  | cons first rest => exact deliver_ne_nil _ _ _ hnone
  | nil =>
      have hseed := hagrees.seed
      rw [hwalkSeed] at hseed
      cases boundary with
      | some seedCtx => cases hseed
      | none =>
          have hlength : client'.delivered.length = 1 := by
            rw [← Client.ips_length, hips]
            rfl
          have hfails : failed eFail = true := by decide
          rcases hagrees.fails.mp hfails with ⟨i, hi, hanswer⟩ | ⟨seedCtx, hsome, -⟩
          · have hlast : i < 1 := hi.trans_eq hlength
            rw [Nat.lt_one_iff.mp hlast, hfailed] at hanswer
            cases hanswer
          · cases hsome

/-- **A native frame was probed.** -/
theorem agrees_native (hstack : NativeStack target ctx (ctx :: rest) boundary)
    (hrest : NativeStack target next rest boundary) (hdepth : rest.length < kMaxDepth)
    (hframe : frame0.isUnmanagedFrame = true)
    (hip : frame0.instructionPointer = (target.probedIp ctx resolver).1) :
    Agrees answers doStackSnapshot
        (walkNativeUntilManaged target answers ctx resolver client.fresh)
        (continueFromProbedFrame0 target answers doStackSnapshot managedThreadId next frame0
          (target.frameIp ctx resolver).2 client.fresh)
      ↔ Faithful target answers resolver (ctx :: rest) boundary := by
  have hnamed : frame0.instructionPointer = (target.frameIp ctx resolver).1
      ↔ ¬ target.StaleName ctx resolver := by
    rw [hip]
    exact probedIp_eq_iff
  by_cases hok : answers 0 = sOk
  · rw [agrees_on hok hstack hrest hdepth hframe, hnamed]
    constructor
    · rintro ⟨hstale, hfaithful⟩
      refine ⟨?_, fun _ => .inl hok, ?_, hfaithful.later, hfaithful.depth⟩
      · intro first hfirst
        cases hfirst
        exact hstale
      · intro hone hboundary
        exact absurd hboundary (hfaithful.bottom (List.length_eq_zero_iff.mp (Nat.succ.inj hone)))
    · intro hfaithful
      refine ⟨hfaithful.named ctx rfl, ?_, hfaithful.later, hfaithful.depth⟩
      intro hnil hboundary
      exact hfaithful.bottom (congrArg (·.length + 1) hnil) hboundary hok
  · by_cases hanswer : answers 0 = sFalse ∨ failed (answers 0) = true
    · obtain ⟨hwalk, hwalkSeed⟩ := walk_stop resolver client hok hstack hdepth
      rw [agrees_stop hframe hwalk hwalkSeed hanswer, hnamed]
      constructor
      · intro hstale
        refine ⟨?_, fun _ => .inr hanswer, fun _ _ => hok, ?_, ?_⟩
        · intro first hfirst
          cases hfirst
          exact hstale
        · intro i hi _ hbefore
          exact absurd (hbefore 0 (by omega)) hok
        · intro _ _
          exact ⟨0, by decide, hok⟩
      · intro hfaithful
        exact hfaithful.named ctx rfl
    · have hother := hanswer
      rw [not_or, Bool.not_eq_true] at hother
      refine iff_of_false (not_agrees_other hok hother.1 hother.2 hstack hrest hdepth hframe) ?_
      intro hfaithful
      rcases hfaithful.answered (List.cons_ne_nil _ _) with h | h
      · exact hok h
      · exact hanswer h

end First

/-! ### The continuation from a successful probe -/

theorem faithful_nil {resolver : NativeSymbolResolver} {boundary : Option (Context Regs)} :
    Faithful target answers resolver [] boundary where
  named := by
    intro ctx hctx
    cases hctx
  answered := by
    intro hne
    exact absurd rfl hne
  bottom := by
    intro hone
    cases hone
  later := by
    intro i _ hi
    cases hi
  depth := by
    intro hfull
    cases hfull

/-- A managed frame was probed. -/
theorem agrees_managed {ctx : Context Regs} {frame0 : CapturedFrame} {managedThreadId : BitVec 64}
    {resolver : NativeSymbolResolver} {client : Client}
    (hstack : NativeStack target ctx [] (some ctx)) (hframe : frame0.isUnmanagedFrame = false) :
    Agrees answers doStackSnapshot
      (walkNativeUntilManaged target answers ctx resolver client.fresh)
      (continueFromProbedFrame0 target answers doStackSnapshot managedThreadId ctx frame0
        resolver client.fresh) := by
  have hdepth : ([] : List (Context Regs)).length ≤ kMaxDepth := Nat.zero_le _
  rw [continueFromProbedFrame0_managed hframe]
  refine ⟨?_, ?_, ?_, ?_⟩
  · rw [walkNativeUntilManaged_ips hstack hdepth]
    rfl
  · intro i hi
    cases hi
  · rw [walkNativeUntilManaged_seedCtx hstack hdepth]
    rfl
  · rw [failed_issueSeededDss]
    constructor
    · intro hfails
      exact .inr ⟨ctx, rfl, hfails⟩
    · rintro (⟨i, hi, -⟩ | ⟨seedCtx, hsome, hfails⟩)
      · cases hi
      · cases hsome
        exact hfails

/-- **The continuation from a successful probe and the walk from its seed** agree exactly
where the stack and the answers are faithful. -/
theorem continueFromProbedFrame0_agrees_iff [Inhabited Regs] {Addr : Type}
    {req req' : ProbeRequest Regs Addr} {resolver resolver' : NativeSymbolResolver}
    {frames : List (Context Regs)} {boundary : Option (Context Regs)}
    (client : Client) (managedThreadId : BitVec 64)
    (hstack : NativeStack target req.stagedCtx frames boundary)
    (hdepth : frames.length ≤ kMaxDepth) (hkind : req.kind = .rtlFrame0)
    (hprobe : Succeeds target .dispatch req resolver req' resolver') :
    Agrees answers doStackSnapshot
        (walkNativeUntilManaged target answers req.stagedCtx resolver client.fresh)
        (continueFromProbedFrame0 target answers doStackSnapshot managedThreadId req'.stagedCtx
          req'.stagedFrame resolver' client.fresh)
      ↔ Faithful target answers resolver frames boundary := by
  obtain ⟨hrip, hstaged⟩ := succeeds_dispatch hkind hprobe
  rcases hstaged with ⟨hmanaged, hframe, hctx, rfl⟩ | ⟨hnative, hstaged⟩
  · obtain ⟨rfl, rfl⟩ := hstack.of_managed hrip hmanaged
    rw [hctx]
    exact iff_of_true (agrees_managed hstack hframe) faithful_nil
  · obtain ⟨rest, rfl, hrest⟩ := hstack.of_native hrip hnative hstaged.unwind hstaged.rip
    have hframe : req'.stagedFrame.isUnmanagedFrame = true := by
      rw [hstaged.frame]
      rfl
    have hip : req'.stagedFrame.instructionPointer
        = (target.probedIp req.stagedCtx resolver).1 := by
      rw [hstaged.frame]
      rfl
    have hresolver : resolver' = (target.frameIp req.stagedCtx resolver).2 := by
      rw [hstaged.resolver, ← probedIp_resolver]
      rfl
    rw [hresolver]
    exact agrees_native hstack hrest hdepth hframe hip

/-! ### Three leaf functions

A stack of functions without entries and without modules, which return to 2, to 1 and
to 0. -/

def leafTarget : Target Unit where
  functionEntry := fun _ => (0, none)
  functionFromIP := fun _ => (false, 0)
  loader := { moduleFileName := fun _ => none, towlower := id }
  returnAddress := fun ctx => ctx.rip - 1
  virtualUnwind := id

def leafContext (rip rsp : BitVec 64) : Context Unit := { rip := rip, rsp := rsp, regs := () }

def leafRequest : ProbeRequest Unit Unit where
  kind := .rtlFrame0
  ctxInout := some ()
  frameOut := some ()
  stagedCtx := leafContext 3 0x1000

/-- What the probe makes of the request. -/
def leafProbed : ProbeRequest Unit Unit :=
  { leafRequest with
    stagedCtx := leafContext 2 0x1008
    stagedFrame := { instructionPointer := 3, isUnmanagedFrame := true } }

def leafResolver : NativeSymbolResolver where
  sysDir := []
  moduleCache := .empty

def leafClient : Client where
  frame := {}
  cancellationRequested := false
  delivered := []

theorem leaf_stack : NativeStack leafTarget leafRequest.stagedCtx
    [leafContext 3 0x1000, leafContext 2 0x1008, leafContext 1 0x1010] none :=
  .frame (by decide) rfl rfl (by decide) (.frame (by decide) rfl rfl (by decide)
    (.frame (by decide) rfl rfl (by decide) (.bottom rfl)))

theorem leaf_probe :
    Succeeds leafTarget .dispatch leafRequest leafResolver leafProbed leafResolver :=
  .next false rfl (.next false rfl (.next false rfl (.next false rfl (.next false rfl
    (.next false rfl (.next false rfl (.next false rfl (.next false rfl (.next false rfl
      (.done false rfl))))))))))

/-- A callback that goes on at every frame is given all three by both. -/
theorem continueFromProbedFrame0_agrees_leaves :
    Agrees (fun _ => sOk) (fun _ => sOk)
      (walkNativeUntilManaged leafTarget (fun _ => sOk) leafRequest.stagedCtx leafResolver
        leafClient.fresh)
      (continueFromProbedFrame0 leafTarget (fun _ => sOk) (fun _ => sOk) 7 leafProbed.stagedCtx
        leafProbed.stagedFrame leafResolver leafClient.fresh) :=
  (continueFromProbedFrame0_agrees_iff leafClient 7 leaf_stack (by decide) rfl leaf_probe).mpr
    { named := by
        intro ctx hctx hstale
        cases hctx
        exact hstale.base rfl
      answered := fun _ => .inl rfl
      bottom := by
        intro hone
        cases hone
      later := fun _ _ _ _ => rfl
      depth := by
        intro hfull
        cases hfull }

/-- A callback that fails at the third frame fails neither. -/
theorem continueFromProbedFrame0_hides_failure :
    NativeStack leafTarget leafRequest.stagedCtx
        [leafContext 3 0x1000, leafContext 2 0x1008, leafContext 1 0x1010] none
      ∧ Succeeds leafTarget .dispatch leafRequest leafResolver leafProbed leafResolver
      ∧ (continueFromProbedFrame0 leafTarget (fun i => if i = 2 then eFail else sOk) (fun _ => sOk)
          7 leafProbed.stagedCtx leafProbed.stagedFrame leafResolver leafClient.fresh).hr = sOk
      ∧ ¬ Agrees (fun i => if i = 2 then eFail else sOk) (fun _ => sOk)
        (walkNativeUntilManaged leafTarget (fun i => if i = 2 then eFail else sOk)
          leafRequest.stagedCtx leafResolver leafClient.fresh)
        (continueFromProbedFrame0 leafTarget (fun i => if i = 2 then eFail else sOk) (fun _ => sOk)
          7 leafProbed.stagedCtx leafProbed.stagedFrame leafResolver leafClient.fresh) := by
  refine ⟨leaf_stack, leaf_probe, rfl, ?_⟩
  intro hagrees
  have hfails := hagrees.fails.mpr (.inl ⟨2, by decide, by decide⟩)
  revert hfails
  decide

end AutoInstrumentation.NativeWalk
