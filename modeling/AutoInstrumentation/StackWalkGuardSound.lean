import AutoInstrumentation.StackWalkGuard

/-!
# AutoInstrumentation.StackWalkGuardSound

What the stack walk guard guarantees in every interleaving.

`Moves` says what each step of the code can do to the shared members; all facts
below are read off it, never off `step`. The invariant ties the worker's copy of
a request to the round the orchestrator is in: a worker that holds a request
holds the one of the current round (`Inv.current`), because `Schedule` waits for
`Idle` and the worker republishes `Idle` only when it has dropped its copy; and
once the orchestrator is out of `Await`, a round that is not over is abandoned
(`Inv.abandoned`). So a worker that comes late finds `abandon_` set or the guard
stopping, and writes nothing.
-/

set_option linter.unusedSectionVars false

namespace AutoInstrumentation.StackWalkGuard

open Lib Lib.System

variable {Regs Addr : Type} [Inhabited Regs]

/-! ### The checks stage values and nothing else -/

/-- The requests differ in nothing but the staged values. -/
structure SameOutputs (r r' : ProbeRequest Regs Addr) : Prop where
  kind : r'.kind = r.kind
  ctxInout : r'.ctxInout = r.ctxInout
  frameOut : r'.frameOut = r.frameOut

theorem SameOutputs.refl (r : ProbeRequest Regs Addr) : SameOutputs r r := ⟨rfl, rfl, rfl⟩

theorem SameOutputs.trans {r₁ r₂ r₃ : ProbeRequest Regs Addr} (h₁ : SameOutputs r₁ r₂)
    (h₂ : SameOutputs r₂ r₃) : SameOutputs r₁ r₃ :=
  ⟨h₂.kind.trans h₁.kind, h₂.ctxInout.trans h₁.ctxInout, h₂.frameOut.trans h₁.frameOut⟩

/-- The request a step of `RunChecks` hands on. -/
def Next.req : Next Regs Addr → ProbeRequest Regs Addr
  | .at _ req _ => req
  | .done _ req => req

theorem unwound_sameOutputs (req : ProbeRequest Regs Addr) (ctx : Context Regs) :
    SameOutputs req (unwound req ctx).req := by
  unfold unwound
  split <;> exact ⟨rfl, rfl, rfl⟩

theorem checkStep_sameOutputs {abandon : Bool} {req : ProbeRequest Regs Addr} {point : Point}
    {answer : Answer Regs} {next : Next Regs Addr}
    (h : checkStep abandon req point answer = some next) : SameOutputs req next.req := by
  revert h
  fun_cases checkStep abandon req point answer <;> intro h
  case case34 => cases h
  all_goals obtain rfl := Option.some.inj h
  all_goals first
    | exact unwound_sameOutputs _ _
    | exact ⟨rfl, rfl, rfl⟩

/-! ### What one step does -/

/-- The worker's copy of the request, while it has one. -/
def Worker.job : Worker Regs Addr → Option (Job Regs Addr)
  | .consumed job | .gate job | .gateThrew job | .gatePassed job => some job
  | .checking job _ | .publishing job _ => some job
  | _ => none

/-- The worker has not yet set the guard to `Idle` for the first time. -/
def Worker.early : Worker Regs Addr → Bool
  | .starting | .initializing | .initialized _ => true
  | _ => false

/-- The checks of the worker's request have passed. -/
def Worker.succeeded : Worker Regs Addr → Bool
  | .publishing _ ok => ok
  | _ => false

theorem quiescent_eq_false {s : State Regs Addr} (h : s.quiescent = false) :
    s.state ≠ .idle ∧ s.state ≠ .stopping := by
  simpa [State.quiescent] using h

theorem timeoutResultForStage_ne_success (stage : ProbeStage) :
    timeoutResultForStage stage ≠ .success := by
  cases stage <;> simp [timeoutResultForStage]

variable [DecidableEq Addr]

/-- What a step can do, one constructor for each effect on the shared members. -/
inductive Moves (s : State Regs Addr) (a : Act Regs Addr) : State Regs Addr → Prop
  | callerWrites {ctxMem : Addr → Context Regs} {frameMem : Addr → CapturedFrame} :
      a = .callerWrites ctxMem frameMem → s.caller = .free → Moves s a { s with ctxMem, frameMem }
  | begin {req : ProbeRequest Regs Addr} : s.caller = .free →
      (req.kind = .rtlFrame0 → req.ctxInout.isSome ∧ req.frameOut.isSome) →
      Moves s a { s with caller := .scheduling req }
  | stay : Moves s a s
  | giveUp {req : ProbeRequest Regs Addr} : s.caller = .scheduling req →
      Moves s a { s with caller := .free }
  | latch {req : ProbeRequest Regs Addr} : s.caller = .scheduling req → s.state = .idle →
      Moves s a { s with
        req := ⟨s.round + 1, req⟩
        abandon := false
        result := .failed
        activeStage := .none
        state := .scheduled
        caller := .awaiting
        round := s.round + 1 }
  | awaitStopping : s.caller = .awaiting → s.state = .stopping →
      Moves s a ({ s with abandon := true }.returns .stopping)
  | awaitIdle : s.caller = .awaiting → s.state = .idle → Moves s a (s.returns s.result)
  | timeout {verdict : ProbeResult} : s.caller = .awaiting → s.state ≠ .idle →
      s.state ≠ .stopping → verdict ≠ .success →
      Moves s a ({ s with abandon := true, result := verdict }.returns verdict)
  | shutdown : s.state ≠ .stopping → Moves s a { s with abandon := true, state := .stopping }
  /-- The worker goes on without a request. -/
  | relax {w : Worker Regs Addr} : w.job = none → (w.early = true → s.worker.early = true) →
      Moves s a { s with worker := w }
  | ready : s.worker.early = true → s.state ≠ .stopping →
      Moves s a { s with state := .idle, worker := .waiting }
  /-- The worker gives up for good. -/
  | terminate {stage : ProbeStage} :
      Moves s a { s with
        result := .failed, state := .stopping, activeStage := stage, worker := .exited }
  | consume : s.worker = .waiting → s.state = .scheduled →
      Moves s a { s with state := .running, worker := .consumed s.req }
  /-- The worker goes on with its request, which has not passed the checks. -/
  | advance {w : Worker Regs Addr} {job job' : Job Regs Addr} (stage : ProbeStage) :
      s.worker.job = some job → w.job = some job' → s.worker.succeeded = false →
      w.succeeded = false → w.early = false → job'.round = job.round →
      SameOutputs job.req job'.req →
      Moves s a { s with activeStage := stage, worker := w }
  | pass {job : Job Regs Addr} {req : ProbeRequest Regs Addr} :
      s.worker.job = some job → s.worker.succeeded = false → SameOutputs job.req req →
      Moves s a { s with
        worker := .publishing { job with req } true
        trace := .passed job.round req.stagedCtx req.stagedFrame :: s.trace }
  | fail {job : Job Regs Addr} : s.worker.job = some job → s.state ≠ .stopping →
      Moves s a { s with
        result := .failed, state := .idle, activeStage := .none, worker := .waiting }
  /-- A verdict without outputs. -/
  | publish {job : Job Regs Addr} : s.worker = .publishing job true → s.state ≠ .stopping →
      (job.req.kind = .rtlFrame0 → job.req.ctxInout = none ∨ job.req.frameOut = none) →
      Moves s a { s with
        result := .success, state := .idle, activeStage := .none, worker := .waiting }
  | commit {job : Job Regs Addr} {ctxInout frameOut : Addr} :
      s.worker = .publishing job true → s.state ≠ .stopping → s.abandon = false →
      job.req.ctxInout = some ctxInout → job.req.frameOut = some frameOut →
      Moves s a { s with
        result := .success, state := .idle, activeStage := .none, worker := .waiting
        ctxMem := Function.update s.ctxMem ctxInout job.req.stagedCtx
        frameMem := Function.update s.frameMem frameOut job.req.stagedFrame
        trace := .wrote job.round ctxInout frameOut job.req.stagedCtx job.req.stagedFrame
          :: s.trace }

theorem moves_publish {s : State Regs Addr} {a : Act Regs Addr} {job : Job Regs Addr} {ok : Bool}
    (hw : s.worker = .publishing job ok) (hs : s.state ≠ .stopping) :
    Moves s a (StackWalkGuard.publish s job ok) := by
  have hjob : s.worker.job = some job := by rw [hw]; rfl
  unfold StackWalkGuard.publish
  by_cases hok : (ok && !s.abandon) = true
  · obtain ⟨rfl, ha⟩ := Bool.and_eq_true_iff.mp hok
    have hab : s.abandon = false := by simpa using ha
    rw [hok]
    dsimp only [if_true]
    split
    · rename_i hc hf
      exact .commit hw hs hab hc hf
    · rename_i hnot
      refine .publish hw hs fun hk => ?_
      cases hc : job.req.ctxInout with
      | none => exact .inl rfl
      | some ctxInout =>
          cases hf : job.req.frameOut with
          | none => exact .inr rfl
          | some frameOut => exact (hnot _ _ rfl hk hc hf).elim
  · have hok' : (ok && !s.abandon) = false := by simpa using hok
    rw [hok']
    exact .fail hjob hs

theorem moves_afterCheck {s : State Regs Addr} {a : Act Regs Addr} {job : Job Regs Addr}
    {point : Point}    (hw : s.worker = .checking job point) {next : Next Regs Addr}
    (hn : SameOutputs job.req next.req) : Moves s a (afterCheck s job next) := by
  have hjob : s.worker.job = some job := by rw [hw]; rfl
  have hsuc : s.worker.succeeded = false := by rw [hw]; rfl
  cases next with
  | «at» point' req stage => exact .advance _ hjob rfl hsuc rfl rfl rfl hn
  | done ok req =>
      cases ok with
      | true => exact .pass hjob hsuc hn
      | false => exact .advance s.activeStage hjob rfl hsuc rfl rfl rfl hn

theorem moves_workerStep {s t : State Regs Addr} {a : Act Regs Addr} {answer : Answer Regs}
    (h : workerStep s answer = some t) : Moves s a t := by
  revert h
  fun_cases workerStep s answer <;> intro h
  case case8 => cases h
  case case19 => cases h
  case case15 job point hw =>
    obtain ⟨next, hnext, rfl⟩ := Option.map_eq_some_iff.mp h
    exact moves_afterCheck hw (checkStep_sameOutputs hnext)
  all_goals obtain rfl := Option.some.inj h
  case case1 hw =>
    split <;> exact .relax rfl (by simp [hw, Worker.early])
  case case2 hw => exact .relax rfl (by simp [hw, Worker.early])
  case case3 => exact .relax rfl (by simp [Worker.early])
  case case4 hs hw => exact .ready (by simp [hw, Worker.early]) hs
  case case5 => exact .terminate
  case case6 => exact .relax rfl (by simp [Worker.early])
  case case7 hw hs => exact .consume hw hs
  case case9 job hw =>
    exact .advance _ (by rw [hw]; rfl) rfl (by rw [hw]; rfl) rfl rfl rfl (.refl job.req)
  case case10 job ok hw =>
    have hjob : s.worker.job = some job := by rw [hw]; rfl
    refine .advance s.activeStage hjob (?_ : _ = some job) (by rw [hw]; rfl) ?_ ?_ rfl
      (.refl job.req) <;> split <;> rfl
  case case11 => exact .relax rfl (by simp [Worker.early])
  case case12 job hw hs => exact .fail (by rw [hw]; rfl : s.worker.job = some job) hs
  case case13 job hw _ =>
    exact .advance s.activeStage (by rw [hw]; rfl) rfl (by rw [hw]; rfl) rfl rfl rfl
      (.refl job.req)
  case case14 job hw _ =>
    exact .advance s.activeStage (by rw [hw]; rfl) rfl (by rw [hw]; rfl) rfl rfl rfl
      (.refl job.req)
  case case16 => exact .relax rfl (by simp [Worker.early])
  case case17 job ok hw hs => exact moves_publish hw hs
  case case18 => exact .terminate

/-- Every step of the code is one of these moves. -/
theorem moves_of_step {s t : State Regs Addr} {a : Act Regs Addr} (h : step s a = some t) :
    Moves s a t := by
  cases a with
  | callerWrites ctxMem frameMem =>
      cases hc : s.caller <;> simp only [step, hc, reduceCtorEq, Option.some.injEq] at h
      rw [← h, ← hc]
      exact .callerWrites rfl hc
  | scheduleDssProbe canary =>
      cases hc : s.caller <;> simp only [step, hc, reduceCtorEq, Option.some.injEq] at h
      exact h ▸ .begin hc (by simp)
  | scheduleRtlFrame0Probe ctx frame =>
      cases hc : s.caller with
      | free =>
          -- the null check answers false without touching the guard
          rcases ctx with _ | ctx
          · simp only [step, hc, Option.some.injEq] at h
            exact h ▸ .stay
          rcases frame with _ | frame
          · simp only [step, hc, Option.some.injEq] at h
            exact h ▸ .stay
          simp only [step, hc, Option.some.injEq] at h
          exact h ▸ .begin hc (by simp)
      | scheduling | awaiting => simp only [step, hc, reduceCtorEq] at h
  | schedule =>
      cases hc : s.caller <;> simp only [step, hc, reduceCtorEq] at h
      split at h
      · cases h
      rename_i hq
      split at h
      · exact Option.some.inj h ▸ .giveUp hc
      · rename_i hs
        have hidle : s.state = .idle := by simpa [State.quiescent, hs] using hq
        exact Option.some.inj h ▸ .latch hc hidle
  | parkTimeout =>
      cases hc : s.caller <;> simp only [step, hc, reduceCtorEq] at h
      split at h
      · cases h
      · exact Option.some.inj h ▸ .giveUp hc
  | await =>
      cases hc : s.caller <;> simp only [step, hc, reduceCtorEq] at h
      split at h
      · cases h
      rename_i hq
      split at h
      · rename_i hs
        obtain rfl := Option.some.inj h
        rw [← hc]
        exact .awaitStopping hc hs
      · rename_i hs
        have hidle : s.state = .idle := by simpa [State.quiescent, hs] using hq
        exact Option.some.inj h ▸ .awaitIdle hc hidle
  | probeTimeout =>
      cases hc : s.caller <;> simp only [step, hc, reduceCtorEq] at h
      split at h
      · cases h
      · rename_i hq
        obtain ⟨hidle, hstop⟩ := quiescent_eq_false (by simpa using hq)
        obtain rfl := Option.some.inj h
        rw [← hc]
        exact .timeout hc hidle hstop (timeoutResultForStage_ne_success _)
  | requestShutdown =>
      simp only [step] at h
      split at h
      · exact Option.some.inj h ▸ .stay
      · rename_i hs
        exact Option.some.inj h ▸ .shutdown hs
  | work answer => exact moves_workerStep h
  | workerThrows =>
      simp only [step] at h
      split at h
      · exact Option.some.inj h ▸ .relax rfl (by simp [Worker.early])
      · cases h
  | recoveryThrows =>
      cases hw : s.worker <;> simp only [step, hw, reduceCtorEq, Option.some.injEq] at h
      exact h ▸ .relax rfl (by simp [Worker.early])

/-! ### Reading the trace -/

@[simp] theorem passes_passed (n m : ℕ) (ctx : Context Regs) (frame : CapturedFrame)
    (tr : List (Event Regs Addr)) : passes n (.passed m ctx frame :: tr) =
      if m = n then (ctx, frame) :: passes n tr else passes n tr := by
  simp only [passes, List.filterMap_cons]
  split <;> split <;> simp_all

@[simp] theorem passes_wrote (n m : ℕ) (p q : Addr) (ctx : Context Regs) (frame : CapturedFrame)
    (tr : List (Event Regs Addr)) : passes n (.wrote m p q ctx frame :: tr) = passes n tr := rfl

@[simp] theorem passes_returned (n m : ℕ) (v : ProbeResult) (tr : List (Event Regs Addr)) :
    passes n (.returned m v :: tr) = passes n tr := rfl

@[simp] theorem writes_passed (n m : ℕ) (ctx : Context Regs) (frame : CapturedFrame)
    (tr : List (Event Regs Addr)) : writes n (.passed m ctx frame :: tr) = writes n tr := rfl

@[simp] theorem writes_wrote (n m : ℕ) (p q : Addr) (ctx : Context Regs) (frame : CapturedFrame)
    (tr : List (Event Regs Addr)) : writes n (.wrote m p q ctx frame :: tr) =
      if m = n then (ctx, frame) :: writes n tr else writes n tr := by
  simp only [writes, List.filterMap_cons]
  split <;> split <;> simp_all

@[simp] theorem writes_returned (n m : ℕ) (v : ProbeResult) (tr : List (Event Regs Addr)) :
    writes n (.returned m v :: tr) = writes n tr := rfl

/-! ### The invariant -/

/-- The request of the current round has outputs, and they hold these values. -/
def State.outputsHold (s : State Regs Addr) (ctx : Context Regs) (frame : CapturedFrame) : Prop :=
  ∃ ctxInout frameOut, s.req.req.ctxInout = some ctxInout ∧ s.req.req.frameOut = some frameOut ∧
    s.ctxMem ctxInout = ctx ∧ s.frameMem frameOut = frame

structure Inv (s : State Regs Addr) : Prop where
  /-- The latched request is the one of the current round. -/
  latched : s.req.round = s.round
  /-- A frame probe is never scheduled with a null output. -/
  outputs : s.req.req.kind = .rtlFrame0 →
    s.req.req.ctxInout.isSome ∧ s.req.req.frameOut.isSome
  pending : ∀ req, s.caller = .scheduling req → req.kind = .rtlFrame0 →
    req.ctxInout.isSome ∧ req.frameOut.isSome
  /-- Until the worker is initialized nothing can be scheduled. -/
  early : s.worker.early = true →
    s.state = .stopping ∨ s.state = .starting ∧ s.caller ≠ .awaiting
  /-- The worker's request is the one of the current round, and nobody else can
  leave the round. -/
  current : ∀ job, s.worker.job = some job → job.round = s.round ∧
    SameOutputs s.req.req job.req ∧ s.state ≠ .starting ∧ s.state ≠ .idle ∧ s.state ≠ .scheduled
  /-- A round whose verdict is not in has written nothing. -/
  unwritten : (s.state = .scheduled ∨ s.worker.job.isSome) → writes s.round s.trace = []
  unpassed : (s.state = .scheduled ∨ s.worker.job.isSome ∧ s.worker.succeeded = false) →
    passes s.round s.trace = []
  passed : ∀ job, s.worker = .publishing job true →
    passes s.round s.trace = [(job.req.stagedCtx, job.req.stagedFrame)]
  /-- Nothing has happened in a round to come. -/
  future : ∀ n, s.round < n → passes n s.trace = [] ∧ writes n s.trace = []
  /-- A round that `Await` has left is over or abandoned. -/
  abandoned : s.caller ≠ .awaiting → s.state = .scheduled ∨ s.state = .running →
    s.abandon = true
  /-- A success that is still to be reported has its outputs in place. -/
  success : s.caller = .awaiting → s.state = .idle → s.result = .success →
    ∃ ctx frame, passes s.round s.trace = [(ctx, frame)] ∧
      (s.req.req.kind = .rtlFrame0 → s.outputsHold ctx frame)
  /-- `Await` has not returned from the round it is in. -/
  returned : ∀ n v, .returned n v ∈ s.trace →
    n ≤ s.round ∧ (s.caller = .awaiting → n ≠ s.round)
  once : ∀ n, (writes n s.trace).length ≤ 1
  inTime : NoLateWrite s.trace

theorem inv_initial (ctxMem : Addr → Context Regs) (frameMem : Addr → CapturedFrame) :
    Inv (State.initial ctxMem frameMem) where
  latched := rfl
  outputs := by simp [State.initial]
  pending := by simp [State.initial]
  early := by simp [State.initial]
  current := by simp [State.initial, Worker.job]
  unwritten := by simp [State.initial, writes]
  unpassed := by simp [State.initial, passes]
  passed := by simp [State.initial]
  future := by simp [State.initial, passes, writes]
  abandoned := by simp [State.initial]
  success := by simp [State.initial]
  returned := by simp [State.initial]
  once := by simp [State.initial, writes]
  inTime := .nil

/-! ### Preservation -/

section Preservation

variable {s t : State Regs Addr} {a : Act Regs Addr}

/-- The worker can only write while `Await` of its round is pending. -/
theorem Inv.awaiting_of_commit (hI : Inv s) {job : Job Regs Addr} (hj : s.worker.job = some job)
    (hs : s.state ≠ .stopping) (ha : s.abandon = false) : s.caller = .awaiting := by
  by_contra hc
  obtain ⟨-, -, hstart, hidle, hsched⟩ := hI.current job hj
  have hrun : s.state = .running := by
    cases hst : s.state <;> simp_all
  have := hI.abandoned hc (.inr hrun)
  simp [ha] at this

theorem Inv.latched_step (hI : Inv s) (h : Moves s a t) : t.req.round = t.round := by
  cases h with
  | latch => rfl
  | _ => exact hI.latched

theorem Inv.outputs_step (hI : Inv s) (h : Moves s a t) : t.req.req.kind = .rtlFrame0 →
    t.req.req.ctxInout.isSome ∧ t.req.req.frameOut.isSome := by
  cases h with
  | latch hc => exact hI.pending _ hc
  | _ => exact hI.outputs

theorem Inv.pending_step (hI : Inv s) (h : Moves s a t) :
    ∀ req, t.caller = .scheduling req → req.kind = .rtlFrame0 →
      req.ctxInout.isSome ∧ req.frameOut.isSome := by
  cases h with
  | begin _ hreq =>
      intro req hc
      obtain rfl := Caller.scheduling.inj hc
      exact hreq
  | giveUp | latch | awaitStopping | awaitIdle | timeout => exact fun _ hc => by cases hc
  | _ => exact hI.pending

theorem Inv.early_step (hI : Inv s) (h : Moves s a t) : t.worker.early = true →
    t.state = .stopping ∨ t.state = .starting ∧ t.caller ≠ .awaiting := by
  cases h with
  | callerWrites | stay => exact hI.early
  | begin | giveUp =>
      intro he
      exact (hI.early he).imp_right fun hst => ⟨hst.1, by simp⟩
  | latch _ hidle =>
      intro he
      rcases hI.early he with hst | ⟨hst, -⟩ <;> simp [hst] at hidle
  | awaitStopping _ hst => exact fun _ => .inl hst
  | awaitIdle hc hidle =>
      intro he
      rcases hI.early he with hst | ⟨hst, -⟩ <;> simp [hst] at hidle
  | timeout hc _ hstop _ =>
      intro he
      rcases hI.early he with hst | ⟨-, hne⟩
      · exact absurd hst hstop
      · exact absurd hc hne
  | shutdown | terminate => exact fun _ => .inl rfl
  | relax _ hw => exact fun he => hI.early (hw he)
  | advance _ _ _ _ _ hw => exact fun he => by simp [hw] at he
  | ready | consume | pass | fail | publish | commit => exact fun he => by cases he

theorem Inv.current_step (hI : Inv s) (h : Moves s a t) : ∀ job, t.worker.job = some job →
    job.round = t.round ∧ SameOutputs t.req.req job.req ∧
      t.state ≠ .starting ∧ t.state ≠ .idle ∧ t.state ≠ .scheduled := by
  cases h with
  | latch _ hidle => exact fun job hj => absurd hidle (hI.current job hj).2.2.2.1
  | shutdown =>
      intro job hj
      obtain ⟨hround, hsame, -⟩ := hI.current job hj
      exact ⟨hround, hsame, by simp⟩
  | relax hw => exact fun job hj => by simp [hw] at hj
  | ready | terminate | fail | publish | commit => exact fun job hj => by cases hj
  | consume =>
      intro job hj
      obtain rfl := Option.some.inj hj
      exact ⟨hI.latched, .refl _, by simp⟩
  | advance _ hj hj' _ _ _ hround hsame =>
      intro job hw
      obtain rfl := Option.some.inj (hj'.symm.trans hw)
      obtain ⟨hr, hs, hst⟩ := hI.current _ hj
      exact ⟨hround.trans hr, hs.trans hsame, hst⟩
  | pass hj _ hsame =>
      intro job hw
      obtain rfl := Option.some.inj hw
      obtain ⟨hr, hs, hst⟩ := hI.current _ hj
      exact ⟨hr, hs.trans hsame, hst⟩
  | _ => exact hI.current

theorem Inv.unwritten_step (hI : Inv s) (h : Moves s a t) :
    (t.state = .scheduled ∨ t.worker.job.isSome) → writes t.round t.trace = [] := by
  cases h with
  | latch => exact fun _ => (hI.future _ (Nat.lt_succ_self _)).2
  | shutdown => exact fun hw => hI.unwritten (.inr (hw.resolve_left (by simp)))
  | relax hw =>
      intro ht
      exact hI.unwritten (.inl (ht.resolve_right (by simp [hw])))
  | ready | terminate | fail | publish | commit =>
      intro ht
      rcases ht with ht | ht <;> cases ht
  | consume _ hs => exact fun _ => hI.unwritten (.inl hs)
  | advance _ hj | pass hj => exact fun _ => hI.unwritten (.inr (by simp [hj]))
  | _ => exact hI.unwritten

theorem Inv.unpassed_step (hI : Inv s) (h : Moves s a t) :
    (t.state = .scheduled ∨ t.worker.job.isSome ∧ t.worker.succeeded = false) →
      passes t.round t.trace = [] := by
  cases h with
  | latch => exact fun _ => (hI.future _ (Nat.lt_succ_self _)).1
  | shutdown => exact fun hw => hI.unpassed (.inr (hw.resolve_left (by simp)))
  | relax hw =>
      intro ht
      exact hI.unpassed (.inl (ht.resolve_right (by simp [hw])))
  | ready | terminate | fail | publish | commit =>
      intro ht
      rcases ht with ht | ⟨ht, -⟩ <;> cases ht
  | consume _ hs => exact fun _ => hI.unpassed (.inl hs)
  | advance _ hj _ hs => exact fun _ => hI.unpassed (.inr ⟨by simp [hj], hs⟩)
  | pass hj =>
      intro ht
      rcases ht with ht | ⟨-, ht⟩
      · exact absurd ht (hI.current _ hj).2.2.2.2
      · cases ht
  | _ => exact hI.unpassed

theorem Inv.passed_step (hI : Inv s) (h : Moves s a t) : ∀ job, t.worker = .publishing job true →
    passes t.round t.trace = [(job.req.stagedCtx, job.req.stagedFrame)] := by
  cases h with
  | latch _ hidle =>
      intro job hw
      have hj : s.worker.job = some job := by
        change s.worker = _ at hw
        rw [hw]
        rfl
      exact absurd hidle (hI.current job hj).2.2.2.1
  | @relax w hw =>
      intro job ht
      obtain rfl : w = .publishing job true := ht
      cases hw
  | @advance w _ _ _ _ _ _ hw =>
      intro job ht
      obtain rfl : w = .publishing job true := ht
      cases hw
  | pass hj hsuc =>
      intro job hw
      obtain ⟨rfl, -⟩ := Worker.publishing.inj hw
      change passes s.round (_ :: s.trace) = _
      rw [passes_passed, if_pos (hI.current _ hj).1, hI.unpassed (.inr ⟨by simp [hj], hsuc⟩)]
  | ready | terminate | consume | fail | publish | commit => exact fun job hw => by cases hw
  | _ => exact hI.passed

theorem Inv.future_step (hI : Inv s) (h : Moves s a t) :
    ∀ n, t.round < n → passes n t.trace = [] ∧ writes n t.trace = [] := by
  cases h with
  | latch => exact fun n hn => hI.future n (Nat.lt_of_succ_lt hn)
  | @pass job _ hj =>
      intro n hn
      have hne : job.round ≠ n := by
        rw [(hI.current job hj).1]
        exact Nat.ne_of_lt hn
      obtain ⟨hp, hw⟩ := hI.future n hn
      refine ⟨?_, hw⟩
      rw [passes_passed, if_neg hne, hp]
  | @commit job _ _ hw =>
      intro n hn
      have hne : job.round ≠ n := by
        rw [(hI.current job (by rw [hw]; rfl)).1]
        exact Nat.ne_of_lt hn
      obtain ⟨hp, hw⟩ := hI.future n hn
      refine ⟨hp, ?_⟩
      rw [writes_wrote, if_neg hne, hw]
  | _ => exact hI.future

theorem Inv.abandoned_step (hI : Inv s) (h : Moves s a t) :
    t.caller ≠ .awaiting → t.state = .scheduled ∨ t.state = .running → t.abandon = true := by
  cases h with
  | begin hc | giveUp hc => exact fun _ => hI.abandoned (by simp [hc])
  | latch => exact fun hc => absurd rfl hc
  | awaitStopping | timeout | shutdown => exact fun _ _ => rfl
  | awaitIdle _ hidle =>
      intro _ ht
      rcases ht with ht | ht <;> cases hidle.symm.trans ht
  | ready | terminate | fail | publish | commit =>
      intro _ ht
      rcases ht with ht | ht <;> cases ht
  | consume _ hs => exact fun hc _ => hI.abandoned hc (.inl hs)
  | _ => exact hI.abandoned

/-- What the worker holds when its checks have passed is what the round staged. -/
theorem Inv.publishing (hI : Inv s) {job : Job Regs Addr}
    (hw : s.worker = .publishing job true) :
    SameOutputs s.req.req job.req ∧ job.round = s.round ∧ writes s.round s.trace = [] ∧
      passes s.round s.trace = [(job.req.stagedCtx, job.req.stagedFrame)] := by
  have hj : s.worker.job = some job := by rw [hw]; rfl
  obtain ⟨hround, hsame, -⟩ := hI.current job hj
  exact ⟨hsame, hround, hI.unwritten (.inr (by simp [hj])), hI.passed job hw⟩

theorem Inv.success_step (hI : Inv s) (h : Moves s a t) :
    t.caller = .awaiting → t.state = .idle → t.result = .success →
      ∃ ctx frame, passes t.round t.trace = [(ctx, frame)] ∧
        (t.req.req.kind = .rtlFrame0 → t.outputsHold ctx frame) := by
  cases h with
  | callerWrites _ hc => exact fun hc' => by cases hc.symm.trans hc'
  | begin | giveUp | awaitStopping | awaitIdle | timeout => exact fun hc => by cases hc
  | latch | shutdown | terminate | consume => exact fun _ hs => by cases hs
  | ready he hs =>
      intro hc
      rcases hI.early he with hst | ⟨-, hne⟩
      · exact absurd hst hs
      · exact absurd hc hne
  | pass hj => exact fun _ hs => absurd hs (hI.current _ hj).2.2.2.1
  | fail => exact fun _ _ hr => by cases hr
  | publish hw _ hnull =>
      intro _ _ _
      obtain ⟨hsame, -, -, hpass⟩ := hI.publishing hw
      refine ⟨_, _, hpass, fun hk => ?_⟩
      -- a scheduled frame probe has both outputs
      obtain ⟨hctx, hframe⟩ := hI.outputs hk
      rcases hnull (hsame.kind.trans hk) with hn | hn
      · simp [← hsame.ctxInout, hn] at hctx
      · simp [← hsame.frameOut, hn] at hframe
  | commit hw _ _ hctx hframe =>
      intro _ _ _
      obtain ⟨hsame, -, -, hpass⟩ := hI.publishing hw
      refine ⟨_, _, hpass, fun _ => ?_⟩
      exact ⟨_, _, hsame.ctxInout.symm.trans hctx, hsame.frameOut.symm.trans hframe,
        Function.update_self .., Function.update_self ..⟩
  | _ => exact hI.success

theorem Inv.returned_step (hI : Inv s) (h : Moves s a t) : ∀ n v, .returned n v ∈ t.trace →
    n ≤ t.round ∧ (t.caller = .awaiting → n ≠ t.round) := by
  cases h with
  | begin | giveUp => exact fun n v hm => ⟨(hI.returned n v hm).1, fun hc => by cases hc⟩
  | latch =>
      intro n v hm
      have hle := (hI.returned n v hm).1
      exact ⟨Nat.le_succ_of_le hle, fun _ => Nat.ne_of_lt (Nat.lt_succ_of_le hle)⟩
  | awaitStopping | awaitIdle | timeout =>
      intro n v hm
      refine ⟨?_, fun hc => by cases hc⟩
      rcases List.mem_cons.mp hm with he | hm
      · obtain ⟨rfl, -⟩ := Event.returned.inj he
        exact Nat.le_refl _
      · exact (hI.returned n v hm).1
  | pass | commit =>
      intro n v hm
      rcases List.mem_cons.mp hm with he | hm
      · cases he
      · exact hI.returned n v hm
  | _ => exact hI.returned

theorem Inv.once_step (hI : Inv s) (h : Moves s a t) : ∀ n, (writes n t.trace).length ≤ 1 := by
  cases h with
  | @commit job _ _ hw =>
      intro n
      obtain ⟨-, hround, hnil, -⟩ := hI.publishing hw
      rw [writes_wrote]
      by_cases hn : job.round = n
      · rw [if_pos hn, ← hn, hround, hnil]
        exact Nat.le_refl _
      · rw [if_neg hn]
        exact hI.once n
  | _ => exact hI.once

theorem Inv.inTime_step (hI : Inv s) (h : Moves s a t) : NoLateWrite t.trace := by
  cases h with
  | awaitStopping | awaitIdle | timeout | pass => exact .cons (fun _ _ => trivial) hI.inTime
  | @commit job _ _ hw hs ha =>
      have hj : s.worker.job = some job := by rw [hw]; rfl
      refine .cons (fun e he => ?_) hI.inTime
      cases e with
      | passed | wrote => trivial
      | returned n v =>
          change _ ≠ n
          rw [(hI.current _ hj).1]
          exact ((hI.returned n v he).2 (hI.awaiting_of_commit hj hs ha)).symm
  | _ => exact hI.inTime

/-- Every step keeps the invariant. -/
theorem Inv.step (hI : Inv s) (h : Moves s a t) : Inv t where
  latched := hI.latched_step h
  outputs := hI.outputs_step h
  pending := hI.pending_step h
  early := hI.early_step h
  current := hI.current_step h
  unwritten := hI.unwritten_step h
  unpassed := hI.unpassed_step h
  passed := hI.passed_step h
  future := hI.future_step h
  abandoned := hI.abandoned_step h
  success := hI.success_step h
  returned := hI.returned_step h
  once := hI.once_step h
  inTime := hI.inTime_step h

end Preservation

theorem inductive_inv : Inductive (guard Regs Addr) Inv where
  init s h := by
    obtain ⟨ctxMem, frameMem, rfl⟩ := h
    exact inv_initial ctxMem frameMem
  step _ _ _ hI h := hI.step (moves_of_step h)

/-! ### What one step shows -/

section Steps

variable {s t : State Regs Addr} {a : Act Regs Addr}

/-- A step that changes the caller's objects is the caller's own, or the one
write of a round whose `Await` is pending, through the pointers of its request. -/
theorem Inv.memory_step (hI : Inv s) (h : Moves s a t)
    (hne : t.ctxMem ≠ s.ctxMem ∨ t.frameMem ≠ s.frameMem) :
    (∃ ctxMem frameMem, a = .callerWrites ctxMem frameMem) ∨
    s.caller = .awaiting ∧ ∃ ctxInout frameOut ctx frame,
      s.req.req.ctxInout = some ctxInout ∧ s.req.req.frameOut = some frameOut ∧
      passes s.round s.trace = [(ctx, frame)] ∧ writes s.round s.trace = [] ∧
      t.ctxMem = Function.update s.ctxMem ctxInout ctx ∧
      t.frameMem = Function.update s.frameMem frameOut frame ∧
      t.trace = .wrote s.round ctxInout frameOut ctx frame :: s.trace := by
  cases h with
  | callerWrites ha => exact .inl ⟨_, _, ha⟩
  | commit hw hs ha hctx hframe =>
      obtain ⟨hsame, hround, hnil, hpass⟩ := hI.publishing hw
      refine .inr ⟨hI.awaiting_of_commit (by rw [hw]; rfl) hs ha, _, _, _, _,
        hsame.ctxInout.symm.trans hctx, hsame.frameOut.symm.trans hframe, hpass, hnil, rfl, rfl, ?_⟩
      rw [hround]
  | _ => exact absurd hne (by simp [State.returns])

/-- `Await` reports success only for the current round, with its outputs in place. -/
theorem Inv.success_reported (hI : Inv s) (h : Moves s a t) {n : ℕ}
    (ht : t.trace = .returned n .success :: s.trace) :
    n = s.round ∧ s.state = .idle ∧ ∃ ctx frame, passes n t.trace = [(ctx, frame)] ∧
      (s.req.req.kind = .rtlFrame0 → t.outputsHold ctx frame) := by
  cases h with
  | awaitStopping =>
      obtain ⟨-, hv⟩ := Event.returned.inj (List.cons.inj ht).1
      cases hv
  | timeout _ _ _ hv =>
      obtain ⟨-, hv'⟩ := Event.returned.inj (List.cons.inj ht).1
      exact absurd hv' hv
  | awaitIdle hc hidle =>
      obtain ⟨hn, hres⟩ := Event.returned.inj (List.cons.inj ht).1
      obtain ⟨ctx, frame, hpass, hout⟩ := hI.success hc hidle hres
      rw [← hn]
      exact ⟨rfl, hidle, ctx, frame, hpass, hout⟩
  | pass | commit => cases (List.cons.inj ht).1
  | _ => exact absurd ht (by simp)

/-- A stopping guard stays stopping and reports no success. -/
theorem stopping_step (h : Moves s a t) (hs : s.state = .stopping) :
    t.state = .stopping ∧ successes t.trace = successes s.trace := by
  cases h with
  | latch _ hidle => cases hs.symm.trans hidle
  | awaitIdle _ hidle => cases hs.symm.trans hidle
  | timeout _ _ hstop => exact absurd hs hstop
  | consume _ hsch => cases hs.symm.trans hsch
  | shutdown hne | ready _ hne | fail _ hne | publish _ hne | commit _ hne =>
      exact absurd hs hne
  | terminate => exact ⟨rfl, rfl⟩
  | _ => exact ⟨hs, rfl⟩

theorem stopping_run {l : List (Act Regs Addr)} (h : Run (guard Regs Addr) s l t)
    (hs : s.state = .stopping) :
    t.state = .stopping ∧ successes t.trace = successes s.trace := by
  induction h with
  | nil => exact ⟨hs, rfl⟩
  | cons hstep _ ih =>
      obtain ⟨hu, htr⟩ := stopping_step (moves_of_step hstep) hs
      obtain ⟨ht, htr'⟩ := ih hu
      exact ⟨ht, htr'.trans htr⟩

end Steps

/-- **The guard.** In every reachable state of every interleaving:
* the outputs are written at most once in a round and never after its `Await`
  has returned; a step that changes the caller's objects, and is not the caller's
  own, is taken while `Await` of the round is pending, and it writes what the
  round staged through the pointers of the round's request;
* `Await` reports success only with the outputs holding the values that the
  worker staged in that same round;
* a stopping guard stays stopping, and no further round is reported as
  successful. -/
theorem stackWalkGuard_sound {s : State Regs Addr} (h : (guard Regs Addr).Reachable s) :
    ((∀ n, (writes n s.trace).length ≤ 1) ∧ NoLateWrite s.trace) ∧
    (∀ a t, step s a = some t → t.ctxMem ≠ s.ctxMem ∨ t.frameMem ≠ s.frameMem →
      (∃ ctxMem frameMem, a = .callerWrites ctxMem frameMem) ∨
    s.caller = .awaiting ∧ ∃ ctxInout frameOut ctx frame,
        s.req.req.ctxInout = some ctxInout ∧ s.req.req.frameOut = some frameOut ∧
        passes s.round s.trace = [(ctx, frame)] ∧ writes s.round s.trace = [] ∧
        t.ctxMem = Function.update s.ctxMem ctxInout ctx ∧
        t.frameMem = Function.update s.frameMem frameOut frame ∧
        t.trace = .wrote s.round ctxInout frameOut ctx frame :: s.trace) ∧
    (∀ a t n, step s a = some t → t.trace = .returned n .success :: s.trace →
      n = s.round ∧ s.state = .idle ∧ ∃ ctx frame, passes n t.trace = [(ctx, frame)] ∧
        (s.req.req.kind = .rtlFrame0 → t.outputsHold ctx frame)) ∧
    (s.state = .stopping → ∀ l t, Run (guard Regs Addr) s l t →
      t.state = .stopping ∧ successes t.trace = successes s.trace) := by
  have hI : Inv s := inductive_inv.reachable h
  exact ⟨⟨hI.once, hI.inTime⟩,
    fun a t hs hne => hI.memory_step (moves_of_step hs) hne,
    fun a t n hs ht => hI.success_reported (moves_of_step hs) ht,
    fun hs l t hrun => stopping_run hrun hs⟩

/-- A managed frame is staged, committed and reported, and then the guard stops. -/
theorem stackWalkGuard_sound_managed_frame :
    ∃ s t : State Unit (Fin 1),
      (∃ ctx frame, passes 1 s.trace = [(ctx, frame)] ∧ s.outputsHold ctx frame) ∧
      successes t.trace = [1] ∧ t.state = .stopping ∧
      ∀ l u, Run (guard Unit (Fin 1)) t l u → u.state = .stopping ∧ successes u.trace = [1] := by
  let acts : List (Act Unit (Fin 1)) :=
    [.work .silent, .work (.initializeCurrentThread true), .work .silent,
      .scheduleRtlFrame0Probe (some 0) (some 0), .schedule,
      .work .silent, .work .silent, .work (.allocated true), .work .silent,
      .work .silent, .work .silent, .work (.rtlLookupFunctionEntry (some (1, none))),
      .work .silent, .work .silent, .work (.getFunctionFromIP (some (true, 5))),
      .work .silent, .work .silent, .work .silent]
  let s₀ : State Unit (Fin 1) := .initial (fun _ => ⟨7, 8, ()⟩) (fun _ => {})
  let r : State Unit (Fin 1) := (exec step s₀ acts).get (by decide)
  let s : State Unit (Fin 1) := (step r .await).get (by decide)
  let t : State Unit (Fin 1) := (step s .requestShutdown).get (by decide)
  have hr : (guard Unit (Fin 1)).Reachable r :=
    reachable_of_exec (l := acts) (s := s₀) ⟨_, _, rfl⟩ (by simp [r])
  have hs : step r .await = some s := by simp [s]
  have ht : step s .requestShutdown = some t := by simp [t]
  obtain ⟨-, -, hreported, -⟩ := stackWalkGuard_sound hr
  obtain ⟨-, -, ctx, frame, hpass, hout⟩ := hreported .await s 1 hs rfl
  obtain ⟨-, -, -, hstopping⟩ := stackWalkGuard_sound ((hr.step hs).step ht)
  exact ⟨s, t, ⟨ctx, frame, hpass, hout rfl⟩, rfl, rfl, hstopping rfl⟩

end AutoInstrumentation.StackWalkGuard
