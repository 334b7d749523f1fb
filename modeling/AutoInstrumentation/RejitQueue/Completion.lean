import AutoInstrumentation.Lib.Progress
import AutoInstrumentation.RejitQueue.WorkerSound
import Mathlib.Algebra.BigOperators.Group.Finset.Basic
import Mathlib.Data.Fintype.Basic

/-!
# AutoInstrumentation.RejitQueue.Completion

The calls on the rejit handler come to an end, whatever the interleaving.

No thread waits for ever: the locks are taken in an order, except that the shutdown
takes the locks of the preprocessor below its own, while everybody who asks whether the
handler is shut down may hold them; both need the lock of the module ids. And nobody
who waits for the worker holds what the worker takes.
-/

namespace AutoInstrumentation.RejitQueue

open Lib Integration

variable {ι : Type} [DecidableEq ι]
variable {found : Found} {info12 : Bool} {s : State ι} {v : View ι} {i : ι}

/-! ### Threads that cannot go on -/

/-- Why a script cannot go on. -/
inductive Blocked (s : Shared ι) : Script ι → Prop
  | ret : Blocked s .ret
  | lock {l : LockName} {rest : Script ι} (h : s.locks l ≠ none) : Blocked s (.lock l rest)
  | ifShutdownRequested {yes no : Script ι} (h : s.locks .shutdown ≠ none) :
      Blocked s (.ifShutdownRequested yes no)
  | await {p : ι} {rest : Script ι} (h : s.promises p = none) : Blocked s (.await p rest)
  | join {rest : Script ι} (h : s.exited = false) : Blocked s (.join rest)

theorem Blocked.of_step (owner : Option ι) {shared : Shared ι} {script : Script ι}
    (h : ∀ grants, script.step owner grants shared = none) : Blocked shared script := by
  cases script with
  | ret => exact .ret
  | lock l rest => exact .lock fun hfree => by simpa [Script.step, hfree] using h true
  | ifShutdownRequested yes no =>
      exact .ifShutdownRequested fun hfree => by simpa [Script.step, hfree] using h true
  | await p rest =>
      refine .await ?_
      by_contra hset
      simpa [Script.step, hset] using h true
  | join rest =>
      refine .join ?_
      by_contra hexited
      simpa [Script.step, hexited] using h true
  | tryLock l rest refused => simpa [Script.step] using h false
  | _ => simpa [Script.step] using h true

/-- A state that no step leads on from. -/
structure Halted (s : State ι) : Prop where
  threads : ∀ i, Blocked s.shared (s.threads i)
  worker : ∀ script, s.worker = some script → script ≠ .ret ∧ Blocked s.shared script
  queue : s.worker = none → s.shared.exited = false → s.shared.queue = []

theorem Halted.of_stuck (hinv : Inv found info12 s v) {calls : ι → Call}
    (h : (profiler found info12 calls).Stuck s) : Halted s := by
  have hnone : ∀ a, step (Action.code found) s a = none := by
    intro a
    cases hstep : step (Action.code found) s a with
    | none => rfl
    | some t => exact (h a t hstep).elim
  constructor
  case threads =>
      intro i
      refine Blocked.of_step (some i) fun grants => ?_
      exact Option.map_eq_none_iff.mp (hnone (.thread i grants))
  case worker =>
      intro script hworker
      have hret : script ≠ .ret := by
        intro hret
        subst hret
        simpa [step, hworker] using hnone .worker
      have hblocked := hnone .worker
      rw [step_worker hworker hret] at hblocked
      refine ⟨hret, Blocked.of_step none fun grants => ?_⟩
      have hscript := Option.map_eq_none_iff.mp hblocked
      cases script with
      | tryLock l rest refused => exact (hinv.carries_script hworker).elim
      | _ => exact hscript
  case queue =>
      intro hworker hexited
      have hpop := hnone .pop
      simp only [step, hworker, hexited, Option.isSome_none, Bool.or_self, Bool.false_eq_true,
        if_false] at hpop
      cases hqueue : s.shared.queue with
      | nil => rfl
      | cons item queue => simp [hqueue] at hpop

/-! ### Who holds what -/

/-- Two threads under the lock of the module ids are the same. -/
theorem Inv.eq_of_moduleIds (h : Inv found info12 s v) {j : ι}
    (hi : .moduleIds ∈ (v.duty i).held) (hj : .moduleIds ∈ (v.duty j).held) : i = j :=
  Option.some.inj (h.locks.unique (i := some i) (j := some j) (l := .moduleIds) hi hj)

/-- The worker takes no lock but that of the preprocessor's modules. -/
theorem Inv.exists_thread (h : Inv found info12 s v) {l : LockName} (hl : s.shared.locks l ≠ none)
    (hother : l ≠ .rejitModules ∨ v.locked = false) : ∃ j, l ∈ (v.duty j).held := by
  obtain ⟨owner, howner⟩ := h.locks.exists_owner hl
  cases owner with
  | some j => exact ⟨j, howner⟩
  | none =>
      cases hlocked : v.locked with
      | false => simp [View.held, hlocked] at howner
      | true =>
          have hsame : l = .rejitModules := by simpa [View.held, hlocked] using howner
          rcases hother with hne | hfalse
          · exact absurd hsame hne
          · simp [hlocked] at hfalse

/-- A thread is not blocked by the writer if both are under the lock of the module ids. -/
theorem Inv.shutdown_free (h : Inv found info12 s v) (hi : .moduleIds ∈ (v.duty i).held)
    (hfree : .shutdown ∉ (v.duty i).held) : s.shared.locks .shutdown = none := by
  by_contra hl
  obtain ⟨j, hj⟩ := h.exists_thread hl (Or.inl (by simp))
  have hmodules := (h.proper j).nested.moduleIds (Or.inl hj)
  exact hfree (h.eq_of_moduleIds hi hmodules ▸ hj)

/-- The inner lock of the preprocessor is only taken under the lock of the module ids. -/
theorem Inv.ngenInliners_free (h : Inv found info12 s v) (hi : .moduleIds ∈ (v.duty i).held)
    (hfree : .ngenInliners ∉ (v.duty i).held) : s.shared.locks .ngenInliners = none := by
  by_contra hl
  obtain ⟨j, hj⟩ := h.exists_thread hl (Or.inl (by simp))
  have hmodules := (h.proper j).nested.moduleIds (Or.inr hj)
  exact hfree (h.eq_of_moduleIds hi hmodules ▸ hj)

/-! ### Nobody waits -/

/-- Whoever holds a lock of the preprocessor goes on. -/
theorem Inv.inner_goes_on (h : Inv found info12 s v)
    (hi : .rejitModules ∈ (v.duty i).held ∨ .ngenInliners ∈ (v.duty i).held) :
    ¬ Blocked s.shared (s.threads i) := by
  have hsafe := h.safe i
  have hne : (v.duty i).held ≠ [] := by
    intro hnil
    simp [hnil] at hi
  intro hblocked
  generalize hscript : s.threads i = script at hblocked hsafe
  cases hblocked with
  | ret => exact hne hsafe.1
  | @lock l rest hl =>
      have hmay := hsafe.1
      cases l with
      | definitionsIds => exact hne hmay
      | moduleIds => rcases hmay with hnil | hids <;> simp_all
      | shutdown => exact hi.elim hmay.2.2.1 hmay.2.2.2.1
      | rejitModules => exact hi.elim hmay.2.1 hmay.2.2
      | ngenInliners => exact hl (h.ngenInliners_free hmay.1 hmay.2)
  | ifShutdownRequested hl =>
      have hmodules : .moduleIds ∈ (v.duty i).held := by
        rcases hi with hrejit | hngen
        · exact hsafe.2.1 hrejit
        · exact (h.proper i).nested.moduleIds (Or.inr hngen)
      exact hl (h.shutdown_free hmodules hsafe.1)
  | await _ => exact hi.elim hsafe.2.2.1.2.1 hsafe.2.2.1.2.2
  | join _ => exact hi.elim hsafe.2.1.2.1 hsafe.2.1.2.2

section
variable (h : Inv found info12 s v) (hhalted : Halted s)
include h hhalted

/-- The worker has nothing to do. -/
theorem Inv.worker_none : s.worker = none := by
  cases hworker : s.worker with
  | none => rfl
  | some script =>
      exfalso
      obtain ⟨hret, hblocked⟩ := hhalted.worker script hworker
      have hcarries := h.carries_script hworker
      have hexited := h.not_exited hworker
      cases hblocked with
      | ret => exact hret rfl
      | @lock l rest hl =>
          obtain ⟨rfl, hlocked, -⟩ := hcarries
          obtain ⟨j, hj⟩ := h.exists_thread hl (Or.inr hlocked)
          exact h.inner_goes_on (Or.inl hj) (hhalted.threads j)
      | ifShutdownRequested hl =>
          obtain ⟨j, hj⟩ := h.exists_thread hl (Or.inl (by simp))
          -- the writer has joined the worker
          have hjoined := (h.proper j).shutdown hj
          have hphase := Phase.stage_joined ((h.roles.stage j).symm.trans hjoined)
          have hrunning := h.isRunning hexited
          simp [hphase, Phase.isRunning] at hrunning
      | await _ => exact hcarries
      | join _ => exact hcarries

theorem Inv.queue_nil : s.shared.queue = [] := by
  cases hexited : s.shared.exited with
  | true => exact (h.queued.drained hexited).1
  | false => exact hhalted.queue (h.worker_none hhalted) hexited

/-- Each promise that was handed over is set. -/
theorem Inv.promise_set (hhanded : (v.duty i).handed = true) :
    s.shared.promises i ≠ none := by
  have hcarries := h.carries
  rw [h.worker_none hhalted] at hcarries
  have howed : v.owed s.shared.queue = [] := by
    simp [View.owed, hcarries.1, h.queue_nil hhalted]
  rcases h.promised.handed i hhanded with hmem | hset
  · simp [howed] at hmem
  · intro hnone
    simp [hnone] at hset

/-- The worker that is waited for has ended. -/
theorem Inv.worker_exited (hstage : (v.duty i).stage = .terminated) :
    s.shared.exited = true := by
  have hphase := Phase.stage_terminated ((h.roles.stage i).symm.trans hstage)
  by_contra hexited
  obtain ⟨items, hitems, -⟩ := h.queued.pending (by simpa using hexited)
  simp [h.queue_nil hhalted, hphase, Phase.pushedLast] at hitems

/-- The lock of the preprocessor's modules is free. -/
theorem Inv.rejitModules_free : s.shared.locks .rejitModules = none := by
  by_contra hl
  have hcarries := h.carries
  rw [h.worker_none hhalted] at hcarries
  obtain ⟨j, hj⟩ := h.exists_thread hl (Or.inr hcarries.2)
  exact h.inner_goes_on (Or.inl hj) (hhalted.threads j)

/-- What a thread that holds a lock can still wait for. -/
theorem Inv.waits (hi : (v.duty i).held ≠ []) :
    (∃ rest, s.threads i = .lock .moduleIds rest ∧ (v.duty i).held = [.definitionsIds]) ∨
      ∃ yes no, s.threads i = .ifShutdownRequested yes no ∧ .moduleIds ∉ (v.duty i).held := by
  have hsafe := h.safe i
  have hblocked := hhalted.threads i
  generalize hscript : s.threads i = script at hblocked hsafe
  cases hblocked with
  | ret => exact absurd hsafe.1 hi
  | @lock l rest hl =>
      have hmay := hsafe.1
      cases l with
      | definitionsIds => exact absurd hmay hi
      | moduleIds => exact Or.inl ⟨rest, rfl, hmay.resolve_left hi⟩
      | shutdown => exact absurd (h.shutdown_free hmay.1 hmay.2.1) hl
      | rejitModules => exact absurd (h.rejitModules_free hhalted) hl
      | ngenInliners => exact absurd (h.ngenInliners_free hmay.1 hmay.2) hl
  | @ifShutdownRequested yes no hl =>
      exact Or.inr ⟨yes, no, rfl, fun hmodules => hl (h.shutdown_free hmodules hsafe.1)⟩
  | await hnone =>
      obtain ⟨rfl, hhanded, -⟩ := hsafe
      exact absurd hnone (h.promise_set hhalted hhanded)
  | join hexited =>
      rw [h.worker_exited hhalted hsafe.1] at hexited
      cases hexited

theorem Inv.moduleIds_free : s.shared.locks .moduleIds = none := by
  by_contra hl
  obtain ⟨j, hj⟩ := h.exists_thread hl (Or.inl (by simp))
  rcases h.waits hhalted (List.ne_nil_of_mem hj) with ⟨rest, -, hheld⟩ | ⟨yes, no, -, hnot⟩
  · simp [hheld] at hj
  · exact hnot hj

theorem Inv.shutdown_unlocked : s.shared.locks .shutdown = none := by
  by_contra hl
  obtain ⟨j, hj⟩ := h.exists_thread hl (Or.inl (by simp))
  have hmodules := (h.proper j).nested.moduleIds (Or.inl hj)
  exact absurd ((h.locks.owner .moduleIds (some j)).mpr hmodules) (by
    simp [h.moduleIds_free hhalted])

theorem Inv.held_nil (i : ι) : (v.duty i).held = [] := by
  by_contra hi
  have hblocked := hhalted.threads i
  rcases h.waits hhalted hi with ⟨rest, hscript, -⟩ | ⟨yes, no, hscript, -⟩
  · rw [hscript] at hblocked
    cases hblocked with
    | lock hl => exact hl (h.moduleIds_free hhalted)
  · rw [hscript] at hblocked
    cases hblocked with
    | ifShutdownRequested hl => exact hl (h.shutdown_unlocked hhalted)

/-- **Nobody waits for ever.** Where no step leads on, every call has returned. -/
theorem Inv.returned (i : ι) : s.threads i = .ret := by
  have hsafe := h.safe i
  have hblocked := hhalted.threads i
  generalize hscript : s.threads i = script at hblocked hsafe ⊢
  cases hblocked with
  | ret => rfl
  | @lock l rest hl =>
      exfalso
      obtain ⟨owner, howner⟩ := h.locks.exists_owner hl
      have hcarries := h.carries
      rw [h.worker_none hhalted] at hcarries
      cases owner with
      | none => simp [View.held, hcarries.2] at howner
      | some j => simp [View.held, h.held_nil hhalted j] at howner
  | ifShutdownRequested hl => exact absurd (h.shutdown_unlocked hhalted) hl
  | await hnone =>
      obtain ⟨rfl, hhanded, -⟩ := hsafe
      exact absurd hnone (h.promise_set hhalted hhanded)
  | join hexited =>
      rw [h.worker_exited hhalted hsafe.1] at hexited
      cases hexited

end

/-! ### What is left to do -/

/-- The most steps of a script, when pushing an item costs `cost`. -/
def Script.effort (cost : RejitWorkItem ι → ℕ) : Script ι → ℕ
  | .ret => 0
  | .push item rest => rest.effort cost + cost item + 1
  | .tryLock _ a b | .ifAttached a b | .ifHandler a b | .ifShutdownRequested a b
  | .ifProfilerInfo a b | .ifProfilerInfo12 a b => max (a.effort cost) (b.effort cost) + 1
  | .lock _ rest | .unlock _ rest | .detach rest | .useProfilerInfo rest | .request _ rest
  | .setValue _ _ rest | .await _ rest | .awaitFor _ rest | .join rest | .setShutdown rest
  | .clearInterfaces rest | .clearHandler rest => rest.effort cost + 1

/-- The most steps that the worker needs for an item; no item pushes another one. -/
def itemEffort (found : Found) : RejitWorkItem ι → ℕ
  | .terminating => 1
  | .func action => (action.code found).effort (fun _ => 0) + 2

/-- The most steps of the worker for what it has begun. -/
def workerEffort : Option (Script ι) → ℕ
  | none => 0
  | some script => script.effort (fun _ => 0) + 1

/-- The most steps that are left. -/
def State.effort [Fintype ι] (found : Found) (s : State ι) : ℕ :=
  ∑ i, (s.threads i).effort (itemEffort found) + (s.shared.queue.map (itemEffort found)).sum
    + workerEffort s.worker

omit [DecidableEq ι] in
theorem Script.effort_ite (cost : RejitWorkItem ι → ℕ) (b : Bool) (yes no : Script ι) :
    (if b then yes else no).effort cost ≤ max (yes.effort cost) (no.effort cost) := by
  cases b <;> simp

/-- The queue of a shared state with one access more. -/
theorem Script.step_effort (cost : RejitWorkItem ι → ℕ) {owner : Option ι} {grants : Bool}
    {shared : Shared ι} {script : Script ι} {p : Shared ι × Script ι}
    (hstep : script.step owner grants shared = some p) :
    p.2.effort cost + (p.1.queue.map cost).sum + 1
      ≤ script.effort cost + (shared.queue.map cost).sum := by
  cases script with
  | ret => simp [step] at hstep
  | lock l rest =>
      simp only [step, Option.ite_none_right_eq_some, Option.some.injEq] at hstep
      obtain ⟨-, rfl⟩ := hstep
      simp only [Shared.lock, effort]
      omega
  | tryLock l rest refused =>
      simp only [step] at hstep
      split at hstep
      · obtain rfl := Option.some.inj hstep
        simp only [effort]
        omega
      · simp only [Option.ite_none_right_eq_some, Option.some.injEq] at hstep
        obtain ⟨-, rfl⟩ := hstep
        simp only [Shared.lock, effort]
        omega
  | push item rest =>
      obtain rfl := Option.some.inj hstep
      simp only [Shared.push, effort, List.map_append, List.sum_append, List.map_cons,
        List.map_nil, List.sum_cons, List.sum_nil]
      omega
  | ifShutdownRequested yes no =>
      simp only [step, Option.ite_none_right_eq_some, Option.some.injEq] at hstep
      obtain ⟨-, rfl⟩ := hstep
      have hbranch := effort_ite cost shared.shutdown yes no
      simp only [effort]
      omega
  | ifAttached yes no =>
      obtain rfl := Option.some.inj hstep
      have hbranch := effort_ite cost shared.isAttached yes no
      simp only [effort]
      omega
  | ifHandler yes no =>
      obtain rfl := Option.some.inj hstep
      have hbranch := effort_ite cost shared.rejitHandler yes no
      simp only [effort]
      omega
  | ifProfilerInfo yes no =>
      obtain rfl := Option.some.inj hstep
      have hbranch := effort_ite cost shared.profilerInfo yes no
      simp only [effort]
      omega
  | ifProfilerInfo12 yes no =>
      obtain rfl := Option.some.inj hstep
      have hbranch := effort_ite cost shared.profilerInfo12 yes no
      simp only [effort]
      omega
  | useProfilerInfo rest =>
      obtain rfl := Option.some.inj hstep
      have hqueue : (if shared.profilerInfo then shared
          else { shared with faulted := true }).queue = shared.queue := by
        split <;> rfl
      simp only [hqueue, effort]
      omega
  | request r rest =>
      obtain rfl := Option.some.inj hstep
      have hqueue : (shared.request r).queue = shared.queue := by
        unfold Shared.request
        split <;> rfl
      simp only [hqueue, effort]
      omega
  | setValue promise value rest =>
      obtain rfl := Option.some.inj hstep
      have hqueue : (shared.setValue promise value).queue = shared.queue := by
        unfold Shared.setValue
        split <;> rfl
      simp only [hqueue, effort]
      omega
  | await promise rest =>
      simp only [step, Option.ite_none_left_eq_some, Option.some.injEq] at hstep
      obtain ⟨-, rfl⟩ := hstep
      simp only [effort]
      omega
  | join rest =>
      simp only [step, Option.ite_none_right_eq_some, Option.some.injEq] at hstep
      obtain ⟨-, rfl⟩ := hstep
      simp only [effort]
      omega
  | unlock _ rest | detach rest | awaitFor _ rest | setShutdown rest | clearInterfaces rest
  | clearHandler rest =>
      obtain rfl := Option.some.inj hstep
      simp only [Shared.unlock, effort]
      omega

/-- An item pushes nothing. -/
theorem Script.Carries.queue {owes : Option ι} {locked : Bool} {owner : Option ι} {grants : Bool}
    {shared : Shared ι} {script : Script ι} (h : script.Carries info12 owes locked)
    {p : Shared ι × Script ι} (hstep : script.step owner grants shared = some p) :
    p.1.queue = shared.queue := by
  cases script with
  | ret => simp [step] at hstep
  | lock l rest =>
      simp only [step, Option.ite_none_right_eq_some, Option.some.injEq] at hstep
      obtain ⟨-, rfl⟩ := hstep
      rfl
  | ifShutdownRequested yes no =>
      simp only [step, Option.ite_none_right_eq_some, Option.some.injEq] at hstep
      obtain ⟨-, rfl⟩ := hstep
      rfl
  | unlock l rest =>
      obtain rfl := Option.some.inj hstep
      rfl
  | ifProfilerInfo12 yes no =>
      obtain rfl := Option.some.inj hstep
      rfl
  | useProfilerInfo rest =>
      obtain rfl := Option.some.inj hstep
      dsimp only
      split <;> rfl
  | request r rest =>
      obtain rfl := Option.some.inj hstep
      dsimp only [Shared.request]
      split <;> rfl
  | setValue promise value rest =>
      obtain rfl := Option.some.inj hstep
      dsimp only [Shared.setValue]
      split <;> rfl
  | _ => exact h.elim

variable [Fintype ι]

/-- Another script of one thread. -/
theorem sum_effort_update (cost : RejitWorkItem ι → ℕ) (threads : ι → Script ι) (i : ι)
    (rest : Script ι) :
    ∑ j, (Function.update threads i rest j).effort cost + (threads i).effort cost
      = ∑ j, (threads j).effort cost + rest.effort cost := by
  have hsum : ∀ f : ι → Script ι,
      ∑ j, (f j).effort cost = (f i).effort cost + ∑ j ∈ Finset.univ.erase i, (f j).effort cost :=
    fun f => (Finset.add_sum_erase Finset.univ (fun j => (f j).effort cost)
      (Finset.mem_univ i)).symm
  have hothers : ∑ j ∈ Finset.univ.erase i, (Function.update threads i rest j).effort cost
      = ∑ j ∈ Finset.univ.erase i, (threads j).effort cost := by
    refine Finset.sum_congr rfl fun j hj => ?_
    rw [Function.update_of_ne (Finset.ne_of_mem_erase hj)]
  rw [hsum (Function.update threads i rest), hsum threads, hothers, Function.update_self]
  omega

/-- Each step leaves less to do. -/
theorem lowers (found : Found) (info12 : Bool) (calls : ι → Call) :
    (profiler found info12 calls).Lowers (fun s => ∃ v, Inv found info12 s v)
      (State.effort found) := by
  intro s a t hs hst
  obtain ⟨v, hv⟩ := hs
  have hstep : step (Action.code found) s a = some t := hst
  cases a with
  | thread i grants =>
      obtain ⟨p, hp, rfl⟩ := Option.map_eq_some_iff.mp hstep
      have hlower := Script.step_effort (itemEffort found) hp
      have hsum := sum_effort_update (itemEffort found) s.threads i p.2
      simp only [State.effort]
      omega
  | pop =>
      simp only [step] at hstep
      split at hstep
      case isTrue => cases hstep
      case isFalse hidle =>
          simp only [Bool.or_eq_true, not_or, Bool.not_eq_true, Option.isSome_eq_false_iff,
            Option.isNone_iff_eq_none] at hidle
          cases hqueue : s.shared.queue with
          | nil => simp [hqueue] at hstep
          | cons item queue =>
              simp only [hqueue, Option.some.injEq] at hstep
              subst hstep
              cases item with
              | terminating =>
                  simp [State.effort, State.take, hqueue, hidle.1, itemEffort, workerEffort]
              | func action =>
                  simp [State.effort, State.take, hqueue, hidle.1, itemEffort, workerEffort]
                  omega
  | worker =>
      cases hworker : s.worker with
      | none => simp [step, hworker] at hstep
      | some script =>
          by_cases hret : script = .ret
          · subst hret
            simp only [step, hworker, Option.some.injEq] at hstep
            subst hstep
            simp [State.effort, hworker, workerEffort]
          · have hrun := (step_worker hworker hret).symm.trans hstep
            obtain ⟨p, hp, rfl⟩ := Option.map_eq_some_iff.mp hrun
            have hqueue := (hv.carries_script hworker).queue hp
            have hlower := Script.step_effort (fun _ => 0) hp
            rw [hqueue] at hlower
            simp only [State.effort, State.work, hqueue, hworker, workerEffort]
            omega

/-! ### The main results -/

/-- Definitions are registered for a module while the profiler is shut down. -/
def registration : Fin 2 → Call
  | 0 =>
      let type : TypeReference := { assembly := ['A'], name := ['T'] }
      let method : MethodReference := { type, methodName := ['m'], signatureTypes := [] }
      .registerCallTargetDefinitions true false [7] [.new method type false false true]
  | 1 => .shutdown

/-- The module has one such method. -/
def registrationFound : Found := fun _ _ => [42]

def registrationActs : List (Act (Fin 2)) :=
  .thread 1 true :: List.replicate 6 (.thread 0 true) ++ .pop :: List.replicate 10 .worker ++
    List.replicate 2 (.thread 0 true) ++ List.replicate 4 (.thread 1 true) ++
    .pop :: List.replicate 12 (.thread 1 true)

omit [Fintype ι] in
/-- **The worker carries out what was pushed, in order.** In every reachable state of
every interleaving of calls: no null pointer was used and no promise was set twice; what
was pushed is what the worker has taken, followed by the queue, with nothing behind a
terminating item; the CLR was asked for what the items taken so far are for, in that
order and each request once, up to the rest of the item in hand; and when no item is in
hand, the promise of each of them is answered with the number of its methods. -/
theorem profiler_carriesOut {calls : ι → Call}
    (h : (profiler found info12 calls).Reachable s) :
    s.shared.faulted = false ∧
      (∃ taken, s.shared.pushed = taken ++ s.shared.queue ∧
        s.shared.requests <+: taken.flatMap (RejitWorkItem.requests found info12) ∧
        (s.worker = none →
          s.shared.requests = taken.flatMap (RejitWorkItem.requests found info12) ∧
          ∀ item ∈ taken, ∀ i, item.promise = some i →
            s.shared.promises i = some (item.rejitCount found))) ∧
      ∀ before after, s.shared.pushed = before ++ .terminating :: after → after = [] := by
  obtain ⟨v, hv⟩ := (inductive_inv found info12 calls).reachable h
  have hrequests := hv.queued.requests
  refine ⟨hv.sound, ⟨v.carried, hv.queued.fifo, ⟨_, hrequests⟩, fun hworker => ⟨?_, ?_⟩⟩, ?_⟩
  · simpa [hworker] using hrequests
  · intro item hitem i hi
    have hanswered := hv.answered item hitem i hi
    simpa [hworker] using hanswered
  · intro before after hpushed
    obtain ⟨items, hitems, hfree⟩ := hv.queued.pushed
    have hlast : v.phase.pushedLast.length ≤ 1 := by
      cases v.phase <;> simp [Phase.pushedLast]
    have hsplit := hpushed.symm.trans hitems
    rcases List.append_eq_append_iff.mp hsplit with ⟨mid, rfl, htail⟩ | ⟨mid, rfl, htail⟩
    · cases mid with
      | nil =>
          simp only [List.nil_append] at htail
          rw [← htail] at hlast
          simpa using hlast
      | cons item mid =>
          simp only [List.cons_append, List.cons.injEq] at htail
          simp [← htail.1] at hfree
    · rw [htail] at hlast
      simp only [List.length_append, List.length_cons] at hlast
      exact List.length_eq_zero_iff.mp (by omega)

/-- The method of the module is requested once, and the call is told of it. -/
theorem profiler_carriesOut_registration :
    ∃ s, (profiler registrationFound true registration).Reachable s ∧
      s.shared.requests = [.requestReJIT .profilerInfo12 [7] [42]] ∧
      s.shared.promises 0 = some 1 ∧ s.shared.faulted = false := by
  let s : State (Fin 2) :=
    (System.exec (step (Action.code registrationFound)) (.initial true registration)
      registrationActs).get (by decide)
  have hrun : (profiler registrationFound true registration).Reachable s :=
    System.reachable_of_exec (l := registrationActs) rfl (by simp [s])
  exact ⟨s, hrun, by decide, by decide, (profiler_carriesOut hrun).1⟩

end AutoInstrumentation.RejitQueue
