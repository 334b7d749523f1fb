import AutoInstrumentation.RejitQueue.Sound

/-!
# AutoInstrumentation.RejitQueue.WorkerSound

The invariant of the work queue under the steps of the worker, and so under every step.

While the worker has something to do the handler is not shut down, so that every script
it follows makes its requests and sets its promise.
-/

namespace AutoInstrumentation.RejitQueue

open Lib

variable {ι : Type} [DecidableEq ι]
variable {found : Found} {info12 : Bool} {s : State ι} {v : View ι} {script rest : Script ι}

/-! ### An item that is carried out -/

/-- The worker goes on with another script. -/
def State.work (s : State ι) (rest : Script ι) (shared : Shared ι) : State ι :=
  { s with shared, worker := some rest }

omit [DecidableEq ι] in
@[simp] theorem State.work_shared (s : State ι) (rest : Script ι) (shared : Shared ι) :
    (s.work rest shared).shared = shared := rfl

/-- A worker with something to do has not ended. -/
theorem Inv.not_exited (h : Inv found info12 s v) (hworker : s.worker = some script) :
    s.shared.exited = false := by
  by_contra hexited
  have hnone := (h.queued.drained (by simpa using hexited)).2
  simp [hworker] at hnone

/-- Until the worker has ended the handler is in use. -/
theorem Inv.isRunning (h : Inv found info12 s v) (hexited : s.shared.exited = false) :
    v.phase.isRunning = true := by
  by_contra hended
  have htrue := h.queued.ended (by simpa using hended)
  simp [hexited] at htrue

theorem Inv.carries_script (h : Inv found info12 s v) (hworker : s.worker = some script) :
    script.Carries info12 v.owes v.locked := by
  have hcarries := h.carries
  rw [hworker] at hcarries
  exact hcarries

omit [DecidableEq ι] in
/-- The queue when the worker goes on without a request. -/
theorem Queued.work {shared : Shared ι} {worker : Option (Script ι)}
    (h : Queued found info12 shared worker v) (hexited : shared.exited = false)
    (next : Option (Script ι))
    (hremaining : (next.map (Script.remaining info12)).getD []
      = (worker.map (Script.remaining info12)).getD []) :
    Queued found info12 shared next v where
  ended := h.ended
  live := h.live
  drained := by simp [hexited]
  pending := h.pending
  pushed := h.pushed
  fifo := h.fifo
  requests := by
    rw [hremaining]
    exact h.requests

/-- The worker goes on to a script that still does the same. -/
theorem Inv.work (h : Inv found info12 s v) (hworker : s.worker = some script)
    (hrest : rest.Carries info12 v.owes v.locked)
    (hremaining : rest.remaining info12 = script.remaining info12)
    (hanswer : rest.answer info12 = script.answer info12) :
    Inv found info12 (s.work rest s.shared) v where
  safe := h.safe
  proper := h.proper
  carries := hrest
  locks := h.locks
  roles := h.roles
  queued := h.queued.work (h.not_exited hworker) (some rest)
    (by simp [hworker, hremaining])
  promised := h.promised
  answered := by
    intro item hitem j hj
    have hanswered := h.answered item hitem j hj
    rw [hworker] at hanswered
    simpa [State.work, hanswer] using hanswered
  sound := h.sound

theorem View.held_locked (v : View ι) (locked : Bool) :
    ({ v with locked } : View ι).held
      = Function.update v.held none (if locked then [.rejitModules] else []) := by
  funext o
  cases o with
  | none => rw [Function.update_self]; rfl
  | some j => rw [Function.update_of_ne (by simp)]; rfl

theorem Inv.workerLocks (h : Inv found info12 s v)
    (hworker : s.worker = some (.lock .rejitModules rest)) (hlocked : v.locked = false)
    (hfree : s.shared.locks .rejitModules = none) (hrest : rest.Carries info12 v.owes true) :
    Inv found info12 (s.work rest (s.shared.lock .rejitModules none))
      { v with locked := true } where
  safe := h.safe
  proper := h.proper
  carries := hrest
  locks := by
    rw [View.held_locked]
    have hacquire := h.locks.acquire (i := (none : Option ι)) hfree
    simpa [View.held, hlocked, Shared.lock] using hacquire
  roles := { h.roles with }
  queued := { h.queued.work (h.not_exited hworker) (some rest)
    (by simp [hworker, Script.remaining]) with }
  promised := { h.promised with }
  answered := by
    intro item hitem j hj
    have hanswered := h.answered item hitem j hj
    rw [hworker] at hanswered
    simpa [State.work, Shared.lock, Script.answer] using hanswered
  sound := h.sound

theorem Inv.workerUnlocks (h : Inv found info12 s v)
    (hworker : s.worker = some (.unlock .rejitModules rest)) (hlocked : v.locked = true)
    (hrest : rest.Carries info12 v.owes false) :
    Inv found info12 (s.work rest (s.shared.unlock .rejitModules))
      { v with locked := false } where
  safe := h.safe
  proper := h.proper
  carries := hrest
  locks := by
    rw [View.held_locked]
    exact h.locks.release (by simp [View.held, hlocked])
  roles := { h.roles with }
  queued := { h.queued.work (h.not_exited hworker) (some rest)
    (by simp [hworker, Script.remaining]) with }
  promised := { h.promised with }
  answered := by
    intro item hitem j hj
    have hanswered := h.answered item hitem j hj
    rw [hworker] at hanswered
    simpa [State.work, Shared.unlock, Script.answer] using hanswered
  sound := h.sound

/-- A request goes through a pointer that is not null. -/
theorem Inv.workerRequests (h : Inv found info12 s v) {r : Request}
    (hworker : s.worker = some (.request r rest))
    (hthrough : r.through = .profilerInfo12 → info12 = true)
    (hrest : rest.Carries info12 v.owes v.locked) :
    Inv found info12 (s.work rest (s.shared.request r)) v := by
  have hexited := h.not_exited hworker
  obtain ⟨-, hinfo, hinfo12⟩ := h.roles.running (h.isRunning hexited)
  have hhas : s.shared.has r.through = true := by
    cases hr : r.through with
    | profilerInfo => simpa [Shared.has] using hinfo
    | profilerInfo12 => simpa [Shared.has, hinfo12] using hthrough hr
  have hrequest : s.shared.request r = { s.shared with requests := s.shared.requests ++ [r] } := by
    simp [Shared.request, hhas]
  rw [hrequest]
  constructor
  case safe => exact h.safe
  case proper => exact h.proper
  case carries => exact hrest
  case locks => exact h.locks
  case roles => exact { h.roles with }
  case queued =>
      have hrequests := h.queued.requests
      constructor
      case ended => exact h.queued.ended
      case live => exact h.queued.live
      case drained => simp [State.work, hexited]
      case pending => exact h.queued.pending
      case pushed => exact h.queued.pushed
      case fifo => exact h.queued.fifo
      case requests =>
          rw [hworker] at hrequests
          simpa [State.work, Script.remaining] using hrequests
  case promised => exact { h.promised with }
  case answered =>
      intro item hitem j hj
      have hanswered := h.answered item hitem j hj
      rw [hworker] at hanswered
      simpa [State.work, Script.answer] using hanswered
  case sound => exact h.sound

/-- The promise that is set is not set yet. -/
theorem Inv.workerSets (h : Inv found info12 s v) {p : ι} {value : ℕ}
    (hworker : s.worker = some (.setValue p value rest)) (howes : v.owes = some p)
    (hrest : rest.Carries info12 none v.locked)
    (hremaining : rest.remaining info12
      = (Script.setValue p value rest).remaining info12) :
    Inv found info12 (s.work rest (s.shared.setValue p value)) { v with owes := none } := by
  have howed : v.owed s.shared.queue
      = p :: s.shared.queue.filterMap RejitWorkItem.promise := by
    simp [View.owed, howes]
  obtain ⟨hhanded, hnone⟩ := h.promised.owed p (by simp [howed])
  have hset : s.shared.setValue p value =
      { s.shared with promises := Function.update s.shared.promises p (some value) } := by
    simp [Shared.setValue, hnone]
  have honce := h.promised.once
  rw [howed, List.nodup_cons] at honce
  have howed' : ({ v with owes := none } : View ι).owed s.shared.queue
      = s.shared.queue.filterMap RejitWorkItem.promise := by
    simp [View.owed]
  rw [hset]
  constructor
  case safe => exact h.safe
  case proper => exact h.proper
  case carries => exact hrest
  case locks => exact h.locks
  case roles => exact { h.roles with }
  case queued =>
      have hqueued := h.queued.work (h.not_exited hworker) (some rest)
        (by simp [hworker, hremaining])
      exact { hqueued with }
  case promised =>
      constructor
      case once =>
          show (({ v with owes := none } : View ι).owed s.shared.queue).Nodup
          rw [howed']
          exact honce.2
      case owed =>
          intro j hj
          replace hj : j ∈ s.shared.queue.filterMap RejitWorkItem.promise := howed' ▸ hj
          have hjp : j ≠ p := fun heq => honce.1 (heq ▸ hj)
          have hold := h.promised.owed j (by rw [howed]; exact List.mem_cons_of_mem p hj)
          simpa [State.work, hjp] using hold
      case handed =>
          intro j hj
          show j ∈ ({ v with owes := none } : View ι).owed s.shared.queue ∨ _
          rw [howed']
          by_cases hjp : j = p
          · subst hjp
            exact Or.inr (by simp [State.work])
          · have hold := h.promised.handed j hj
            rw [howed] at hold
            simpa [State.work, hjp] using hold
      case kept =>
          intro j hj
          have hjp : j ≠ p := by
            intro heq
            rw [heq, hhanded] at hj
            cases hj
          simpa [State.work, hjp] using h.promised.kept j hj
  case answered =>
      intro item hitem j hj
      have hanswered := h.answered item hitem j hj
      rw [hworker, howes] at hanswered
      by_cases hjp : j = p
      · subst hjp
        simpa [State.work, hnone, Script.answer] using hanswered
      · have hpj : p ≠ j := fun heq => hjp heq.symm
        simpa [State.work, hjp, hpj] using hanswered
  case sound => exact h.sound

/-- An item is done. -/
theorem Inv.workerEnds (h : Inv found info12 s v) (hworker : s.worker = some .ret)
    (howes : v.owes = none) (hlocked : v.locked = false) :
    Inv found info12 { s with worker := none } v where
  safe := h.safe
  proper := h.proper
  carries := ⟨howes, hlocked⟩
  locks := h.locks
  roles := h.roles
  queued := h.queued.work (h.not_exited hworker) none (by simp [hworker, Script.remaining])
  promised := h.promised
  answered := by
    intro item hitem j hj
    have hanswered := h.answered item hitem j hj
    simpa [howes] using hanswered
  sound := h.sound

/-! ### The next item -/

/-- The terminating item is the last one. -/
theorem Inv.takes_last (h : Inv found info12 s v) (hexited : s.shared.exited = false)
    {queue : List (RejitWorkItem ι)} (hqueue : s.shared.queue = .terminating :: queue) :
    queue = [] ∧ v.phase ≠ .live := by
  obtain ⟨items, hitems, hfree⟩ := h.queued.pending hexited
  rw [hqueue] at hitems
  cases items with
  | cons item items =>
      simp only [List.cons_append, List.cons.injEq] at hitems
      simp [← hitems.1] at hfree
  | nil =>
      cases hphase : v.phase <;> simp [hphase, Phase.pushedLast] at hitems ⊢ <;> exact hitems

theorem Inv.takesTerminating (h : Inv found info12 s v) (hworker : s.worker = none)
    (hexited : s.shared.exited = false) {queue : List (RejitWorkItem ι)}
    (hqueue : s.shared.queue = .terminating :: queue) :
    Inv found info12 { s with shared := { s.shared with queue, exited := true } }
      { v with carried := v.carried ++ [.terminating] } := by
  obtain ⟨rfl, hphase⟩ := h.takes_last hexited hqueue
  have howed : v.owed s.shared.queue = v.owed [] := by
    simp [View.owed, hqueue, RejitWorkItem.promise]
  constructor
  case safe => exact h.safe
  case proper => exact h.proper
  case carries => exact h.carries
  case locks => exact h.locks
  case roles => exact { h.roles with }
  case queued =>
      constructor
      case ended => exact fun _ => rfl
      case live => exact fun hlive => absurd hlive hphase
      case drained => exact fun _ => ⟨rfl, hworker⟩
      case pending => simp
      case pushed => exact h.queued.pushed
      case fifo => simp [h.queued.fifo, hqueue]
      case requests =>
          have hrequests := h.queued.requests
          rw [hworker] at hrequests
          simpa [hworker, RejitWorkItem.requests] using hrequests
  case promised =>
      constructor
      case once => exact howed ▸ h.promised.once
      case owed => exact fun j hj => h.promised.owed j (howed ▸ hj)
      case handed =>
          intro j hj
          show j ∈ v.owed [] ∨ _
          exact howed ▸ h.promised.handed j hj
      case kept => exact h.promised.kept
  case answered =>
      intro item hitem j hj
      rcases List.mem_append.mp hitem with hold | hnew
      · exact h.answered item hold j hj
      · rw [List.mem_singleton.mp hnew] at hj
        cases hj
  case sound => exact h.sound

theorem Inv.takesAction (h : Inv found info12 s v) (hworker : s.worker = none)
    (hexited : s.shared.exited = false) {queue : List (RejitWorkItem ι)} {action : Action ι}
    (hqueue : s.shared.queue = .func action :: queue) :
    Inv found info12
      { s with shared := { s.shared with queue }, worker := some (action.code found) }
      { v with
        owes := (RejitWorkItem.func action).promise
        carried := v.carried ++ [.func action] } := by
  have hcarries := h.carries
  rw [hworker] at hcarries
  obtain ⟨howes, hlocked⟩ := hcarries
  have howed : v.owed s.shared.queue
      = ({ v with owes := (RejitWorkItem.func action).promise } : View ι).owed queue := by
    cases hpromise : (RejitWorkItem.func action).promise <;>
      simp [View.owed, howes, hqueue, hpromise]
  constructor
  case safe => exact h.safe
  case proper => exact h.proper
  case carries =>
      show (action.code found).Carries info12 (RejitWorkItem.func action).promise v.locked
      rw [hlocked]
      exact Script.carries_code found info12 action
  case locks => exact h.locks
  case roles => exact { h.roles with }
  case queued =>
      constructor
      case ended => exact h.queued.ended
      case live => exact h.queued.live
      case drained => simp [hexited]
      case pending =>
          intro _
          obtain ⟨items, hitems, hfree⟩ := h.queued.pending hexited
          rw [hqueue] at hitems
          cases items with
          | nil => cases hphase : v.phase <;> simp [hphase, Phase.pushedLast] at hitems
          | cons item items =>
              simp only [List.cons_append, List.cons.injEq] at hitems
              exact ⟨items, hitems.2, fun hmem => hfree (List.mem_cons_of_mem item hmem)⟩
      case pushed => exact h.queued.pushed
      case fifo => simp [h.queued.fifo, hqueue]
      case requests =>
          have hrequests := h.queued.requests
          rw [hworker] at hrequests
          simp only [Option.map_none, Option.getD_none, List.append_nil] at hrequests
          simp [hrequests, Script.remaining_code]
  case promised =>
      constructor
      case once => exact howed ▸ h.promised.once
      case owed => exact fun j hj => h.promised.owed j (howed ▸ hj)
      case handed => exact fun j hj => howed ▸ h.promised.handed j hj
      case kept => exact h.promised.kept
  case answered =>
      intro item hitem j hj
      rcases List.mem_append.mp hitem with hold | hnew
      · have hanswered := h.answered item hold j hj
        rw [howes] at hanswered
        simp only [reduceCtorEq, false_and, or_false] at hanswered
        exact Or.inl hanswered
      · rw [List.mem_singleton.mp hnew] at hj ⊢
        refine Or.inr ⟨hj, ?_⟩
        simp [Script.answer_code, hj]
  case sound => exact h.sound

/-! ### Every step -/

/-- A step of a thread keeps the invariant. -/
theorem Inv.threadStep (h : Inv found info12 s v) {i : ι} {grants : Bool} {p : Shared ι × Script ι}
    (hstep : (s.threads i).step (some i) grants s.shared = some p) :
    ∃ v', Inv found info12 (s.follow i p.2 p.1) v' := by
  have hsafe := h.safe i
  cases hscript : s.threads i with
  | ret => simp [hscript, Script.step] at hstep
  | lock l rest =>
      simp only [hscript, Script.step, Option.ite_none_right_eq_some, Option.some.injEq] at hstep
      obtain ⟨hfree, rfl⟩ := hstep
      rw [hscript] at hsafe
      exact ⟨_, h.lock hfree hsafe.1 hsafe.2⟩
  | tryLock l rest refused =>
      rw [hscript] at hsafe
      cases grants with
      | false =>
          simp only [hscript, Script.step, Bool.not_false, if_true, Option.some.injEq] at hstep
          subst hstep
          exact ⟨v, h.follow hsafe.2.2⟩
      | true =>
          simp only [hscript, Script.step, Bool.not_true, Bool.false_eq_true, if_false,
            Option.ite_none_right_eq_some, Option.some.injEq] at hstep
          obtain ⟨hfree, rfl⟩ := hstep
          exact ⟨_, h.lock hfree hsafe.1 hsafe.2.1⟩
  | unlock l rest =>
      simp only [hscript, Script.step, Option.some.injEq] at hstep
      subst hstep
      rw [hscript] at hsafe
      exact ⟨_, h.unlock hsafe.1 hsafe.2.1 hsafe.2.2⟩
  | ifAttached yes no =>
      simp only [hscript, Script.step, Option.some.injEq] at hstep
      subst hstep
      rw [hscript] at hsafe
      refine ⟨v, h.follow ?_⟩
      cases s.shared.isAttached with
      | true => exact hsafe.1
      | false => exact hsafe.2
  | detach rest =>
      simp only [hscript, Script.step, Option.some.injEq] at hstep
      subst hstep
      rw [hscript] at hsafe
      exact ⟨v, h.detach hsafe⟩
  | ifHandler yes no =>
      simp only [hscript, Script.step, Option.some.injEq] at hstep
      subst hstep
      rw [hscript] at hsafe
      cases hhandler : s.shared.rejitHandler with
      | true => exact ⟨_, h.findHandler hhandler hsafe.1⟩
      | false => exact ⟨v, h.follow hsafe.2⟩
  | ifShutdownRequested yes no =>
      simp only [hscript, Script.step, Option.ite_none_right_eq_some, Option.some.injEq] at hstep
      obtain ⟨-, rfl⟩ := hstep
      rw [hscript] at hsafe
      refine ⟨v, h.follow ?_⟩
      cases s.shared.shutdown with
      | true => exact hsafe.2.2.1
      | false => exact hsafe.2.2.2
  | ifProfilerInfo yes no =>
      simp only [hscript, Script.step, Option.some.injEq] at hstep
      subst hstep
      rw [hscript] at hsafe
      refine ⟨v, h.follow ?_⟩
      cases s.shared.profilerInfo with
      | true => exact hsafe.1
      | false => exact hsafe.2
  | ifProfilerInfo12 yes no =>
      rw [hscript] at hsafe
      exact hsafe.elim
  | useProfilerInfo rest =>
      rw [hscript] at hsafe
      exact hsafe.elim
  | request r rest =>
      rw [hscript] at hsafe
      exact hsafe.elim
  | setValue promise value rest =>
      simp only [hscript, Script.step, Option.some.injEq] at hstep
      subst hstep
      rw [hscript] at hsafe
      obtain ⟨rfl, hnew, hrest⟩ := hsafe
      exact ⟨_, h.setValue hnew value hrest⟩
  | push item rest =>
      simp only [hscript, Script.step, Option.some.injEq] at hstep
      subst hstep
      rw [hscript] at hsafe
      obtain ⟨⟨hmodules, hhandler, hstage⟩, hpushed, hrest⟩ := hsafe
      have hlive := h.phase_live hmodules hhandler hstage
      cases item with
      | terminating => exact ⟨_, h.terminate hlive hpushed.2 hmodules hrest⟩
      | func action =>
          cases hpromise : (RejitWorkItem.func action).promise with
          | none =>
              simp only [RejitWorkItem.pushedBy, hpromise] at hrest
              exact ⟨v, h.push_none hlive (by simp) hpromise hrest⟩
          | some p =>
              simp only [RejitWorkItem.pushedBy, hpromise] at hpushed hrest
              obtain ⟨rfl, hnew⟩ := hpushed
              exact ⟨_, h.push_some hlive (by simp) hpromise hnew hrest⟩
  | await promise rest =>
      simp only [hscript, Script.step, Option.ite_none_left_eq_some, Option.some.injEq] at hstep
      obtain ⟨-, rfl⟩ := hstep
      rw [hscript] at hsafe
      exact ⟨v, h.follow hsafe.2.2.2⟩
  | awaitFor promise rest =>
      simp only [hscript, Script.step, Option.some.injEq] at hstep
      subst hstep
      rw [hscript] at hsafe
      exact ⟨v, h.follow hsafe.2.2⟩
  | join rest =>
      simp only [hscript, Script.step, Option.ite_none_right_eq_some, Option.some.injEq] at hstep
      obtain ⟨hexited, rfl⟩ := hstep
      rw [hscript] at hsafe
      exact ⟨_, h.join hsafe.1 hexited hsafe.2.2⟩
  | setShutdown rest =>
      simp only [hscript, Script.step, Option.some.injEq] at hstep
      subst hstep
      rw [hscript] at hsafe
      exact ⟨v, h.afterJoin hsafe.1 true s.shared.profilerInfo s.shared.profilerInfo12 hsafe.2⟩
  | clearInterfaces rest =>
      simp only [hscript, Script.step, Option.some.injEq] at hstep
      subst hstep
      rw [hscript] at hsafe
      exact ⟨v, h.afterJoin hsafe.1 s.shared.shutdown false false hsafe.2⟩
  | clearHandler rest =>
      simp only [hscript, Script.step, Option.some.injEq] at hstep
      subst hstep
      rw [hscript] at hsafe
      exact ⟨_, h.clearHandler hsafe.1 hsafe.2.1 hsafe.2.2⟩

/-- A step of the worker inside an item keeps the invariant. -/
theorem Inv.workerStep (h : Inv found info12 s v) (hworker : s.worker = some script)
    {p : Shared ι × Script ι} (hstep : script.step none true s.shared = some p) :
    ∃ v', Inv found info12 (s.work p.2 p.1) v' := by
  have hcarries := h.carries_script hworker
  obtain ⟨hshutdown, hinfo, hinfo12⟩ :=
    h.roles.running (h.isRunning (h.not_exited hworker))
  cases script with
  | lock l rest =>
      simp only [Script.step, Option.ite_none_right_eq_some, Option.some.injEq] at hstep
      obtain ⟨hfree, rfl⟩ := hstep
      obtain ⟨rfl, hlocked, hrest⟩ := hcarries
      exact ⟨_, h.workerLocks hworker hlocked hfree hrest⟩
  | unlock l rest =>
      simp only [Script.step, Option.some.injEq] at hstep
      subst hstep
      obtain ⟨rfl, hlocked, hrest⟩ := hcarries
      exact ⟨_, h.workerUnlocks hworker hlocked hrest⟩
  | ifShutdownRequested yes no =>
      simp only [Script.step, hshutdown, Bool.false_eq_true, if_false,
        Option.ite_none_right_eq_some, Option.some.injEq] at hstep
      obtain ⟨-, rfl⟩ := hstep
      obtain ⟨hlocked, -, hno⟩ := hcarries
      exact ⟨v, h.work hworker (hlocked ▸ hno) rfl rfl⟩
  | ifProfilerInfo12 yes no =>
      simp only [Script.step, hinfo12, Option.some.injEq] at hstep
      subst hstep
      obtain ⟨hlocked, hyes, hno⟩ := hcarries
      cases hcase : info12 with
      | true =>
          subst hcase
          exact ⟨v, h.work hworker (by rw [hlocked]; exact hyes rfl) rfl rfl⟩
      | false =>
          subst hcase
          exact ⟨v, h.work hworker (by rw [hlocked]; exact hno rfl) rfl rfl⟩
  | useProfilerInfo rest =>
      simp only [Script.step, hinfo, if_true, Option.some.injEq] at hstep
      subst hstep
      obtain ⟨hlocked, hrest⟩ := hcarries
      exact ⟨v, h.work hworker (hlocked ▸ hrest) rfl rfl⟩
  | request r rest =>
      simp only [Script.step, Option.some.injEq] at hstep
      subst hstep
      obtain ⟨hlocked, hthrough, hrest⟩ := hcarries
      exact ⟨v, h.workerRequests hworker hthrough (hlocked ▸ hrest)⟩
  | setValue promise value rest =>
      simp only [Script.step, Option.some.injEq] at hstep
      subst hstep
      obtain ⟨howes, hlocked, hrest⟩ := hcarries
      exact ⟨_, h.workerSets hworker howes (hlocked ▸ hrest) rfl⟩
  | ret => simp [Script.step] at hstep
  | _ => exact hcarries.elim

/-- Inside an item the worker makes the steps of its script. -/
theorem step_worker (hworker : s.worker = some script) (hret : script ≠ .ret) :
    RejitQueue.step (Action.code found) s .worker
      = (script.step none true s.shared).map fun p => s.work p.2 p.1 := by
  simp only [RejitQueue.step, hworker]
  cases script with
  | ret => exact absurd rfl hret
  | _ => rfl

/-- **Every step keeps the invariant.** -/
theorem Inv.step (h : Inv found info12 s v) {a : Act ι} {t : State ι}
    (hstep : RejitQueue.step (Action.code found) s a = some t) :
    ∃ v', Inv found info12 t v' := by
  cases a with
  | thread i grants =>
      obtain ⟨p, hp, rfl⟩ := Option.map_eq_some_iff.mp hstep
      exact h.threadStep hp
  | pop =>
      simp only [RejitQueue.step] at hstep
      split at hstep
      case isTrue => cases hstep
      case isFalse hidle =>
          simp only [Bool.or_eq_true, not_or, Bool.not_eq_true, Option.isSome_eq_false_iff,
            Option.isNone_iff_eq_none] at hidle
          obtain ⟨hworker, hexited⟩ := hidle
          cases hqueue : s.shared.queue with
          | nil => simp [hqueue] at hstep
          | cons item queue =>
              simp only [hqueue, Option.some.injEq] at hstep
              subst hstep
              cases item with
              | terminating => exact ⟨_, h.takesTerminating hworker hexited hqueue⟩
              | func action => exact ⟨_, h.takesAction hworker hexited hqueue⟩
  | worker =>
      cases hworker : s.worker with
      | none => simp [RejitQueue.step, hworker] at hstep
      | some script =>
          have hcarries := h.carries_script hworker
          by_cases hret : script = .ret
          · subst hret
            simp only [RejitQueue.step, hworker, Option.some.injEq] at hstep
            subst hstep
            exact ⟨v, h.workerEnds hworker hcarries.1 hcarries.2⟩
          · have hrun := (step_worker hworker hret).symm.trans hstep
            obtain ⟨p, hp, rfl⟩ := Option.map_eq_some_iff.mp hrun
            exact h.workerStep hworker hp

/-- Every state has a view that satisfies the invariant. -/
theorem inductive_inv (found : Found) (info12 : Bool) (calls : ι → Call) :
    (profiler found info12 calls).Inductive fun s => ∃ v, Inv found info12 s v where
  init s hs := by
    obtain rfl : s = State.initial info12 calls := hs
    exact ⟨_, Inv.initial found info12 calls⟩
  step s a t hs hst := by
    obtain ⟨v, hv⟩ := hs
    exact hv.step hst

end AutoInstrumentation.RejitQueue
