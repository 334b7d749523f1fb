import AutoInstrumentation.OpAmp.Manager

/-!
# AutoInstrumentation.OpAmp.ManagerSound

The order of the callbacks and of the client calls of one manager.
-/

namespace AutoInstrumentation.OpAmp

/-! ### The order of events -/

/-- No `a` comes after a `b`. The last event comes first. -/
def NeverAfter {ε : Type} (a b : ε) (log : List ε) : Prop :=
  ∀ newer older, log = newer ++ a :: older → b ∉ older

theorem NeverAfter.cons {ε : Type} {a b e : ε} {log : List ε} (h : NeverAfter a b log)
    (he : e = a → b ∉ log) : NeverAfter a b (e :: log) := by
  intro newer older heq
  cases newer with
  | nil =>
      obtain ⟨rfl, rfl⟩ := List.cons.inj heq
      exact he rfl
  | cons e' newer =>
      obtain ⟨-, rfl⟩ := List.cons.inj heq
      exact h newer older rfl

/-! ### What a step does -/

section disposalEnded

variable (m : Manager) (thrown : Bool) (disposer : Disposer)

@[simp] theorem disposalEnded_startupTask :
    (m.disposalEnded thrown disposer).startupTask = m.startupTask := by
  cases disposer <;> rfl

@[simp] theorem disposalEnded_shutdownStarted :
    (m.disposalEnded thrown disposer).shutdownStarted = m.shutdownStarted := by
  cases disposer <;> rfl

@[simp] theorem disposalEnded_clientDisposed :
    (m.disposalEnded thrown disposer).clientDisposed = m.clientDisposed := by
  cases disposer <;> rfl

@[simp] theorem disposalEnded_beforeStopCallbackInvoked :
    (m.disposalEnded thrown disposer).beforeStopCallbackInvoked
      = m.beforeStopCallbackInvoked := by
  cases disposer <;> rfl

@[simp] theorem disposalEnded_lock : (m.disposalEnded thrown disposer).lock = m.lock := by
  cases disposer <;> rfl

@[simp] theorem disposalEnded_tasks : (m.disposalEnded thrown disposer).tasks = m.tasks := by
  cases disposer <;> rfl

@[simp] theorem disposalEnded_log : (m.disposalEnded thrown disposer).log = m.log := by
  cases disposer <;> rfl

end disposalEnded

/-- The task holds `_pluginLifecycleLock`. -/
def Point.holds : Point → Bool
  | .readShutdown | .callAfter | .afterCallback | .testBefore _ | .callBefore _
  | .beforeCallback _ => true
  | _ => false

/-- The points of the startup task. -/
def Point.ofStartup : Point → Bool
  | .startCore | .starting | .activate | .readShutdown | .callAfter | .afterCallback => true
  | _ => false

/-- The points at which `_shutdownStarted` is known to be set. -/
def Point.ofShutdown : Point → Bool
  | .stopReporter | .look | .lockBefore _ | .testBefore _ | .callBefore _ => true
  | _ => false

def Point.isCallBefore : Point → Bool
  | .callBefore _ => true
  | _ => false

def Point.isDisposeProxy : Point → Bool
  | .disposeProxy _ => true
  | _ => false

variable {plugin : Bool} {m m' : Manager} {j : ℕ} {ok : Bool} {p p' : Point} {spawned : List Point}

/-- The event that a step logs. -/
inductive Emits (m : Manager) : Point → ManagerEvent → Prop
  | startAsync : Emits m .startCore .startAsync
  | after : Emits m .callAfter .after
  | looked : Emits m .look (.looked m.startupTask)
  | before {found : Bool} : Emits m (.callBefore found) .before
  | disposed {disposer : Disposer} : Emits m (.disposeProxy disposer) .disposed

/-- What a step of the task `j` does. -/
structure Effect (m : Manager) (j : ℕ) (p : Point) (m' : Manager) (p' : Point)
    (spawned : List Point) : Prop where
  tasks : m'.tasks = m.tasks
  startupTask : m'.startupTask = m.startupTask
  shutdownStarted : m.shutdownStarted = true → m'.shutdownStarted = true
  /-- `_pluginLifecycleLock` is left, taken, or given back. -/
  lock : (m'.lock = m.lock ∧ p'.holds = p.holds)
    ∨ (m.lock = none ∧ m'.lock = some j ∧ p.holds = false ∧ p'.holds = true)
    ∨ (m'.lock = none ∧ p.holds = true ∧ p'.holds = false)
  log : m'.log = m.log ∨ ∃ e, m'.log = e :: m.log ∧ Emits m p e
  /-- `BeforeOpAmpClientStopped` is called once its flag was raised. -/
  before : m'.log.count .before + p'.isCallBefore.toNat + m.beforeStopCallbackInvoked.toNat
    ≤ m.log.count .before + p.isCallBefore.toNat + m'.beforeStopCallbackInvoked.toNat
  /-- The proxy is disposed once its flag was raised. -/
  disposed : m'.log.count .disposed + p'.isDisposeProxy.toNat + m.clientDisposed.toNat
    ≤ m.log.count .disposed + p.isDisposeProxy.toNat + m'.clientDisposed.toNat
  startup : p'.ofStartup = true → p.ofStartup = true
  shutdown : p'.ofShutdown = true → p.ofShutdown = true ∨ m'.shutdownStarted = true
  callAfter : p' = .callAfter → m.shutdownStarted = false
  stopClient : p = .stopClient → m'.shutdownStarted = true
  /-- The startup task starts no shutdown and no task. -/
  startupTaskOnly : p.ofStartup = true ∨ p = .done →
    m'.shutdownStarted = m.shutdownStarted ∧ (p'.ofStartup = true ∨ p' = .done) ∧ spawned = []
  spawned : ∀ q ∈ spawned, q.holds = false ∧ q.ofStartup = false ∧ q.isCallBefore = false
    ∧ q.isDisposeProxy = false ∧ (q.ofShutdown = true → p.ofShutdown = true)

theorem next_effect (h : m.next plugin j ok p = some (m', p', spawned)) :
    Effect m j p m' p' spawned := by
  fun_cases Manager.next plugin m j ok p
  all_goals
    simp only [Manager.next, *, if_true, if_false, reduceCtorEq, Option.some.injEq, Prod.mk.injEq,
      Bool.false_eq_true] at h
  all_goals obtain ⟨rfl, rfl, rfl⟩ := h
  -- the point behind it depends on what was found
  all_goals try split
  all_goals constructor
  all_goals
    simp +arith [Point.holds, Point.ofStartup, Point.ofShutdown, Point.isCallBefore,
      Point.isDisposeProxy, Emits.startAsync, Emits.after, Emits.looked, Emits.before,
      Emits.disposed, *]

theorem exists_of_step (h : m.step plugin j ok = some m') :
    ∃ p m₁ p' spawned, m.tasks[j]? = some p ∧ Effect m j p m₁ p' spawned
      ∧ m' = { m₁ with tasks := m.tasks.set j p' ++ spawned } := by
  simp only [Manager.step, Option.bind_eq_bind, Option.bind_eq_some_iff, Option.pure_def,
    Option.some.injEq] at h
  obtain ⟨p, hp, ⟨m₁, p', spawned⟩, hnext, rfl⟩ := h
  have heffect := next_effect hnext
  exact ⟨p, m₁, p', spawned, hp, heffect, by simp only [heffect.tasks]⟩

/-! ### The tasks behind a step -/

section Tasks

variable {tasks : List Point} {q : Point}

theorem mem_of_mem_set_append (h : q ∈ tasks.set j p' ++ spawned) :
    q ∈ tasks ∨ q = p' ∨ q ∈ spawned := by
  rcases List.mem_append.1 h with h | h
  · rcases List.mem_or_eq_of_mem_set h with h | h
    · exact .inl h
    · exact .inr (.inl h)
  · exact .inr (.inr h)

theorem mem_set_append_of_mem (hp : tasks[j]? = some p) (h : q ∈ tasks) :
    q ∈ tasks.set j p' ++ spawned ∨ q = p := by
  obtain ⟨k, hk⟩ := List.mem_iff_getElem?.1 h
  by_cases hkj : k = j
  · subst hkj
    exact .inr (Option.some.inj (hk.symm.trans hp))
  · have hkept : (tasks.set j p')[k]? = some q := by rw [List.getElem?_set_ne (Ne.symm hkj), hk]
    exact .inl (List.mem_append_left _ (List.mem_of_getElem? hkept))

theorem countP_set_append {f : Point → Bool} (hp : tasks[j]? = some p)
    (hspawned : ∀ q ∈ spawned, f q = false) :
    (tasks.set j p' ++ spawned).countP f + (f p).toNat = tasks.countP f + (f p').toNat := by
  obtain ⟨hj, rfl⟩ := List.getElem?_eq_some_iff.1 hp
  have hzero : spawned.countP f = 0 := List.countP_eq_zero.2 (by simpa using hspawned)
  have hpos : (f tasks[j]).toNat ≤ tasks.countP f := by
    cases hf : f tasks[j]
    · exact Nat.zero_le _
    · exact List.countP_pos_iff.2 ⟨_, List.getElem_mem hj, hf⟩
  rw [List.countP_append, List.countP_set hj, hzero]
  generalize f tasks[j] = held at hpos ⊢
  cases held <;> cases f p'
  all_goals
    simp only [Bool.toNat_true, Bool.toNat_false, if_true, Bool.false_eq_true, if_false] at hpos ⊢
    omega

end Tasks

/-! ### The lock -/

/-- The task that holds `_pluginLifecycleLock` is the one that the lock names. -/
structure LockHeld (m : Manager) : Prop where
  holds : ∀ k p, m.tasks[k]? = some p → (p.holds = true ↔ m.lock = some k)
  lt : ∀ k, m.lock = some k → k < m.tasks.length

theorem LockHeld.of_step (hm : LockHeld m) (h : m.step plugin j ok = some m') : LockHeld m' := by
  obtain ⟨p, m₁, p', spawned, hp, heffect, rfl⟩ := exists_of_step h
  obtain ⟨hj, hpj⟩ := List.getElem?_eq_some_iff.1 hp
  have hheld := hm.holds j p hp
  have hlt : ∀ k, m₁.lock = some k → k < m.tasks.length := by
    intro k hk
    rcases heffect.lock with ⟨hl, -⟩ | ⟨-, hl, -⟩ | ⟨hl, -⟩
    · exact hm.lt k (hl ▸ hk)
    · obtain rfl : j = k := by simpa [hl] using hk
      exact hj
    · simp [hl] at hk
  constructor
  · intro k q hq
    rcases Nat.lt_or_ge k m.tasks.length with hk | hk
    · rw [List.getElem?_append_left (by simpa using hk), List.getElem?_set] at hq
      split at hq
      case isTrue heq =>
        subst heq
        obtain rfl : p' = q := by simpa [hj] using hq
        rcases heffect.lock with ⟨hl, hp'⟩ | ⟨-, hl, -, hp'⟩ | ⟨hl, -, hp'⟩
        · rw [hp', hl, hheld]
        · simp [hp', hl]
        · simp [hp', hl]
      case isFalse hne =>
        have hother := hm.holds k q hq
        rcases heffect.lock with ⟨hl, -⟩ | ⟨hnone, hl, -⟩ | ⟨hl, hphold, -⟩
        · rw [hl, hother]
        · simp [hother, hl, hnone, hne]
        · simp [hother, hl, hheld.1 hphold, hne]
    · rw [List.getElem?_append_right (by simpa using hk)] at hq
      have hfree := (heffect.spawned q (List.mem_of_getElem? hq)).1
      constructor
      · simp [hfree]
      · intro hl
        exact absurd (hlt k hl) (by omega)
  · intro k hk
    have := hlt k hk
    simp only [List.length_append, List.length_set]
    omega

/-! ### The order of the calls -/

/-- The events that only happen once `_shutdownStarted` is set. -/
def ManagerEvent.ofShutdown : ManagerEvent → Bool
  | .looked _ | .before => true
  | _ => false

/-- The events that only happen once there is a startup task. -/
def ManagerEvent.ofStartup : ManagerEvent → Bool
  | .created | .startAsync => true
  | _ => false

/-- What every step keeps of a manager. -/
structure Orderly (m : Manager) : Prop where
  lockHeld : LockHeld m
  shutdownTasks : ∀ p ∈ m.tasks, p.ofShutdown = true → m.shutdownStarted = true
  shutdownLog : ∀ e ∈ m.log, e.ofShutdown = true → m.shutdownStarted = true
  startupTasks : ∀ p ∈ m.tasks, p.ofStartup = true → m.startupTask = true
  before : m.log.count .before + m.tasks.countP Point.isCallBefore
    ≤ m.beforeStopCallbackInvoked.toNat
  disposed : m.log.count .disposed + m.tasks.countP Point.isDisposeProxy ≤ m.clientDisposed.toNat
  callAfter : .callAfter ∈ m.tasks → .before ∉ m.log
  looked : .looked false ∈ m.log → m.startupTask = false
  startupLog : ∀ e ∈ m.log, e.ofStartup = true → m.startupTask = true
  after_before : NeverAfter .after .before m.log
  startAsync_looked : NeverAfter .startAsync (.looked false) m.log
  created_looked : ∀ found, NeverAfter .created (.looked found) m.log

theorem Emits.shutdown {e : ManagerEvent} (h : Emits m p e) (he : e.ofShutdown = true) :
    p.ofShutdown = true := by
  cases h with
  | looked => rfl
  | before => rfl
  | _ => cases he

theorem Emits.startup {e : ManagerEvent} (h : Emits m p e) (he : e.ofStartup = true) :
    p.ofStartup = true := by
  cases h with
  | startAsync => rfl
  | _ => cases he

theorem Orderly.of_step (hm : Orderly m) (h : m.step plugin j ok = some m') : Orderly m' := by
  have hlockHeld := hm.lockHeld.of_step h
  obtain ⟨p, m₁, p', spawned, hp, heffect, rfl⟩ := exists_of_step h
  have hmem : p ∈ m.tasks := List.mem_of_getElem? hp
  -- what the event of the step needs is what the task has reached
  have hlog : ∀ e ∈ m₁.log, e ∈ m.log ∨ Emits m p e := by
    intro e he
    rcases heffect.log with hl | ⟨e', hl, hemits⟩
    · exact .inl (hl ▸ he)
    · rcases List.mem_cons.1 (hl ▸ he) with rfl | he
      · exact .inr hemits
      · exact .inl he
  have norder : ∀ {a b}, NeverAfter a b m.log → (Emits m p a → b ∉ m.log) →
      NeverAfter a b m₁.log := by
    intro a b hab hemits
    rcases heffect.log with hl | ⟨e, hl, he⟩
    · rwa [hl]
    · rw [hl]
      exact hab.cons (by rintro rfl; exact hemits he)
  constructor
  case lockHeld => exact hlockHeld
  case shutdownTasks =>
    intro q hq hsh
    rcases mem_of_mem_set_append hq with hq | rfl | hq
    · exact heffect.shutdownStarted (hm.shutdownTasks q hq hsh)
    · rcases heffect.shutdown hsh with hsh | hsh
      · exact heffect.shutdownStarted (hm.shutdownTasks p hmem hsh)
      · exact hsh
    · exact heffect.shutdownStarted
        (hm.shutdownTasks p hmem ((heffect.spawned q hq).2.2.2.2 hsh))
  case shutdownLog =>
    intro e he hsh
    rcases hlog e he with he | hemits
    · exact heffect.shutdownStarted (hm.shutdownLog e he hsh)
    · exact heffect.shutdownStarted (hm.shutdownTasks p hmem (hemits.shutdown hsh))
  case startupTasks =>
    intro q hq hst
    show m₁.startupTask = true
    rw [heffect.startupTask]
    rcases mem_of_mem_set_append hq with hq | rfl | hq
    · exact hm.startupTasks q hq hst
    · exact hm.startupTasks p hmem (heffect.startup hst)
    · simp [(heffect.spawned q hq).2.1] at hst
  case before =>
    have htasks : (m.tasks.set j p' ++ spawned).countP Point.isCallBefore + p.isCallBefore.toNat
        = m.tasks.countP Point.isCallBefore + p'.isCallBefore.toNat :=
      countP_set_append hp fun q hq => (heffect.spawned q hq).2.2.1
    have hlog := heffect.before
    have hold := hm.before
    show m₁.log.count .before + (m.tasks.set j p' ++ spawned).countP Point.isCallBefore
      ≤ m₁.beforeStopCallbackInvoked.toNat
    omega
  case disposed =>
    have htasks : (m.tasks.set j p' ++ spawned).countP Point.isDisposeProxy + p.isDisposeProxy.toNat
        = m.tasks.countP Point.isDisposeProxy + p'.isDisposeProxy.toNat :=
      countP_set_append hp fun q hq => (heffect.spawned q hq).2.2.2.1
    have hlog := heffect.disposed
    have hold := hm.disposed
    show m₁.log.count .disposed + (m.tasks.set j p' ++ spawned).countP Point.isDisposeProxy
      ≤ m₁.clientDisposed.toNat
    omega
  case callAfter =>
    intro hafter hbefore
    have hstarted : m.shutdownStarted = true → p' ≠ .callAfter := by
      intro hsh hp'
      rw [heffect.callAfter hp'] at hsh
      cases hsh
    rcases mem_of_mem_set_append hafter with hold | rfl | hspawned
    · rcases hlog _ hbefore with hbefore | hemits
      · exact hm.callAfter hold hbefore
      · -- both tasks would hold the lock
        have hheld : p.holds = true := by cases hemits; rfl
        obtain ⟨k, hk⟩ := List.mem_iff_getElem?.1 hold
        have hkj : k = j := by
          have hlockk := (hm.lockHeld.holds k _ hk).1 rfl
          have hlockj := (hm.lockHeld.holds j p hp).1 hheld
          exact Option.some.inj (hlockk.symm.trans hlockj)
        rw [hkj, hp] at hk
        obtain rfl := Option.some.inj hk
        cases hemits
    · rcases hlog _ hbefore with hbefore | hemits
      · exact hstarted (hm.shutdownLog _ hbefore rfl) rfl
      · exact hstarted (hm.shutdownTasks p hmem (hemits.shutdown rfl)) rfl
    · exact absurd (heffect.spawned _ hspawned).1 (by decide)
  case looked =>
    intro hfalse
    show m₁.startupTask = false
    rw [heffect.startupTask]
    rcases hlog _ hfalse with hfalse | hemits
    · exact hm.looked hfalse
    · generalize he : ManagerEvent.looked false = e at hemits
      cases hemits <;> simp_all
  case startupLog =>
    intro e he hst
    show m₁.startupTask = true
    rw [heffect.startupTask]
    rcases hlog e he with he | hemits
    · exact hm.startupLog e he hst
    · exact hm.startupTasks p hmem (hemits.startup hst)
  case after_before =>
    refine norder hm.after_before ?_
    intro hemits
    obtain rfl : p = .callAfter := by cases hemits; rfl
    exact hm.callAfter hmem
  case startAsync_looked =>
    refine norder hm.startAsync_looked ?_
    intro hemits hfalse
    obtain rfl : p = .startCore := by cases hemits; rfl
    exact Bool.false_ne_true ((hm.looked hfalse).symm.trans (hm.startupTasks _ hmem rfl))
  case created_looked =>
    intro found
    refine norder (hm.created_looked found) ?_
    nofun

/-! ### The calls of the loader -/

theorem Orderly.initial : Orderly .initial where
  lockHeld := ⟨by simp [Manager.initial], by simp [Manager.initial]⟩
  shutdownTasks := by simp [Manager.initial]
  shutdownLog := by simp [Manager.initial]
  startupTasks := by simp [Manager.initial]
  before := by simp [Manager.initial]
  disposed := by simp [Manager.initial]
  callAfter := by simp [Manager.initial]
  looked := by simp [Manager.initial]
  startupLog := by simp [Manager.initial]
  after_before := by intro newer older h; cases newer <;> cases h
  startAsync_looked := by intro newer older h; cases newer <;> cases h
  created_looked := by intro found newer older h; cases newer <;> cases h

theorem LockHeld.append (hm : LockHeld m) (hlock : m'.lock = m.lock)
    (htasks : m'.tasks = m.tasks ++ [p]) (hp : p.holds = false) : LockHeld m' := by
  constructor
  · intro k q hq
    rw [htasks] at hq
    rw [hlock]
    rcases Nat.lt_or_ge k m.tasks.length with hk | hk
    · rw [List.getElem?_append_left hk] at hq
      exact hm.holds k q hq
    · rw [List.getElem?_append_right hk] at hq
      obtain rfl := List.mem_singleton.1 (List.mem_of_getElem? hq)
      constructor
      · simp [hp]
      · intro hl
        exact absurd (hm.lt k hl) (by omega)
  · intro k hk
    have := hm.lt k (hlock ▸ hk)
    rw [htasks, List.length_append]
    omega

theorem Orderly.spawn_stopClient (hm : Orderly m) : Orderly (m.spawn .stopClient) where
  lockHeld := hm.lockHeld.append rfl rfl rfl
  shutdownTasks := by
    intro p hp hsh
    rcases List.mem_append.1 hp with hp | hp
    · exact hm.shutdownTasks p hp hsh
    · obtain rfl := List.mem_singleton.1 hp
      cases hsh
  shutdownLog := hm.shutdownLog
  startupTasks := by
    intro p hp hst
    rcases List.mem_append.1 hp with hp | hp
    · exact hm.startupTasks p hp hst
    · obtain rfl := List.mem_singleton.1 hp
      cases hst
  before := by simpa [Manager.spawn, Point.isCallBefore] using hm.before
  disposed := by simpa [Manager.spawn, Point.isDisposeProxy] using hm.disposed
  callAfter := by
    intro hafter
    exact hm.callAfter (by simpa [Manager.spawn] using hafter)
  looked := hm.looked
  startupLog := hm.startupLog
  after_before := hm.after_before
  startAsync_looked := hm.startAsync_looked
  created_looked := hm.created_looked

/-- `StartClient` is only called while the manager can be reached through the loader, and
then its shutdown has not started. -/
theorem Orderly.startClient (hm : Orderly m) (hrunning : m.shutdownStarted = false) :
    Orderly m.startClient := by
  have hlog : ∀ e ∈ m.log, e.ofShutdown = false := by
    intro e he
    cases hsh : e.ofShutdown with
    | false => rfl
    | true => rw [hm.shutdownLog e he hsh] at hrunning; cases hrunning
  have hlooked : ∀ found, .looked found ∉ m.log := fun found h => Bool.noConfusion (hlog _ h)
  unfold Manager.startClient
  cases hstartup : m.startupTask with
  | true => rwa [if_pos (by simp)]
  | false =>
      rw [if_neg (by simp [hrunning])]
      constructor
      case lockHeld => exact hm.lockHeld.append rfl rfl rfl
      case shutdownTasks =>
        intro p hp hsh
        rcases List.mem_append.1 hp with hp | hp
        · exact hm.shutdownTasks p hp hsh
        · obtain rfl := List.mem_singleton.1 hp
          cases hsh
      case shutdownLog =>
        intro e he hsh
        rcases List.mem_cons.1 he with rfl | he
        · cases hsh
        · exact hm.shutdownLog e he hsh
      case startupTasks => exact fun _ _ _ => rfl
      case before => simpa [Point.isCallBefore] using hm.before
      case disposed => simpa [Point.isDisposeProxy] using hm.disposed
      case callAfter =>
        intro hafter hbefore
        exact hm.callAfter (by simpa using hafter) (by simpa using hbefore)
      case looked =>
        intro hfalse
        exact absurd (by simpa using hfalse) (hlooked false)
      case startupLog => exact fun _ _ _ => rfl
      case after_before => exact hm.after_before.cons (by nofun)
      case startAsync_looked => exact hm.startAsync_looked.cons (by nofun)
      case created_looked => exact fun found => (hm.created_looked found).cons fun _ => hlooked found

end AutoInstrumentation.OpAmp
