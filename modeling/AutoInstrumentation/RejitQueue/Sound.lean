import AutoInstrumentation.RejitQueue.Requests

/-!
# AutoInstrumentation.RejitQueue.Sound

The invariant of the rejit handler and its work queue.

A `View` of a state says what the types of the scripts only promise: the duty of each
thread, how far the handler is shut down and by whom, what the worker owes, and which
items it has taken. The parts of the invariant speak about different variables, so that
a step has to be judged by the parts it touches only.
-/

namespace AutoInstrumentation.RejitQueue

open Lib

variable {ι : Type}

/-! ### The view of a state -/

/-- How far the handler is shut down, and by whom. -/
inductive Phase (ι : Type)
  | live
  /-- The terminating item is pushed. -/
  | terminated (i : ι)
  /-- The worker has ended and is joined. -/
  | joined (i : ι)
  /-- The handler is reset. -/
  | closed
  deriving DecidableEq

namespace Phase

/-- The worker may still have something to do. -/
def isRunning : Phase ι → Bool
  | live | terminated _ => true
  | joined _ | closed => false

/-- The end of what has been pushed. -/
def pushedLast : Phase ι → List (RejitWorkItem ι)
  | live => []
  | terminated _ | joined _ | closed => [.terminating]

/-- The stage of a thread in this phase. -/
def stage [DecidableEq ι] (i : ι) : Phase ι → Stage
  | live | closed => .running
  | terminated j => if i = j then .terminated else .running
  | joined j => if i = j then .joined else .running

end Phase

structure View (ι : Type) where
  duty : ι → Duty
  phase : Phase ι
  /-- The worker holds `m_modules_lock`. -/
  locked : Bool
  /-- The promise that the worker still has to set. -/
  owes : Option ι
  /-- The items the worker has taken. -/
  carried : List (RejitWorkItem ι)

/-- The locks of each owner. -/
def View.held (v : View ι) : Option ι → List LockName
  | none => if v.locked then [.rejitModules] else []
  | some i => (v.duty i).held

/-- The promises that are to be set for others: by the worker now, or later. -/
def View.owed (v : View ι) (queue : List (RejitWorkItem ι)) : List ι :=
  v.owes.toList ++ queue.filterMap RejitWorkItem.promise

/-! ### The parts of the invariant -/

/-- The item the worker carries out. -/
def Carried (info12 : Bool) (worker : Option (Script ι)) (v : View ι) : Prop :=
  match worker with
  | none => v.owes = none ∧ v.locked = false
  | some script => script.Carries info12 v.owes v.locked

/-- The handler and those who know it. -/
structure Roles [DecidableEq ι] (info12 : Bool) (s : Shared ι) (v : View ι) : Prop where
  handler : s.rejitHandler = true ↔ v.phase ≠ .closed
  knows : ∀ i, (v.duty i).handler = true → Duty.keepsHandler (v.duty i).held ∧ v.phase ≠ .closed
  stage : ∀ i, (v.duty i).stage = v.phase.stage i
  closes : ∀ i, (v.duty i).stage ≠ .running →
    .definitionsIds ∈ (v.duty i).held ∧ .moduleIds ∈ (v.duty i).held
  running : v.phase.isRunning = true →
    s.shutdown = false ∧ s.profilerInfo = true ∧ s.profilerInfo12 = info12

/-- The queue and the worker. -/
structure Queued (found : Found) (info12 : Bool) (s : Shared ι) (worker : Option (Script ι))
    (v : View ι) : Prop where
  ended : v.phase.isRunning = false → s.exited = true
  live : v.phase = .live → s.exited = false
  drained : s.exited = true → s.queue = [] ∧ worker = none
  pending : s.exited = false →
    ∃ items, s.queue = items ++ v.phase.pushedLast ∧ .terminating ∉ items
  pushed : ∃ items, s.pushed = items ++ v.phase.pushedLast ∧ .terminating ∉ items
  fifo : s.pushed = v.carried ++ s.queue
  requests : s.requests ++ (worker.map (Script.remaining info12)).getD []
    = v.carried.flatMap (RejitWorkItem.requests found info12)

/-- The promises. -/
structure Promised (s : Shared ι) (v : View ι) : Prop where
  once : (v.owed s.queue).Nodup
  owed : ∀ i ∈ v.owed s.queue, (v.duty i).handed = true ∧ s.promises i = none
  handed : ∀ i, (v.duty i).handed = true → i ∈ v.owed s.queue ∨ (s.promises i).isSome
  kept : ∀ i, (v.duty i).handed = false → s.promises i = none

/-- The answers of the items the worker has taken. -/
def Answered (found : Found) (info12 : Bool) (s : Shared ι) (worker : Option (Script ι))
    (v : View ι) : Prop :=
  ∀ item ∈ v.carried, ∀ i, item.promise = some i →
    s.promises i = some (item.rejitCount found) ∨
      v.owes = some i ∧ worker.bind (Script.answer info12) = some (item.rejitCount found)

variable [DecidableEq ι]

structure Inv (found : Found) (info12 : Bool) (s : State ι) (v : View ι) : Prop where
  safe : ∀ i, (s.threads i).Safe i (v.duty i)
  proper : ∀ i, (v.duty i).Proper
  carries : Carried info12 s.worker v
  locks : s.shared.locks.Matches v.held
  roles : Roles info12 s.shared v
  queued : Queued found info12 s.shared s.worker v
  promised : Promised s.shared v
  answered : Answered found info12 s.shared s.worker v
  sound : s.shared.faulted = false

/-- Nothing has happened yet. -/
def View.initial : View ι where
  duty := fun _ => .start
  phase := .live
  locked := false
  owes := none
  carried := []

theorem Inv.initial (found : Found) (info12 : Bool) (calls : ι → Call) :
    Inv found info12 (State.initial info12 calls) View.initial where
  safe i := Script.safe_script (calls i)
  proper _ := Duty.Proper.start
  carries := ⟨rfl, rfl⟩
  locks := by
    refine ⟨fun l o => ?_, fun o => ?_⟩
    · cases o <;> simp [State.initial, Shared.initial, Locks.free, View.held, View.initial,
        Duty.start]
    · cases o <;> simp [View.held, View.initial, Duty.start]
  roles := by
    constructor <;> simp [State.initial, Shared.initial, View.initial, Duty.start, Phase.stage]
  queued := by
    constructor <;> simp [State.initial, Shared.initial, View.initial, Phase.isRunning,
      Phase.pushedLast]
  promised := by
    constructor <;> simp [State.initial, Shared.initial, View.initial, View.owed, Duty.start]
  answered := by simp [Answered, View.initial]
  sound := rfl

/-! ### Steps of the threads -/

section
variable {found : Found} {info12 : Bool} {s : State ι} {v : View ι} {i : ι} {rest : Script ι}

/-- Thread `i` goes on with another script. -/
def State.follow (s : State ι) (i : ι) (rest : Script ι) (shared : Shared ι) : State ι :=
  { s with shared, threads := Function.update s.threads i rest }

@[simp] theorem State.follow_shared (s : State ι) (i : ι) (rest : Script ι)
    (shared : Shared ι) : (s.follow i rest shared).shared = shared := rfl

/-- Thread `i` has another duty. -/
def View.become (v : View ι) (i : ι) (d : Duty) : View ι :=
  { v with duty := Function.update v.duty i d }

@[simp] theorem View.become_duty_self (v : View ι) (i : ι) (d : Duty) :
    (v.become i d).duty i = d := by
  simp [View.become]

theorem View.become_duty_of_ne (v : View ι) {i j : ι} (d : Duty) (h : j ≠ i) :
    (v.become i d).duty j = v.duty j := by
  simp [View.become, h]

@[simp] theorem View.become_owed (v : View ι) (i : ι) (d : Duty)
    (queue : List (RejitWorkItem ι)) : (v.become i d).owed queue = v.owed queue := rfl

theorem View.become_self (v : View ι) (i : ι) : v.become i (v.duty i) = v := by
  simp [View.become]

theorem View.held_become (v : View ι) (i : ι) (d : Duty) :
    (v.become i d).held = Function.update v.held (some i) d.held := by
  funext o
  cases o with
  | none =>
      rw [Function.update_of_ne (by simp)]
      rfl
  | some j =>
      by_cases h : j = i
      · subst h
        simp [View.held]
      · simp [View.held, View.become, h]

/-- The scripts stay typed when one thread goes on. -/
theorem Inv.safe_follow (h : Inv found info12 s v) {d : Duty} (hrest : rest.Safe i d) (j : ι) :
    (Function.update s.threads i rest j).Safe j ((v.become i d).duty j) := by
  by_cases hj : j = i
  · subst hj
    simpa using hrest
  · rw [View.become_duty_of_ne v d hj]
    simpa [hj] using h.safe j

/-- The duties stay proper when one thread has another one. -/
theorem Inv.proper_become (h : Inv found info12 s v) {d : Duty} (hd : d.Proper) (j : ι) :
    ((v.become i d).duty j).Proper := by
  by_cases hj : j = i
  · subst hj
    simpa using hd
  · rw [View.become_duty_of_ne v d hj]
    exact h.proper j

/-- A thread goes on without touching what the invariant speaks about. -/
theorem Inv.follow (h : Inv found info12 s v) (hrest : rest.Safe i (v.duty i)) :
    Inv found info12 (s.follow i rest s.shared) v :=
  { h with
    safe := fun j => by
      have hsafe := h.safe_follow hrest j
      rwa [View.become_self] at hsafe }

theorem Inv.detach (h : Inv found info12 s v) (hrest : rest.Safe i (v.duty i)) :
    Inv found info12 (s.follow i rest { s.shared with isAttached := false }) v :=
  { h.follow hrest with
    locks := h.locks
    roles := { h.roles with }
    queued := { h.queued with }
    promised := { h.promised with }
    answered := h.answered
    sound := h.sound }

/-- A duty that only differs in what a thread holds or knows. -/
theorem Roles.become {shared : Shared ι} (h : Roles info12 shared v) {d : Duty}
    (hstage : d.stage = (v.duty i).stage)
    (hknows : d.handler = true → Duty.keepsHandler d.held ∧ v.phase ≠ .closed)
    (hcloses : d.stage ≠ .running → .definitionsIds ∈ d.held ∧ .moduleIds ∈ d.held) :
    Roles info12 shared (v.become i d) where
  handler := h.handler
  knows j hj := by
    by_cases hij : j = i
    · subst hij
      rw [View.become_duty_self] at hj ⊢
      exact hknows hj
    · rw [View.become_duty_of_ne v d hij] at hj ⊢
      exact h.knows j hj
  stage j := by
    by_cases hij : j = i
    · subst hij
      rw [View.become_duty_self, hstage]
      exact h.stage j
    · rw [View.become_duty_of_ne v d hij]
      exact h.stage j
  closes j hj := by
    by_cases hij : j = i
    · subst hij
      rw [View.become_duty_self] at hj ⊢
      exact hcloses hj
    · rw [View.become_duty_of_ne v d hij] at hj ⊢
      exact h.closes j hj
  running := h.running

/-- A duty that does not differ in the promise. -/
theorem Promised.become {shared : Shared ι} (h : Promised shared v) {d : Duty}
    (hd : d.handed = (v.duty i).handed) : Promised shared (v.become i d) := by
  have hhanded : ∀ j, ((v.become i d).duty j).handed = (v.duty j).handed := by
    intro j
    by_cases hij : j = i
    · subst hij
      rw [View.become_duty_self, hd]
    · rw [View.become_duty_of_ne v d hij]
  constructor
  case once => exact h.once
  case owed =>
      intro j hj
      rw [hhanded]
      exact h.owed j hj
  case handed =>
      intro j hj
      rw [hhanded] at hj
      exact h.handed j hj
  case kept =>
      intro j hj
      rw [hhanded] at hj
      exact h.kept j hj

theorem Duty.keepsHandler_cons {l : LockName} {held : List LockName}
    (h : Duty.keepsHandler held) : Duty.keepsHandler (l :: held) := by
  simp only [Duty.keepsHandler, Bool.or_eq_true, decide_eq_true_eq] at h ⊢
  exact h.imp (List.mem_cons_of_mem l) (List.mem_cons_of_mem l)

theorem Inv.lock (h : Inv found info12 s v) {l : LockName} (hfree : s.shared.locks l = none)
    (hmay : (v.duty i).MayLock l) (hrest : rest.Safe i ((v.duty i).lock l)) :
    Inv found info12 (s.follow i rest (s.shared.lock l (some i)))
      (v.become i ((v.duty i).lock l)) where
  safe := h.safe_follow hrest
  proper := h.proper_become ((h.proper i).lock hmay)
  carries := h.carries
  locks := by
    rw [View.held_become]
    exact h.locks.acquire hfree
  roles := by
    have hroles : Roles info12 (s.shared.lock l (some i)) v := { h.roles with }
    refine hroles.become rfl (fun hd => ?_) fun hd => ?_
    · exact ⟨Duty.keepsHandler_cons (h.roles.knows i hd).1, (h.roles.knows i hd).2⟩
    · obtain ⟨hids, hmodules⟩ := h.roles.closes i hd
      exact ⟨List.mem_cons_of_mem l hids, List.mem_cons_of_mem l hmodules⟩
  queued := { h.queued with }
  promised := by
    have hpromised : Promised (s.shared.lock l (some i)) v := { h.promised with }
    exact hpromised.become rfl
  answered := h.answered
  sound := h.sound

theorem Inv.unlock (h : Inv found info12 s v) {l : LockName}
    (hhead : (v.duty i).held.head? = some l)
    (hstage : Duty.keepsHandler [l] → (v.duty i).stage = .running)
    (hrest : rest.Safe i (v.duty i).unlock) :
    Inv found info12 (s.follow i rest (s.shared.unlock l)) (v.become i (v.duty i).unlock) := by
  obtain ⟨tail, htail⟩ : ∃ tail, (v.duty i).held = l :: tail := List.head?_eq_some_iff.mp hhead
  have hunlock : (v.duty i).unlock.held = tail := by simp [Duty.unlock, htail]
  constructor
  case safe => exact h.safe_follow hrest
  case proper => exact h.proper_become (h.proper i).unlock
  case carries => exact h.carries
  case locks =>
      rw [View.held_become, hunlock]
      exact h.locks.release htail
  case roles =>
      have hroles : Roles info12 (s.shared.unlock l) v := { h.roles with }
      refine hroles.become rfl (fun hd => ?_) fun hd => ?_
      · simp only [Duty.unlock, Bool.and_eq_true] at hd
        exact ⟨hd.2, (h.roles.knows i hd.1).2⟩
      · -- the lock that is given back is none of the two that the shutdown needs
        have hother : ¬ Duty.keepsHandler [l] = true := fun hl => hd (hstage hl)
        obtain ⟨hids, hmodules⟩ := h.roles.closes i hd
        rw [htail] at hids hmodules
        rw [hunlock]
        refine ⟨(List.mem_cons.mp hids).resolve_left ?_,
          (List.mem_cons.mp hmodules).resolve_left ?_⟩
        · intro heq
          exact hother (by simp [Duty.keepsHandler, ← heq])
        · intro heq
          exact hother (by simp [Duty.keepsHandler, ← heq])
  case queued => exact { h.queued with }
  case promised =>
      have hpromised : Promised (s.shared.unlock l) v := { h.promised with }
      exact hpromised.become rfl
  case answered => exact h.answered
  case sound => exact h.sound

theorem Inv.findHandler (h : Inv found info12 s v) (hhandler : s.shared.rejitHandler = true)
    (hrest : rest.Safe i (v.duty i).findHandler) :
    Inv found info12 (s.follow i rest s.shared) (v.become i (v.duty i).findHandler) where
  safe := h.safe_follow hrest
  proper := h.proper_become ⟨(h.proper i).nested, (h.proper i).shutdown⟩
  carries := h.carries
  locks := by
    have hself : Function.update v.held (some i) (v.duty i).held = v.held :=
      Function.update_eq_self (some i) v.held
    rw [View.held_become]
    show Locks.Matches _ (Function.update v.held (some i) (v.duty i).held)
    rw [hself]
    exact h.locks
  roles := h.roles.become rfl (fun hd => ⟨hd, h.roles.handler.mp hhandler⟩) (h.roles.closes i)
  queued := { h.queued with }
  promised := h.promised.become rfl
  answered := h.answered
  sound := h.sound

theorem View.held_become_of_held (v : View ι) {d : Duty} (hd : d.held = (v.duty i).held) :
    (v.become i d).held = v.held := by
  rw [View.held_become, hd]
  exact Function.update_eq_self (some i) v.held

/-- A thread that owes nothing sets its promise itself. -/
theorem Inv.setValue (h : Inv found info12 s v) (hnew : (v.duty i).handed = false) (value : ℕ)
    (hrest : rest.Safe i (v.duty i).hand) :
    Inv found info12 (s.follow i rest (s.shared.setValue i value))
      (v.become i (v.duty i).hand) := by
  have hnone : s.shared.promises i = none := h.promised.kept i hnew
  have hset : s.shared.setValue i value =
      { s.shared with promises := Function.update s.shared.promises i (some value) } := by
    simp [Shared.setValue, hnone]
  have hfresh : i ∉ v.owed s.shared.queue := by
    intro hi
    have hhanded := (h.promised.owed i hi).1
    simp [hnew] at hhanded
  rw [hset]
  constructor
  case safe => exact h.safe_follow hrest
  case proper => exact h.proper_become ⟨(h.proper i).nested, (h.proper i).shutdown⟩
  case carries => exact h.carries
  case locks =>
      rw [View.held_become_of_held v (by rfl)]
      exact h.locks
  case roles =>
      have hroles := h.roles.become (d := (v.duty i).hand) rfl (h.roles.knows i) (h.roles.closes i)
      exact { hroles with }
  case queued => exact { h.queued with }
  case promised =>
      constructor
      case once => exact h.promised.once
      case owed =>
          intro j hj
          have hji : j ≠ i := fun heq => hfresh (heq ▸ hj)
          rw [View.become_duty_of_ne v _ hji]
          simpa [State.follow, hji] using h.promised.owed j hj
      case handed =>
          intro j hj
          by_cases hji : j = i
          · subst hji
            exact Or.inr (by simp [State.follow])
          · rw [View.become_duty_of_ne v _ hji] at hj
            simpa [State.follow, hji] using h.promised.handed j hj
      case kept =>
          intro j hj
          by_cases hji : j = i
          · subst hji
            simp [Duty.hand] at hj
          · rw [View.become_duty_of_ne v _ hji] at hj
            simpa [State.follow, hji] using h.promised.kept j hj
  case answered =>
      intro item hitem j hj
      rcases h.answered item hitem j hj with hdone | ⟨howes, hanswer⟩
      · have hji : j ≠ i := by
          intro heq
          rw [heq, hnone] at hdone
          cases hdone
        exact Or.inl (by simpa [State.follow, hji] using hdone)
      · exact Or.inr ⟨howes, hanswer⟩
  case sound => exact h.sound

/-! ### The thread that pushes -/

/-- Whoever knows the handler under the lock of the module ids finds it in use. -/
theorem Inv.phase_live (h : Inv found info12 s v) (hmodules : .moduleIds ∈ (v.duty i).held)
    (hhandler : (v.duty i).handler = true) (hstage : (v.duty i).stage = .running) :
    v.phase = .live := by
  have hclosed := (h.roles.knows i hhandler).2
  have hstages := h.roles.stage
  -- another thread that shuts the handler down would hold the lock
  have hother : ∀ j, (v.duty j).stage ≠ .running → False := by
    intro j hj
    have hij : (some j : Option ι) = some i :=
      h.locks.unique (l := .moduleIds) (h.roles.closes j hj).2 hmodules
    rw [Option.some.inj hij] at hj
    exact hj hstage
  cases hphase : v.phase with
  | live => rfl
  | terminated j => exact (hother j (by simp [hstages j, hphase, Phase.stage])).elim
  | joined j => exact (hother j (by simp [hstages j, hphase, Phase.stage])).elim
  | closed => exact absurd hphase hclosed

omit [DecidableEq ι] in
/-- In use, the queue holds no terminating item. -/
theorem Queued.push {shared : Shared ι} {worker : Option (Script ι)}
    (h : Queued found info12 shared worker v) (hlive : v.phase = .live) {item : RejitWorkItem ι}
    (hitem : item ≠ .terminating) (duty : ι → Duty) :
    Queued found info12 (shared.push item) worker { v with duty } := by
  have hexited := h.live hlive
  obtain ⟨items, hqueue, hitems⟩ := h.pending hexited
  obtain ⟨all, hpushed, hall⟩ := h.pushed
  simp only [hlive, Phase.pushedLast, List.append_nil] at hqueue hpushed
  constructor
  case ended => simp [hlive, Phase.isRunning]
  case live => exact fun _ => hexited
  case drained => simp [Shared.push, hexited]
  case pending =>
      intro _
      refine ⟨items ++ [item], ?_, ?_⟩
      · simp [Shared.push, hlive, Phase.pushedLast, hqueue]
      · simpa [hitems] using hitem.symm
  case pushed =>
      refine ⟨all ++ [item], ?_, ?_⟩
      · simp [Shared.push, hlive, Phase.pushedLast, hpushed]
      · simpa [hall] using hitem.symm
  case fifo => simp [Shared.push, h.fifo]
  case requests => exact h.requests

omit [DecidableEq ι] in
theorem View.owed_append (v : View ι) (queue : List (RejitWorkItem ι)) (item : RejitWorkItem ι) :
    v.owed (queue ++ [item]) = v.owed queue ++ item.promise.toList := by
  cases hpromise : item.promise <;> simp [View.owed, hpromise]

omit [DecidableEq ι] in
/-- An item without a promise of the pushing thread. -/
theorem Promised.push_none {shared : Shared ι} (h : Promised shared v) {item : RejitWorkItem ι}
    (hitem : item.promise = none) : Promised (shared.push item) v := by
  have howed : v.owed (shared.queue ++ [item]) = v.owed shared.queue := by
    simp [View.owed_append, hitem]
  constructor
  case once => exact howed ▸ h.once
  case owed =>
      intro j hj
      exact h.owed j (howed ▸ hj)
  case handed =>
      intro j hj
      show j ∈ v.owed (shared.queue ++ [item]) ∨ _
      rw [howed]
      exact h.handed j hj
  case kept => exact h.kept

/-- An item with the promise of the pushing thread. -/
theorem Promised.push_some {shared : Shared ι} (h : Promised shared v) {item : RejitWorkItem ι}
    (hitem : item.promise = some i) (hnew : (v.duty i).handed = false) :
    Promised (shared.push item) (v.become i (v.duty i).hand) := by
  have howed : v.owed (shared.queue ++ [item]) = v.owed shared.queue ++ [i] := by
    simp [View.owed_append, hitem]
  have hfresh : i ∉ v.owed shared.queue := by
    intro hi
    have hhanded := (h.owed i hi).1
    simp [hnew] at hhanded
  constructor
  case once =>
      show (v.owed (shared.queue ++ [item])).Nodup
      rw [howed, List.nodup_append]
      refine ⟨h.once, List.nodup_singleton i, ?_⟩
      intro a ha b hb hab
      rw [List.mem_singleton.mp hb] at hab
      exact hfresh (hab ▸ ha)
  case owed =>
      intro j hj
      replace hj : j ∈ v.owed shared.queue ++ [i] := howed ▸ hj
      by_cases hji : j = i
      · subst hji
        rw [View.become_duty_self]
        exact ⟨rfl, h.kept j hnew⟩
      · rw [View.become_duty_of_ne v _ hji]
        have hmem : j ∈ v.owed shared.queue := by simpa [hji] using hj
        exact h.owed j hmem
  case handed =>
      intro j hj
      show j ∈ v.owed (shared.queue ++ [item]) ∨ _
      rw [howed]
      by_cases hji : j = i
      · exact Or.inl (by simp [hji])
      · rw [View.become_duty_of_ne v _ hji] at hj
        exact (h.handed j hj).imp_left (List.mem_append_left [i])
  case kept =>
      intro j hj
      by_cases hji : j = i
      · subst hji
        simp [Duty.hand] at hj
      · rw [View.become_duty_of_ne v _ hji] at hj
        exact h.kept j hj

theorem Inv.push_none (h : Inv found info12 s v) (hlive : v.phase = .live)
    {item : RejitWorkItem ι} (hitem : item ≠ .terminating) (hpromise : item.promise = none)
    (hrest : rest.Safe i (v.duty i)) :
    Inv found info12 (s.follow i rest (s.shared.push item)) v where
  safe j := by
    have hsafe := h.safe_follow hrest j
    rwa [View.become_self] at hsafe
  proper := h.proper
  carries := h.carries
  locks := h.locks
  roles := { h.roles with }
  queued := h.queued.push hlive hitem v.duty
  promised := h.promised.push_none hpromise
  answered := h.answered
  sound := h.sound

theorem Inv.push_some (h : Inv found info12 s v) (hlive : v.phase = .live)
    {item : RejitWorkItem ι} (hitem : item ≠ .terminating) (hpromise : item.promise = some i)
    (hnew : (v.duty i).handed = false) (hrest : rest.Safe i (v.duty i).hand) :
    Inv found info12 (s.follow i rest (s.shared.push item)) (v.become i (v.duty i).hand) where
  safe := h.safe_follow hrest
  proper := h.proper_become ⟨(h.proper i).nested, (h.proper i).shutdown⟩
  carries := h.carries
  locks := by
    rw [View.held_become_of_held v (by rfl)]
    exact h.locks
  roles := by
    have hroles := h.roles.become (d := (v.duty i).hand) rfl (h.roles.knows i) (h.roles.closes i)
    exact { hroles with }
  queued := h.queued.push hlive hitem _
  promised := h.promised.push_some hpromise hnew
  answered := h.answered
  sound := h.sound

/-! ### The thread that shuts the handler down -/

/-- Thread `i` takes the handler to another phase. -/
def View.advance (v : View ι) (i : ι) (d : Duty) (phase : Phase ι) : View ι :=
  { v.become i d with phase }

theorem Phase.stage_terminated {phase : Phase ι} (h : phase.stage i = .terminated) :
    phase = .terminated i := by
  cases phase with
  | terminated j =>
      by_cases hij : i = j
      · rw [hij]
      · simp [Phase.stage, hij] at h
  | joined j => by_cases hij : i = j <;> simp [Phase.stage, hij] at h
  | live => simp [Phase.stage] at h
  | closed => simp [Phase.stage] at h

theorem Phase.stage_joined {phase : Phase ι} (h : phase.stage i = .joined) :
    phase = .joined i := by
  cases phase with
  | joined j =>
      by_cases hij : i = j
      · rw [hij]
      · simp [Phase.stage, hij] at h
  | terminated j => by_cases hij : i = j <;> simp [Phase.stage, hij] at h
  | live => simp [Phase.stage] at h
  | closed => simp [Phase.stage] at h

/-- The promises do not depend on the phase. -/
theorem Promised.advance {shared : Shared ι} (h : Promised shared v) {d : Duty}
    (hd : d.handed = (v.duty i).handed) (phase : Phase ι) :
    Promised shared (v.advance i d phase) :=
  { h.become hd with }

theorem Inv.terminate (h : Inv found info12 s v) (hlive : v.phase = .live)
    (hids : .definitionsIds ∈ (v.duty i).held) (hmodules : .moduleIds ∈ (v.duty i).held)
    (hrest : rest.Safe i ((v.duty i).enter .terminated)) :
    Inv found info12 (s.follow i rest (s.shared.push .terminating))
      (v.advance i ((v.duty i).enter .terminated) (.terminated i)) where
  safe := h.safe_follow hrest
  proper := by
    refine h.proper_become ⟨(h.proper i).nested, fun hmem => ?_⟩
    have hjoined := (h.proper i).shutdown hmem
    rw [h.roles.stage, hlive] at hjoined
    cases hjoined
  carries := h.carries
  locks := by
    have hheld := View.held_become_of_held v (i := i) (d := (v.duty i).enter .terminated) rfl
    exact hheld ▸ h.locks
  roles := by
    have hstage : ∀ j, (v.duty j).stage = .running := by
      intro j
      rw [h.roles.stage, hlive]
      rfl
    constructor
    case handler => simpa [hlive, Shared.push, View.advance] using h.roles.handler
    case knows =>
        intro j hj
        refine ⟨?_, by simp [View.advance]⟩
        by_cases hji : j = i
        · subst hji
          simp only [View.advance, View.become_duty_self] at hj ⊢
          exact (h.roles.knows j hj).1
        · simp only [View.advance, View.become_duty_of_ne v _ hji] at hj ⊢
          exact (h.roles.knows j hj).1
    case stage =>
        intro j
        by_cases hji : j = i
        · subst hji
          simp [View.advance, Duty.enter, Phase.stage]
        · simp [View.advance, View.become_duty_of_ne v _ hji, Phase.stage, hji, hstage]
    case closes =>
        intro j hj
        by_cases hji : j = i
        · subst hji
          simpa [View.advance, Duty.enter] using And.intro hids hmodules
        · simp [View.advance, View.become_duty_of_ne v _ hji, hstage] at hj
    case running => exact fun _ => h.roles.running (by simp [hlive, Phase.isRunning])
  queued := by
    have hexited := h.queued.live hlive
    obtain ⟨items, hqueue, hitems⟩ := h.queued.pending hexited
    obtain ⟨all, hpushed, hall⟩ := h.queued.pushed
    simp only [hlive, Phase.pushedLast, List.append_nil] at hqueue hpushed
    constructor
    case ended => simp [View.advance, Phase.isRunning]
    case live => simp [View.advance]
    case drained => simp [State.follow, Shared.push, hexited]
    case pending =>
        refine fun _ => ⟨items, ?_, hitems⟩
        simp [State.follow, Shared.push, View.advance, Phase.pushedLast, hqueue]
    case pushed =>
        refine ⟨all, ?_, hall⟩
        simp [State.follow, Shared.push, View.advance, Phase.pushedLast, hpushed]
    case fifo =>
        simp [State.follow, Shared.push, View.advance, View.become, h.queued.fifo]
    case requests => exact h.queued.requests
  promised := by
    have hpromised : Promised (s.shared.push .terminating) v := h.promised.push_none rfl
    exact hpromised.advance (d := (v.duty i).enter .terminated) rfl _
  answered := h.answered
  sound := h.sound

/-- The roles from the joining of the worker on. -/
theorem Roles.advance {shared : Shared ι} (h : Roles info12 shared v) {d : Duty}
    {phase : Phase ι} (hstage : d.stage = .joined) (hheld : d.held = (v.duty i).held)
    (hhandler : d.handler = (v.duty i).handler) (hstarted : (v.duty i).stage ≠ .running)
    (hphase : phase = .joined i) : Roles info12 shared (v.advance i d phase) := by
  have hothers : ∀ j, j ≠ i → (v.duty j).stage = .running := by
    intro j hji
    by_contra hj
    have hstages := h.stage
    cases hcase : v.phase with
    | live => simp [hstages, hcase, Phase.stage] at hj
    | closed => simp [hstages, hcase, Phase.stage] at hj
    | terminated k =>
        simp only [hstages, hcase, Phase.stage] at hj hstarted
        grind
    | joined k =>
        simp only [hstages, hcase, Phase.stage] at hj hstarted
        grind
  have hopen : v.phase ≠ .closed := by
    intro hclosed
    simp [h.stage, hclosed, Phase.stage] at hstarted
  subst hphase
  constructor
  case handler => simpa [View.advance, hopen] using h.handler
  case knows =>
      intro j hj
      refine ⟨?_, by simp [View.advance]⟩
      by_cases hji : j = i
      · subst hji
        simp only [View.advance, View.become_duty_self, hheld, hhandler] at hj ⊢
        exact (h.knows j hj).1
      · simp only [View.advance, View.become_duty_of_ne v _ hji] at hj ⊢
        exact (h.knows j hj).1
  case stage =>
      intro j
      by_cases hji : j = i
      · subst hji
        simp [View.advance, hstage, Phase.stage]
      · simp [View.advance, View.become_duty_of_ne v _ hji, Phase.stage, hji, hothers j hji]
  case closes =>
      intro j hj
      by_cases hji : j = i
      · subst hji
        simpa [View.advance, hheld] using h.closes j hstarted
      · simp [View.advance, View.become_duty_of_ne v _ hji, hothers j hji] at hj
  case running => simp [View.advance, Phase.isRunning]

theorem Inv.join (h : Inv found info12 s v) (hstage : (v.duty i).stage = .terminated)
    (hexited : s.shared.exited = true) (hrest : rest.Safe i ((v.duty i).enter .joined)) :
    Inv found info12 (s.follow i rest s.shared)
      (v.advance i ((v.duty i).enter .joined) (.joined i)) where
  safe := h.safe_follow hrest
  proper := h.proper_become ⟨(h.proper i).nested, fun _ => rfl⟩
  carries := h.carries
  locks := by
    have hheld := View.held_become_of_held v (i := i) (d := (v.duty i).enter .joined) rfl
    exact hheld ▸ h.locks
  roles := h.roles.advance rfl rfl rfl (by simp [hstage]) rfl
  queued := by
    have hphase : v.phase = .terminated i :=
      Phase.stage_terminated ((h.roles.stage i).symm.trans hstage)
    constructor
    case ended => exact fun _ => hexited
    case live => simp [View.advance]
    case drained => exact h.queued.drained
    case pending => simp [State.follow, hexited]
    case pushed => simpa [hphase, View.advance, Phase.pushedLast] using h.queued.pushed
    case fifo => exact h.queued.fifo
    case requests => exact h.queued.requests
  promised := h.promised.advance (d := (v.duty i).enter .joined) rfl _
  answered := h.answered
  sound := h.sound

/-- What only matters while the worker runs may change once it is joined. -/
theorem Inv.afterJoin (h : Inv found info12 s v) (hstage : (v.duty i).stage = .joined)
    (shutdown profilerInfo profilerInfo12 : Bool) (hrest : rest.Safe i (v.duty i)) :
    Inv found info12
      (s.follow i rest { s.shared with shutdown, profilerInfo, profilerInfo12 }) v := by
  have hphase : v.phase = .joined i := Phase.stage_joined ((h.roles.stage i).symm.trans hstage)
  have hfollow := h.follow hrest
  exact
    { hfollow with
      locks := h.locks
      roles := { h.roles with running := by simp [hphase, Phase.isRunning] }
      queued := { h.queued with }
      promised := { h.promised with }
      answered := h.answered
      sound := h.sound }

theorem Inv.clearHandler (h : Inv found info12 s v) (hstage : (v.duty i).stage = .joined)
    (hreleased : .shutdown ∉ (v.duty i).held) (hrest : rest.Safe i (v.duty i).forgetHandler) :
    Inv found info12 (s.follow i rest { s.shared with rejitHandler := false })
      (v.advance i (v.duty i).forgetHandler .closed) := by
  have hphase : v.phase = .joined i := Phase.stage_joined ((h.roles.stage i).symm.trans hstage)
  obtain ⟨hids, hmodules⟩ := h.roles.closes i (by simp [hstage])
  -- whoever knows the handler holds one of the two locks
  have hothers : ∀ j, j ≠ i → (v.duty j).handler = false := by
    intro j hji
    by_contra hj
    have hkeeps := (h.roles.knows j (by simpa using hj)).1
    simp only [Duty.keepsHandler, Bool.or_eq_true, decide_eq_true_eq] at hkeeps
    have hsame : (some j : Option ι) = some i := by
      rcases hkeeps with hlock | hlock
      · exact h.locks.unique hlock hids
      · exact h.locks.unique hlock hmodules
    exact hji (Option.some.inj hsame)
  constructor
  case safe => exact h.safe_follow hrest
  case proper =>
      exact h.proper_become ⟨(h.proper i).nested, fun hmem => absurd hmem hreleased⟩
  case carries => exact h.carries
  case locks =>
      have hheld := View.held_become_of_held v (i := i) (d := (v.duty i).forgetHandler) rfl
      exact hheld ▸ h.locks
  case roles =>
      constructor
      case handler => simp [State.follow, View.advance]
      case knows =>
          intro j hj
          by_cases hji : j = i
          · subst hji
            simp [View.advance, Duty.forgetHandler] at hj
          · simp [View.advance, View.become_duty_of_ne v _ hji, hothers j hji] at hj
      case stage =>
          intro j
          by_cases hji : j = i
          · subst hji
            simp [View.advance, Duty.forgetHandler, Phase.stage]
          · simp [View.advance, View.become_duty_of_ne v _ hji, h.roles.stage, hphase,
              Phase.stage, hji]
      case closes =>
          intro j hj
          by_cases hji : j = i
          · subst hji
            simp [View.advance, Duty.forgetHandler] at hj
          · simp [View.advance, View.become_duty_of_ne v _ hji, h.roles.stage, hphase,
              Phase.stage, hji] at hj
      case running => simp [View.advance, Phase.isRunning]
  case queued =>
      have hexited := h.queued.ended (by simp [hphase, Phase.isRunning])
      constructor
      case ended => exact fun _ => hexited
      case live => simp [View.advance]
      case drained => exact h.queued.drained
      case pending => simp [State.follow, hexited]
      case pushed => simpa [hphase, State.follow, View.advance, Phase.pushedLast] using
          h.queued.pushed
      case fifo => exact h.queued.fifo
      case requests => exact h.queued.requests
  case promised =>
      have hpromised : Promised { s.shared with rejitHandler := false } v :=
        { h.promised with }
      exact hpromised.advance (d := (v.duty i).forgetHandler) rfl _
  case answered => exact h.answered
  case sound => exact h.sound

end

end AutoInstrumentation.RejitQueue
