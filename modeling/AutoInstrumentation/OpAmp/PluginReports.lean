import AutoInstrumentation.OpAmp.Reporter

/-!
# AutoInstrumentation.OpAmp.PluginReports

The reports that plugins ask for: a notification is read or pending, what is pending and
eligible has one drain, and what is submitted was admitted.

A drain is a deadline of the timer, a queued callback, or a callback under way. Their number
is the flag `_pluginReportDrainActive`, and whoever makes a report eligible raises the flag.
-/

namespace AutoInstrumentation.OpAmp

open AutoInstrumentation.Lib

variable {providers : PluginReportKind}

/-! ### What is claimed -/

/-- The callback is on its way to read the report. -/
def DrainPoint.willRead : DrainPoint → PluginReport → Bool
  | .claimed reports, report => reports.has report
  | .capability again _, .effectiveConfig => !again
  | .stop again _, .effectiveConfig => !again
  | .recheck again _, .effectiveConfig => !again
  | .readConfig _, .effectiveConfig => true
  | .capability _ status, .remoteConfigStatus => status
  | .stop _ status, .remoteConfigStatus => status
  | .recheck _ status, .remoteConfigStatus => status
  | .readConfig status, .remoteConfigStatus => status
  | .configProvider status, .remoteConfigStatus => status
  | .sendConfig status, .remoteConfigStatus => status
  | .readStatus, .remoteConfigStatus => true
  | _, _ => false

/-- A notification that no provider was read for since. -/
def Unread (log : List Event) (report : PluginReport) : Prop :=
  ∃ newer older, log = newer ++ .notified report :: older ∧ .read report ∉ newer

/-- The report is pending, or a drain has claimed it and is on its way to read it. -/
def StillPending (s : State) (report : PluginReport) : Prop :=
  s.pendingPluginReports.has report = true ∨ ∃ run ∈ s.drains, run.point.willRead report = true

/-- **The plugin reports**: what is eligible has a drain, and one only; a notification is read
later or still pending; a submission had a moment since its providers returned at which
the reporter was not stopped, and while the capability was there if it has an effective
configuration. -/
structure PluginReportsSound (s : State) : Prop where
  scheduled : s.stopped = false → s.eligible ≠ .none → s.pluginReportDrainActive = true
  oneDrain : s.stopped = false → s.pluginReportDrainActive = true →
    s.pluginReportTimer.outstanding + s.drains.length = 1
  notified : s.stopped = false → ∀ report, Unread s.log report → StillPending s report
  submitted : ∀ config since, .submitted config since ∈ s.log →
    since.alive = true ∧ (config = true → since.granted = true)

/-! ### The log -/

theorem unread_cons {e : Event} {log : List Event} {report : PluginReport} :
    Unread (e :: log) report ↔ e = .notified report ∨ e ≠ .read report ∧ Unread log report := by
  constructor
  · rintro ⟨newer, older, heq, hread⟩
    cases newer with
    | nil => exact .inl (List.cons.inj heq).1
    | cons e' newer =>
        obtain ⟨rfl, rfl⟩ := List.cons.inj heq
        rw [List.mem_cons, not_or] at hread
        exact .inr ⟨Ne.symm hread.1, newer, older, rfl, hread.2⟩
  · rintro (rfl | ⟨hread, newer, older, rfl, hnewer⟩)
    · exact ⟨[], log, rfl, List.not_mem_nil⟩
    · refine ⟨e :: newer, older, rfl, ?_⟩
      rw [List.mem_cons, not_or]
      exact ⟨Ne.symm hread, hnewer⟩

/-! ### Drains -/

/-- The drains that there are. -/
def State.drainCount (s : State) : ℕ := s.pluginReportTimer.outstanding + s.drains.length

/-- What is scheduled: as many drains as the flag says, and one for what is eligible. -/
structure Scheduled (s : State) : Prop where
  count : s.stopped = false → s.drainCount = s.pluginReportDrainActive.toNat
  eligible : s.stopped = false → s.eligible ≠ .none → s.pluginReportDrainActive = true

theorem Scheduled.of_stopped {s : State} (h : s.stopped = true) : Scheduled s where
  count hstopped := by rw [h] at hstopped; cases hstopped
  eligible hstopped := by rw [h] at hstopped; cases hstopped

/-- Behind `TrySchedulePendingPluginReports` what is eligible is scheduled. -/
theorem trySchedule_scheduled {s : State}
    (h : s.stopped = false → s.drainCount = s.pluginReportDrainActive.toNat) :
    Scheduled (trySchedulePendingPluginReports s) := by
  unfold trySchedulePendingPluginReports
  split
  · next hskip =>
      refine ⟨h, fun _ heligible => ?_⟩
      simpa [heligible] using hskip
  · next hsend =>
      rw [Bool.or_eq_true, not_or, Bool.not_eq_true] at hsend
      refine ⟨fun hstopped => ?_, fun _ _ => rfl⟩
      have hcount := h hstopped
      rw [hsend.1] at hcount
      have hzero : s.pluginReportTimer.queued = 0 ∧ s.drains.length = 0 := by
        simp only [State.drainCount, ReportTimer.outstanding, Bool.toNat_false] at hcount
        omega
      simp [State.drainCount, ReportTimer.outstanding, ReportTimer.schedule, hzero]

/-! ### What leaves the plugin reports alone -/

/-- A step that leaves the plugin reports alone, but for what it reads. -/
structure PluginFrame (s s' : State) : Prop where
  stopped : s'.stopped = s.stopped
  accepts : s'.serverAcceptsEffectiveConfig = s.serverAcceptsEffectiveConfig
  pending : s'.pendingPluginReports = s.pendingPluginReports
  active : s'.pluginReportDrainActive = s.pluginReportDrainActive
  timer : s'.pluginReportTimer = s.pluginReportTimer
  drains : s'.drains = s.drains
  unread : ∀ report, Unread s'.log report → Unread s.log report
  notified : ∀ report, .notified report ∈ s'.log → .notified report ∈ s.log

theorem PluginFrame.of_log {s s' : State} (hstopped : s'.stopped = s.stopped)
    (haccepts : s'.serverAcceptsEffectiveConfig = s.serverAcceptsEffectiveConfig)
    (hpending : s'.pendingPluginReports = s.pendingPluginReports)
    (hactive : s'.pluginReportDrainActive = s.pluginReportDrainActive)
    (htimer : s'.pluginReportTimer = s.pluginReportTimer) (hdrains : s'.drains = s.drains)
    (hlog : s'.log = s.log ∨ ∃ e, s'.log = e :: s.log ∧ ∀ report, e ≠ .notified report) :
    PluginFrame s s' where
  stopped := hstopped
  accepts := haccepts
  pending := hpending
  active := hactive
  timer := htimer
  drains := hdrains
  unread := by
    intro report hunread
    rcases hlog with hlog | ⟨e, hlog, he⟩
    · rwa [hlog] at hunread
    · rw [hlog, unread_cons] at hunread
      exact hunread.elim (fun h => absurd h (he report)) (·.2)
  notified := by
    intro report hmem
    rcases hlog with hlog | ⟨e, hlog, he⟩
    · rwa [hlog] at hmem
    · rw [hlog, List.mem_cons] at hmem
      exact hmem.elim (fun h => absurd h.symm (he report)) id

theorem FullStatePoint.next_ne_putBack {s : State} {ok : Bool} {point p : FullStatePoint} :
    point.next providers s ok ≠ some (.putBack p) := by
  intro h
  unfold FullStatePoint.next at h
  cases point with
  | claimed | capability | readConfig | readStatus | checkStop =>
      dsimp only at h
      split at h
      · simp at h
      · simp at h
  | configProvider | statusProvider | recheck | send | leave | finallyBlock => simp at h

theorem reportFullState_frame (s : State) : PluginFrame s (reportFullState s) := by
  unfold reportFullState
  split
  · exact .of_log rfl rfl rfl rfl rfl rfl (.inl rfl)
  · dsimp only
    split
    · exact .of_log rfl rfl rfl rfl rfl rfl (.inr ⟨.requested, rfl, fun _ h => by cases h⟩)
    · exact .of_log rfl rfl rfl rfl rfl rfl (.inr ⟨.requested, rfl, fun _ h => by cases h⟩)

theorem claimFullState_frame (s : State) : PluginFrame s (claimFullState s) := by
  unfold claimFullState
  split
  · exact .of_log rfl rfl rfl rfl rfl rfl (.inl rfl)
  · split
    · exact .of_log rfl rfl rfl rfl rfl rfl (.inl rfl)
    · exact .of_log rfl rfl rfl rfl rfl rfl (.inr ⟨.started s.now, rfl, fun _ h => by cases h⟩)

theorem finishFullState_frame (s : State) : PluginFrame s (finishFullState s) := by
  unfold finishFullState
  dsimp only
  split
  · exact .of_log rfl rfl rfl rfl rfl rfl (.inr ⟨.ended s.now, rfl, fun _ h => by cases h⟩)
  · exact .of_log rfl rfl rfl rfl rfl rfl (.inr ⟨.ended s.now, rfl, fun _ h => by cases h⟩)

/-- A step of a callback under way, without the section that ends it. -/
theorem stepFullState_eq_some {s s' : State} {i : ℕ} {ok : Bool}
    (h : stepFullState providers s i ok = some s') :
    ∃ run change, s.fullStateReports[i]? = some run
      ∧ run.point.next providers s ok = some change
      ∧ ((change = .finish ∧ s' = finishFullState { s with
            fullStateReports := s.fullStateReports.eraseIdx i })
        ∨ change ≠ .finish ∧ s' = { change.effect run.since s with
            fullStateReports := change.runs run s.fullStateReports i }) := by
  obtain ⟨run, hrun, h⟩ := Option.bind_eq_some_iff.mp h
  obtain ⟨change, hchange, h⟩ := Option.bind_eq_some_iff.mp h
  refine ⟨run, change, hrun, hchange, ?_⟩
  cases change with
  | finish => exact .inl ⟨rfl, (Option.some.inj h).symm⟩
  | _ => exact .inr ⟨by simp, (Option.some.inj h).symm⟩

theorem stepDrain_eq_some {s s' : State} {i : ℕ} {ok : Bool}
    (h : stepDrain providers s i ok = some s') :
    ∃ run change, s.drains[i]? = some run ∧ run.point.next providers s ok = some change
      ∧ ((change = .finish ∧ s' = finishPluginReports { s with drains := s.drains.eraseIdx i })
        ∨ change ≠ .finish ∧ s' = { change.effect run.since s with
            drains := change.runs run s.drains i }) := by
  obtain ⟨run, hrun, h⟩ := Option.bind_eq_some_iff.mp h
  obtain ⟨change, hchange, h⟩ := Option.bind_eq_some_iff.mp h
  refine ⟨run, change, hrun, hchange, ?_⟩
  cases change with
  | finish => exact .inl ⟨rfl, (Option.some.inj h).symm⟩
  | _ => exact .inr ⟨by simp, (Option.some.inj h).symm⟩

theorem stepFullState_frame {s s' : State} {i : ℕ} {ok : Bool}
    (h : stepFullState providers s i ok = some s') : PluginFrame s s' := by
  obtain ⟨run, change, -, hnext, ⟨rfl, rfl⟩ | ⟨hne, rfl⟩⟩ := stepFullState_eq_some h
  · obtain ⟨h1, h2, h3, h4, h5, h6, h7, h8⟩ := finishFullState_frame { s with
      fullStateReports := s.fullStateReports.eraseIdx i }
    exact ⟨h1, h2, h3, h4, h5, h6, h7, h8⟩
  · cases change with
    | finish => exact absurd rfl hne
    | putBack p => exact absurd hnext FullStatePoint.next_ne_putBack
    | move | acquire | release | returned => exact .of_log rfl rfl rfl rfl rfl rfl (.inl rfl)
    | read report p =>
        exact .of_log rfl rfl rfl rfl rfl rfl (.inr ⟨.read report, rfl, fun _ h => by cases h⟩)
    | submit config p =>
        exact .of_log rfl rfl rfl rfl rfl rfl
          (.inr ⟨.submitted config run.since, rfl, fun _ h => by cases h⟩)

/-- The acts that concern the plugin reports. -/
def Act.OfPlugins : Act → Prop
  | .notifyPluginReport _ | .handleServerCapabilities _ | .stop | .duePluginReports
  | .handleScheduledPluginReports | .drain _ _ => True
  | _ => False

theorem act_frame {s s' : State} {a : Act} (ha : ¬a.OfPlugins)
    (h : act providers s a = some s') : PluginFrame s s' := by
  cases a with
  | tick ticks =>
      obtain rfl := Option.some.inj h
      exact .of_log rfl rfl rfl rfl rfl rfl (.inl rfl)
  | reportFullState =>
      obtain rfl := Option.some.inj h
      exact reportFullState_frame s
  | dueFullState =>
      obtain ⟨timer, -, rfl⟩ := Option.map_eq_some_iff.mp h
      exact .of_log rfl rfl rfl rfl rfl rfl (.inl rfl)
  | handleScheduledFullState =>
      obtain ⟨timer, -, rfl⟩ := Option.map_eq_some_iff.mp h
      obtain ⟨h1, h2, h3, h4, h5, h6, h7, h8⟩ := claimFullState_frame { s with
        fullStateTimer := timer }
      exact ⟨h1, h2, h3, h4, h5, h6, h7, h8⟩
  | spuriousFullState =>
      obtain rfl := Option.some.inj h
      exact claimFullState_frame s
  | fullState i ok => exact stepFullState_frame h
  | notifyPluginReport | handleServerCapabilities | stop | duePluginReports
  | handleScheduledPluginReports | drain => exact absurd trivial ha

/-! ### One drain -/

theorem PluginFrame.scheduled {s s' : State} (h : PluginFrame s s') (hs : Scheduled s) :
    Scheduled s' where
  count := by
    rw [State.drainCount, h.stopped, h.timer, h.drains, h.active]
    exact hs.count
  eligible := by
    rw [State.eligible, h.stopped, h.pending, h.accepts, h.active]
    exact hs.eligible

theorem due_outstanding {timer timer' : ReportTimer} {now : ℕ} (h : timer.due now = some timer') :
    timer'.outstanding = timer.outstanding := by
  obtain ⟨deadline, hdeadline, h⟩ := Option.bind_eq_some_iff.mp h
  split at h
  · obtain rfl := Option.some.inj h
    rw [ReportTimer.outstanding, ReportTimer.outstanding, hdeadline]
    change 0 + (timer.queued + 1) = 1 + timer.queued
    omega
  · cases h

theorem begin_outstanding {timer timer' : ReportTimer} (h : timer.begin = some timer') :
    timer.outstanding = timer'.outstanding + 1 := by
  unfold ReportTimer.begin at h
  split at h
  · cases h
  · obtain rfl := Option.some.inj h
    rw [ReportTimer.outstanding, ReportTimer.outstanding]
    dsimp only
    omega

/-- The first section of a callback that is the one drain there is. -/
theorem claimPluginReports_scheduled {s : State}
    (h : s.stopped = false → s.drainCount + 1 = s.pluginReportDrainActive.toNat) :
    Scheduled (claimPluginReports s) := by
  unfold claimPluginReports
  split
  · next hskip =>
      cases hstopped : s.stopped with
      | true => exact .of_stopped hstopped
      | false =>
          have hinactive : s.pluginReportDrainActive = false := by simpa [hstopped] using hskip
          have hcount := h hstopped
          rw [hinactive, Bool.toNat_false] at hcount
          omega
  · next hclaim =>
      rw [Bool.or_eq_true, not_or, Bool.not_eq_true', Bool.not_eq_false] at hclaim
      refine ⟨fun hstopped => ?_, fun _ _ => hclaim.2⟩
      have hcount := h hstopped
      rw [State.drainCount] at hcount ⊢
      dsimp only
      rw [List.length_append, List.length_singleton]
      omega

theorem finishPluginReports_scheduled {s : State} {i : ℕ} {run : Run DrainPoint}
    (hs : Scheduled s) (hi : s.drains[i]? = some run) :
    Scheduled (finishPluginReports { s with drains := s.drains.eraseIdx i }) := by
  unfold finishPluginReports
  dsimp only
  split
  · next hstopped => exact .of_stopped hstopped
  · refine trySchedule_scheduled fun hstopped => ?_
    have hcount := hs.count hstopped
    obtain ⟨hlt, -⟩ := List.getElem?_eq_some_iff.mp hi
    have hle : s.pluginReportDrainActive.toNat ≤ 1 := Bool.toNat_le _
    rw [State.drainCount] at hcount ⊢
    rw [List.length_eraseIdx_of_lt hlt]
    change s.pluginReportTimer.outstanding + (s.drains.length - 1) = 0
    omega

theorem Change.length_runs {P : Type} {change : Change P} (h : change ≠ .finish) (run : Run P)
    (runs : List (Run P)) (i : ℕ) : (change.runs run runs i).length = runs.length := by
  cases change with
  | finish => exact absurd rfl h
  | _ => exact List.length_set

theorem stepDrain_scheduled {s s' : State} {i : ℕ} {ok : Bool} (hs : Scheduled s)
    (h : stepDrain providers s i ok = some s') : Scheduled s' := by
  obtain ⟨run, change, hrun, hnext, ⟨rfl, rfl⟩ | ⟨hne, rfl⟩⟩ := stepDrain_eq_some h
  · exact finishPluginReports_scheduled hs hrun
  · -- while a callback is under way, the flag is up
    have hactive : s.stopped = false → s.pluginReportDrainActive = true := by
      intro hstopped
      have hcount := hs.count hstopped
      obtain ⟨hlt, -⟩ := List.getElem?_eq_some_iff.mp hrun
      rw [State.drainCount] at hcount
      cases hactive : s.pluginReportDrainActive with
      | true => rfl
      | false =>
          rw [hactive, Bool.toNat_false] at hcount
          omega
    have hframe : (change.effect run.since s).stopped = s.stopped
        ∧ (change.effect run.since s).pluginReportDrainActive = s.pluginReportDrainActive
        ∧ (change.effect run.since s).pluginReportTimer = s.pluginReportTimer := by
      cases change <;> exact ⟨rfl, rfl, rfl⟩
    obtain ⟨hstopped, hflag, htimer⟩ := hframe
    constructor
    · rw [State.drainCount, Change.length_runs hne]
      dsimp only
      rw [hstopped, hflag, htimer]
      exact hs.count
    · dsimp only
      rw [hstopped, hflag]
      exact fun hstopped _ => hactive hstopped

theorem act_scheduled {s s' : State} {a : Act} (hs : Scheduled s)
    (h : act providers s a = some s') : Scheduled s' := by
  cases a with
  | notifyPluginReport report =>
      obtain rfl := Option.some.inj h
      unfold notifyPluginReport
      split
      · exact hs
      · exact trySchedule_scheduled hs.count
  | handleServerCapabilities capabilities =>
      obtain rfl := Option.some.inj h
      unfold handleServerCapabilities
      split
      · exact hs
      · split
        · exact hs
        · exact trySchedule_scheduled hs.count
  | stop =>
      obtain rfl := Option.some.inj h
      unfold OpAmp.stop
      split
      · exact hs
      · exact .of_stopped rfl
  | duePluginReports =>
      obtain ⟨timer, htimer, rfl⟩ := Option.map_eq_some_iff.mp h
      refine ⟨?_, hs.eligible⟩
      rw [State.drainCount]
      dsimp only
      rw [due_outstanding htimer]
      exact hs.count
  | handleScheduledPluginReports =>
      obtain ⟨timer, htimer, rfl⟩ := Option.map_eq_some_iff.mp h
      refine claimPluginReports_scheduled fun hstopped => ?_
      have hcount := hs.count hstopped
      rw [State.drainCount, begin_outstanding htimer] at hcount
      rw [State.drainCount]
      dsimp only
      omega
  | drain i ok => exact stepDrain_scheduled hs h
  | tick | reportFullState | dueFullState | handleScheduledFullState | spuriousFullState
  | fullState => exact (act_frame (by exact id) h).scheduled hs

theorem observe_scheduled {s : State} (hs : Scheduled s) : Scheduled s.observe := by
  unfold State.observe
  split
  · exact hs
  · refine ⟨?_, hs.eligible⟩
    rw [State.drainCount]
    dsimp only
    rw [List.length_map]
    exact hs.count

/-! ### Notifications -/

/-- What is notified is read later or still pending, and a provider is there for it. -/
structure Notified (providers : PluginReportKind) (s : State) : Prop where
  pending : s.stopped = false → ∀ report, Unread s.log report → StillPending s report
  known : ∀ report, .notified report ∈ s.log → providers.has report = true

theorem Notified.provider {s : State} (hs : Notified providers s) {report : PluginReport}
    (h : Unread s.log report) : providers.has report = true := by
  obtain ⟨newer, older, hlog, -⟩ := h
  refine hs.known report ?_
  rw [hlog]
  exact List.mem_append_right _ List.mem_cons_self

theorem PluginFrame.notified_of {s s' : State} (h : PluginFrame s s')
    (hs : Notified providers s) : Notified providers s' where
  pending := by
    intro hstopped report hunread
    unfold StillPending
    rw [h.pending, h.drains]
    exact hs.pending (h.stopped ▸ hstopped) report (h.unread report hunread)
  known := fun report hmem => hs.known report (h.notified report hmem)

/-- What `TrySchedulePendingPluginReports` leaves alone. -/
theorem trySchedule_frame (s : State) :
    (trySchedulePendingPluginReports s).stopped = s.stopped
      ∧ (trySchedulePendingPluginReports s).serverAcceptsEffectiveConfig
        = s.serverAcceptsEffectiveConfig
      ∧ (trySchedulePendingPluginReports s).pendingPluginReports = s.pendingPluginReports
      ∧ (trySchedulePendingPluginReports s).drains = s.drains
      ∧ (trySchedulePendingPluginReports s).fullStateReports = s.fullStateReports
      ∧ (trySchedulePendingPluginReports s).log = s.log := by
  unfold trySchedulePendingPluginReports
  split
  · exact ⟨rfl, rfl, rfl, rfl, rfl, rfl⟩
  · exact ⟨rfl, rfl, rfl, rfl, rfl, rfl⟩

theorem trySchedule_notified {s : State} (hs : Notified providers s) :
    Notified providers (trySchedulePendingPluginReports s) := by
  obtain ⟨hstopped, -, hpending, hdrains, -, hlog⟩ := trySchedule_frame s
  constructor
  · unfold StillPending
    rw [hstopped, hlog, hpending, hdrains]
    exact hs.pending
  · rw [hlog]
    exact hs.known

theorem has_add (k : PluginReportKind) (r r' : PluginReport) :
    (k.add r).has r' = true ↔ k.has r' = true ∨ r = r' := by
  cases r <;> cases r' <;> simp [PluginReportKind.add, PluginReportKind.has]

theorem has_of_without {k reports : PluginReportKind} {r : PluginReport} (h : k.has r = true) :
    (k.without reports).has r = true ∨ reports.has r = true := by
  cases r with
  | effectiveConfig =>
      have h : k.effectiveConfig = true := h
      cases hreports : reports.effectiveConfig with
      | true => exact .inr hreports
      | false => exact .inl (by simp [PluginReportKind.without, PluginReportKind.has, h, hreports])
  | remoteConfigStatus =>
      have h : k.remoteConfigStatus = true := h
      cases hreports : reports.remoteConfigStatus with
      | true => exact .inr hreports
      | false => exact .inl (by simp [PluginReportKind.without, PluginReportKind.has, h, hreports])

theorem claimPluginReports_notified {s : State} (hs : Notified providers s) :
    Notified providers (claimPluginReports s) := by
  unfold claimPluginReports
  split
  · exact hs
  · refine ⟨fun hstopped report hunread => ?_, hs.known⟩
    rcases hs.pending hstopped report hunread with hpending | ⟨run, hrun, hread⟩
    · have hclaims : (s.pendingPluginReports.without s.eligible).has report = true
          ∨ s.eligible.has report = true := has_of_without hpending
      rcases hclaims with hleft | hclaimed
      · exact .inl hleft
      · -- it is on its way with the callback that claims it
        refine .inr ⟨_, List.mem_append_right _ (List.mem_singleton.mpr rfl), ?_⟩
        have hne : s.eligible ≠ .none := by
          intro hnone
          rw [hnone] at hclaimed
          cases report <;> cases hclaimed
        rw [if_neg hne]
        exact hclaimed
    · exact .inr ⟨run, List.mem_append_left _ hrun, hread⟩

/-- The point behind a step. -/
def Change.point {P : Type} : Change P → Option P
  | .finish => none
  | .move p | .acquire p | .release p | .read _ p | .returned p | .putBack p | .submit _ p =>
      some p

theorem afterConfig_willRead {status : Bool} :
    (afterConfig status).willRead .remoteConfigStatus = status := by
  cases status <;> rfl

/-- **A report that was claimed** stays on its way, is read, or is put back. -/
theorem DrainPoint.next_willRead {s : State} {ok : Bool} {point : DrainPoint}
    {report : PluginReport} {change : Change DrainPoint} (hstopped : s.stopped = false)
    (hprovider : providers.has report = true) (hread : point.willRead report = true)
    (h : point.next providers s ok = some change) :
    (∃ p, change.point = some p ∧ p.willRead report = true) ∨ (∃ p, change = .read report p)
      ∨ report = .effectiveConfig ∧ ∃ p, change = .putBack p := by
  have goes {p : DrainPoint} (hp : change.point = some p) (hread : p.willRead report = true) :
      (∃ p, change.point = some p ∧ p.willRead report = true) ∨ (∃ p, change = .read report p)
        ∨ report = .effectiveConfig ∧ ∃ p, change = .putBack p :=
    .inl ⟨p, hp, hread⟩
  cases point with
  | claimed reports =>
      unfold DrainPoint.next at h
      dsimp only at h
      split at h
      · cases h
      · split at h
        · next heffective =>
            obtain rfl := Option.some.inj h
            cases report with
            | effectiveConfig => exact goes rfl rfl
            | remoteConfigStatus => exact goes rfl hread
        · next heffective =>
            obtain rfl := Option.some.inj h
            cases report with
            | effectiveConfig => exact absurd hread heffective
            | remoteConfigStatus => exact goes rfl (afterConfig_willRead.trans hread)
  | capability again status =>
      rw [DrainPoint.next] at h
      split at h
      · obtain rfl := Option.some.inj h
        cases report with
        | effectiveConfig => exact goes rfl hread
        | remoteConfigStatus => exact goes rfl hread
      · obtain rfl := Option.some.inj h
        cases report with
        | effectiveConfig => exact goes rfl hread
        | remoteConfigStatus => exact goes rfl hread
  | stop again status =>
      rw [DrainPoint.next, hstopped, if_neg Bool.false_ne_true] at h
      obtain rfl := Option.some.inj h
      cases report with
      | effectiveConfig =>
          obtain rfl : again = false := by simpa [DrainPoint.willRead] using hread
          exact goes rfl rfl
      | remoteConfigStatus =>
          refine goes rfl ?_
          cases again with
          | true => exact hread
          | false => exact hread
  | recheck again status =>
      rw [DrainPoint.next, hstopped, if_neg Bool.false_ne_true] at h
      split at h
      · obtain rfl := Option.some.inj h
        cases report with
        | effectiveConfig =>
            obtain rfl : again = false := by simpa [DrainPoint.willRead] using hread
            exact goes rfl rfl
        | remoteConfigStatus =>
            refine goes rfl ?_
            cases again with
            | true => exact hread
            | false => exact hread
      · obtain rfl := Option.some.inj h
        cases report with
        | effectiveConfig => exact .inr (.inr ⟨rfl, _, rfl⟩)
        | remoteConfigStatus => exact goes rfl (afterConfig_willRead.trans hread)
  | readConfig status =>
      rw [DrainPoint.next, hstopped, Bool.false_or] at h
      split at h
      · next hnone =>
          obtain rfl := Option.some.inj h
          cases report with
          | effectiveConfig =>
              have hprovider : providers.effectiveConfig = true := hprovider
              rw [hprovider] at hnone
              cases hnone
          | remoteConfigStatus => exact goes rfl (afterConfig_willRead.trans hread)
      · obtain rfl := Option.some.inj h
        cases report with
        | effectiveConfig => exact .inr (.inl ⟨_, rfl⟩)
        | remoteConfigStatus => exact goes rfl hread
  | configProvider status =>
      cases report with
      | effectiveConfig => cases hread
      | remoteConfigStatus =>
          rw [DrainPoint.next] at h
          split at h
          · obtain rfl := Option.some.inj h
            exact goes rfl hread
          · obtain rfl := Option.some.inj h
            exact goes rfl (afterConfig_willRead.trans hread)
  | sendConfig status =>
      cases report with
      | effectiveConfig => cases hread
      | remoteConfigStatus =>
          obtain rfl := Option.some.inj h
          exact goes rfl (afterConfig_willRead.trans hread)
  | readStatus =>
      cases report with
      | effectiveConfig => cases hread
      | remoteConfigStatus =>
          have hprovider : providers.remoteConfigStatus = true := hprovider
          rw [DrainPoint.next, hstopped, hprovider] at h
          obtain rfl := Option.some.inj h
          exact .inr (.inl ⟨_, rfl⟩)
  | statusProvider | checkStop | sendStatus | leave | finallyBlock =>
      cases report <;> cases hread

theorem finishPluginReports_notified {s : State} (hs : Notified providers s) :
    Notified providers (finishPluginReports s) := by
  unfold finishPluginReports
  dsimp only
  split
  · exact ⟨hs.pending, hs.known⟩
  · exact trySchedule_notified ⟨hs.pending, hs.known⟩

/-- What a step of a callback does to the fields. -/
theorem Change.effect_frame {P : Type} (change : Change P) (since : Since) (s : State) :
    (change.effect since s).stopped = s.stopped
      ∧ (change.effect since s).serverAcceptsEffectiveConfig = s.serverAcceptsEffectiveConfig
      ∧ (change.effect since s).drains = s.drains
      ∧ (change.effect since s).fullStateReports = s.fullStateReports
      ∧ (change.effect since s).pluginReportDrainActive = s.pluginReportDrainActive
      ∧ (change.effect since s).pluginReportTimer = s.pluginReportTimer := by
  cases change <;> exact ⟨rfl, rfl, rfl, rfl, rfl, rfl⟩

/-- What a step of a callback logs: what it read or submitted. -/
theorem Change.effect_log {P : Type} (change : Change P) (since : Since) (s : State) :
    (change.effect since s).log = s.log
      ∨ (∃ report p, change = .read report p
          ∧ (change.effect since s).log = .read report :: s.log)
      ∨ ∃ config p, change = .submit config p
          ∧ (change.effect since s).log = .submitted config since :: s.log := by
  cases change with
  | read report p => exact .inr (.inl ⟨report, p, rfl, rfl⟩)
  | submit config p => exact .inr (.inr ⟨config, p, rfl, rfl⟩)
  | _ => exact .inl rfl

theorem Change.effect_pending {P : Type} (change : Change P) (since : Since) {s : State}
    {report : PluginReport} (h : s.pendingPluginReports.has report = true) :
    (change.effect since s).pendingPluginReports.has report = true := by
  cases change with
  | putBack p => exact (has_add _ _ _).mpr (.inl h)
  | _ => exact h

/-- The callback behind a step is among those under way. -/
theorem Change.mem_runs {P : Type} {change : Change P} {run : Run P} {runs : List (Run P)}
    {i : ℕ} (hi : runs[i]? = some run) {p : P} (hp : change.point = some p) :
    ∃ run' ∈ change.runs run runs i, run'.point = p := by
  obtain ⟨hlt, -⟩ := List.getElem?_eq_some_iff.mp hi
  cases change with
  | finish => cases hp
  | _ =>
      obtain rfl := Option.some.inj hp
      exact ⟨_, List.mem_set hlt _, rfl⟩

/-- The other callbacks stay. -/
theorem Change.mem_runs_of_ne {P : Type} {change : Change P} {run run' : Run P}
    {runs : List (Run P)} {i j : ℕ} (hj : runs[j]? = some run') (hne : i ≠ j) :
    run' ∈ change.runs run runs i := by
  unfold Change.runs
  split
  · exact List.mem_eraseIdx_iff_getElem?.mpr ⟨j, Ne.symm hne, hj⟩
  · refine List.mem_of_getElem? (i := j) ?_
    rw [List.getElem?_set_ne hne]
    exact hj

theorem stepDrain_notified {s s' : State} {i : ℕ} {ok : Bool} (hs : Notified providers s)
    (h : stepDrain providers s i ok = some s') : Notified providers s' := by
  obtain ⟨run, change, hrun, hnext, hs'⟩ := stepDrain_eq_some h
  have hmoved : Notified providers { change.effect run.since s with
      drains := change.runs run s.drains i } := by
    obtain ⟨hstopped, -⟩ := change.effect_frame run.since s
    constructor
    · intro hstopped' report hunread
      dsimp only at hstopped' hunread
      rw [hstopped] at hstopped'
      -- what is unread now was unread before, and is not read by this step
      have hbefore : Unread s.log report ∧ ¬∃ p, change = .read report p := by
        cases change with
        | read report' p =>
            rcases unread_cons.mp hunread with h | ⟨hne, hunread⟩
            · cases h
            · refine ⟨hunread, ?_⟩
              rintro ⟨p', heq⟩
              cases heq
              exact hne rfl
        | submit config p =>
            rcases unread_cons.mp hunread with h | ⟨-, hunread⟩
            · cases h
            · exact ⟨hunread, fun ⟨p', heq⟩ => nomatch heq⟩
        | _ => exact ⟨hunread, fun ⟨p', heq⟩ => nomatch heq⟩
      rcases hs.pending hstopped' report hbefore.1 with hpending | ⟨run', hrun', hread⟩
      · exact .inl (change.effect_pending run.since hpending)
      · obtain ⟨j, hj⟩ := List.mem_iff_getElem?.mp hrun'
        by_cases hij : i = j
        · subst hij
          obtain rfl : run = run' := Option.some.inj (hrun.symm.trans hj)
          rcases DrainPoint.next_willRead hstopped' (hs.provider hbefore.1) hread hnext with
            ⟨p, hp, hread⟩ | hreads | ⟨rfl, p, rfl⟩
          · obtain ⟨run', hmem, rfl⟩ := Change.mem_runs hrun hp
            exact .inr ⟨run', hmem, hread⟩
          · exact absurd hreads hbefore.2
          · refine .inl ?_
            change (s.pendingPluginReports.add .effectiveConfig).has .effectiveConfig = true
            exact (has_add _ _ _).mpr (.inr rfl)
        · exact .inr ⟨run', Change.mem_runs_of_ne hj hij, hread⟩
    · intro report hmem
      rcases change.effect_log run.since s with hlog | ⟨_, _, -, hlog⟩ | ⟨_, _, -, hlog⟩
      · exact hs.known report (hlog ▸ hmem)
      · dsimp only at hmem
        rw [hlog] at hmem
        exact hs.known report (by simpa using hmem)
      · dsimp only at hmem
        rw [hlog] at hmem
        exact hs.known report (by simpa using hmem)
  rcases hs' with ⟨rfl, rfl⟩ | ⟨-, rfl⟩
  · exact finishPluginReports_notified hmoved
  · exact hmoved

theorem act_notified {s s' : State} {a : Act} (hs : Notified providers s)
    (h : act providers s a = some s') : Notified providers s' := by
  cases a with
  | notifyPluginReport report =>
      obtain rfl := Option.some.inj h
      unfold notifyPluginReport
      split
      · exact hs
      · next hsend =>
          rw [Bool.or_eq_true, not_or, Bool.not_eq_true', Bool.not_eq_false] at hsend
          refine trySchedule_notified ⟨fun hstopped report' hunread => ?_, fun report' hmem => ?_⟩
          · rcases unread_cons.mp hunread with heq | ⟨-, hunread⟩
            · obtain rfl := Event.notified.inj heq
              exact .inl ((has_add _ _ _).mpr (.inr rfl))
            · rcases hs.pending hstopped report' hunread with hpending | hread
              · exact .inl ((has_add _ _ _).mpr (.inl hpending))
              · exact .inr hread
          · rcases List.mem_cons.mp hmem with heq | hmem
            · obtain rfl := Event.notified.inj heq
              exact hsend.1
            · exact hs.known report' hmem
  | handleServerCapabilities capabilities =>
      obtain rfl := Option.some.inj h
      unfold handleServerCapabilities
      split
      · exact hs
      · split
        · exact hs
        · exact trySchedule_notified ⟨hs.pending, hs.known⟩
  | stop =>
      obtain rfl := Option.some.inj h
      unfold OpAmp.stop
      split
      · exact hs
      · exact ⟨(nomatch ·), hs.known⟩
  | duePluginReports =>
      obtain ⟨timer, -, rfl⟩ := Option.map_eq_some_iff.mp h
      exact ⟨hs.pending, hs.known⟩
  | handleScheduledPluginReports =>
      obtain ⟨timer, -, rfl⟩ := Option.map_eq_some_iff.mp h
      exact claimPluginReports_notified ⟨hs.pending, hs.known⟩
  | drain i ok => exact stepDrain_notified hs h
  | tick | reportFullState | dueFullState | handleScheduledFullState | spuriousFullState
  | fullState => exact (act_frame (by exact id) h).notified_of hs

theorem observe_notified {s : State} (hs : Notified providers s) :
    Notified providers s.observe := by
  unfold State.observe
  split
  · exact hs
  · refine ⟨fun hstopped report hunread => ?_, hs.known⟩
    rcases hs.pending hstopped report hunread with hpending | ⟨run, hrun, hread⟩
    · exact .inl hpending
    · exact .inr ⟨_, List.mem_map_of_mem hrun, hread⟩

/-! ### Admission -/

/-- The flags know of a moment as the present one, at which the reporter is not stopped. -/
def Since.Saw (accepts : Bool) (since : Since) : Prop :=
  since.alive = true ∧ (accepts = true → since.granted = true)

/-- What a drain has established where it stands. -/
def DrainPoint.Admits (stopped : Bool) (since : Since) : DrainPoint → Prop
  | .stop true _ => stopped = true ∨ since.granted = true
  | .sendConfig _ => since.alive = true ∧ since.granted = true
  | .sendStatus => since.alive = true
  | _ => True

/-- What a full-state report has established where it stands. -/
def FullStatePoint.Admits (stopped accepts : Bool) (since : Since) : FullStatePoint → Prop
  | .recheck _ => since.alive = true
      ∧ (accepts = true → stopped = false ∨ since.granted = true)
  | .send files => since.alive = true ∧ (files = true → since.granted = true)
  | _ => True

/-- What is submitted was admitted, and so will be what is about to be. -/
structure Admitted (s : State) : Prop where
  drains : ∀ run ∈ s.drains, run.point.Admits s.stopped run.since
  fullState : ∀ run ∈ s.fullStateReports,
    run.point.Admits s.stopped s.serverAcceptsEffectiveConfig run.since
  submitted : ∀ config since, .submitted config since ∈ s.log →
    since.alive = true ∧ (config = true → since.granted = true)

/-- The callbacks under way have seen the present moment. -/
structure Observed (s : State) : Prop where
  drains : s.stopped = false →
    ∀ run ∈ s.drains, run.since.Saw s.serverAcceptsEffectiveConfig
  fullState : s.stopped = false →
    ∀ run ∈ s.fullStateReports, run.since.Saw s.serverAcceptsEffectiveConfig

theorem observe_observed (s : State) : Observed s.observe := by
  have saw {P : Type} {accepts : Bool} {runs : List (Run P)} :
      ∀ run ∈ runs.map (Run.observe accepts), run.since.Saw accepts := by
    intro run hrun
    obtain ⟨run, -, rfl⟩ := List.mem_map.mp hrun
    refine ⟨rfl, fun haccepts => ?_⟩
    change (run.since.granted || accepts) = true
    rw [haccepts, Bool.or_true]
  unfold State.observe
  split
  · next hstopped =>
      constructor
      · intro h
        rw [hstopped] at h
        cases h
      · intro h
        rw [hstopped] at h
        cases h
  · exact ⟨fun _ => saw, fun _ => saw⟩

theorem observe_admitted {s : State} (hs : Admitted s) : Admitted s.observe := by
  unfold State.observe
  split
  · exact hs
  · refine ⟨fun run hrun => ?_, fun run hrun => ?_, hs.submitted⟩
    · obtain ⟨run, hmem, rfl⟩ := List.mem_map.mp hrun
      have hadmits := hs.drains run hmem
      obtain ⟨point, alive, granted⟩ := run
      cases point with
      | stop again status =>
          cases again with
          | true => exact hadmits.imp_right fun h => Bool.or_eq_true_iff.mpr (.inl h)
          | false => trivial
      | sendConfig status => exact ⟨rfl, Bool.or_eq_true_iff.mpr (.inl hadmits.2)⟩
      | sendStatus => rfl
      | _ => trivial
    · obtain ⟨run, hmem, rfl⟩ := List.mem_map.mp hrun
      have hadmits := hs.fullState run hmem
      obtain ⟨point, alive, granted⟩ := run
      cases point with
      | recheck files =>
          exact ⟨rfl, fun h => (hadmits.2 h).imp_right fun h => Bool.or_eq_true_iff.mpr (.inl h)⟩
      | send files => exact ⟨rfl, fun h => Bool.or_eq_true_iff.mpr (.inl (hadmits.2 h))⟩
      | _ => trivial

theorem afterConfig_admits (stopped : Bool) (since : Since) (status : Bool) :
    (afterConfig status).Admits stopped since := by
  cases status <;> trivial

/-- **A step of a drain** establishes what the point behind it needs. -/
theorem DrainPoint.next_admits {s : State} {ok : Bool} {run : Run DrainPoint}
    {change : Change DrainPoint}
    (hsaw : s.stopped = false → run.since.Saw s.serverAcceptsEffectiveConfig)
    (hadmits : run.point.Admits s.stopped run.since)
    (h : run.point.next providers s ok = some change) :
    (∀ run', change.run run = some run' → run'.point.Admits s.stopped run'.since)
      ∧ ∀ config p, change = .submit config p →
          run.since.alive = true ∧ (config = true → run.since.granted = true) := by
  obtain ⟨point, since⟩ := run
  have goes {p : DrainPoint} {since' : Since}
      (hrun : change.run ⟨point, since⟩ = some ⟨p, since'⟩) (hp : p.Admits s.stopped since')
      (hsubmit : ∀ config p, change = .submit config p →
        since.alive = true ∧ (config = true → since.granted = true)) :
      (∀ run', change.run ⟨point, since⟩ = some run' → run'.point.Admits s.stopped run'.since)
        ∧ ∀ config p, change = .submit config p →
            since.alive = true ∧ (config = true → since.granted = true) := by
    refine ⟨fun run' hrun' => ?_, hsubmit⟩
    rw [hrun] at hrun'
    obtain rfl := Option.some.inj hrun'
    exact hp
  cases point with
  | claimed reports =>
      unfold DrainPoint.next at h
      dsimp only at h
      split at h
      · cases h
      · split at h
        · obtain rfl := Option.some.inj h
          exact goes rfl trivial fun _ _ h => nomatch h
        · obtain rfl := Option.some.inj h
          exact goes rfl (afterConfig_admits _ _ _) fun _ _ h => nomatch h
  | capability again status =>
      rw [DrainPoint.next] at h
      split at h
      · next haccepts =>
          obtain rfl := Option.some.inj h
          refine goes rfl ?_ fun _ _ h => nomatch h
          cases again with
          | false => trivial
          | true =>
              -- the moment of this read counts, unless the reporter was stopped before
              cases hstopped : s.stopped with
              | true => exact .inl rfl
              | false => exact .inr ((hsaw hstopped).2 haccepts)
      · obtain rfl := Option.some.inj h
        exact goes rfl trivial fun _ _ h => nomatch h
  | stop again status =>
      rw [DrainPoint.next] at h
      split at h
      · obtain rfl := Option.some.inj h
        exact goes rfl trivial fun _ _ h => nomatch h
      · next hstopped =>
          rw [Bool.not_eq_true] at hstopped
          obtain rfl := Option.some.inj h
          refine goes rfl ?_ fun _ _ h => nomatch h
          cases again with
          | false => trivial
          | true =>
              refine ⟨(hsaw hstopped).1, hadmits.resolve_left fun h => ?_⟩
              rw [hstopped] at h
              cases h
  | recheck again status =>
      rw [DrainPoint.next] at h
      split at h
      · obtain rfl := Option.some.inj h
        exact goes rfl (afterConfig_admits _ _ _) fun _ _ h => nomatch h
      · next hstopped =>
          rw [Bool.not_eq_true] at hstopped
          split at h
          · next haccepts =>
              obtain rfl := Option.some.inj h
              refine goes rfl ?_ fun _ _ h => nomatch h
              cases again with
              | false => trivial
              | true => exact ⟨(hsaw hstopped).1, (hsaw hstopped).2 haccepts⟩
          · obtain rfl := Option.some.inj h
            exact goes rfl (afterConfig_admits _ _ _) fun _ _ h => nomatch h
  | readConfig status =>
      rw [DrainPoint.next] at h
      split at h
      · obtain rfl := Option.some.inj h
        exact goes rfl (afterConfig_admits _ _ _) fun _ _ h => nomatch h
      · obtain rfl := Option.some.inj h
        exact goes rfl trivial fun _ _ h => nomatch h
  | configProvider status =>
      rw [DrainPoint.next] at h
      split at h
      · obtain rfl := Option.some.inj h
        exact goes rfl trivial fun _ _ h => nomatch h
      · obtain rfl := Option.some.inj h
        exact goes rfl (afterConfig_admits _ _ _) fun _ _ h => nomatch h
  | sendConfig status =>
      obtain rfl := Option.some.inj h
      exact goes rfl (afterConfig_admits _ _ _) fun _ _ _ => ⟨hadmits.1, fun _ => hadmits.2⟩
  | readStatus =>
      rw [DrainPoint.next] at h
      split at h
      · obtain rfl := Option.some.inj h
        exact goes rfl trivial fun _ _ h => nomatch h
      · obtain rfl := Option.some.inj h
        exact goes rfl trivial fun _ _ h => nomatch h
  | statusProvider =>
      rw [DrainPoint.next] at h
      split at h
      · obtain rfl := Option.some.inj h
        exact goes rfl trivial fun _ _ h => nomatch h
      · obtain rfl := Option.some.inj h
        exact goes rfl trivial fun _ _ h => nomatch h
  | checkStop =>
      rw [DrainPoint.next] at h
      split at h
      · obtain rfl := Option.some.inj h
        exact goes rfl trivial fun _ _ h => nomatch h
      · next hstopped =>
          rw [Bool.not_eq_true] at hstopped
          obtain rfl := Option.some.inj h
          exact goes rfl (hsaw hstopped).1 fun _ _ h => nomatch h
  | sendStatus =>
      obtain rfl := Option.some.inj h
      refine goes rfl trivial fun config p heq => ?_
      obtain ⟨rfl, -⟩ := Change.submit.inj heq
      exact ⟨hadmits, fun h => nomatch h⟩
  | leave =>
      obtain rfl := Option.some.inj h
      exact goes rfl trivial fun _ _ h => nomatch h
  | finallyBlock =>
      obtain rfl := Option.some.inj h
      refine ⟨fun run' h => ?_, fun config p h => ?_⟩
      · cases h
      · cases h

/-- **A step of a full-state report** establishes what the point behind it needs. -/
theorem FullStatePoint.next_admits {s : State} {ok : Bool} {run : Run FullStatePoint}
    {change : Change FullStatePoint}
    (hsaw : s.stopped = false → run.since.Saw s.serverAcceptsEffectiveConfig)
    (hadmits : run.point.Admits s.stopped s.serverAcceptsEffectiveConfig run.since)
    (h : run.point.next providers s ok = some change) :
    (∀ run', change.run run = some run' →
        run'.point.Admits s.stopped s.serverAcceptsEffectiveConfig run'.since)
      ∧ ∀ config p, change = .submit config p →
          run.since.alive = true ∧ (config = true → run.since.granted = true) := by
  obtain ⟨point, since⟩ := run
  have goes {p : FullStatePoint} {since' : Since}
      (hrun : change.run ⟨point, since⟩ = some ⟨p, since'⟩)
      (hp : p.Admits s.stopped s.serverAcceptsEffectiveConfig since')
      (hsubmit : ∀ config p, change = .submit config p →
        since.alive = true ∧ (config = true → since.granted = true)) :
      (∀ run', change.run ⟨point, since⟩ = some run' →
          run'.point.Admits s.stopped s.serverAcceptsEffectiveConfig run'.since)
        ∧ ∀ config p, change = .submit config p →
            since.alive = true ∧ (config = true → since.granted = true) := by
    refine ⟨fun run' hrun' => ?_, hsubmit⟩
    rw [hrun] at hrun'
    obtain rfl := Option.some.inj hrun'
    exact hp
  cases point with
  | claimed =>
      rw [FullStatePoint.next] at h
      split at h
      · cases h
      · obtain rfl := Option.some.inj h
        exact goes rfl trivial fun _ _ h => nomatch h
  | capability | readConfig | readStatus =>
      rw [FullStatePoint.next] at h
      split at h
      · obtain rfl := Option.some.inj h
        exact goes rfl trivial fun _ _ h => nomatch h
      · obtain rfl := Option.some.inj h
        exact goes rfl trivial fun _ _ h => nomatch h
  | configProvider | statusProvider | leave =>
      obtain rfl := Option.some.inj h
      exact goes rfl trivial fun _ _ h => nomatch h
  | checkStop files =>
      rw [FullStatePoint.next] at h
      split at h
      · obtain rfl := Option.some.inj h
        exact goes rfl trivial fun _ _ h => nomatch h
      · next hstopped =>
          rw [Bool.not_eq_true] at hstopped
          obtain rfl := Option.some.inj h
          exact goes rfl ⟨(hsaw hstopped).1, fun _ => .inl hstopped⟩ fun _ _ h => nomatch h
  | recheck files =>
      obtain rfl := Option.some.inj h
      refine goes rfl ⟨hadmits.1, fun hfiles => ?_⟩ fun _ _ h => nomatch h
      have haccepts := (Bool.and_eq_true_iff.mp hfiles).2
      rcases hadmits.2 haccepts with hstopped | hgranted
      · exact (hsaw hstopped).2 haccepts
      · exact hgranted
  | send files =>
      obtain rfl := Option.some.inj h
      refine goes rfl trivial fun config p heq => ?_
      obtain ⟨rfl, -⟩ := Change.submit.inj heq
      exact hadmits
  | finallyBlock =>
      obtain rfl := Option.some.inj h
      refine ⟨fun run' h => ?_, fun config p h => ?_⟩
      · cases h
      · cases h

/-- The callbacks behind a step are those before it and the one that took it. -/
theorem Change.mem_runs_cases {P : Type} {change : Change P} {run run' : Run P}
    {runs : List (Run P)} {i : ℕ} (h : run' ∈ change.runs run runs i) :
    run' ∈ runs ∨ change.run run = some run' := by
  unfold Change.runs at h
  split at h
  · exact .inl (List.mem_of_mem_eraseIdx h)
  · next heq =>
      rcases List.mem_or_eq_of_mem_set h with hmem | rfl
      · exact .inl hmem
      · exact .inr heq

theorem trySchedule_admitted {s : State} (hs : Admitted s) :
    Admitted (trySchedulePendingPluginReports s) := by
  obtain ⟨hstopped, haccepts, -, hdrains, hfullState, hlog⟩ := trySchedule_frame s
  constructor
  · rw [hstopped, hdrains]
    exact hs.drains
  · rw [hstopped, haccepts, hfullState]
    exact hs.fullState
  · rw [hlog]
    exact hs.submitted

/-- An event that is no submission. -/
theorem Admitted.cons {log : List Event} {e : Event}
    (hs : ∀ config since, .submitted config since ∈ log →
      since.alive = true ∧ (config = true → since.granted = true))
    (he : ∀ config since, e ≠ .submitted config since) :
    ∀ config since, .submitted config since ∈ e :: log →
      since.alive = true ∧ (config = true → since.granted = true) := by
  intro config since hmem
  rcases List.mem_cons.mp hmem with heq | hmem
  · exact absurd heq.symm (he config since)
  · exact hs config since hmem

/-- The log behind a step of a callback. -/
theorem Change.effect_submitted {P : Type} {change : Change P} {since : Since} {s : State}
    (hs : ∀ config since, .submitted config since ∈ s.log →
      since.alive = true ∧ (config = true → since.granted = true))
    (hsubmit : ∀ config p, change = .submit config p →
      since.alive = true ∧ (config = true → since.granted = true)) :
    ∀ config since', .submitted config since' ∈ (change.effect since s).log →
      since'.alive = true ∧ (config = true → since'.granted = true) := by
  rcases change.effect_log since s with hlog | ⟨report, p, -, hlog⟩ | ⟨config, p, heq, hlog⟩
  · rw [hlog]
    exact hs
  · rw [hlog]
    exact Admitted.cons hs fun _ _ h => nomatch h
  · rw [hlog]
    intro config' since' hmem
    rcases List.mem_cons.mp hmem with heq' | hmem
    · obtain ⟨rfl, rfl⟩ := Event.submitted.inj heq'
      exact hsubmit config' p heq
    · exact hs config' since' hmem

theorem stepDrain_admitted {s s' : State} {i : ℕ} {ok : Bool} (hs : Admitted s)
    (hobserved : Observed s) (h : stepDrain providers s i ok = some s') : Admitted s' := by
  obtain ⟨run, change, hrun, hnext, hs'⟩ := stepDrain_eq_some h
  have hmem := List.mem_of_getElem? hrun
  obtain ⟨hpoint, hsubmit⟩ := DrainPoint.next_admits
    (fun hstopped => hobserved.drains hstopped run hmem) (hs.drains run hmem) hnext
  obtain ⟨hstopped, haccepts, -, hfullState, -⟩ := change.effect_frame run.since s
  have hmoved : Admitted { change.effect run.since s with
      drains := change.runs run s.drains i } := by
    constructor
    · intro run' hrun'
      dsimp only
      rw [hstopped]
      rcases Change.mem_runs_cases hrun' with hold | hnew
      · exact hs.drains run' hold
      · exact hpoint run' hnew
    · dsimp only
      rw [hstopped, haccepts, hfullState]
      exact hs.fullState
    · exact Change.effect_submitted hs.submitted hsubmit
  rcases hs' with ⟨rfl, rfl⟩ | ⟨-, rfl⟩
  · unfold finishPluginReports
    dsimp only
    split
    · exact ⟨hmoved.drains, hmoved.fullState, hmoved.submitted⟩
    · exact trySchedule_admitted ⟨hmoved.drains, hmoved.fullState, hmoved.submitted⟩
  · exact hmoved

theorem stepFullState_admitted {s s' : State} {i : ℕ} {ok : Bool} (hs : Admitted s)
    (hobserved : Observed s) (h : stepFullState providers s i ok = some s') : Admitted s' := by
  obtain ⟨run, change, hrun, hnext, hs'⟩ := stepFullState_eq_some h
  have hmem := List.mem_of_getElem? hrun
  obtain ⟨hpoint, hsubmit⟩ := FullStatePoint.next_admits
    (fun hstopped => hobserved.fullState hstopped run hmem) (hs.fullState run hmem) hnext
  obtain ⟨hstopped, haccepts, hdrains, -⟩ := change.effect_frame run.since s
  have hmoved : Admitted { change.effect run.since s with
      fullStateReports := change.runs run s.fullStateReports i } := by
    constructor
    · dsimp only
      rw [hstopped, hdrains]
      exact hs.drains
    · intro run' hrun'
      dsimp only
      rw [hstopped, haccepts]
      rcases Change.mem_runs_cases hrun' with hold | hnew
      · exact hs.fullState run' hold
      · exact hpoint run' hnew
    · exact Change.effect_submitted hs.submitted hsubmit
  rcases hs' with ⟨rfl, rfl⟩ | ⟨-, rfl⟩
  · unfold finishFullState
    dsimp only
    split
    · exact ⟨hmoved.drains, hmoved.fullState,
        Admitted.cons hmoved.submitted fun _ _ h => nomatch h⟩
    · exact ⟨hmoved.drains, hmoved.fullState,
        Admitted.cons hmoved.submitted fun _ _ h => nomatch h⟩
  · exact hmoved

theorem claimFullState_admitted {s : State} (hs : Admitted s) : Admitted (claimFullState s) := by
  unfold claimFullState
  split
  · exact hs
  · split
    · exact ⟨hs.drains, hs.fullState, hs.submitted⟩
    · refine ⟨hs.drains, fun run hrun => ?_, Admitted.cons hs.submitted fun _ _ h => nomatch h⟩
      rcases List.mem_append.mp hrun with hold | hnew
      · exact hs.fullState run hold
      · rw [List.mem_singleton.mp hnew]
        trivial

theorem act_admitted {s s' : State} {a : Act} (hs : Admitted s) (hobserved : Observed s)
    (h : act providers s a = some s') : Admitted s' := by
  cases a with
  | tick ticks =>
      obtain rfl := Option.some.inj h
      exact ⟨hs.drains, hs.fullState, hs.submitted⟩
  | notifyPluginReport report =>
      obtain rfl := Option.some.inj h
      unfold notifyPluginReport
      split
      · exact hs
      · exact trySchedule_admitted ⟨hs.drains, hs.fullState,
          Admitted.cons hs.submitted fun _ _ h => nomatch h⟩
  | handleServerCapabilities capabilities =>
      obtain rfl := Option.some.inj h
      unfold handleServerCapabilities
      split
      · exact hs
      · split
        · exact hs
        · next hstopped =>
            rw [Bool.not_eq_true] at hstopped
            refine trySchedule_admitted ⟨hs.drains, fun run hrun => ?_, hs.submitted⟩
            -- the reporter is not stopped, whatever the capabilities are now
            have hadmits := hs.fullState run hrun
            dsimp only at hadmits ⊢
            generalize run.point = point at hadmits
            cases point with
            | recheck files => exact ⟨hadmits.1, fun _ => .inl hstopped⟩
            | send files => exact hadmits
            | _ => trivial
  | reportFullState =>
      obtain rfl := Option.some.inj h
      unfold reportFullState
      split
      · exact hs
      · dsimp only
        split
        · exact ⟨hs.drains, hs.fullState, Admitted.cons hs.submitted fun _ _ h => nomatch h⟩
        · exact ⟨hs.drains, hs.fullState, Admitted.cons hs.submitted fun _ _ h => nomatch h⟩
  | stop =>
      obtain rfl := Option.some.inj h
      unfold OpAmp.stop
      split
      · exact hs
      · next hstopped =>
          rw [Bool.not_eq_true] at hstopped
          refine ⟨fun run hrun => ?_, fun run hrun => ?_, hs.submitted⟩
          · have hadmits := hs.drains run hrun
            dsimp only at hadmits ⊢
            generalize run.point = point at hadmits
            cases point with
            | stop again status =>
                cases again with
                | true => exact .inl rfl
                | false => trivial
            | sendConfig status => exact hadmits
            | sendStatus => exact hadmits
            | _ => trivial
          · -- what the present moment grants has been seen
            have hsaw := hobserved.fullState hstopped run hrun
            have hadmits := hs.fullState run hrun
            dsimp only at hadmits ⊢
            generalize run.point = point at hadmits
            cases point with
            | recheck files => exact ⟨hadmits.1, fun h => .inr (hsaw.2 h)⟩
            | send files => exact hadmits
            | _ => trivial
  | duePluginReports =>
      obtain ⟨timer, -, rfl⟩ := Option.map_eq_some_iff.mp h
      exact ⟨hs.drains, hs.fullState, hs.submitted⟩
  | dueFullState =>
      obtain ⟨timer, -, rfl⟩ := Option.map_eq_some_iff.mp h
      exact ⟨hs.drains, hs.fullState, hs.submitted⟩
  | handleScheduledPluginReports =>
      obtain ⟨timer, -, rfl⟩ := Option.map_eq_some_iff.mp h
      unfold claimPluginReports
      split
      · exact ⟨hs.drains, hs.fullState, hs.submitted⟩
      · refine ⟨fun run hrun => ?_, hs.fullState, hs.submitted⟩
        rcases List.mem_append.mp hrun with hold | hnew
        · exact hs.drains run hold
        · rw [List.mem_singleton.mp hnew]
          dsimp only
          split
          · trivial
          · trivial
  | handleScheduledFullState =>
      obtain ⟨timer, -, rfl⟩ := Option.map_eq_some_iff.mp h
      exact claimFullState_admitted ⟨hs.drains, hs.fullState, hs.submitted⟩
  | spuriousFullState =>
      obtain rfl := Option.some.inj h
      exact claimFullState_admitted hs
  | drain i ok => exact stepDrain_admitted hs hobserved h
  | fullState i ok => exact stepFullState_admitted hs hobserved h

/-! ### Every interleaving -/

/-- The invariant of the plugin reports. -/
structure PluginInv (providers : PluginReportKind) (s : State) : Prop where
  scheduled : Scheduled s
  notified : Notified providers s
  admitted : Admitted s
  observed : Observed s

theorem inductive_pluginInv (providers : PluginReportKind) :
    System.Inductive (system providers) (PluginInv providers) where
  init := by
    rintro s rfl
    refine ⟨⟨fun _ => rfl, fun _ h => absurd rfl h⟩, ⟨fun _ report h => ?_, fun _ h => ?_⟩,
      ⟨fun _ h => ?_, fun _ h => ?_, fun _ _ h => ?_⟩, ⟨fun _ _ h => ?_, fun _ _ h => ?_⟩⟩
    · obtain ⟨newer, older, hlog, -⟩ := h
      cases newer <;> cases hlog
    all_goals cases h
  step := by
    intro s a t hs hstep
    obtain ⟨s', hact, rfl⟩ := Option.map_eq_some_iff.mp hstep
    exact ⟨observe_scheduled (act_scheduled hs.scheduled hact),
      observe_notified (act_notified hs.notified hact),
      observe_admitted (act_admitted hs.admitted hs.observed hact), observe_observed s'⟩

/-- **The plugin reports are sound** in every reachable state: no wake-up is lost and none is
doubled, no notification is forgotten, and nothing is admitted that should not be. -/
theorem pluginReportsSound_of_reachable {s : State} (h : (system providers).Reachable s) :
    PluginReportsSound s := by
  have hinv := (inductive_pluginInv providers).reachable h
  refine ⟨hinv.scheduled.eligible, fun hstopped hactive => ?_, hinv.notified.pending,
    hinv.admitted.submitted⟩
  have hcount := hinv.scheduled.count hstopped
  rw [hactive] at hcount
  exact hcount

/-- Both providers are there. -/
def bothProviders : PluginReportKind := ⟨true, true⟩

/-- A notification before any capabilities, and the capabilities then. -/
theorem pluginReportsSound_of_reachable_notified :
    PluginReportsSound (handleServerCapabilities
      (notifyPluginReport bothProviders .initial .effectiveConfig) (some true)) :=
  pluginReportsSound_of_reachable (show (system bothProviders).Reachable _ from
    System.reachable_of_exec (l := [.notifyPluginReport .effectiveConfig,
      .handleServerCapabilities (some true)]) rfl rfl)

end AutoInstrumentation.OpAmp
