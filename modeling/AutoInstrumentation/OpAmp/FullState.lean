import AutoInstrumentation.OpAmp.PluginReports

/-!
# AutoInstrumentation.OpAmp.FullState

The full-state reports that the server asks for: one at a time, none too early, and none
forgotten.

The phase says who is to act next: a request (`Idle`), a callback of the timer (`Waiting`), or
the report that runs (`Reporting`). The pause between two reports is the timer's alone; a
callback that it does not owe would end it.
-/

namespace AutoInstrumentation.OpAmp

open AutoInstrumentation.Lib

variable {providers : PluginReportKind}

/-! ### The events of full-state reports -/

def Event.ofFullState : Event → Bool
  | .requested | .started _ | .ended _ => true
  | _ => false

def Event.isStart : Event → Bool
  | .started _ => true
  | _ => false

/-- What happened to full-state reports. -/
def State.fullStateLog (s : State) : List Event := s.log.filter Event.ofFullState

/-- The reports that were started. -/
def State.starts (s : State) : ℕ := s.fullStateLog.countP Event.isStart

/-- A request that no report was started for since. -/
def Uncovered (log : List Event) : Prop :=
  ∃ newer older, log = newer ++ .requested :: older ∧ ∀ t, .started t ∉ newer

/-- No report starts before the interval has passed since one ended. -/
def Paced (log : List Event) : Prop :=
  ∀ newer older t t', log = newer ++ .started t' :: older → .ended t ∈ older →
    t + fullStateReportInterval ≤ t'

/-- **The full-state reports**: one runs at most; a request that is pending has a report that
runs or a timer that is to call back; a request that no report was started for is pending. -/
structure FullStateSound (s : State) : Prop where
  oneReport : s.fullStateReports.length ≤ 1
  reporting : s.stopped = false →
    (s.fullStatePhase = .reporting ↔ s.fullStateReports.length = 1)
  pending : s.stopped = false → s.fullStatePending = true → s.fullStatePhase ≠ .idle
  waiting : s.stopped = false → s.fullStatePhase = .waiting → 0 < s.fullStateTimer.outstanding
  requested : s.stopped = false → Uncovered s.fullStateLog → s.fullStatePending = true

theorem uncovered_cons {e : Event} {log : List Event} :
    Uncovered (e :: log) ↔ e = .requested ∨ e.isStart = false ∧ Uncovered log := by
  constructor
  · rintro ⟨newer, older, heq, hstart⟩
    cases newer with
    | nil => exact .inl (List.cons.inj heq).1
    | cons e' newer =>
        obtain ⟨rfl, rfl⟩ := List.cons.inj heq
        refine .inr ⟨?_, newer, older, rfl, fun t ht => hstart t (List.mem_cons_of_mem _ ht)⟩
        cases e with
        | started t => exact absurd List.mem_cons_self (hstart t)
        | _ => rfl
  · rintro (rfl | ⟨hstart, newer, older, rfl, hnewer⟩)
    · exact ⟨[], log, rfl, fun t => List.not_mem_nil⟩
    · refine ⟨e :: newer, older, rfl, fun t ht => ?_⟩
      rcases List.mem_cons.mp ht with rfl | ht
      · cases hstart
      · exact hnewer t ht

theorem paced_cons {e : Event} {log : List Event} (h : Paced log)
    (he : ∀ t t', e = .started t' → .ended t ∈ log → t + fullStateReportInterval ≤ t') :
    Paced (e :: log) := by
  intro newer older t t' heq hended
  cases newer with
  | nil =>
      obtain ⟨rfl, rfl⟩ := List.cons.inj heq
      exact he t t' rfl hended
  | cons e' newer =>
      obtain ⟨-, rfl⟩ := List.cons.inj heq
      exact h newer older t t' rfl hended

/-! ### What leaves the full-state reports alone -/

/-- A step that leaves the full-state reports alone. -/
structure FullStateFrame (s s' : State) : Prop where
  now : s'.now = s.now
  stopped : s'.stopped = s.stopped
  pending : s'.fullStatePending = s.fullStatePending
  phase : s'.fullStatePhase = s.fullStatePhase
  timer : s'.fullStateTimer = s.fullStateTimer
  reports : s'.fullStateReports.length = s.fullStateReports.length
  log : s'.fullStateLog = s.fullStateLog

theorem FullStateFrame.trans {s t u : State} (h : FullStateFrame s t) (h' : FullStateFrame t u) :
    FullStateFrame s u :=
  ⟨h'.now.trans h.now, h'.stopped.trans h.stopped, h'.pending.trans h.pending,
    h'.phase.trans h.phase, h'.timer.trans h.timer, h'.reports.trans h.reports,
    h'.log.trans h.log⟩

theorem FullStateFrame.trySchedule {s t : State} (h : FullStateFrame s t) :
    FullStateFrame s (trySchedulePendingPluginReports t) := by
  refine h.trans ?_
  unfold trySchedulePendingPluginReports
  split
  · exact ⟨rfl, rfl, rfl, rfl, rfl, rfl, rfl⟩
  · exact ⟨rfl, rfl, rfl, rfl, rfl, rfl, rfl⟩

theorem effect_fullState {P : Type} (change : Change P) (since : Since) (s : State) :
    FullStateFrame s (change.effect since s) := by
  cases change <;> exact ⟨rfl, rfl, rfl, rfl, rfl, rfl, rfl⟩

theorem observe_fullState (s : State) : FullStateFrame s s.observe := by
  unfold State.observe
  split
  · exact ⟨rfl, rfl, rfl, rfl, rfl, rfl, rfl⟩
  · exact ⟨rfl, rfl, rfl, rfl, rfl, List.length_map _, rfl⟩

theorem stepDrain_fullState {s s' : State} {i : ℕ} {ok : Bool}
    (h : stepDrain providers s i ok = some s') : FullStateFrame s s' := by
  obtain ⟨run, change, -, -, ⟨rfl, rfl⟩ | ⟨-, rfl⟩⟩ := stepDrain_eq_some h
  · unfold finishPluginReports
    dsimp only
    split
    · exact ⟨rfl, rfl, rfl, rfl, rfl, rfl, rfl⟩
    · exact FullStateFrame.trySchedule ⟨rfl, rfl, rfl, rfl, rfl, rfl, rfl⟩
  · exact (effect_fullState change run.since s).trans ⟨rfl, rfl, rfl, rfl, rfl, rfl, rfl⟩

/-- The acts that concern the full-state reports, and time. -/
def Act.OfFullState : Act → Prop
  | .tick _ | .reportFullState | .stop | .dueFullState | .handleScheduledFullState
  | .spuriousFullState | .fullState _ _ => True
  | _ => False

theorem act_fullState {s s' : State} {a : Act} (ha : ¬a.OfFullState)
    (h : act providers s a = some s') : FullStateFrame s s' := by
  cases a with
  | notifyPluginReport report =>
      obtain rfl := Option.some.inj h
      unfold notifyPluginReport
      split
      · exact ⟨rfl, rfl, rfl, rfl, rfl, rfl, rfl⟩
      · exact FullStateFrame.trySchedule ⟨rfl, rfl, rfl, rfl, rfl, rfl, rfl⟩
  | handleServerCapabilities capabilities =>
      obtain rfl := Option.some.inj h
      unfold handleServerCapabilities
      split
      · exact ⟨rfl, rfl, rfl, rfl, rfl, rfl, rfl⟩
      · split
        · exact ⟨rfl, rfl, rfl, rfl, rfl, rfl, rfl⟩
        · exact FullStateFrame.trySchedule ⟨rfl, rfl, rfl, rfl, rfl, rfl, rfl⟩
  | duePluginReports =>
      obtain ⟨timer, -, rfl⟩ := Option.map_eq_some_iff.mp h
      exact ⟨rfl, rfl, rfl, rfl, rfl, rfl, rfl⟩
  | handleScheduledPluginReports =>
      obtain ⟨timer, -, rfl⟩ := Option.map_eq_some_iff.mp h
      unfold claimPluginReports
      split
      · exact ⟨rfl, rfl, rfl, rfl, rfl, rfl, rfl⟩
      · exact ⟨rfl, rfl, rfl, rfl, rfl, rfl, rfl⟩
  | drain i ok => exact stepDrain_fullState h
  | tick | reportFullState | stop | dueFullState | handleScheduledFullState
  | spuriousFullState | fullState => exact absurd trivial ha

theorem FullStateFrame.sound {s s' : State} (h : FullStateFrame s s') (hs : FullStateSound s) :
    FullStateSound s' := by
  obtain ⟨-, hstopped, hpending, hphase, htimer, hreports, hlog⟩ := h
  constructor
  · rw [hreports]
    exact hs.oneReport
  · rw [hstopped, hphase, hreports]
    exact hs.reporting
  · rw [hstopped, hpending, hphase]
    exact hs.pending
  · rw [hstopped, hphase, htimer]
    exact hs.waiting
  · rw [hstopped, hlog, hpending]
    exact hs.requested

/-! ### One report at a time -/

theorem FullStateSound.of_stopped {s : State} (h : s.stopped = true)
    (hreports : s.fullStateReports.length ≤ 1) : FullStateSound s := by
  have absurd_stopped {p : Prop} : s.stopped = false → p := by
    intro hstopped
    rw [h] at hstopped
    cases hstopped
  exact ⟨hreports, absurd_stopped, absurd_stopped, absurd_stopped, absurd_stopped⟩

theorem reportFullState_sound {s : State} (hs : FullStateSound s) :
    FullStateSound (reportFullState s) := by
  unfold reportFullState
  split
  · exact hs
  · dsimp only
    split
    · next hidle =>
        refine ⟨hs.oneReport, fun hstopped => ?_, fun _ _ h => (nomatch h), fun _ _ => ?_,
          fun _ _ => rfl⟩
        · have hreports := hs.reporting hstopped
          rw [hidle] at hreports
          exact ⟨(nomatch ·), fun h => (nomatch hreports.mpr h)⟩
        · exact Nat.add_pos_left Nat.one_pos _
    · next hbusy =>
        exact ⟨hs.oneReport, hs.reporting, fun _ _ => hbusy, hs.waiting, fun _ _ => rfl⟩

/-- The section of a callback, which may have been the last that the timer owed. -/
theorem claimFullState_sound {s : State} (hone : s.fullStateReports.length ≤ 1)
    (hreporting : s.stopped = false →
      (s.fullStatePhase = .reporting ↔ s.fullStateReports.length = 1))
    (hpending : s.stopped = false → s.fullStatePending = true → s.fullStatePhase ≠ .idle)
    (hrequested : s.stopped = false → Uncovered s.fullStateLog → s.fullStatePending = true) :
    FullStateSound (claimFullState s) := by
  unfold claimFullState
  split
  · next hskip =>
      refine ⟨hone, hreporting, hpending, fun hstopped hwaiting => ?_, hrequested⟩
      rw [Bool.or_eq_true, decide_eq_true_eq, hstopped] at hskip
      exact absurd hwaiting (hskip.resolve_left Bool.false_ne_true)
  · next hclaim =>
      rw [Bool.or_eq_true, not_or, Bool.not_eq_true, decide_eq_true_eq, not_not] at hclaim
      obtain ⟨hstopped, hwaiting⟩ := hclaim
      have hnone : s.fullStateReports.length = 0 := by
        have hne : s.fullStateReports.length ≠ 1 := by
          intro h
          have hphase := (hreporting hstopped).mpr h
          rw [hwaiting] at hphase
          cases hphase
        omega
      split
      · next hidle =>
          rw [Bool.not_eq_true'] at hidle
          refine ⟨hone, fun _ => ⟨(nomatch ·), fun h => ?_⟩, fun _ h => ?_, fun _ h => (nomatch h),
            hrequested⟩
          · rw [hnone] at h
            cases h
          · rw [hidle] at h
            cases h
      · refine ⟨?_, fun _ => ⟨fun _ => ?_, fun _ => rfl⟩, fun _ h => (nomatch h),
          fun _ h => (nomatch h), fun _ h => ?_⟩
        · rw [List.length_append, hnone]
          exact Nat.le_refl _
        · rw [List.length_append, hnone]
          rfl
        · rcases uncovered_cons.mp h with h | ⟨h, -⟩
          · cases h
          · cases h

theorem finishFullState_sound {s : State} {i : ℕ} {run : Run FullStatePoint}
    (hs : FullStateSound s) (hi : s.fullStateReports[i]? = some run) :
    FullStateSound (finishFullState { s with
      fullStateReports := s.fullStateReports.eraseIdx i }) := by
  obtain ⟨hlt, -⟩ := List.getElem?_eq_some_iff.mp hi
  have hone := hs.oneReport
  have hnone : (s.fullStateReports.eraseIdx i).length = 0 := by
    rw [List.length_eraseIdx_of_lt hlt]
    omega
  unfold finishFullState
  dsimp only
  split
  · next hstopped => exact .of_stopped hstopped (hnone.trans_le (Nat.zero_le _))
  · next hstopped =>
      rw [Bool.not_eq_true] at hstopped
      refine ⟨hnone.trans_le (Nat.zero_le _), fun _ => ⟨(nomatch ·), fun h => ?_⟩,
        fun _ _ h => (nomatch h), fun _ _ => Nat.add_pos_left Nat.one_pos _, fun _ h => ?_⟩
      · dsimp only at h
        rw [hnone] at h
        cases h
      · rcases uncovered_cons.mp h with h | ⟨-, h⟩
        · cases h
        · exact hs.requested hstopped h

theorem stepFullState_sound {s s' : State} {i : ℕ} {ok : Bool} (hs : FullStateSound s)
    (h : stepFullState providers s i ok = some s') : FullStateSound s' := by
  obtain ⟨run, change, hrun, -, ⟨rfl, rfl⟩ | ⟨hne, rfl⟩⟩ := stepFullState_eq_some h
  · exact finishFullState_sound hs hrun
  · refine FullStateFrame.sound ((effect_fullState change run.since s).trans
      ⟨rfl, rfl, rfl, rfl, rfl, ?_, rfl⟩) hs
    dsimp only
    rw [Change.length_runs hne, (effect_fullState change run.since s).reports]

theorem act_sound {s s' : State} {a : Act} (hs : FullStateSound s)
    (h : act providers s a = some s') : FullStateSound s' := by
  cases a with
  | tick ticks =>
      obtain rfl := Option.some.inj h
      exact ⟨hs.oneReport, hs.reporting, hs.pending, hs.waiting, hs.requested⟩
  | reportFullState =>
      obtain rfl := Option.some.inj h
      exact reportFullState_sound hs
  | stop =>
      obtain rfl := Option.some.inj h
      unfold OpAmp.stop
      split
      · exact hs
      · exact .of_stopped rfl hs.oneReport
  | dueFullState =>
      obtain ⟨timer, htimer, rfl⟩ := Option.map_eq_some_iff.mp h
      refine ⟨hs.oneReport, hs.reporting, hs.pending, ?_, hs.requested⟩
      dsimp only
      rw [due_outstanding htimer]
      exact hs.waiting
  | handleScheduledFullState =>
      obtain ⟨timer, -, rfl⟩ := Option.map_eq_some_iff.mp h
      exact claimFullState_sound hs.oneReport hs.reporting hs.pending hs.requested
  | spuriousFullState =>
      obtain rfl := Option.some.inj h
      exact claimFullState_sound hs.oneReport hs.reporting hs.pending hs.requested
  | fullState i ok => exact stepFullState_sound hs h
  | notifyPluginReport | handleServerCapabilities | duePluginReports
  | handleScheduledPluginReports | drain => exact (act_fullState (by exact id) h).sound hs

theorem inductive_fullStateSound (providers : PluginReportKind) :
    System.Inductive (system providers) FullStateSound where
  init := by
    rintro s rfl
    refine ⟨Nat.zero_le _, fun _ => ⟨(nomatch ·), (nomatch ·)⟩, fun _ h => (nomatch h),
      fun _ h => (nomatch h), fun _ h => ?_⟩
    obtain ⟨newer, older, hlog, -⟩ := h
    cases newer <;> cases hlog
  step := by
    intro s a t hs hstep
    obtain ⟨s', hact, rfl⟩ := Option.map_eq_some_iff.mp hstep
    exact (observe_fullState s').sound (act_sound hs hact)

/-! ### The pause -/

/-- No callback begins while one of the timer is awaited, but the one that it owes. -/
def Timely (s : State) : Act → Prop
  | .spuriousFullState => s.fullStatePhase ≠ .waiting
  | _ => True

/-- The pause is over at a time: every report that ended did so an interval before. -/
def State.PauseOver (s : State) (time : ℕ) : Prop :=
  ∀ t, .ended t ∈ s.fullStateLog → t + fullStateReportInterval ≤ time

/-- What keeps the pause: while the timer is awaited, it owes one callback, and that is not
due before the pause is over. -/
structure Pace (s : State) : Prop where
  outstanding : s.stopped = false →
    s.fullStateTimer.outstanding = if s.fullStatePhase = .waiting then 1 else 0
  deadline : s.stopped = false → ∀ d, s.fullStateTimer.deadline = some d → s.PauseOver d
  queued : s.stopped = false → 0 < s.fullStateTimer.queued → s.PauseOver s.now
  idle : s.stopped = false → s.fullStatePhase = .idle → s.PauseOver s.now
  ended : ∀ t, .ended t ∈ s.fullStateLog → t ≤ s.now
  paced : Paced s.fullStateLog

theorem Pace.of_stopped {s : State} (h : s.stopped = true)
    (hended : ∀ t, .ended t ∈ s.fullStateLog → t ≤ s.now) (hpaced : Paced s.fullStateLog) :
    Pace s := by
  have absurd_stopped {p : Prop} : s.stopped = false → p := by
    intro hstopped
    rw [h] at hstopped
    cases hstopped
  exact ⟨absurd_stopped, absurd_stopped, absurd_stopped, absurd_stopped, hended, hpaced⟩

theorem FullStateFrame.pace {s s' : State} (h : FullStateFrame s s') (hs : Pace s) : Pace s' := by
  obtain ⟨hnow, hstopped, -, hphase, htimer, -, hlog⟩ := h
  constructor
  · rw [hstopped, hphase, htimer]
    exact hs.outstanding
  · unfold State.PauseOver
    rw [hstopped, htimer, hlog]
    exact hs.deadline
  · unfold State.PauseOver
    rw [hstopped, htimer, hnow, hlog]
    exact hs.queued
  · unfold State.PauseOver
    rw [hstopped, hphase, hnow, hlog]
    exact hs.idle
  · rw [hlog, hnow]
    exact hs.ended
  · rw [hlog]
    exact hs.paced

theorem State.PauseOver.mono {s : State} {time time' : ℕ} (h : s.PauseOver time)
    (hle : time ≤ time') : s.PauseOver time' :=
  fun t ht => (h t ht).trans hle

/-- A request outside of the pause. -/
theorem reportFullState_pace {s : State} (hs : Pace s) : Pace (reportFullState s) := by
  have cons {time : ℕ} (h : s.PauseOver time) (t : ℕ)
      (ht : .ended t ∈ Event.requested :: s.fullStateLog) : t + fullStateReportInterval ≤ time := by
    rcases List.mem_cons.mp ht with heq | ht
    · cases heq
    · exact h t ht
  have hended : ∀ t, .ended t ∈ Event.requested :: s.fullStateLog → t ≤ s.now := by
    intro t ht
    rcases List.mem_cons.mp ht with heq | ht
    · cases heq
    · exact hs.ended t ht
  have hpaced : Paced (.requested :: s.fullStateLog) :=
    paced_cons hs.paced fun t t' heq => by cases heq
  unfold reportFullState
  split
  · exact hs
  · next hstopped =>
      rw [Bool.not_eq_true] at hstopped
      dsimp only
      split
      · next hidle =>
          have hover := hs.idle hstopped hidle
          have houtstanding := hs.outstanding hstopped
          rw [hidle, if_neg (by decide), ReportTimer.outstanding] at houtstanding
          have hqueued : s.fullStateTimer.queued = 0 := by omega
          refine ⟨fun _ => ?_, fun _ d hd => ?_, fun _ h => ?_, by rintro _ ⟨⟩, hended,
            hpaced⟩
          · change 1 + s.fullStateTimer.queued = 1
            rw [hqueued]
          · obtain rfl := Option.some.inj hd
            exact cons hover
          · exact cons hover
      · next hbusy =>
          exact ⟨hs.outstanding, fun h d hd => cons (hs.deadline h d hd),
            fun h hqueued => cons (hs.queued h hqueued), fun h hidle => absurd hidle hbusy, hended,
            hpaced⟩

/-- The section of the one callback that the timer owed. -/
theorem claimFullState_pace {s : State} {timer : ReportTimer} (hs : Pace s)
    (h : s.fullStateTimer.begin = some timer) :
    Pace (claimFullState { s with fullStateTimer := timer }) := by
  cases hstopped : s.stopped with
  | true =>
      unfold claimFullState
      rw [if_pos (by simp)]
      exact .of_stopped rfl hs.ended hs.paced
  | false =>
      have hqueued : 0 < s.fullStateTimer.queued := by
        unfold ReportTimer.begin at h
        split at h
        · cases h
        · omega
      have hover := hs.queued hstopped hqueued
      -- with it nothing is outstanding any more
      obtain ⟨hwaiting, hnone⟩ : s.fullStatePhase = .waiting ∧ timer.outstanding = 0 := by
        have houtstanding := hs.outstanding hstopped
        rw [begin_outstanding h] at houtstanding
        split at houtstanding
        · next hwaiting => exact ⟨hwaiting, by omega⟩
        · omega
      obtain ⟨hdeadline, hempty⟩ : timer.deadline = none ∧ timer.queued = 0 := by
        rw [ReportTimer.outstanding, Nat.add_eq_zero_iff] at hnone
        refine ⟨?_, hnone.2⟩
        cases hdeadline : timer.deadline with
        | none => rfl
        | some d =>
            rw [hdeadline] at hnone
            cases hnone.1
      have hno_deadline {p : ℕ → Prop} (d : ℕ) (hd : timer.deadline = some d) : p d := by
        rw [hdeadline] at hd
        cases hd
      have hno_queued {p : Prop} (hq : 0 < timer.queued) : p := by omega
      unfold claimFullState
      rw [if_neg (by simp [hwaiting])]
      split
      · exact ⟨fun _ => hnone, fun _ => hno_deadline, fun _ => hno_queued, fun _ _ => hover,
          hs.ended, hs.paced⟩
      · refine ⟨fun _ => hnone, fun _ => hno_deadline, fun _ => hno_queued,
          by rintro _ ⟨⟩, fun t ht => ?_, paced_cons hs.paced fun t t' heq ht => ?_⟩
        · rcases List.mem_cons.mp ht with heq | ht
          · cases heq
          · exact hs.ended t ht
        · obtain rfl := Event.started.inj heq
          exact hover t ht

/-- The end of a report begins the pause. -/
theorem finishFullState_pace {s : State} {reports : List (Run FullStatePoint)} (hs : Pace s)
    (hreporting : s.stopped = false → s.fullStatePhase = .reporting) :
    Pace (finishFullState { s with fullStateReports := reports }) := by
  have hended : ∀ t, .ended t ∈ Event.ended s.now :: s.fullStateLog → t ≤ s.now := by
    intro t ht
    rcases List.mem_cons.mp ht with heq | ht
    · exact (Event.ended.inj heq).le
    · exact hs.ended t ht
  have hpaced : Paced (.ended s.now :: s.fullStateLog) :=
    paced_cons hs.paced fun t t' heq => by cases heq
  unfold finishFullState
  dsimp only
  split
  · next hstopped => exact .of_stopped hstopped hended hpaced
  · next hstopped =>
      rw [Bool.not_eq_true] at hstopped
      have houtstanding := hs.outstanding hstopped
      rw [hreporting hstopped, if_neg (by decide), ReportTimer.outstanding] at houtstanding
      have hqueued : s.fullStateTimer.queued = 0 := by omega
      refine ⟨fun _ => ?_, fun _ d hd t ht => ?_, fun _ h => ?_, by rintro _ ⟨⟩, hended,
        hpaced⟩
      · change 1 + s.fullStateTimer.queued = 1
        rw [hqueued]
      · obtain rfl := Option.some.inj hd
        exact Nat.add_le_add_right (hended t ht) _
      · change 0 < s.fullStateTimer.queued at h
        omega

theorem act_pace {s s' : State} {a : Act} (hs : Pace s) (hsound : FullStateSound s)
    (ha : Timely s a) (h : act providers s a = some s') : Pace s' := by
  cases a with
  | tick ticks =>
      obtain rfl := Option.some.inj h
      have hle : s.now ≤ s.now + ticks := Nat.le_add_right _ _
      exact ⟨hs.outstanding, hs.deadline, fun hstopped hq => (hs.queued hstopped hq).mono hle,
        fun hstopped hidle => (hs.idle hstopped hidle).mono hle,
        fun t ht => (hs.ended t ht).trans hle, hs.paced⟩
  | reportFullState =>
      obtain rfl := Option.some.inj h
      exact reportFullState_pace hs
  | stop =>
      obtain rfl := Option.some.inj h
      unfold OpAmp.stop
      split
      · exact hs
      · exact .of_stopped rfl hs.ended hs.paced
  | dueFullState =>
      obtain ⟨timer, htimer, rfl⟩ := Option.map_eq_some_iff.mp h
      refine ⟨?_, ?_, fun hstopped _ => ?_, hs.idle, hs.ended, hs.paced⟩
      · dsimp only
        rw [due_outstanding htimer]
        exact hs.outstanding
      · obtain ⟨d, hd, htimer⟩ := Option.bind_eq_some_iff.mp htimer
        split at htimer
        · obtain rfl := Option.some.inj htimer
          exact fun _ _ h => nomatch h
        · cases htimer
      · obtain ⟨d, hd, htimer⟩ := Option.bind_eq_some_iff.mp htimer
        split at htimer
        · next hle => exact (hs.deadline hstopped d hd).mono hle
        · cases htimer
  | handleScheduledFullState =>
      obtain ⟨timer, htimer, rfl⟩ := Option.map_eq_some_iff.mp h
      exact claimFullState_pace hs htimer
  | spuriousFullState =>
      obtain rfl := Option.some.inj h
      unfold claimFullState
      rw [if_pos (by simp [show s.fullStatePhase ≠ .waiting from ha])]
      exact hs
  | fullState i ok =>
      obtain ⟨run, change, hrun, -, ⟨rfl, rfl⟩ | ⟨hne, rfl⟩⟩ := stepFullState_eq_some h
      · refine finishFullState_pace hs fun hstopped => (hsound.reporting hstopped).mpr ?_
        obtain ⟨hlt, -⟩ := List.getElem?_eq_some_iff.mp hrun
        have hone := hsound.oneReport
        omega
      · refine FullStateFrame.pace ((effect_fullState change run.since s).trans
          ⟨rfl, rfl, rfl, rfl, rfl, ?_, rfl⟩) hs
        dsimp only
        rw [Change.length_runs hne, (effect_fullState change run.since s).reports]
  | notifyPluginReport | handleServerCapabilities | duePluginReports
  | handleScheduledPluginReports | drain => exact (act_fullState (by exact id) h).pace hs

theorem inductive_pace (providers : PluginReportKind) :
    System.Inductive ((system providers).restrict Timely)
      fun s => FullStateSound s ∧ Pace s where
  init := by
    rintro s rfl
    refine ⟨(inductive_fullStateSound providers).init _ rfl, fun _ => rfl, fun _ _ h => ?_,
      fun _ h => ?_, fun _ _ t h => ?_, fun t h => ?_, fun newer older t t' h => ?_⟩
    · cases h
    · cases h
    · cases h
    · cases h
    · cases newer <;> cases h
  step := by
    rintro s a t ⟨hsound, hpace⟩ ⟨hstep, htimely⟩
    refine ⟨(inductive_fullStateSound providers).step s a t hsound hstep, ?_⟩
    obtain ⟨s', hact, rfl⟩ := Option.map_eq_some_iff.mp hstep
    exact (observe_fullState s').pace (act_pace hpace hsound htimely hact)

/-! ### Requests are coalesced -/

/-- A step that is no request and no stop: a report starts exactly when a pending request
ceases to be one. -/
theorem act_starts {s s' : State} {a : Act} (hstopped : s.stopped = false)
    (hrequest : a ≠ .reportFullState) (hstop : a ≠ .stop) (h : act providers s a = some s') :
    s'.stopped = false
      ∧ s'.starts + s'.fullStatePending.toNat = s.starts + s.fullStatePending.toNat := by
  have frame {t : State} (h : FullStateFrame s t) : t.stopped = false
      ∧ t.starts + t.fullStatePending.toNat = s.starts + s.fullStatePending.toNat := by
    rw [State.starts, State.starts, h.stopped, h.pending, h.log]
    exact ⟨hstopped, rfl⟩
  have claim {timer : ReportTimer} :
      (claimFullState { s with fullStateTimer := timer }).stopped = false
        ∧ (claimFullState { s with fullStateTimer := timer }).starts
            + (claimFullState { s with fullStateTimer := timer }).fullStatePending.toNat
          = s.starts + s.fullStatePending.toNat := by
    unfold claimFullState
    split
    · exact ⟨hstopped, rfl⟩
    · split
      · exact ⟨hstopped, rfl⟩
      · next hpending =>
          rw [Bool.not_eq_true', Bool.not_eq_false] at hpending
          refine ⟨hstopped, ?_⟩
          have hpending : s.fullStatePending = true := hpending
          rw [hpending]
          change List.countP Event.isStart (.started s.now :: s.fullStateLog) + 0 = _
          rw [List.countP_cons_of_pos rfl]
          rfl
  cases a with
  | tick ticks =>
      obtain rfl := Option.some.inj h
      exact ⟨hstopped, rfl⟩
  | reportFullState => exact absurd rfl hrequest
  | stop => exact absurd rfl hstop
  | dueFullState =>
      obtain ⟨timer, htimer, rfl⟩ := Option.map_eq_some_iff.mp h
      exact ⟨hstopped, rfl⟩
  | handleScheduledFullState =>
      obtain ⟨timer, htimer, rfl⟩ := Option.map_eq_some_iff.mp h
      exact claim
  | spuriousFullState =>
      obtain rfl := Option.some.inj h
      exact claim
  | fullState i ok =>
      obtain ⟨run, change, hrun, -, ⟨rfl, rfl⟩ | ⟨hne, rfl⟩⟩ := stepFullState_eq_some h
      · unfold finishFullState
        dsimp only
        rw [if_neg (by simp [hstopped])]
        exact ⟨hstopped, rfl⟩
      · refine frame ((effect_fullState change run.since s).trans
          ⟨rfl, rfl, rfl, rfl, rfl, ?_, rfl⟩)
        dsimp only
        rw [Change.length_runs hne, (effect_fullState change run.since s).reports]
  | notifyPluginReport | handleServerCapabilities | duePluginReports
  | handleScheduledPluginReports | drain => exact frame (act_fullState (by exact id) h)

/-- **Along a run without requests and without a stop** one report starts for what is pending
at its beginning and no longer at its end, however many requests there were. -/
theorem run_starts {s t : State} {l : List Act} (hrun : System.Run (system providers) s l t)
    (hstopped : s.stopped = false) (hl : ∀ a ∈ l, a ≠ .reportFullState ∧ a ≠ .stop) :
    t.starts + t.fullStatePending.toNat = s.starts + s.fullStatePending.toNat := by
  induction hrun with
  | nil s => rfl
  | cons hstep hrun ih =>
      obtain ⟨s', hact, rfl⟩ := Option.map_eq_some_iff.mp hstep
      obtain ⟨hne, hl⟩ := List.forall_mem_cons.mp hl
      obtain ⟨hstopped', hstarts⟩ := act_starts hstopped hne.1 hne.2 hact
      have hframe := observe_fullState s'
      rw [ih (hframe.stopped.trans hstopped') hl, ← hstarts, State.starts, State.starts,
        hframe.log, hframe.pending]

/-! ### Every interleaving -/

/-- **The full-state reports**, in every reachable state and over every run. -/
structure FullStateReports (providers : PluginReportKind) : Prop where
  sound : ∀ s, (system providers).Reachable s → FullStateSound s
  /-- No report starts within the pause, where the timer calls back once for each deadline. -/
  paced : ∀ s, ((system providers).restrict Timely).Reachable s → Paced s.fullStateLog
  /-- Whatever requests were made by `s`, they lead to one report if to any. -/
  coalesced : ∀ s t l, (system providers).Reachable s → s.stopped = false →
    System.Run (system providers) s l t → (∀ a ∈ l, a ≠ .reportFullState ∧ a ≠ .stop) →
      t.starts + t.fullStatePending.toNat = s.starts + s.fullStatePending.toNat

/-- A report, a request in the pause behind it, and a callback that the timer does not owe. -/
def hastyRun : List Act :=
  [.reportFullState, .dueFullState, .handleScheduledFullState]
    ++ List.replicate 8 (.fullState 0 true) ++ [.reportFullState, .spuriousFullState]

end AutoInstrumentation.OpAmp
