import AutoInstrumentation.SelectiveSampling

/-!
# AutoInstrumentation.SelectiveSamplingSound

No more than 50 traces are selected, and no outdated trace is left behind a preparation: the
next scan is at the earliest deadline or before it, or it is due.
-/

namespace AutoInstrumentation.SelectiveSampling

open Lib

variable {s t : State}

/-- No trace is outdated, and no scan after a deadline is scheduled. -/
structure Fresh (s : State) (now : ℕ) : Prop where
  notOutdated : ∀ entry ∈ s.traceMap.entries, now < entry.2
  scanned : ∀ entry ∈ s.traceMap.entries, s.nextOutdatedEntriesScan ≤ entry.2

/-- The invariant: the next scan is not behind a deadline, unless it is due already. A trace
that is selected later has a deadline behind it. -/
structure Scheduled (s : State) : Prop where
  bounded : s.traceMap.size ≤ kSelectiveSamplingMaxTraces
  scan : ∀ entry ∈ s.traceMap.entries,
    s.nextOutdatedEntriesScan ≤ entry.2 ∨ s.nextOutdatedEntriesScan ≤ s.clock
  near : s.nextOutdatedEntriesScan ≤ s.clock + maxAge

theorem scheduled_initial (clock : ℕ) : Scheduled (.initial clock) where
  bounded := Nat.zero_le _
  scan := by
    intro entry hentry
    cases hentry
  near := Nat.zero_le _

/-- Time goes on. -/
theorem Scheduled.advance (h : Scheduled s) {now : ℕ} (hnow : s.clock ≤ now) :
    Scheduled { s with clock := now } where
  bounded := h.bounded
  scan := by
    intro entry hentry
    rcases h.scan entry hentry with hdeadline | hdue
    · exact .inl hdeadline
    · exact .inr (hdue.trans hnow)
  near := h.near.trans (Nat.add_le_add_right hnow maxAge)

/-! ### Requests -/

theorem mem_entries_set {κ ν : Type} [DecidableEq κ] {table : Table κ ν} {key : κ} {value : ν}
    {entry : κ × ν} (h : entry ∈ (table.set key value).entries) :
    entry.2 = value ∨ entry ∈ table.entries := by
  rw [Table.mem_entries, Table.find_set] at h
  by_cases hkey : key = entry.1
  · rw [if_pos hkey] at h
    exact .inl (Option.some.inj h).symm
  · rw [if_neg hkey, ← Table.mem_entries] at h
    exact .inr h

theorem size_set_le {κ ν : Type} [DecidableEq κ] (table : Table κ ν) (key : κ) (value : ν) :
    (table.set key value).size ≤ table.size + 1 := by
  cases hfind : table.find key with
  | none => rw [Table.set_of_none value hfind, Table.size_tryEmplace value hfind]
  | some old =>
      rw [Table.set_of_some value hfind, Table.size_update]
      exact Nat.le_succ _

/-- A trace is added, or selected for longer. -/
theorem scheduled_start (h : Scheduled s) (context : TraceContext) :
    Scheduled (s.selectiveSamplingStart context s.clock) := by
  by_cases hdefault : context.isDefault = true
  · have hstart : s.selectiveSamplingStart context s.clock = s := if_pos hdefault
    rw [hstart]
    exact h
  · have hadd : s.selectiveSamplingStart context s.clock
        = (s.tryAddSelectiveSamplingTrace context s.clock).2 := if_neg hdefault
    rw [hadd]
    by_cases hfull : kSelectiveSamplingMaxTraces ≤ s.traceMap.size
    · have hrefused : s.tryAddSelectiveSamplingTrace context s.clock = (false, s) := if_pos hfull
      rw [hrefused]
      exact h
    · have hadded : s.tryAddSelectiveSamplingTrace context s.clock
          = (true, { s with traceMap := s.traceMap.set context (s.clock + maxAge) }) :=
        if_neg hfull
      rw [hadded]
      refine ⟨?_, ?_, h.near⟩
      · have hsize := size_set_le s.traceMap context (s.clock + maxAge)
        show (s.traceMap.set context (s.clock + maxAge)).size ≤ _
        omega
      · intro entry hentry
        rcases mem_entries_set hentry with hnew | hold
        · left
          rw [hnew]
          exact h.near
        · exact h.scan entry hold

theorem scheduled_stop (h : Scheduled s) (context : TraceContext) :
    Scheduled (s.selectiveSamplingStop context) := by
  by_cases hdefault : context.isDefault = true
  · have hstop : s.selectiveSamplingStop context = s := if_pos hdefault
    rw [hstop]
    exact h
  · have hremove : s.selectiveSamplingStop context = s.removeSelectiveSamplingTrace context :=
      if_neg hdefault
    rw [hremove]
    refine ⟨(Table.size_keep_le _ _).trans h.bounded, ?_, h.near⟩
    intro entry hentry
    exact h.scan entry (List.mem_filter.mp hentry).1

/-- Selective sampling that is enabled begins with a scan. -/
theorem scheduled_configure (h : Scheduled s) (selectiveEnabled : Bool) :
    Scheduled (s.configure selectiveEnabled s.clock) := by
  by_cases hrising : (!s.selectiveEnabled && selectiveEnabled) = true
  · have hscan : (s.configure selectiveEnabled s.clock).nextOutdatedEntriesScan = s.clock :=
      if_pos hrising
    refine ⟨h.bounded, ?_, ?_⟩
    · intro entry _
      right
      rw [hscan]
      exact Nat.le_refl _
    · rw [hscan]
      exact Nat.le_add_right _ _
  · have hscan : (s.configure selectiveEnabled s.clock).nextOutdatedEntriesScan
        = s.nextOutdatedEntriesScan := if_neg hrising
    refine ⟨h.bounded, ?_, ?_⟩
    · intro entry hentry
      rw [hscan]
      exact h.scan entry hentry
    · rw [hscan]
      exact h.near

/-! ### The scan -/

/-- The earliest of some deadlines and a start value. -/
theorem foldl_earliest (entries : List (TraceContext × ℕ)) (start : ℕ) :
    entries.foldl (fun nextScan entry => if entry.2 < nextScan then entry.2 else nextScan) start
        ≤ start
      ∧ ∀ entry ∈ entries,
        entries.foldl (fun nextScan entry => if entry.2 < nextScan then entry.2 else nextScan)
          start ≤ entry.2 := by
  induction entries generalizing start with
  | nil => simp
  | cons entry entries ih =>
      rw [List.foldl_cons]
      obtain ⟨hstart, hrest⟩ := ih (if entry.2 < start then entry.2 else start)
      have hle : (if entry.2 < start then entry.2 else start) ≤ start
          ∧ (if entry.2 < start then entry.2 else start) ≤ entry.2 := by
        split
        · omega
        · omega
      refine ⟨hstart.trans hle.1, ?_⟩
      intro other hother
      rcases List.mem_cons.mp hother with rfl | hother
      · exact hstart.trans hle.2
      · exact hrest other hother

theorem scheduled_scan (h : Scheduled s) :
    Scheduled (s.scan s.clock) ∧ Fresh (s.scan s.clock) s.clock := by
  obtain ⟨hnear, hearliest⟩ := foldl_earliest
    (s.traceMap.keep fun entry => s.clock < entry.2).entries (s.clock + maxAge)
  refine ⟨⟨(Table.size_keep_le _ _).trans h.bounded, ?_, hnear⟩, ?_, hearliest⟩
  · intro entry hentry
    exact .inl (hearliest entry hentry)
  · intro entry hentry
    exact of_decide_eq_true (List.mem_filter.mp hentry).2

/-- **What a preparation leaves is fresh**, whether it scans or not. -/
theorem scheduled_prepare (h : Scheduled s) (shouldProduceThreadSample : Bool) :
    Scheduled (s.tryPrepareSelectedThreadSampling shouldProduceThreadSample s.clock).2
      ∧ Fresh (s.tryPrepareSelectedThreadSampling shouldProduceThreadSample s.clock).2
        s.clock := by
  by_cases hdue : s.nextOutdatedEntriesScan ≤ s.clock
  · have hscan : (s.tryPrepareSelectedThreadSampling shouldProduceThreadSample s.clock).2
        = s.scan s.clock := if_pos hdue
    rw [hscan]
    exact scheduled_scan h
  · have hkeep : (s.tryPrepareSelectedThreadSampling shouldProduceThreadSample s.clock).2 = s :=
      if_neg hdue
    -- the scan is not due, so no deadline is before it
    have hscanned : ∀ entry ∈ s.traceMap.entries, s.nextOutdatedEntriesScan ≤ entry.2 := by
      intro entry hentry
      exact (h.scan entry hentry).resolve_right hdue
    rw [hkeep]
    refine ⟨h, ?_, hscanned⟩
    intro entry hentry
    have hle := hscanned entry hentry
    omega

/-! ### Runs -/

theorem step_cases {a : ℕ × Act} (h : step s a = some t) :
    s.clock ≤ a.1 ∧ act { s with clock := a.1 } a.2 = some t := by
  rw [step] at h
  split at h
  · next hclock => exact ⟨hclock, h⟩
  · cases h

theorem act_prepare {shouldProduceThreadSample : Bool}
    (h : act s (.prepare shouldProduceThreadSample) = some t) :
    t = (s.tryPrepareSelectedThreadSampling shouldProduceThreadSample s.clock).2 := by
  rw [act] at h
  split at h
  · exact (Option.some.inj h).symm
  · cases h

theorem scheduled_act (h : Scheduled s) {a : Act} (hact : act s a = some t) : Scheduled t := by
  cases a with
  | start context =>
      obtain rfl := Option.some.inj hact
      exact scheduled_start h context
  | stop context =>
      obtain rfl := Option.some.inj hact
      exact scheduled_stop h context
  | configure selectiveEnabled =>
      obtain rfl := Option.some.inj hact
      exact scheduled_configure h selectiveEnabled
  | prepare shouldProduceThreadSample =>
      obtain rfl := act_prepare hact
      exact (scheduled_prepare h shouldProduceThreadSample).1

theorem scheduled_inductive : System.Inductive selectiveSampling Scheduled := by
  refine ⟨?_, ?_⟩
  · rintro _ ⟨clock, rfl⟩
    exact scheduled_initial clock
  · intro s a t hscheduled hstep
    obtain ⟨hclock, hact⟩ := step_cases hstep
    exact scheduled_act (hscheduled.advance hclock) hact

/-- **At most 50 traces are selected**, and the next scan is at the earliest deadline or before
it, or due already. So a preparation leaves no outdated trace, and then no scan that is
scheduled is behind a deadline. -/
theorem scheduled_of_reachable (s : State) (hreachable : selectiveSampling.Reachable s) :
    s.traceMap.size ≤ kSelectiveSamplingMaxTraces
      ∧ (∀ entry ∈ s.traceMap.entries,
        s.nextOutdatedEntriesScan ≤ entry.2 ∨ s.nextOutdatedEntriesScan ≤ s.clock)
      ∧ ∀ now shouldProduceThreadSample t,
        selectiveSampling.step s (now, .prepare shouldProduceThreadSample) t → Fresh t now := by
  have hscheduled := scheduled_inductive.reachable hreachable
  refine ⟨hscheduled.bounded, hscheduled.scan, ?_⟩
  intro now shouldProduceThreadSample t hstep
  obtain ⟨hclock, hact⟩ := step_cases hstep
  obtain rfl := act_prepare hact
  exact (scheduled_prepare (hscheduled.advance hclock) shouldProduceThreadSample).2

/-- A trace is selected and its deadline comes while selective sampling is disabled. -/
def disabledPastDeadline : List (ℕ × Act) :=
  [(0, .configure true), (0, .start ⟨0, 1⟩), (0, .prepare true), (0, .configure false),
    (1000000, .configure true)]

def disabledPastDeadlineEnd : State where
  traceMap := Table.empty.set ⟨0, 1⟩ 900000
  nextOutdatedEntriesScan := 1000000
  selectiveEnabled := true
  clock := 1000000

theorem disabledPastDeadline_reachable : selectiveSampling.Reachable disabledPastDeadlineEnd :=
  System.reachable_of_exec (l := disabledPastDeadline) ⟨0, rfl⟩ rfl

theorem scheduled_of_reachable_disabledPastDeadline :
    disabledPastDeadlineEnd.nextOutdatedEntriesScan ≤ 900000
      ∨ disabledPastDeadlineEnd.nextOutdatedEntriesScan ≤ disabledPastDeadlineEnd.clock :=
  (scheduled_of_reachable disabledPastDeadlineEnd disabledPastDeadline_reachable).2.1
    (⟨0, 1⟩, 900000) (List.mem_singleton.mpr rfl)

/-- The scan that enabling schedules can be later than a deadline that came before. -/
theorem scan_later_than_deadline :
    ¬ ∀ s, selectiveSampling.Reachable s →
      ∀ entry ∈ s.traceMap.entries, s.nextOutdatedEntriesScan ≤ entry.2 := by
  intro hnever
  have hends := hnever disabledPastDeadlineEnd disabledPastDeadline_reachable
    (⟨0, 1⟩, 900000) (List.mem_singleton.mpr rfl)
  revert hends
  decide

end AutoInstrumentation.SelectiveSampling
