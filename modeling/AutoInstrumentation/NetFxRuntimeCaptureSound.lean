import AutoInstrumentation.NetFxRuntimeCapture

/-!
# AutoInstrumentation.NetFxRuntimeCaptureSound

When the canary is current.

The canary is a copy of what the two maps say of one thread, and it is made anew only when
there is none or when its thread is destroyed. It stays current in the runs in which its
thread keeps its OS thread and its name, no name is taken away from a thread that is named
as a canary, and an election does not end at a thread without an OS thread while another
could be elected. Each condition is needed: the step that breaks one leaves the maps or
the canary behind the threads.
-/

namespace AutoInstrumentation.NetFxRuntimeCapture

open Lib
open AutoInstrumentation.Cel (WString)

variable (options : NetFxCaptureOptions)

/-! ### Candidates -/

/-- The recorded name of the thread has the prefix. -/
def Capture.HasCanaryName (s : Capture) (t : ThreadId) : Prop :=
  ∃ name, s.threadNames.find t = some name ∧ options.isCanaryThreadName name

/-- The thread has an OS thread, and its recorded name has the prefix. -/
def Capture.IsCandidate (s : Capture) (t : ThreadId) (os : OsThreadId) : Prop :=
  s.activeThreads.find t = some os ∧ s.HasCanaryName options t

/-- The candidates of an election, in the order of the loop. -/
def Capture.candidates (s : Capture) : List CanarySnapshot :=
  s.threadNames.entries.filterMap (s.candidate options)

/-- The maps without a thread. -/
def Capture.without (s : Capture) (t : ThreadId) : Capture :=
  { s with
    activeThreads := s.activeThreads.erase t
    threadNames := s.threadNames.erase t }

/-- The election finds a thread that can be suspended, if there is one: the first candidate
has a nonzero OS thread or no candidate has. -/
def Capture.ElectionFair (s : Capture) : Prop :=
  ∀ first, (s.candidates options).head? = some first → first.osId = 0 →
    ∀ c ∈ s.candidates options, c.osId = 0

/-- What a notification must not do for the canary to stay current. -/
def Capture.Admits (s : Capture) : Notification → Prop
  | .destroyed t => s.canary.managedId = t → (s.without t).ElectionFair options
  | .nameChanged t name =>
      match name with
      | none | some [] => ¬s.HasCanaryName options t
      | some name =>
          s.canary.isValid → s.canary.managedId = t → options.isCanaryThreadName name
  | .assignedToOSThread t os =>
      t ≠ 0 ∧ (s.canary.isValid → s.canary.managedId = t → s.canary.osId = os)

variable {options}

theorem CanarySnapshot.isValid_iff {c : CanarySnapshot} :
    c.isValid ↔ c.managedId ≠ 0 ∧ c.osId ≠ 0 := by
  simp [CanarySnapshot.isValid]

theorem Capture.mem_candidates {s : Capture} {c : CanarySnapshot} :
    c ∈ s.candidates options ↔ s.IsCandidate options c.managedId c.osId := by
  rw [Capture.candidates, List.mem_filterMap]
  constructor
  · rintro ⟨⟨t, name⟩, hmem, hc⟩
    rw [Capture.candidate] at hc
    split at hc
    · next hname =>
        obtain ⟨os, hos, rfl⟩ := Option.map_eq_some_iff.mp hc
        exact ⟨hos, name, (s.threadNames.mem_entries _).mp hmem, hname⟩
    · cases hc
  · rintro ⟨hos, name, hfind, hname⟩
    refine ⟨(c.managedId, name), (s.threadNames.mem_entries _).mpr hfind, ?_⟩
    rw [Capture.candidate, if_pos hname, hos]
    rfl

/-! ### The invariant -/

/-- The maps say of the threads what they are. -/
structure State.MapsAgree (options : NetFxCaptureOptions) (s : State) : Prop where
  osThread : ∀ t, s.capture.activeThreads.find t = s.threads.osThread t
  name : ∀ t, s.capture.HasCanaryName options t ↔ s.threads.HasCanaryName options t
  zero : s.threads.osThread 0 = none

/-- The canary is a candidate, and there is one if a candidate has an OS thread. -/
structure Capture.CanaryChosen (options : NetFxCaptureOptions) (s : Capture) : Prop where
  candidate : s.canary.isValid → s.IsCandidate options s.canary.managedId s.canary.osId
  chosen : ∀ t os, s.IsCandidate options t os → os ≠ 0 → s.canary.isValid

/-- The inductive invariant of the runs whose steps are admitted. -/
structure State.Tracks (options : NetFxCaptureOptions) (s : State) : Prop where
  maps : s.MapsAgree options
  chosen : s.capture.CanaryChosen options

theorem State.MapsAgree.qualifies_iff {s : State} (h : s.MapsAgree options) {t : ThreadId}
    {os : OsThreadId} :
    s.threads.Qualifies options t os ↔ s.capture.IsCandidate options t os ∧ os ≠ 0 := by
  rw [Threads.Qualifies, Capture.IsCandidate, h.osThread, h.name]
  tauto

theorem State.MapsAgree.ne_zero {s : State} (h : s.MapsAgree options) {t : ThreadId}
    {os : OsThreadId} (hos : s.capture.activeThreads.find t = some os) : t ≠ 0 := by
  rintro rfl
  rw [h.osThread, h.zero] at hos
  cases hos

/-- **The invariant says that the canary is current.** -/
theorem State.Tracks.canaryCurrent {s : State} (h : s.Tracks options) :
    s.CanaryCurrent options := by
  have hqualifies (hvalid : s.capture.canary.isValid) :
      s.threads.Qualifies options s.capture.canary.managedId s.capture.canary.osId :=
    h.maps.qualifies_iff.mpr
      ⟨h.chosen.candidate hvalid, (CanarySnapshot.isValid_iff.mp hvalid).2⟩
  refine ⟨⟨fun hvalid => ⟨_, _, hqualifies hvalid⟩, ?_⟩, hqualifies⟩
  rintro ⟨t, os, hq⟩
  obtain ⟨hc, hos⟩ := h.maps.qualifies_iff.mp hq
  exact h.chosen.chosen t os hc hos

theorem State.tracks_initial : State.initial.Tracks options := by
  refine ⟨⟨fun _ => rfl, fun t => ?_, rfl⟩, ⟨?_, ?_⟩⟩
  · constructor
    · rintro ⟨name, hname, -⟩
      cases hname
    · rintro ⟨name, hname, -⟩
      cases hname
  · intro hvalid
    cases hvalid
  · rintro t os ⟨hos, -⟩
    cases hos

/-! ### What a notification does -/

/-- What the destruction of a thread does. -/
theorem Capture.onThreadDestroyed_cases (options : NetFxCaptureOptions) (s : Capture)
    (t : ThreadId) :
    (s.canary.managedId ≠ t ∧ s.onThreadDestroyed options t = s.without t) ∨
    (s.canary.managedId = t ∧ s.onThreadDestroyed options t =
      { s.without t with
        canary := (((s.without t).candidates options).head?).getD .none }) := by
  rw [Capture.onThreadDestroyed]
  by_cases hcanary : s.canary.managedId = t
  · refine .inr ⟨hcanary, ?_⟩
    rw [if_neg (not_not.mpr hcanary), Capture.reelectCanaryLocked, Capture.candidates,
      List.head?_filterMap]
    rfl
  · exact .inl ⟨hcanary, if_pos hcanary⟩

/-- What a name that is not empty does. -/
theorem Capture.onThreadNameChanged_cases (options : NetFxCaptureOptions) (s : Capture)
    (t : ThreadId) {name : WString} (hname : name ≠ []) :
    ((s.canary.isValid ∨ options.isCanaryThreadName name = false
        ∨ s.activeThreads.find t = none)
      ∧ s.onThreadNameChanged options t (some name) =
        { s with threadNames := s.threadNames.set t name }) ∨
    (∃ os, s.canary.isValid = false ∧ options.isCanaryThreadName name
      ∧ s.activeThreads.find t = some os ∧ s.onThreadNameChanged options t (some name) =
        { s with threadNames := s.threadNames.set t name, canary := ⟨t, os⟩ }) := by
  cases name with
  | nil => exact absurd rfl hname
  | cons c name =>
      rw [Capture.onThreadNameChanged]
      · by_cases hvalid : s.canary.isValid
        · exact .inl ⟨.inl hvalid, if_pos (.inl hvalid)⟩
        · by_cases hmatches : options.isCanaryThreadName (c :: name)
          · have hnot : ¬(s.canary.isValid = true
                ∨ ¬options.isCanaryThreadName (c :: name) = true) :=
              not_or.mpr ⟨hvalid, not_not.mpr hmatches⟩
            simp only [if_neg hnot]
            cases hos : s.activeThreads.find t with
            | none => exact .inl ⟨.inr (.inr rfl), rfl⟩
            | some os => exact .inr ⟨os, Bool.eq_false_iff.mpr hvalid, hmatches, rfl, rfl⟩
          · exact .inl ⟨.inr (.inl (Bool.not_eq_true _ ▸ hmatches)), if_pos (.inr hmatches)⟩
      · rintro ⟨⟩

/-- What the assignment to an OS thread does. -/
theorem Capture.onThreadAssignedToOSThread_cases (options : NetFxCaptureOptions)
    (s : Capture) (t : ThreadId) (os : OsThreadId) :
    ((s.canary.isValid ∨ ¬s.HasCanaryName options t)
      ∧ s.onThreadAssignedToOSThread options t os =
        { s with activeThreads := s.activeThreads.set t os }) ∨
    (s.canary.isValid = false ∧ s.HasCanaryName options t
      ∧ s.onThreadAssignedToOSThread options t os =
        { s with activeThreads := s.activeThreads.set t os, canary := ⟨t, os⟩ }) := by
  rw [Capture.onThreadAssignedToOSThread]
  by_cases hvalid : s.canary.isValid
  · exact .inl ⟨.inl hvalid, if_pos hvalid⟩
  · simp only [if_neg hvalid]
    cases hname : s.threadNames.find t with
    | none =>
        refine .inl ⟨.inr ?_, rfl⟩
        rintro ⟨name, hfind, -⟩
        rw [hname] at hfind
        cases hfind
    | some name =>
        by_cases hmatches : options.isCanaryThreadName name
        · exact .inr ⟨Bool.eq_false_iff.mpr hvalid, ⟨name, hname, hmatches⟩, if_pos hmatches⟩
        · refine .inl ⟨.inr ?_, if_neg hmatches⟩
          rintro ⟨name', hfind, hname'⟩
          rw [hname, Option.some.injEq] at hfind
          exact hmatches (hfind ▸ hname')

/-! ### The maps follow the threads -/

theorem Capture.hasCanaryName_congr {s s' : Capture} (h : s'.threadNames = s.threadNames)
    (t : ThreadId) : s'.HasCanaryName options t ↔ s.HasCanaryName options t := by
  rw [Capture.HasCanaryName, h, Capture.HasCanaryName]

theorem Capture.hasCanaryName_of_set {s s' : Capture} {t : ThreadId} {name : WString}
    (h : s'.threadNames = s.threadNames.set t name) (t' : ThreadId) :
    s'.HasCanaryName options t' ↔
      if t = t' then options.isCanaryThreadName name = true
      else s.HasCanaryName options t' := by
  rw [Capture.HasCanaryName, h, OrderedMap.find_set]
  split
  · constructor
    · rintro ⟨name', hname, hmatches⟩
      exact Option.some.inj hname ▸ hmatches
    · intro hmatches
      exact ⟨name, rfl, hmatches⟩
  · rfl

theorem Capture.hasCanaryName_of_erase {s s' : Capture} {t : ThreadId}
    (h : s'.threadNames = s.threadNames.erase t) (t' : ThreadId) :
    s'.HasCanaryName options t' ↔ t ≠ t' ∧ s.HasCanaryName options t' := by
  rw [Capture.HasCanaryName, h, OrderedMap.find_erase]
  by_cases ht : t = t'
  · simp [ht]
  · simp [ht, Capture.HasCanaryName]

/-- The name a thread has after it was given one. -/
theorem Threads.hasCanaryName_nameChanged (w : Threads) (t : ThreadId) (name : Option WString)
    (t' : ThreadId) :
    (w.after (.nameChanged t name)).HasCanaryName options t' ↔
      if t = t' then ∃ n, name = some n ∧ n ≠ [] ∧ options.isCanaryThreadName n
      else w.HasCanaryName options t' := by
  rw [Threads.HasCanaryName, Threads.after]
  by_cases ht : t = t'
  · subst ht
    simp [Option.filter_eq_some_iff, and_assoc]
  · simp [ht, Ne.symm ht, Threads.HasCanaryName]

theorem Threads.hasCanaryName_destroyed (w : Threads) (t t' : ThreadId) :
    (w.after (.destroyed t)).HasCanaryName options t' ↔
      t ≠ t' ∧ w.HasCanaryName options t' := by
  rw [Threads.HasCanaryName, Threads.after]
  by_cases ht : t = t'
  · simp [ht]
  · simp [ht, Ne.symm ht, Threads.HasCanaryName]

/-- The maps after the destruction of a thread. -/
theorem State.MapsAgree.destroyed {s : State} (h : s.MapsAgree options) {t : ThreadId}
    {s' : Capture} (hactive : s'.activeThreads = s.capture.activeThreads.erase t)
    (hnames : s'.threadNames = s.capture.threadNames.erase t) :
    (State.mk s' (s.threads.after (.destroyed t))).MapsAgree options where
  osThread t' := by
    change s'.activeThreads.find t' = Function.update s.threads.osThread t none t'
    rw [hactive, OrderedMap.find_erase, h.osThread]
    by_cases ht : t = t'
    · simp [ht]
    · simp [ht, Ne.symm ht]
  name t' := by
    change s'.HasCanaryName options t' ↔ _
    rw [Capture.hasCanaryName_of_erase hnames, h.name, Threads.hasCanaryName_destroyed]
  zero := by
    change Function.update s.threads.osThread t none 0 = none
    by_cases ht : t = 0
    · simp [ht]
    · simp [Ne.symm ht, h.zero]

/-- The maps after the name of a thread was recorded. -/
theorem State.MapsAgree.named {s : State} (h : s.MapsAgree options) {t : ThreadId}
    {name : WString} (hname : name ≠ []) {s' : Capture}
    (hactive : s'.activeThreads = s.capture.activeThreads)
    (hnames : s'.threadNames = s.capture.threadNames.set t name) :
    (State.mk s' (s.threads.after (.nameChanged t (some name)))).MapsAgree options where
  osThread t' := by
    change s'.activeThreads.find t' = s.threads.osThread t'
    rw [hactive, h.osThread]
  name t' := by
    change s'.HasCanaryName options t' ↔ _
    rw [Capture.hasCanaryName_of_set hnames, Threads.hasCanaryName_nameChanged, h.name]
    split
    · simp [hname]
    · rfl
  zero := h.zero

/-- The maps after the name of a thread that is not named as a canary was taken away. -/
theorem State.MapsAgree.unnamed {s : State} (h : s.MapsAgree options) {t : ThreadId}
    (hname : ¬s.capture.HasCanaryName options t) {name : Option WString}
    (hempty : ∀ n, name = some n → n = []) :
    (State.mk s.capture (s.threads.after (.nameChanged t name))).MapsAgree options where
  osThread := h.osThread
  name t' := by
    change s.capture.HasCanaryName options t' ↔ _
    rw [Threads.hasCanaryName_nameChanged]
    split
    · next ht =>
        subst ht
        refine iff_of_false hname ?_
        rintro ⟨n, hn, hne, -⟩
        exact hne (hempty n hn)
    · exact h.name t'
  zero := h.zero

/-- The maps after a thread was assigned to an OS thread. -/
theorem State.MapsAgree.assigned {s : State} (h : s.MapsAgree options) {t : ThreadId}
    (ht : t ≠ 0) {os : OsThreadId} {s' : Capture}
    (hactive : s'.activeThreads = s.capture.activeThreads.set t os)
    (hnames : s'.threadNames = s.capture.threadNames) :
    (State.mk s' (s.threads.after (.assignedToOSThread t os))).MapsAgree options where
  osThread t' := by
    change s'.activeThreads.find t' = Function.update s.threads.osThread t (some os) t'
    rw [hactive, OrderedMap.find_set, h.osThread]
    by_cases ht : t = t'
    · simp [ht]
    · simp [ht, Ne.symm ht]
  name t' := by
    change s'.HasCanaryName options t' ↔ s.threads.HasCanaryName options t'
    rw [Capture.hasCanaryName_congr hnames, h.name]
  zero := by
    change Function.update s.threads.osThread t (some os) 0 = none
    rw [Function.update_of_ne (Ne.symm ht), h.zero]

/-! ### The canary follows the maps -/

/-- The canary after an election that is fair. -/
theorem Capture.CanaryChosen.elected {s : Capture} (hfair : s.ElectionFair options)
    (hzero : ∀ t os, s.IsCandidate options t os → t ≠ 0) :
    { s with canary := ((s.candidates options).head?).getD .none }.CanaryChosen options := by
  cases hhead : (s.candidates options).head? with
  | none =>
      refine ⟨fun hvalid => (Bool.false_ne_true hvalid).elim, ?_⟩
      intro t os hc _
      have hmem : ⟨t, os⟩ ∈ s.candidates options := Capture.mem_candidates.mpr hc
      rw [List.head?_eq_none_iff.mp hhead] at hmem
      cases hmem
  | some first =>
      have hfirst := Capture.mem_candidates.mp (List.mem_of_head? hhead)
      refine ⟨fun _ => hfirst, ?_⟩
      intro t os hc hos
      refine CanarySnapshot.isValid_iff.mpr ⟨hzero _ _ hfirst, ?_⟩
      intro hnone
      exact hos (hfair first hhead hnone ⟨t, os⟩ (Capture.mem_candidates.mpr hc))

/-- The canary after the destruction of another thread. -/
theorem Capture.CanaryChosen.destroyed {s : Capture} (h : s.CanaryChosen options) {t : ThreadId}
    (ht : s.canary.managedId ≠ t) : (s.without t).CanaryChosen options := by
  have hiff (t' : ThreadId) (os : OsThreadId) :
      (s.without t).IsCandidate options t' os ↔ t ≠ t' ∧ s.IsCandidate options t' os := by
    rw [Capture.IsCandidate, Capture.IsCandidate, Capture.hasCanaryName_of_erase rfl,
      Capture.without, OrderedMap.find_erase]
    by_cases ht' : t = t'
    · simp [ht']
    · simp [ht']
  refine ⟨fun hvalid => (hiff _ _).mpr ⟨Ne.symm ht, h.candidate hvalid⟩, ?_⟩
  intro t' os hc hos
  exact h.chosen t' os ((hiff _ _).mp hc).2 hos

/-- The canary after the name of a thread was recorded. -/
theorem Capture.CanaryChosen.named {s : Capture} (h : s.CanaryChosen options) {t : ThreadId}
    {name : WString}
    (hkeeps : s.canary.isValid → s.canary.managedId = t → options.isCanaryThreadName name)
    (hidle : s.canary.isValid ∨ options.isCanaryThreadName name = false
      ∨ s.activeThreads.find t = none) :
    { s with threadNames := s.threadNames.set t name }.CanaryChosen options := by
  have hiff (t' : ThreadId) (os : OsThreadId) :
      { s with threadNames := s.threadNames.set t name }.IsCandidate options t' os ↔
        s.activeThreads.find t' = some os ∧
          if t = t' then options.isCanaryThreadName name = true
          else s.HasCanaryName options t' := by
    rw [Capture.IsCandidate, Capture.hasCanaryName_of_set rfl]
  refine ⟨?_, ?_⟩
  · intro hvalid
    obtain ⟨hos, hname⟩ := h.candidate hvalid
    refine (hiff _ _).mpr ⟨hos, ?_⟩
    split
    · next ht => exact hkeeps hvalid ht.symm
    · exact hname
  · intro t' os hc hos
    obtain ⟨hfind, hname⟩ := (hiff _ _).mp hc
    split at hname
    · next ht =>
        subst ht
        rcases hidle with hvalid | hmatches | hnone
        · exact hvalid
        · rw [hmatches] at hname
          cases hname
        · rw [hnone] at hfind
          cases hfind
    · exact h.chosen t' os ⟨hfind, hname⟩ hos

/-- The canary after a thread was assigned to an OS thread, where it stays. -/
theorem Capture.CanaryChosen.assigned {s : Capture} (h : s.CanaryChosen options) {t : ThreadId}
    {os : OsThreadId}
    (hkeeps : s.canary.isValid → s.canary.managedId = t → s.canary.osId = os)
    (hidle : s.canary.isValid ∨ ¬s.HasCanaryName options t) :
    { s with activeThreads := s.activeThreads.set t os }.CanaryChosen options := by
  have hiff (t' : ThreadId) (os' : OsThreadId) :
      { s with activeThreads := s.activeThreads.set t os }.IsCandidate options t' os' ↔
        (if t = t' then os = os' else s.activeThreads.find t' = some os')
          ∧ s.HasCanaryName options t' := by
    refine and_congr ?_ (Capture.hasCanaryName_congr rfl t')
    rw [OrderedMap.find_set]
    by_cases ht : t = t'
    · simp [ht]
    · simp [ht]
  refine ⟨?_, ?_⟩
  · intro hvalid
    obtain ⟨hos, hname⟩ := h.candidate hvalid
    refine (hiff _ _).mpr ⟨?_, hname⟩
    split
    · next ht => exact (hkeeps hvalid ht.symm).symm
    · exact hos
  · intro t' os' hc hos
    obtain ⟨hfind, hname⟩ := (hiff _ _).mp hc
    rcases hidle with hvalid | hnone
    · exact hvalid
    · by_cases ht : t = t'
      · exact absurd (ht ▸ hname) hnone
      · rw [if_neg ht] at hfind
        exact h.chosen t' os' ⟨hfind, hname⟩ hos

/-- A thread that becomes the only candidate with an OS thread, if it has one, becomes the
canary. -/
theorem Capture.CanaryChosen.became {s s' : Capture} (h : s.CanaryChosen options)
    (hnone : s.canary.isValid = false) {t : ThreadId} {os : OsThreadId} (ht : t ≠ 0)
    (hcanary : s'.canary = ⟨t, os⟩) (hc : s'.IsCandidate options t os)
    (hothers : ∀ t' os', t ≠ t' → s'.IsCandidate options t' os' → s.IsCandidate options t' os') :
    s'.CanaryChosen options := by
  refine ⟨fun _ => by rw [hcanary]; exact hc, ?_⟩
  intro t' os' hc' hos'
  rw [CanarySnapshot.isValid_iff, hcanary]
  refine ⟨ht, ?_⟩
  rintro rfl
  by_cases htt' : t = t'
  · subst htt'
    exact hos' (Option.some.inj (hc'.1.symm.trans hc.1))
  · have hvalid := h.chosen t' os' (hothers t' os' htt' hc') hos'
    rw [hnone] at hvalid
    cases hvalid

/-- The canary designated by its name. -/
theorem Capture.CanaryChosen.designated {s : Capture} (h : s.CanaryChosen options)
    (hnone : s.canary.isValid = false) {t : ThreadId} {name : WString} {os : OsThreadId}
    (ht : t ≠ 0) (hmatches : options.isCanaryThreadName name)
    (hos : s.activeThreads.find t = some os) :
    { s with threadNames := s.threadNames.set t name, canary := ⟨t, os⟩ }.CanaryChosen
      options := by
  refine h.became hnone ht rfl ⟨hos, (Capture.hasCanaryName_of_set rfl t).mpr ?_⟩ ?_
  · rw [if_pos rfl]
    exact hmatches
  · intro t' os' htt' hc'
    obtain ⟨hos', hname'⟩ := hc'
    rw [Capture.hasCanaryName_of_set (s := s) rfl, if_neg htt'] at hname'
    exact ⟨hos', hname'⟩

/-! ### Runs -/

/-- **An admitted notification keeps the invariant.** -/
theorem State.Tracks.notify {s : State} (h : s.Tracks options) {n : Notification}
    (hn : s.capture.Admits options n) : (s.notify options n).Tracks options := by
  obtain ⟨hmaps, hchosen⟩ := h
  cases n with
  | destroyed t =>
      rcases s.capture.onThreadDestroyed_cases options t with
        ⟨hother, heq⟩ | ⟨hcanary, heq⟩
      · rw [State.notify, Capture.notify, heq]
        exact ⟨hmaps.destroyed rfl rfl, hchosen.destroyed hother⟩
      · have hmaps' : State.MapsAgree options ⟨s.capture.without t, _⟩ :=
          hmaps.destroyed (t := t) rfl rfl
        rw [State.notify, Capture.notify, heq]
        refine ⟨hmaps.destroyed rfl rfl, Capture.CanaryChosen.elected (hn hcanary) ?_⟩
        intro t' os hc
        exact hmaps'.ne_zero hc.1
  | nameChanged t name =>
      have hunnamed (hempty : ∀ n, name = some n → n = [])
          (hname : ¬s.capture.HasCanaryName options t)
          (heq : s.capture.onThreadNameChanged options t name = s.capture) :
          (s.notify options (.nameChanged t name)).Tracks options := by
        rw [State.notify, Capture.notify, heq]
        exact ⟨hmaps.unnamed hname hempty, hchosen⟩
      match name with
      | none => exact hunnamed (fun n h => by cases h) hn rfl
      | some [] => exact hunnamed (fun n h => (Option.some.inj h).symm) hn rfl
      | some (c :: name) =>
          have hne : c :: name ≠ [] := List.cons_ne_nil c name
          have hkeeps : s.capture.canary.isValid → s.capture.canary.managedId = t →
              options.isCanaryThreadName (c :: name) := hn
          rcases s.capture.onThreadNameChanged_cases options t hne with
            ⟨hidle, heq⟩ | ⟨os, hnone, hmatches, hos, heq⟩
          · rw [State.notify, Capture.notify, heq]
            exact ⟨hmaps.named hne rfl rfl, hchosen.named hkeeps hidle⟩
          · rw [State.notify, Capture.notify, heq]
            exact ⟨hmaps.named hne rfl rfl,
              hchosen.designated hnone (hmaps.ne_zero hos) hmatches hos⟩
  | assignedToOSThread t os =>
      obtain ⟨ht, hkeeps⟩ := hn
      rcases s.capture.onThreadAssignedToOSThread_cases options t os with
        ⟨hidle, heq⟩ | ⟨hnone, hname, heq⟩
      · rw [State.notify, Capture.notify, heq]
        exact ⟨hmaps.assigned ht rfl rfl, hchosen.assigned hkeeps hidle⟩
      · rw [State.notify, Capture.notify, heq]
        refine ⟨hmaps.assigned ht rfl rfl, hchosen.became hnone ht rfl ⟨?_, hname⟩ ?_⟩
        · exact (OrderedMap.find_set ..).trans (if_pos rfl)
        · intro t' os' htt' hc'
          exact ⟨((OrderedMap.find_set ..).trans (if_neg htt')).symm.trans hc'.1, hc'.2⟩

/-- **No other notification keeps it.** -/
theorem State.admits_of_tracks {s : State} {n : Notification}
    (hn : (s.notify options n).Tracks options) : s.capture.Admits options n := by
  obtain ⟨hmaps, hchosen⟩ := hn
  cases n with
  | destroyed t =>
      intro hcanary first hhead hos c hc
      rcases s.capture.onThreadDestroyed_cases options t with
        ⟨hother, -⟩ | ⟨-, heq⟩
      · exact absurd hcanary hother
      · rw [State.notify, Capture.notify, heq, hhead] at hchosen
        -- The election ended at a thread without an OS thread.
        by_contra hne
        have hvalid := hchosen.chosen c.managedId c.osId (Capture.mem_candidates.mp hc) hne
        exact (CanarySnapshot.isValid_iff.mp hvalid).2 hos
  | nameChanged t name =>
      have hunnamed (hempty : ∀ n, name = some n → n = [])
          (heq : s.capture.onThreadNameChanged options t name = s.capture) :
          ¬s.capture.HasCanaryName options t := by
        intro hname
        have hagree := hmaps.name t
        rw [State.notify, Capture.notify, heq, Threads.hasCanaryName_nameChanged, if_pos rfl]
          at hagree
        obtain ⟨n, hn, hne, -⟩ := hagree.mp hname
        exact hne (hempty n hn)
      match name with
      | none => exact hunnamed (fun n h => by cases h) rfl
      | some [] => exact hunnamed (fun n h => (Option.some.inj h).symm) rfl
      | some (c :: name) =>
          intro hvalid hcanary
          rcases s.capture.onThreadNameChanged_cases options t
            (List.cons_ne_nil c name) with ⟨-, heq⟩ | ⟨os, hnone, -⟩
          · rw [State.notify, Capture.notify, heq] at hchosen
            obtain ⟨-, hname⟩ := hchosen.candidate hvalid
            rw [Capture.hasCanaryName_of_set rfl, if_pos hcanary.symm] at hname
            exact hname
          · rw [hvalid] at hnone
            cases hnone
  | assignedToOSThread t os =>
      refine ⟨?_, ?_⟩
      · rintro rfl
        have hzero : Function.update s.threads.osThread 0 (some os) 0 = none := hmaps.zero
        rw [Function.update_self] at hzero
        cases hzero
      · intro hvalid hcanary
        rcases s.capture.onThreadAssignedToOSThread_cases options t os with
          ⟨-, heq⟩ | ⟨hnone, -⟩
        · rw [State.notify, Capture.notify, heq] at hchosen
          obtain ⟨hos, -⟩ := hchosen.candidate hvalid
          rw [OrderedMap.find_set, if_pos hcanary.symm] at hos
          exact (Option.some.inj hos).symm
        · rw [hvalid] at hnone
          cases hnone

variable (options)

/-- The runs whose notifications are all admitted. -/
def admittedSystem : System State Notification :=
  (system options).restrict fun s n => s.capture.Admits options n

theorem State.tracks_of_reachable {s : State} (hs : (admittedSystem options).Reachable s) :
    s.Tracks options := by
  refine System.Inductive.reachable (I := State.Tracks options) ⟨?_, ?_⟩ hs
  · rintro s rfl
    exact State.tracks_initial
  · rintro s n t h ⟨rfl, hn⟩
    exact h.notify hn

/-- **The canary is current in every state of a run whose notifications are admitted, and the
invariant survives no other notification.** -/
theorem canaryCurrent_of_reachable (s : State) (hs : (admittedSystem options).Reachable s) :
    s.CanaryCurrent options
      ∧ ∀ n, (s.notify options n).Tracks options ↔ s.capture.Admits options n := by
  have htracks := State.tracks_of_reachable options hs
  exact ⟨htracks.canaryCurrent, fun n => ⟨State.admits_of_tracks, htracks.notify⟩⟩

/-- A canary elected by its name, whose thread then moves to another OS thread. -/
def movedCanary : List Notification :=
  [.assignedToOSThread 1 100, .nameChanged 1 NetFxCaptureOptions.default.canaryNamePrefix,
    .assignedToOSThread 1 200]

def State.notifyAll (s : State) (ns : List Notification) : State :=
  ns.foldl (fun s n => s.notify options n) s

theorem State.run_notifyAll (s : State) (ns : List Notification) :
    System.Run (system options) s ns (s.notifyAll options ns) := by
  induction ns generalizing s with
  | nil => exact .nil s
  | cons n ns ih => exact .cons rfl (ih (s.notify options n))

/-- The canary keeps the OS thread it was elected with. -/
theorem not_canaryCurrent_moved :
    ¬∀ options s, (system options).Reachable s → s.CanaryCurrent options := by
  intro h
  have hcurrent := h .default (State.initial.notifyAll .default movedCanary)
    ⟨_, _, rfl, State.run_notifyAll ..⟩
  obtain ⟨hos, -⟩ := hcurrent.2 (by decide)
  exact absurd hos (by decide)

/-- Up to the move the run is admitted. -/
theorem canaryCurrent_elected :
    (State.initial.notifyAll .default (movedCanary.take 2)).CanaryCurrent .default := by
  refine (canaryCurrent_of_reachable .default _ ⟨.initial, movedCanary.take 2, rfl, ?_⟩).1
  refine .cons ⟨rfl, by decide, ?_⟩ (.cons ⟨rfl, ?_⟩ (.nil _))
  · intro hvalid
    cases hvalid
  · intro hvalid
    cases hvalid

end AutoInstrumentation.NetFxRuntimeCapture
