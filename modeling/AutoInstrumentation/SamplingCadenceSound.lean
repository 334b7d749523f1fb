import AutoInstrumentation.SamplingCadence

/-!
# AutoInstrumentation.SamplingCadenceSound

With both modes enabled, every ratio-th cohort of a configuration is continuous and the
others are selective.

The iteration that the worker keeps is the number of the cohorts of its configuration modulo
the ratio, so that it is below the ratio whenever it is counted up.
-/

namespace AutoInstrumentation.SamplingCadence

open Lib RuntimeSampler

variable {s t : State}

/-- The continuous interval in selective intervals. -/
def ratio (configuration : ThreadSamplingConfiguration) : ℕ :=
  configuration.cpuSamplingIntervalMilliseconds.toNat
    / configuration.selectiveSamplingIntervalMilliseconds.toNat

/-- How many of the latest cohorts in a row are of a configuration. -/
def runLength (configuration : ThreadSamplingConfiguration) (cohorts : List Cohort) : ℕ :=
  (cohorts.takeWhile fun cohort => cohort.configuration = configuration).length

/-- A cohort and the ones before it: it is the next of its configuration. With both modes it
is continuous exactly at a multiple of the ratio, and its iteration counts from 1 to the
ratio. -/
structure OnCadence (cohort : Cohort) (earlier : List Cohort) : Prop where
  both : cohort.configuration.bothEnabled = true →
    (cohort.samplingType = .continuous
        ↔ ratio cohort.configuration ∣ runLength cohort.configuration earlier + 1)
      ∧ cohort.iteration.toNat
        = runLength cohort.configuration earlier % ratio cohort.configuration + 1
      ∧ cohort.iteration.toNat ≤ ratio cohort.configuration
  single : cohort.configuration.bothEnabled = false →
    cohort.samplingType
      = if cohort.configuration.selectiveEnabled then .selectedThreads else .continuous

/-- A configuration that was staged: its ratio is exact and above 1. -/
def Valid (configuration : ThreadSamplingConfiguration) : Prop :=
  configuration.bothEnabled = true →
    1 < ratio configuration
      ∧ ratio configuration * configuration.selectiveSamplingIntervalMilliseconds.toNat
        = configuration.cpuSamplingIntervalMilliseconds.toNat

/-- The invariant. -/
structure Sound (s : State) : Prop where
  desired : Valid s.desired
  configuration : Valid s.configuration
  previous : s.previousConfigurationVersion ≤ s.configuration.version
  version : s.configuration.version ≤ s.desired.version
  cohorts : ∀ cohort ∈ s.cohorts, cohort.configuration.version ≤ s.previousConfigurationVersion
  iteration : s.configuration.version = s.previousConfigurationVersion →
    s.configuration.bothEnabled = true →
      s.iteration.toNat = runLength s.configuration s.cohorts % ratio s.configuration
  cadence : ∀ cohort earlier, cohort :: earlier <:+ s.cohorts → OnCadence cohort earlier

/-! ### Valid configurations -/

/-- **What `IsValid` accepts has an exact ratio.** -/
theorem valid_staged {configuration : RuntimeSamplerConfiguration}
    (h : configuration.isValid = true) (version : ℕ) :
    Valid (.staged configuration version) := by
  intro hboth
  obtain ⟨hcpu, hselective⟩ := Bool.and_eq_true_iff.mp hboth
  have hcpu := of_decide_eq_true hcpu
  have hselective := of_decide_eq_true hselective
  simp only [ThreadSamplingConfiguration.staged] at hcpu hselective
  simp only [RuntimeSamplerConfiguration.isValid, hcpu, hselective, ne_eq, not_false_eq_true,
    decide_true, Bool.true_and, Bool.not_eq_true', Bool.or_eq_false_iff, decide_eq_false_iff_not,
    not_not] at h
  obtain ⟨hlt, hmod⟩ := h
  have hdvd : configuration.selectiveThreadSamplingIntervalMilliseconds.toNat
      ∣ configuration.cpuSamplingIntervalMilliseconds.toNat := by
    refine Nat.dvd_of_mod_eq_zero ?_
    have hzero := congrArg BitVec.toNat hmod
    rw [BitVec.toNat_umod] at hzero
    exact hzero
  have hpos : configuration.selectiveThreadSamplingIntervalMilliseconds.toNat ≠ 0 := by
    intro hzero
    exact hselective (BitVec.eq_of_toNat_eq hzero)
  rw [BitVec.not_le, BitVec.lt_def] at hlt
  obtain ⟨k, hk⟩ := hdvd
  have hratio : ratio (.staged configuration version) = k := by
    rw [ratio]
    simp only [ThreadSamplingConfiguration.staged]
    rw [hk, Nat.mul_div_cancel_left k (Nat.pos_of_ne_zero hpos)]
  have hk1 : 1 < k := by
    by_contra hle
    have hk2 : k = 0 ∨ k = 1 := by omega
    rcases hk2 with rfl | rfl
    · omega
    · omega
  refine ⟨hratio ▸ hk1, ?_⟩
  rw [hratio, Nat.mul_comm]
  exact hk.symm

theorem valid_ratio_pos {configuration : ThreadSamplingConfiguration} (h : Valid configuration)
    (hboth : configuration.bothEnabled = true) : 0 < ratio configuration :=
  Nat.lt_of_succ_lt (h hboth).1

/-- The ratio fits in 32 bits. -/
theorem ratio_lt (configuration : ThreadSamplingConfiguration) :
    ratio configuration < 2 ^ 32 :=
  Nat.lt_of_le_of_lt (Nat.div_le_self _ _) (BitVec.isLt _)

/-! ### Decisions -/

theorem getNextSamplingType_of_single {configuration : ThreadSamplingConfiguration}
    (h : configuration.bothEnabled = false) (iteration : BitVec 32) :
    getNextSamplingType configuration iteration
      = if configuration.selectiveEnabled then .selectedThreads else .continuous := by
  rw [getNextSamplingType]
  rw [ThreadSamplingConfiguration.bothEnabled] at h
  cases hselective : configuration.selectiveEnabled with
  | false => rfl
  | true =>
      rw [hselective, Bool.and_true] at h
      rw [h]
      rfl

/-- **With both modes** the iteration of the ratio is continuous. -/
theorem getNextSamplingType_of_both {configuration : ThreadSamplingConfiguration}
    (h : configuration.bothEnabled = true) (iteration : BitVec 32) :
    getNextSamplingType configuration iteration = .continuous
      ↔ iteration.toNat = ratio configuration := by
  obtain ⟨hcpu, hselective⟩ := Bool.and_eq_true_iff.mp h
  rw [getNextSamplingType, hcpu, hselective, ratio, ← BitVec.toNat_udiv, BitVec.toNat_inj]
  by_cases hratio : iteration = configuration.cpuSamplingIntervalMilliseconds
      / configuration.selectiveSamplingIntervalMilliseconds
  · simp [hratio]
  · simp [hratio]

/-- The remainder of a number is one below the divisor before a multiple. -/
theorem dvd_succ_iff {k n : ℕ} (hk : 0 < k) : k ∣ n + 1 ↔ n % k + 1 = k := by
  have hlt := Nat.mod_lt n hk
  rw [Nat.dvd_iff_mod_eq_zero, Nat.add_mod]
  constructor
  · intro hzero
    by_contra hne
    have hsmall : n % k + 1 < k := by omega
    have hone : 1 % k = 1 := Nat.mod_eq_of_lt (by omega)
    rw [hone, Nat.mod_eq_of_lt hsmall] at hzero
    omega
  · intro heq
    rcases Nat.eq_or_lt_of_le hk with hk1 | hk1
    · rw [← hk1, Nat.mod_one]
    · have hone : 1 % k = 1 := Nat.mod_eq_of_lt hk1
      rw [hone, heq, Nat.mod_self]

theorem succ_mod_of_not_dvd {k n : ℕ} (hk : 0 < k) (h : ¬ k ∣ n + 1) :
    (n + 1) % k = n % k + 1 := by
  have hlt := Nat.mod_lt n hk
  have hne := (dvd_succ_iff hk).not.mp h
  have hsmall : n % k + 1 < k := by omega
  rw [Nat.add_mod, Nat.mod_eq_of_lt (a := 1) (by omega), Nat.mod_eq_of_lt hsmall]

/-! ### Runs of cohorts -/

theorem runLength_cons (configuration : ThreadSamplingConfiguration) (iteration : BitVec 32)
    (samplingType : SamplingType) (cohorts : List Cohort) :
    runLength configuration (⟨configuration, iteration, samplingType⟩ :: cohorts)
      = runLength configuration cohorts + 1 := by
  simp [runLength]

/-- No cohort is of a configuration that is newer than all of them. -/
theorem runLength_eq_zero {configuration : ThreadSamplingConfiguration} {cohorts : List Cohort}
    {version : ℕ} (h : ∀ cohort ∈ cohorts, cohort.configuration.version ≤ version)
    (hnew : version < configuration.version) : runLength configuration cohorts = 0 := by
  cases cohorts with
  | nil => rfl
  | cons cohort cohorts =>
      have hother : cohort.configuration ≠ configuration := by
        intro heq
        have hle := h cohort (List.mem_cons_self ..)
        rw [heq] at hle
        omega
      simp [runLength, hother]

/-! ### Steps -/

theorem sound_stage (h : Sound s) {configuration : RuntimeSamplerConfiguration}
    (hvalid : configuration.isValid = true) : Sound (s.stage configuration) where
  desired := valid_staged hvalid _
  configuration := h.configuration
  previous := h.previous
  version := Nat.le_succ_of_le h.version
  cohorts := h.cohorts
  iteration := h.iteration
  cadence := h.cadence

theorem sound_pull (h : Sound s) : Sound s.pull := by
  by_cases hversion : s.configuration.version ≠ s.desired.version
  · have hpull : s.pull = { s with configuration := s.desired } := if_pos hversion
    have hprevious := h.previous
    have hle := h.version
    rw [hpull]
    refine ⟨h.desired, h.desired, hprevious.trans hle, Nat.le_refl _, h.cohorts, ?_, h.cadence⟩
    intro hsame
    -- the version is above the one before the wait
    simp only at hsame
    omega
  · have hpull : s.pull = s := if_neg hversion
    rw [hpull]
    exact h

/-- **The counted iteration** is from 1 to the ratio, and does not overflow. -/
theorem toNat_countedIteration (h : Sound s) (hboth : s.configuration.bothEnabled = true) :
    s.countedIteration.toNat
      = runLength s.configuration s.cohorts % ratio s.configuration + 1 := by
  have hpos := valid_ratio_pos h.configuration hboth
  have hlt := ratio_lt s.configuration
  have htrack : shouldTrackIterations s.configuration = true := hboth
  by_cases hversion : s.configuration.version = s.previousConfigurationVersion
  · have hcounted : s.countedIteration = s.iteration + 1 := by
      simp [State.countedIteration, hversion, htrack]
    have hiteration := h.iteration hversion hboth
    have hmod := Nat.mod_lt (runLength s.configuration s.cohorts) hpos
    rw [hcounted, BitVec.toNat_add, hiteration]
    exact Nat.mod_eq_of_lt (by
      show _ + 1 < _
      omega)
  · have hcounted : s.countedIteration = 1 := by
      simp [State.countedIteration, hversion, htrack]
    have hprevious := h.previous
    have hzero : runLength s.configuration s.cohorts = 0 :=
      runLength_eq_zero h.cohorts (by omega)
    rw [hcounted, hzero, Nat.zero_mod]
    rfl

/-- **A cohort is on the cadence.** -/
theorem onCadence_admitCohort (h : Sound s) :
    OnCadence ⟨s.configuration, s.countedIteration,
      getNextSamplingType s.configuration s.countedIteration⟩ s.cohorts where
  both := by
    intro hboth
    have hcounted := toNat_countedIteration h hboth
    have hpos := valid_ratio_pos h.configuration hboth
    have hmod := Nat.mod_lt (runLength s.configuration s.cohorts) hpos
    refine ⟨?_, hcounted, ?_⟩
    · rw [getNextSamplingType_of_both hboth, hcounted, dvd_succ_iff hpos]
    · rw [hcounted]
      exact hmod
  single := by
    intro hsingle
    exact getNextSamplingType_of_single hsingle _

/-- The iteration that is kept is reset by a continuous cohort. -/
theorem toNat_iteration_admitCohort (h : Sound s)
    (hboth : s.configuration.bothEnabled = true) :
    s.admitCohort.iteration.toNat
      = (runLength s.configuration s.cohorts + 1) % ratio s.configuration := by
  have hcounted := toNat_countedIteration h hboth
  have hpos := valid_ratio_pos h.configuration hboth
  have htype := getNextSamplingType_of_both hboth s.countedIteration
  rw [hcounted, ← dvd_succ_iff hpos] at htype
  have htrack : shouldTrackIterations s.configuration = true := hboth
  by_cases hdvd : ratio s.configuration ∣ runLength s.configuration s.cohorts + 1
  · have hreset : s.admitCohort.iteration = 0 := if_pos ⟨htype.mpr hdvd, htrack⟩
    rw [hreset, Nat.mod_eq_zero_of_dvd hdvd]
    rfl
  · have hkept : s.admitCohort.iteration = s.countedIteration := by
      refine if_neg ?_
      intro hcontinuous
      exact hdvd (htype.mp hcontinuous.1)
    rw [hkept, hcounted, succ_mod_of_not_dvd hpos hdvd]

theorem sound_admitCohort (h : Sound s) : Sound s.admitCohort where
  desired := h.desired
  configuration := h.configuration
  previous := Nat.le_refl _
  version := h.version
  cohorts := by
    intro cohort hcohort
    rcases List.mem_cons.mp hcohort with rfl | hcohort
    · exact Nat.le_refl _
    · exact (h.cohorts cohort hcohort).trans h.previous
  iteration := by
    intro _ hboth
    rw [toNat_iteration_admitCohort h hboth]
    exact congrArg (· % ratio s.configuration) (runLength_cons ..).symm
  cadence := by
    intro cohort earlier hsuffix
    rcases List.suffix_cons_iff.mp hsuffix with heq | hsuffix
    · obtain ⟨rfl, rfl⟩ := List.cons.inj heq
      exact onCadence_admitCohort h
    · exact h.cadence cohort earlier hsuffix

theorem sound_inductive : System.Inductive samplingWorker Sound := by
  refine ⟨?_, ?_⟩
  · rintro _ ⟨configuration, version, hvalid, rfl⟩
    have hstaged := valid_staged hvalid version
    refine ⟨hstaged, hstaged, Nat.le_refl _, Nat.le_refl _, ?_, ?_, ?_⟩
    · simp [State.initial]
    · intro _ _
      rfl
    · simp [State.initial]
  · intro s act t hsound hstep
    cases act with
    | stage configuration =>
        obtain ⟨hvalid, ht⟩ := Option.ite_none_right_eq_some.mp hstep
        obtain rfl := Option.some.inj ht
        exact sound_stage hsound hvalid
    | pull =>
        obtain rfl := Option.some.inj hstep
        exact sound_pull hsound
    | cohort =>
        obtain ⟨-, ht⟩ := Option.ite_none_right_eq_some.mp hstep
        obtain rfl := Option.some.inj ht
        exact sound_admitCohort hsound

/-- **Every ratio-th cohort of a configuration is continuous**, and the iteration stays
between 1 and the ratio, whatever configurations came before. -/
theorem onCadence_of_reachable (s : State) (hreachable : samplingWorker.Reachable s)
    (cohort : Cohort) (earlier : List Cohort) (hsuffix : cohort :: earlier <:+ s.cohorts) :
    OnCadence cohort earlier :=
  (sound_inductive.reachable hreachable).cadence cohort earlier hsuffix

/-- Both modes, and no allocation samples. -/
def intervals (cpu selective : BitVec 32) : RuntimeSamplerConfiguration where
  cpuSamplingIntervalMilliseconds := cpu
  selectiveThreadSamplingIntervalMilliseconds := selective

/-- The ratio is lowered from 3 to 2 behind the second cohort. -/
def loweredRatio : List Act :=
  [.cohort, .cohort, .stage (intervals 40 20), .pull, .cohort, .cohort]

def loweredRatioEnd : State where
  desired := ⟨40, 20, 1⟩
  configuration := ⟨40, 20, 1⟩
  previousConfigurationVersion := 1
  cohorts := [⟨⟨40, 20, 1⟩, 2, .continuous⟩, ⟨⟨40, 20, 1⟩, 1, .selectedThreads⟩,
    ⟨⟨60, 20, 0⟩, 2, .selectedThreads⟩, ⟨⟨60, 20, 0⟩, 1, .selectedThreads⟩]

theorem loweredRatio_reachable : samplingWorker.Reachable loweredRatioEnd :=
  System.reachable_of_exec (l := loweredRatio) ⟨intervals 60 20, 0, by decide, rfl⟩ (by decide)

theorem onCadence_of_reachable_loweredRatio :
    OnCadence ⟨⟨40, 20, 1⟩, 2, .continuous⟩
      [⟨⟨40, 20, 1⟩, 1, .selectedThreads⟩, ⟨⟨60, 20, 0⟩, 2, .selectedThreads⟩,
        ⟨⟨60, 20, 0⟩, 1, .selectedThreads⟩] :=
  onCadence_of_reachable loweredRatioEnd loweredRatio_reachable _ _ List.suffix_rfl

end AutoInstrumentation.SamplingCadence
