import AutoInstrumentation.RuntimeSampler

/-!
# AutoInstrumentation.RuntimeSamplerSound

What a sequence of `ApplyConfiguration` calls keeps, whatever their steps answer.

The invariant is one equation: the settings in force are those the committed
configuration asks for, with the allocation branch closed once the sampler has
been shut down. The fallible steps of an activation change no setting except the
last one, which opens the event session; so every early return leaves the
settings where they were, and `commit` moves them to the new configuration.
-/

namespace AutoInstrumentation.RuntimeSampler

open Lib Lib.System

/-! ### The sampler's operations on the settings -/

namespace Sampler

theorem settings_updateTarget_zero (p : Sampler) :
    (p.updateAllocationSamplingTarget 0).settings = { p.settings with allocationTarget := 0 } := by
  unfold settings target updateAllocationSamplingTarget
  cases p.allocationSubSampler <;> rfl

/-- With a sub-sampler the target is what it is set to. -/
theorem settings_updateTarget {p : Sampler} (h : p.allocationSubSampler.isSome) (n : BitVec 32) :
    (p.updateAllocationSamplingTarget n).settings = { p.settings with allocationTarget := n } := by
  obtain ⟨m, hm⟩ := Option.isSome_iff_exists.mp h
  simp only [settings, target, updateAllocationSamplingTarget, hm, Option.map_some,
    Option.getD_some]

theorem startThreadSampling_settings (env : Env) (p : Sampler) :
    (p.startThreadSampling env).1.settings = p.settings ∧
      (p.startThreadSampling env).1.shutdownRequested = p.shutdownRequested := by
  unfold startThreadSampling
  dsimp only
  split
  · exact ⟨rfl, rfl⟩
  split
  · exact ⟨rfl, rfl⟩
  split <;> exact ⟨rfl, rfl⟩

theorem startSession_shutdownRequested (env : Env) (p : Sampler) :
    (p.startAllocationSamplingSession env).1.shutdownRequested = p.shutdownRequested := by
  unfold startAllocationSamplingSession
  dsimp only
  repeat' split
  all_goals rfl

/-- A session that does not start changes no setting of a sampler without one. -/
theorem startSession_failed {env : Env} {p : Sampler}
    (hidle : p.settings.sessionActive = false)
    (h : (p.startAllocationSamplingSession env).2 = false) :
    (p.startAllocationSamplingSession env).1.settings = p.settings := by
  have hstate : p.allocationSamplingSessionState ≠ .active := by simpa [settings] using hidle
  revert h
  unfold startAllocationSamplingSession
  by_cases hp : p.allocationSamplingSessionState = .permanentlyDisabled
  · rw [if_pos hp]
    exact fun _ => rfl
  rw [if_neg hp]
  split
  · exact fun _ => rfl
  dsimp only
  rw [if_neg hstate]
  split
  · intro _
    simp [settings, target, hstate]
  · exact fun h => by cases h

/-- A session that starts is active, over a sub-sampler with the old target. -/
theorem startSession_started {env : Env} {p : Sampler}
    (h : (p.startAllocationSamplingSession env).2 = true) :
    (p.startAllocationSamplingSession env).1.settings = { p.settings with sessionActive := true } ∧
      (p.startAllocationSamplingSession env).1.allocationSubSampler.isSome := by
  revert h
  unfold startAllocationSamplingSession
  by_cases hp : p.allocationSamplingSessionState = .permanentlyDisabled
  · rw [if_pos hp]
    exact fun h => by cases h
  rw [if_neg hp]
  split
  · exact fun h => by cases h
  dsimp only
  by_cases ha : p.allocationSamplingSessionState = .active
  · rw [if_pos ha]
    exact fun _ => ⟨by simp [settings, target, ha], rfl⟩
  rw [if_neg ha]
  split
  · exact fun h => by cases h
  · exact fun _ => ⟨by simp [settings, target], rfl⟩

/-- A stopped session leaves the allocation branch closed, however the stop went. -/
theorem settings_stopSession (env : Env) (p : Sampler) :
    (p.stopAllocationSamplingSession env).1.settings = p.settings.closed := by
  have hzero := settings_updateTarget_zero p
  unfold stopAllocationSamplingSession
  cases hs : p.allocationSamplingSessionState with
  | none | permanentlyDisabled =>
      simp only [updateAllocationSamplingTarget, hs] at hzero ⊢
      rw [hzero]
      simp [Settings.closed, settings, hs]
  | active =>
      simp only [updateAllocationSamplingTarget, hs]
      split <;>
        cases hsub : p.allocationSubSampler <;>
          simp [Settings.closed, settings, target, hsub]

theorem shutdownRequested_stopSession (env : Env) (p : Sampler) :
    (p.stopAllocationSamplingSession env).1.shutdownRequested = p.shutdownRequested := by
  unfold stopAllocationSamplingSession
  dsimp only
  split
  · rfl
  · rfl
  · split <;> rfl

theorem shutdown_eq (env : Env) (p : Sampler) :
    (p.shutdown env).shutdownRequested = true ∧
      (p.shutdownRequested = false → (p.shutdown env).settings = p.settings.closed) := by
  unfold shutdown
  cases hs : p.shutdownRequested with
  | true => exact ⟨hs, fun h => by cases h⟩
  | false =>
      rw [if_neg (by simp)]
      refine ⟨?_, fun _ => ?_⟩
      · exact shutdownRequested_stopSession env _
      · refine (settings_stopSession env _).trans ?_
        rw [settings_updateTarget_zero]
        rfl

end Sampler

/-! ### The fallible steps of an activation -/

/-- The services differ in nothing a caller or a producer can see. -/
structure Quiet (s t : Service) : Prop where
  authority : t.authority = s.authority
  committed : t.committedConfiguration = s.committedConfiguration
  shutdownStarted : t.shutdownStarted = s.shutdownStarted
  activationFailed : t.activationFailed = s.activationFailed
  settings : t.settings = s.settings
  samplerShutDown : t.samplerShutDown = s.samplerShutDown

theorem Quiet.refl (s : Service) : Quiet s s := ⟨rfl, rfl, rfl, rfl, rfl, rfl⟩

theorem Quiet.trans {s t u : Service} (h₁ : Quiet s t) (h₂ : Quiet t u) : Quiet s u where
  authority := h₂.authority.trans h₁.authority
  committed := h₂.committed.trans h₁.committed
  shutdownStarted := h₂.shutdownStarted.trans h₁.shutdownStarted
  activationFailed := h₂.activationFailed.trans h₁.activationFailed
  settings := h₂.settings.trans h₁.settings
  samplerShutDown := h₂.samplerShutDown.trans h₁.samplerShutDown

namespace Service

/-- A new sampler has the settings of none. -/
theorem ensureSamplerCreated_quiet (env : Env) (s : Service) :
    Quiet s (s.ensureSamplerCreated env).1 := by
  unfold ensureSamplerCreated
  cases hp : s.sampler with
  | some p => exact .refl s
  | none =>
      cases hc : env.createSampler with
      | false => exact .refl s
      | true =>
          refine ⟨rfl, rfl, rfl, rfl, ?_, ?_⟩
          · simp only [settings, hp]
            rfl
          · simp only [samplerShutDown, hp]
            rfl

theorem ensureSamplerCreated_isSome {env : Env} {s : Service}
    (h : (s.ensureSamplerCreated env).2 = true) :
    (s.ensureSamplerCreated env).1.sampler.isSome := by
  revert h
  unfold ensureSamplerCreated
  split
  · exact fun _ => by assumption
  · split
    · exact fun _ => rfl
    · exact fun h => by cases h

theorem ensureSelectiveSamplingBuffersPrepared_quiet (env : Env) (s : Service) :
    Quiet s (s.ensureSelectiveSamplingBuffersPrepared env).1 ∧
      (s.ensureSelectiveSamplingBuffersPrepared env).1.sampler = s.sampler := by
  unfold ensureSelectiveSamplingBuffersPrepared
  split
  · exact ⟨.refl s, rfl⟩
  · split <;> exact ⟨⟨rfl, rfl, rfl, rfl, rfl, rfl⟩, rfl⟩

theorem ensureRequiredClrEventsEnabled_quiet (env : Env) (s : Service) :
    Quiet s (s.ensureRequiredClrEventsEnabled env).1 ∧
      (s.ensureRequiredClrEventsEnabled env).1.sampler = s.sampler := by
  unfold ensureRequiredClrEventsEnabled
  split
  · exact ⟨.refl s, rfl⟩
  · split <;> exact ⟨⟨rfl, rfl, rfl, rfl, rfl, rfl⟩, rfl⟩

/-- An operation that leaves the sampler's settings alone leaves the service's alone. -/
theorem onSampler_quiet {s : Service} {f : Sampler → Sampler × Bool}
    (hf : ∀ p, s.sampler = some p → (f p).1.settings = p.settings ∧
      (f p).1.shutdownRequested = p.shutdownRequested) : Quiet s (s.onSampler f).1 := by
  unfold onSampler
  cases hp : s.sampler with
  | none => exact .refl s
  | some p =>
      obtain ⟨hset, hshut⟩ := hf p hp
      refine ⟨rfl, rfl, rfl, rfl, ?_, ?_⟩
      · simp only [settings, hp, hset]
      · simp only [samplerShutDown, hp, hshut]

theorem onSampler_isSome {s : Service} {f : Sampler → Sampler × Bool}
    (h : s.sampler.isSome) : (s.onSampler f).1.sampler.isSome := by
  obtain ⟨p, hp⟩ := Option.isSome_iff_exists.mp h
  simp only [onSampler, hp, Option.isSome_some]

/-- The event session of a configuration is open over a sub-sampler. -/
structure Ready (configuration : RuntimeSamplerConfiguration) (s t : Service) : Prop where
  authority : t.authority = s.authority
  committed : t.committedConfiguration = s.committedConfiguration
  shutdownStarted : t.shutdownStarted = s.shutdownStarted
  activationFailed : t.activationFailed = s.activationFailed
  samplerShutDown : t.samplerShutDown = s.samplerShutDown
  sampler : ∃ p, t.sampler = some p ∧ p.settings.cpuInterval = s.settings.cpuInterval ∧
    p.settings.selectiveInterval = s.settings.selectiveInterval ∧
    (configuration.allocationEnabled = true →
      p.allocationSubSampler.isSome ∧ p.settings.sessionActive = true)

theorem Ready.of_quiet {configuration : RuntimeSamplerConfiguration} {s t u : Service}
    (h : Quiet s t) (hu : Ready configuration t u) : Ready configuration s u where
  authority := hu.authority.trans h.authority
  committed := hu.committed.trans h.committed
  shutdownStarted := hu.shutdownStarted.trans h.shutdownStarted
  activationFailed := hu.activationFailed.trans h.activationFailed
  samplerShutDown := hu.samplerShutDown.trans h.samplerShutDown
  sampler := h.settings ▸ hu.sampler

/-- A sampler whose settings are a configuration's has a sub-sampler when that
configuration samples allocations. -/
theorem isSome_of_settings {p : Sampler} {c : RuntimeSamplerConfiguration}
    (h : p.settings = c.settings) (hc : c.allocationEnabled = true) :
    p.allocationSubSampler.isSome ∧ p.settings.sessionActive = true := by
  have htarget : p.target = c.maxAllocationSamplesPerMinute :=
    congrArg Settings.allocationTarget h
  have hactive : p.settings.sessionActive = c.allocationEnabled :=
    congrArg Settings.sessionActive h
  refine ⟨?_, hactive.trans hc⟩
  cases hsub : p.allocationSubSampler with
  | some n => rfl
  | none =>
      have hzero : c.maxAllocationSamplesPerMinute = 0 := by
        rw [← htarget, Sampler.target, hsub]
        rfl
      simp [RuntimeSamplerConfiguration.allocationEnabled, hzero] at hc

/-- What an attempt to activate a configuration may do: a failure is quiet, and a
success opens what the configuration needs. -/
structure Activates (configuration : RuntimeSamplerConfiguration) (s : Service)
    (r : Service × Option Failure) : Prop where
  failed : r.2 ≠ none → Quiet s r.1
  ready : r.2 = none → Ready configuration s r.1

theorem Activates.of_quiet {configuration : RuntimeSamplerConfiguration} {s t : Service}
    {r : Service × Option Failure} (h : Quiet s t) (hr : Activates configuration t r) :
    Activates configuration s r where
  failed hne := h.trans (hr.failed hne)
  ready hnone := .of_quiet h (hr.ready hnone)

/-- A quiet step may stand before the rest of an activation. -/
theorem activates_orFail {configuration : RuntimeSamplerConfiguration} {s : Service}
    {r : Service × Bool} {next : Service → Service × Option Failure} (h : Quiet s r.1)
    (hnext : r.2 = true → Activates configuration r.1 (next r.1)) :
    Activates configuration s (orFail r next) := by
  unfold orFail
  split
  · rename_i hok
    exact .of_quiet h (hnext hok)
  · exact ⟨fun _ => h, fun hnone => by cases hnone⟩

theorem whenNeeded_quiet {needed : Bool} {f : Service → Service × Bool} {s : Service}
    (h : Quiet s (f s).1) : Quiet s (s.whenNeeded needed f).1 := by
  unfold whenNeeded
  split
  · exact h
  · exact .refl s

theorem whenNeeded_sampler (needed : Bool) (f : Service → Service × Bool) {s : Service}
    (h : s.sampler.isSome → (f s).1.sampler.isSome) (hs : s.sampler.isSome) :
    (s.whenNeeded needed f).1.sampler.isSome := by
  unfold whenNeeded
  split
  · exact h hs
  · exact hs

/-- Starting the session of a configuration that has none changes no setting when
it fails, and otherwise makes it ready. -/
theorem startSession_onSampler (env : Env) (configuration : RuntimeSamplerConfiguration)
    {s : Service} {p : Sampler} (hp : s.sampler = some p)
    (hidle : p.settings.sessionActive = false) :
    let r := s.onSampler (Sampler.startAllocationSamplingSession env)
    (r.2 = false → Quiet s r.1) ∧ (r.2 = true → Ready configuration s r.1) := by
  have hshut := Sampler.startSession_shutdownRequested env p
  refine ⟨fun h => ?_, fun h => ?_⟩
  · refine onSampler_quiet fun q hq => ?_
    obtain rfl := Option.some.inj (hp.symm.trans hq)
    refine ⟨Sampler.startSession_failed hidle ?_, hshut⟩
    simpa only [onSampler, hp] using h
  · have hstarted : (p.startAllocationSamplingSession env).2 = true := by
      simpa only [onSampler, hp] using h
    obtain ⟨hsettings, hsub⟩ := Sampler.startSession_started hstarted
    simp only [onSampler, hp]
    refine ⟨rfl, rfl, rfl, rfl, ?_, _, rfl, ?_, ?_, fun _ => ⟨hsub, ?_⟩⟩
    · simp only [samplerShutDown, hp, hshut]
    · rw [hsettings]
      simp only [settings, hp]
    · rw [hsettings]
      simp only [settings, hp]
    · rw [hsettings]

/-- The last fallible step, over a sampler with the committed settings. -/
theorem activates_openSession (env : Env) (configuration : RuntimeSamplerConfiguration)
    {s : Service} (hset : s.settings = s.committedConfiguration.settings)
    (hp : s.sampler.isSome) : Activates configuration s (s.openSession env configuration) := by
  obtain ⟨p, hp⟩ := Option.isSome_iff_exists.mp hp
  have hps : p.settings = s.committedConfiguration.settings := by
    rw [← hset]
    simp only [settings, hp]
  unfold openSession whenNeeded
  by_cases hneed : configuration.allocationEnabled && !s.committedConfiguration.allocationEnabled
  · rw [if_pos hneed]
    obtain ⟨-, hnot⟩ := Bool.and_eq_true_iff.mp hneed
    have hidle : p.settings.sessionActive = false := by
      rw [hps]
      exact (Bool.not_eq_true' _).mp hnot
    obtain ⟨hfailed, hready⟩ :=
      startSession_onSampler env configuration hp hidle
    dsimp only
    cases hr : (s.onSampler (Sampler.startAllocationSamplingSession env)).2 with
    | true => exact ⟨fun h => absurd rfl h, fun _ => hready hr⟩
    | false =>
        rw [if_neg (by simp)]
        split <;> exact ⟨fun _ => hfailed hr, fun h => by cases h⟩
  · rw [if_neg hneed]
    refine ⟨fun h => absurd rfl h, fun _ => ⟨rfl, rfl, rfl, rfl, rfl, p, hp, ?_, ?_, fun hc => ?_⟩⟩
    · simp only [settings, hp]
    · simp only [settings, hp]
    · exact isSome_of_settings hps (by simpa [hc] using hneed)

/-- **Activation.** Every failure leaves the service as it was to its callers and
producers; a success opens what the configuration needs. -/
theorem activates_activate (env : Env) (configuration : RuntimeSamplerConfiguration)
    {s : Service} (hset : s.settings = s.committedConfiguration.settings) :
    Activates configuration s (s.activate env configuration) := by
  unfold activate
  have hq₁ := ensureSamplerCreated_quiet env s
  refine activates_orFail hq₁ fun hok => ?_
  have hp₁ := ensureSamplerCreated_isSome hok
  generalize (s.ensureSamplerCreated env).1 = s₁ at hq₁ hp₁ ⊢
  have hq₂ : Quiet s₁ (s₁.whenNeeded configuration.selectiveEnabled
      (ensureSelectiveSamplingBuffersPrepared env)).1 :=
    whenNeeded_quiet (ensureSelectiveSamplingBuffersPrepared_quiet env s₁).1
  refine activates_orFail hq₂ fun _ => ?_
  have hp₂ := whenNeeded_sampler configuration.selectiveEnabled
    (ensureSelectiveSamplingBuffersPrepared env)
    (fun h => (ensureSelectiveSamplingBuffersPrepared_quiet env s₁).2 ▸ h) hp₁
  replace hq₂ := hq₁.trans hq₂
  generalize (s₁.whenNeeded configuration.selectiveEnabled
    (ensureSelectiveSamplingBuffersPrepared env)).1 = s₂ at hq₂ hp₂ ⊢
  have hq₃ : Quiet s₂ (s₂.whenNeeded configuration.threadSamplingEnabled
      (onSampler · (Sampler.startThreadSampling env))).1 :=
    whenNeeded_quiet (onSampler_quiet fun p _ => Sampler.startThreadSampling_settings env p)
  refine activates_orFail hq₃ fun _ => ?_
  have hp₃ := whenNeeded_sampler configuration.threadSamplingEnabled
    ((onSampler · (Sampler.startThreadSampling env))) onSampler_isSome hp₂
  replace hq₃ := hq₂.trans hq₃
  generalize (s₂.whenNeeded configuration.threadSamplingEnabled
    (onSampler · (Sampler.startThreadSampling env))).1 = s₃ at hq₃ hp₃ ⊢
  obtain ⟨hq₄, hsampler⟩ := ensureRequiredClrEventsEnabled_quiet env s₃
  refine activates_orFail hq₄ fun _ => ?_
  refine activates_openSession env configuration ?_ (hsampler ▸ hp₃)
  rw [hq₄.settings, hq₄.committed, hq₃.settings, hq₃.committed, hset]

end Service

/-! ### The commit -/

/-- The mailbox holds the committed intervals after a publication, whether or not
they had to be staged. -/
theorem publish_intervals {previous : RuntimeSamplerConfiguration}
    (configuration : RuntimeSamplerConfiguration) {p : Sampler}
    (hcpu : p.settings.cpuInterval = previous.cpuSamplingIntervalMilliseconds)
    (hsel : p.settings.selectiveInterval = previous.selectiveThreadSamplingIntervalMilliseconds) :
    (Service.publishCommittedConfiguration previous configuration p).settings.cpuInterval =
        configuration.cpuSamplingIntervalMilliseconds ∧
      (Service.publishCommittedConfiguration previous configuration p).settings.selectiveInterval =
        configuration.selectiveThreadSamplingIntervalMilliseconds := by
  unfold Service.publishCommittedConfiguration
  by_cases hchanged : (previous.cpuSamplingIntervalMilliseconds ≠
      configuration.cpuSamplingIntervalMilliseconds ||
    previous.selectiveThreadSamplingIntervalMilliseconds ≠
      configuration.selectiveThreadSamplingIntervalMilliseconds) = true
  · rw [if_pos hchanged]
    dsimp only
    split <;> exact ⟨rfl, rfl⟩
  · rw [if_neg hchanged]
    obtain ⟨hc, hs⟩ : previous.cpuSamplingIntervalMilliseconds =
        configuration.cpuSamplingIntervalMilliseconds ∧
      previous.selectiveThreadSamplingIntervalMilliseconds =
        configuration.selectiveThreadSamplingIntervalMilliseconds := by
      simpa using hchanged
    dsimp only
    split <;> exact ⟨hcpu.trans hc, hsel.trans hs⟩

theorem publish_shutdownRequested (previous configuration : RuntimeSamplerConfiguration)
    (p : Sampler) :
    (Service.publishCommittedConfiguration previous configuration p).shutdownRequested =
      p.shutdownRequested := by
  unfold Service.publishCommittedConfiguration
  dsimp only
  split <;> split <;> rfl

/-- Publishing an allocation target to a sampler whose session is open. -/
theorem publish_allocation (previous : RuntimeSamplerConfiguration)
    {configuration : RuntimeSamplerConfiguration} {p : Sampler}
    (hc : configuration.allocationEnabled = true) (hsub : p.allocationSubSampler.isSome)
    (hactive : p.settings.sessionActive = true) :
    (Service.publishCommittedConfiguration previous configuration p).settings.allocationTarget =
        configuration.maxAllocationSamplesPerMinute ∧
      (Service.publishCommittedConfiguration previous configuration p).settings.sessionActive =
        true := by
  unfold Service.publishCommittedConfiguration
  dsimp only
  rw [if_pos hc]
  split
  · have hsub' : (p.stageThreadSamplingConfiguration configuration.cpuSamplingIntervalMilliseconds
        configuration.selectiveThreadSamplingIntervalMilliseconds).allocationSubSampler.isSome :=
      hsub
    rw [Sampler.settings_updateTarget hsub']
    exact ⟨rfl, hactive⟩
  · rw [Sampler.settings_updateTarget hsub]
    exact ⟨rfl, hactive⟩

theorem settings_ext {t u : Settings} (hcpu : t.cpuInterval = u.cpuInterval)
    (hsel : t.selectiveInterval = u.selectiveInterval)
    (htarget : t.allocationTarget = u.allocationTarget)
    (hactive : t.sessionActive = u.sessionActive) : t = u := by
  cases t
  cases u
  simp_all

namespace Service

/-- **The commit.** It moves the settings of an activated service to those of the
new configuration. -/
theorem commit_settings (env : Env) (source : RuntimeSamplerAuthority)
    {configuration : RuntimeSamplerConfiguration} {s : Service} {p : Sampler}
    (hp : s.sampler = some p)
    (hcpu : p.settings.cpuInterval = s.committedConfiguration.cpuSamplingIntervalMilliseconds)
    (hsel : p.settings.selectiveInterval =
      s.committedConfiguration.selectiveThreadSamplingIntervalMilliseconds)
    (halloc : configuration.allocationEnabled = true →
      p.allocationSubSampler.isSome ∧ p.settings.sessionActive = true) :
    (s.commit env source configuration).settings = configuration.settings ∧
      (s.commit env source configuration).samplerShutDown = s.samplerShutDown := by
  cases hc : configuration.allocationEnabled with
  | true =>
      obtain ⟨hsub, hactive⟩ := halloc hc
      obtain ⟨hcpu', hsel'⟩ := publish_intervals configuration hcpu hsel
      obtain ⟨htarget, hactive'⟩ :=
        publish_allocation s.committedConfiguration hc hsub hactive
      simp only [settings, samplerShutDown, commit, hp, hc, Option.map_some, if_true]
      exact ⟨settings_ext hcpu' hsel' htarget (hactive'.trans hc.symm),
        publish_shutdownRequested _ _ _⟩
  | false =>
      have hzero : configuration.maxAllocationSamplesPerMinute = 0 := by
        simpa [RuntimeSamplerConfiguration.allocationEnabled] using hc
      have hclosed := Sampler.settings_updateTarget_zero p
      obtain ⟨hcpu', hsel'⟩ := publish_intervals configuration
        (p := p.updateAllocationSamplingTarget 0) (by rw [hclosed]; exact hcpu)
        (by rw [hclosed]; exact hsel)
      simp only [settings, samplerShutDown, commit, hp, hc, Option.map_some, if_false,
        Bool.false_eq_true]
      refine ⟨?_, ?_⟩
      · rw [Sampler.settings_stopSession]
        exact settings_ext hcpu' hsel' hzero.symm hc.symm
      · rw [Sampler.shutdownRequested_stopSession, publish_shutdownRequested]
        rfl

/-- Without a sampler only a configuration that samples nothing is committed. -/
theorem commit_settings_none (env : Env) (source : RuntimeSamplerAuthority)
    {configuration : RuntimeSamplerConfiguration} {s : Service} (hp : s.sampler = none)
    (hoff : configuration.anyFeatureEnabled = false) :
    (s.commit env source configuration).settings = configuration.settings ∧
      (s.commit env source configuration).samplerShutDown = false := by
  simp only [RuntimeSamplerConfiguration.anyFeatureEnabled,
    RuntimeSamplerConfiguration.threadSamplingEnabled, Bool.or_eq_false_iff,
    RuntimeSamplerConfiguration.cpuEnabled, RuntimeSamplerConfiguration.selectiveEnabled,
    RuntimeSamplerConfiguration.allocationEnabled, decide_eq_false_iff_not, not_not] at hoff
  obtain ⟨⟨hcpu, hsel⟩, halloc⟩ := hoff
  refine ⟨?_, by simp only [samplerShutDown, commit, hp, Option.map_none]⟩
  simp only [settings, commit, hp, Option.map_none]
  refine settings_ext hcpu.symm hsel.symm halloc.symm ?_
  simp [RuntimeSamplerConfiguration.settings, RuntimeSamplerConfiguration.allocationEnabled, halloc]

end Service

/-! ### The invariant -/

structure Inv (s : Service) : Prop where
  /-- The settings in force are those of the committed configuration. -/
  settings : s.settings =
    if s.samplerShutDown then s.committedConfiguration.settings.closed
    else s.committedConfiguration.settings
  /-- Only a service that takes no more configurations has its sampler shut down. -/
  shutDown : s.samplerShutDown = true → s.shutdownStarted = true ∨ s.activationFailed = true

theorem inv_initial : Inv {} where
  settings := by decide
  shutDown h := by cases h

/-- Shutting the sampler down closes the allocation branch. -/
theorem shutdownSampler_spec (env : Env) (s : Service)
    (h : s.settings = if s.samplerShutDown then s.committedConfiguration.settings.closed
      else s.committedConfiguration.settings) :
    (s.shutdownSampler env).settings =
      if (s.shutdownSampler env).samplerShutDown then s.committedConfiguration.settings.closed
      else s.committedConfiguration.settings := by
  cases hp : s.sampler with
  | none =>
      simp only [Service.settings, Service.samplerShutDown, hp] at h
      simp only [Service.shutdownSampler, Service.settings, Service.samplerShutDown, hp,
        Option.map_none]
      exact h
  | some p =>
      obtain ⟨hshut, hclosed⟩ := Sampler.shutdown_eq env p
      simp only [Service.settings, Service.samplerShutDown, hp] at h
      simp only [Service.shutdownSampler, Service.settings, Service.samplerShutDown, hp,
        Option.map_some, hshut, if_true]
      cases hs : p.shutdownRequested with
      | false =>
          rw [hs] at h
          rw [hclosed hs, h]
          rfl
      | true =>
          -- the second caller finds the branch closed
          have hnoop : p.shutdown env = p := by
            unfold Sampler.shutdown
            rw [if_pos hs]
          rw [hs] at h
          rw [hnoop, h]
          rfl

theorem Inv.shutdown {s : Service} (hI : Inv s) (env : Env) : Inv (s.shutdown env) where
  settings := shutdownSampler_spec env { s with shutdownStarted := true } hI.settings
  shutDown _ := .inl rfl

theorem Inv.workerFails {s t : Service} (hI : Inv s) (h : s.workerFails = some t) : Inv t := by
  unfold Service.workerFails at h
  cases hp : s.sampler with
  | none =>
      rw [hp] at h
      cases h
  | some p =>
      simp only [hp] at h
      split at h
      · obtain rfl := Option.some.inj h
        have hset := hI.settings
        have hshut := hI.shutDown
        simp only [Service.settings, Service.samplerShutDown, hp] at hset hshut
        exact ⟨hset, hshut⟩
      · cases h

/-! ### One call -/

/-- The service takes configurations, its committed worker runs, and the source
may replace what is committed. -/
structure Admits (source : RuntimeSamplerAuthority) (s : Service) : Prop where
  shutdownStarted : s.shutdownStarted = false
  activationFailed : s.activationFailed = false
  worker : s.hasThreadSamplingWorkerFailed = false
  seed : source = .seed → s.authority ≠ .seed ∧ s.authority ≠ .controlPlane

theorem Admits.findsWorkerFailed {source : RuntimeSamplerAuthority} {s : Service}
    (h : Admits source s) : s.findsWorkerFailed = false := by
  simp [Service.findsWorkerFailed, h.worker]

/-- The ways a call to `ApplyConfiguration` ends. -/
inductive Applies (env : Env) (source : RuntimeSamplerAuthority)
    (configuration : RuntimeSamplerConfiguration) (s : Service) :
    Service × RuntimeSamplerApplyResult → Prop
  | declined {result : RuntimeSamplerApplyResult} : result ≠ .applied →
      s.findsWorkerFailed = false → Applies env source configuration s (s, result)
  | workerFailed : s.findsWorkerFailed = true →
      Applies env source configuration s
        ({ s with activationFailed := true }.shutdownSampler env, .activationFailed)
  | promoted : Admits source s → configuration.same s.committedConfiguration = true →
      Applies env source configuration s ({ s with authority := source }, .applied)
  | activated {t : Service} : Admits source s → s.activate env configuration = (t, none) →
      Applies env source configuration s (t.commit env source configuration, .applied)
  | failed {t : Service} {failure : Failure} : Admits source s →
      s.activate env configuration = (t, some failure) → failure = .activation →
      Applies env source configuration s
        (t.failActivation env s.committedConfiguration.anyFeatureEnabled, .activationFailed)
  | branchLost {t : Service} {failure : Failure} : Admits source s →
      s.activate env configuration = (t, some failure) →
      Applies env source configuration s (t, .activationFailed)
  | disabled : Admits source s → configuration.anyFeatureEnabled = false →
      Applies env source configuration s (s.commit env source configuration, .applied)

theorem applies_applyConfiguration (env : Env) (source : RuntimeSamplerAuthority)
    (configuration : RuntimeSamplerConfiguration) (s : Service) :
    Applies env source configuration s (s.applyConfiguration env source configuration) := by
  unfold Service.applyConfiguration
  dsimp only
  by_cases hsd : s.shutdownStarted = true
  · rw [if_pos hsd]
    exact .declined (by decide) (by simp [Service.findsWorkerFailed, hsd])
  rw [if_neg hsd]
  by_cases haf : s.activationFailed = true
  · rw [if_pos haf]
    exact .declined (by decide) (by simp [Service.findsWorkerFailed, haf])
  rw [if_neg haf]
  by_cases hw : s.hasThreadSamplingWorkerFailed = true
  · rw [if_pos hw]
    exact .workerFailed (by simp [Service.findsWorkerFailed, hsd, haf, hw])
  rw [if_neg hw]
  have hfinds : s.findsWorkerFailed = false := by simp [Service.findsWorkerFailed, hw]
  split
  · exact .declined (by decide) hfinds
  split
  · exact .declined (by decide) hfinds
  split
  · exact .declined (by decide) hfinds
  rename_i hseed
  split
  · exact .declined (by decide) hfinds
  rename_i hcontrol
  have hadmits : Admits source s :=
    ⟨by simpa using hsd, by simpa using haf, by simpa using hw,
      fun hs => ⟨fun ha => hseed ⟨hs, ha⟩, fun ha => hcontrol ⟨hs, ha⟩⟩⟩
  split
  · rename_i hsame
    split
    · exact .declined (by decide) hfinds
    · exact .promoted hadmits hsame
  split
  · rcases hact : s.activate env configuration with ⟨t, _ | _ | _⟩
    · exact .activated hadmits hact
    · exact .failed hadmits hact rfl
    · exact .branchLost hadmits hact
  · rename_i hoff
    exact .disabled hadmits (by simpa using hoff)

theorem same_settings {c d : RuntimeSamplerConfiguration} (h : c.same d = true) :
    c.settings = d.settings := by
  simp only [RuntimeSamplerConfiguration.same, Bool.and_eq_true, decide_eq_true_iff] at h
  obtain ⟨⟨hcpu, hsel⟩, halloc⟩ := h
  refine settings_ext hcpu hsel halloc ?_
  simp only [RuntimeSamplerConfiguration.settings, RuntimeSamplerConfiguration.allocationEnabled,
    halloc]

/-- A configuration that samples nothing has its allocation branch closed. -/
theorem closed_settings {c : RuntimeSamplerConfiguration} (h : c.allocationEnabled = false) :
    c.settings.closed = c.settings := by
  have hzero : c.maxAllocationSamplesPerMinute = 0 := by
    simpa [RuntimeSamplerConfiguration.allocationEnabled] using h
  exact settings_ext rfl rfl hzero.symm h.symm

/-- A service that still takes configurations has not shut its sampler down. -/
theorem Inv.not_shutDown {s : Service} (hI : Inv s) (hsd : s.shutdownStarted = false)
    (haf : s.activationFailed = false) : s.samplerShutDown = false := by
  by_contra hshut
  rcases hI.shutDown (by simpa using hshut) with hs | hs
  · simp [hsd] at hs
  · simp [haf] at hs

/-- An admitted service runs at the committed settings. -/
theorem Inv.running {s : Service} (hI : Inv s) {source : RuntimeSamplerAuthority}
    (h : Admits source s) :
    s.samplerShutDown = false ∧ s.settings = s.committedConfiguration.settings := by
  have hrun := hI.not_shutDown h.shutdownStarted h.activationFailed
  have hset := hI.settings
  rw [hrun] at hset
  exact ⟨hrun, hset⟩

theorem Inv.of_quiet {s t : Service} (hI : Inv s) (h : Quiet s t) : Inv t where
  settings := by
    rw [h.settings, h.samplerShutDown, h.committed]
    exact hI.settings
  shutDown := by
    rw [h.samplerShutDown, h.shutdownStarted, h.activationFailed]
    exact hI.shutDown

/-- What one call does to a service that satisfies the invariant. -/
structure Sound (source : RuntimeSamplerAuthority) (configuration : RuntimeSamplerConfiguration)
    (s : Service) (r : Service × RuntimeSamplerApplyResult) : Prop where
  inv : Inv r.1
  unchanged : r.2 ≠ .applied →
    r.1.authority = s.authority ∧ r.1.committedConfiguration = s.committedConfiguration
  applied : r.2 = .applied → Admits source s ∧ r.1.authority = source ∧
    configuration.same r.1.committedConfiguration = true
  settings : r.2 ≠ .applied → s.findsWorkerFailed = false → r.1.settings = s.settings
  shutDown : r.1.samplerShutDown = true → s.samplerShutDown = true ∨ s.findsWorkerFailed = true ∨
    s.committedConfiguration.anyFeatureEnabled = false ∧ r.2 = .activationFailed

theorem same_refl (c : RuntimeSamplerConfiguration) : c.same c = true := by
  simp [RuntimeSamplerConfiguration.same]

theorem sound_of_applies {env : Env} {source : RuntimeSamplerAuthority}
    {configuration : RuntimeSamplerConfiguration} {s : Service}
    {r : Service × RuntimeSamplerApplyResult} (hI : Inv s)
    (h : Applies env source configuration s r) : Sound source configuration s r := by
  cases h with
  | declined hne =>
      exact ⟨hI, fun _ => ⟨rfl, rfl⟩, fun ha => absurd ha hne, fun _ _ => rfl, .inl⟩
  | workerFailed hw =>
      refine ⟨⟨shutdownSampler_spec env { s with activationFailed := true } hI.settings,
        fun _ => .inr rfl⟩, fun _ => ⟨rfl, rfl⟩, fun ha => (by cases ha), fun _ hn => ?_,
        fun _ => .inr (.inl hw)⟩
      simp [hw] at hn
  | promoted hadmits hsame =>
      exact ⟨⟨hI.settings, hI.shutDown⟩, fun hne => absurd rfl hne,
        fun _ => ⟨hadmits, rfl, hsame⟩, fun hne => absurd rfl hne, .inl⟩
  | activated hadmits hact =>
      obtain ⟨hrun, hset⟩ := hI.running hadmits
      have hready := (Service.activates_activate env configuration hset).ready (by rw [hact])
      rw [hact] at hready
      obtain ⟨p, hp, hcpu, hsel, halloc⟩ := hready.sampler
      obtain ⟨hsettings, hshut⟩ := Service.commit_settings env source hp
        (by rw [hcpu, hready.committed, hset]; rfl) (by rw [hsel, hready.committed, hset]; rfl) halloc
      rw [hready.samplerShutDown, hrun] at hshut
      refine ⟨⟨?_, fun h => ?_⟩, fun hne => absurd rfl hne,
        fun _ => ⟨hadmits, rfl, same_refl _⟩, fun hne => absurd rfl hne, fun h => ?_⟩
      · rw [hshut]
        exact hsettings
      · simp [hshut] at h
      · simp [hshut] at h
  | @failed t failure hadmits hact =>
      obtain ⟨hrun, hset⟩ := hI.running hadmits
      have hquiet := (Service.activates_activate env configuration hset).failed (by simp [hact])
      rw [hact] at hquiet
      have hIt := hI.of_quiet hquiet
      unfold Service.failActivation
      cases hany : s.committedConfiguration.anyFeatureEnabled with
      | true =>
          rw [if_pos rfl]
          exact ⟨hIt, fun _ => ⟨hquiet.authority, hquiet.committed⟩, fun ha => (by cases ha),
            fun _ _ => hquiet.settings, fun h => .inl (hquiet.samplerShutDown ▸ h)⟩
      | false =>
          rw [if_neg (by simp)]
          have hspec := shutdownSampler_spec env { t with activationFailed := true } hIt.settings
          refine ⟨⟨hspec, fun _ => .inr rfl⟩, fun _ => ⟨hquiet.authority, hquiet.committed⟩,
            fun ha => (by cases ha), fun _ _ => ?_, fun _ => .inr (.inr ⟨hany, rfl⟩)⟩
          have hoff : s.committedConfiguration.allocationEnabled = false := by
            simp only [RuntimeSamplerConfiguration.anyFeatureEnabled, Bool.or_eq_false_iff] at hany
            exact hany.2
          refine hspec.trans ?_
          change (if _ then t.committedConfiguration.settings.closed
            else t.committedConfiguration.settings) = _
          rw [hquiet.committed, closed_settings hoff, ite_self, hset]
  | branchLost hadmits hact =>
      obtain ⟨hrun, hset⟩ := hI.running hadmits
      have hquiet := (Service.activates_activate env configuration hset).failed (by simp [hact])
      rw [hact] at hquiet
      exact ⟨hI.of_quiet hquiet, fun _ => ⟨hquiet.authority, hquiet.committed⟩,
        fun ha => (by cases ha), fun _ _ => hquiet.settings,
        fun h => .inl (hquiet.samplerShutDown ▸ h)⟩
  | disabled hadmits hoff =>
      obtain ⟨hrun, hset⟩ := hI.running hadmits
      have halloc : configuration.allocationEnabled = false := by
        simp only [RuntimeSamplerConfiguration.anyFeatureEnabled, Bool.or_eq_false_iff] at hoff
        exact hoff.2
      have hcommit : (s.commit env source configuration).settings = configuration.settings ∧
          (s.commit env source configuration).samplerShutDown = false := by
        cases hp : s.sampler with
        | none => exact Service.commit_settings_none env source hp hoff
        | some p =>
            have hps : p.settings = s.committedConfiguration.settings := by
              rw [← hset]
              simp only [Service.settings, hp]
            rw [← hrun]
            exact Service.commit_settings env source hp (by rw [hps]; rfl) (by rw [hps]; rfl)
              (fun hc => by simp [halloc] at hc)
      refine ⟨⟨?_, fun h => ?_⟩, fun hne => absurd rfl hne,
        fun _ => ⟨hadmits, rfl, same_refl _⟩, fun hne => absurd rfl hne, fun h => ?_⟩
      · rw [hcommit.2]
        exact hcommit.1
      · simp [hcommit.2] at h
      · simp [hcommit.2] at h

theorem Inv.sound {s : Service} (hI : Inv s) (env : Env) (source : RuntimeSamplerAuthority)
    (configuration : RuntimeSamplerConfiguration) :
    Sound source configuration s (s.applyConfiguration env source configuration) :=
  sound_of_applies hI (applies_applyConfiguration env source configuration s)

/-- The call that finds the worker failed closes the allocation branch. -/
theorem Inv.settings_workerFailed {s : Service} (hI : Inv s) (env : Env)
    (source : RuntimeSamplerAuthority) (configuration : RuntimeSamplerConfiguration)
    (hw : s.findsWorkerFailed = true) :
    (s.applyConfiguration env source configuration).1.settings = s.settings.closed := by
  simp only [Service.findsWorkerFailed, Bool.and_eq_true, Bool.not_eq_true'] at hw
  obtain ⟨⟨hsd, haf⟩, hw⟩ := hw
  unfold Service.applyConfiguration
  dsimp only
  rw [if_neg (by simp [hsd]), if_neg (by simp [haf]), if_pos hw]
  have hrun := hI.not_shutDown hsd haf
  cases hp : s.sampler with
  | none => simp [Service.hasThreadSamplingWorkerFailed, hp] at hw
  | some p =>
      simp only [Service.samplerShutDown, hp] at hrun
      simp only [Service.shutdownSampler, Service.settings, hp, Option.map_some]
      exact (Sampler.shutdown_eq env p).2 hrun

theorem inductive_inv : Inductive service Inv where
  init s h := by
    obtain rfl := h
    exact inv_initial
  step s a t hI h := by
    cases a with
    | applyConfiguration env source configuration =>
        obtain rfl := Option.some.inj h
        exact (hI.sound env source configuration).inv
    | workerFails => exact hI.workerFails h
    | shutdown env =>
        obtain rfl := Option.some.inj h
        exact hI.shutdown env

/-! ### Sequences of calls -/

/-- The committed configuration allocates, the sampler runs, and its target is not
the committed one. -/
theorem applyConfiguration_worker_failed :
    ∃ s, service.Reachable s ∧ ∃ env source configuration,
      (s.applyConfiguration env source configuration).2 = .activationFailed ∧
      (s.applyConfiguration env source configuration).1.settings.allocationTarget = 0 ∧
      (s.applyConfiguration env source configuration).1.committedConfiguration.settings.allocationTarget
        = 100 ∧
      (s.applyConfiguration env source configuration).1.settings ≠ s.settings := by
  let c : RuntimeSamplerConfiguration :=
    { cpuSamplingIntervalMilliseconds := 1000, maxAllocationSamplesPerMinute := 100 }
  let acts : List Act := [.applyConfiguration {} .controlPlane c, .workerFails]
  let s : Service := (exec step {} acts).get (by decide)
  exact ⟨s, reachable_of_exec (l := acts) rfl (by simp [s]), {}, .controlPlane, c,
    by decide, by decide, by decide, by decide⟩

/-- **The controller.** Whatever its steps answer, one call on a reachable service:
* changes the committed configuration and its authority only when it returns
  `Applied`, and then to the ones it was given;
* never lets a seed replace a seed or a control plane;
* leaves the settings in force equal to those of the committed configuration,
  with the allocation branch closed once the sampler is shut down;
* leaves the settings alone when it does not return `Applied`, unless it finds
  that the sampling worker has failed, and then it closes the allocation branch;
* shuts the sampler down only on a failed worker or a failed first activation. -/
theorem applyConfiguration_sound {s : Service} (h : service.Reachable s) (env : Env)
    (source : RuntimeSamplerAuthority) (configuration : RuntimeSamplerConfiguration) :
    let r := s.applyConfiguration env source configuration
    (r.2 ≠ .applied →
      r.1.authority = s.authority ∧ r.1.committedConfiguration = s.committedConfiguration) ∧
    (r.2 = .applied →
      r.1.authority = source ∧ configuration.same r.1.committedConfiguration = true) ∧
    (source = .seed → s.authority = .seed ∨ s.authority = .controlPlane →
      r.1.authority = s.authority ∧ r.1.committedConfiguration = s.committedConfiguration) ∧
    (r.1.settings = if r.1.samplerShutDown then r.1.committedConfiguration.settings.closed
      else r.1.committedConfiguration.settings) ∧
    (r.2 ≠ .applied →
      r.1.settings = if s.findsWorkerFailed then s.settings.closed else s.settings) ∧
    (r.1.samplerShutDown = true → s.samplerShutDown = true ∨ s.findsWorkerFailed = true ∨
      s.committedConfiguration.anyFeatureEnabled = false ∧ r.2 = .activationFailed) := by
  have hI : Inv s := inductive_inv.reachable h
  have hs := hI.sound env source configuration
  refine ⟨hs.unchanged, fun ha => (hs.applied ha).2, fun hseed hheld => ?_, hs.inv.settings,
    fun hne => ?_, hs.shutDown⟩
  · refine hs.unchanged fun ha => ?_
    obtain ⟨hnotSeed, hnotControl⟩ := (hs.applied ha).1.seed hseed
    rcases hheld with hheld | hheld
    · exact hnotSeed hheld
    · exact hnotControl hheld
  · cases hw : s.findsWorkerFailed with
    | false => exact hs.settings hne hw
    | true => exact hI.settings_workerFailed env source configuration hw

/-- A control plane has committed, and a seed comes too late. -/
theorem applyConfiguration_sound_late_seed :
    ∃ s env configuration, let r := Service.applyConfiguration env .seed configuration s
      r.2 = .ignoredLowerAuthority ∧ r.1.authority = .controlPlane ∧
      r.1.settings = r.1.committedConfiguration.settings ∧ r.1.settings = s.settings := by
  let c : RuntimeSamplerConfiguration :=
    { cpuSamplingIntervalMilliseconds := 1000, maxAllocationSamplesPerMinute := 100 }
  let acts : List Act := [.applyConfiguration {} .controlPlane c]
  let s : Service := (exec step {} acts).get (by decide)
  have hs : service.Reachable s := reachable_of_exec (l := acts) rfl (by simp [s])
  obtain ⟨-, -, hseed, hsettings, hkept, -⟩ :=
    applyConfiguration_sound hs {} .seed { selectiveThreadSamplingIntervalMilliseconds := 7 }
  refine ⟨s, {}, { selectiveThreadSamplingIntervalMilliseconds := 7 }, by decide, ?_, ?_, ?_⟩
  · exact (hseed rfl (.inr (by decide))).1
  · exact hsettings
  · exact hkept (by decide)

end AutoInstrumentation.RuntimeSampler
