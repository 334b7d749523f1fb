import AutoInstrumentation.AllocationSubSampler
import Mathlib.Data.List.Basic

/-!
# AutoInstrumentation.AllocationSubSamplerSound

No cycle has more samples than its target, and the samples of the first cycles of a pacing
epoch keep their distance.
-/

namespace AutoInstrumentation.Allocation

open Lib

variable {secondsPerCycle : ℕ} {s t : State}

/-- The accepted samples of a cycle. -/
def ofCycle (cycle : ℕ) (accepted : List Sample) : List Sample :=
  accepted.filter fun sample => sample.cycle = cycle

/-- A sample keeps its distance from an earlier one of the same epoch, if both are in the
first cycles. -/
def Spaced (secondsPerCycle : ℕ) (later earlier : Sample) : Prop :=
  later.epoch = earlier.epoch → later.startup = true → earlier.startup = true →
    earlier.steady + minimumSampleSpacing secondsPerCycle earlier.target ≤ later.steady

/-- What is claimed of the accepted samples. -/
structure Paced (secondsPerCycle : ℕ) (accepted : List Sample) : Prop where
  bounded : ∀ sample ∈ accepted, (ofCycle sample.cycle accepted).length ≤ sample.target
  spaced : accepted.Pairwise (Spaced secondsPerCycle)

/-- The invariant. -/
structure Sound (secondsPerCycle : ℕ) (s : State) : Prop where
  seconds : s.sampler.secondsPerCycle = secondsPerCycle
  cycles : ∀ sample ∈ s.accepted, sample.cycle ≤ s.cycle
  epochs : ∀ sample ∈ s.accepted, sample.epoch ≤ s.epoch
  current : ∀ sample ∈ s.accepted, sample.cycle = s.cycle → sample.epoch = s.epoch
  count : s.sampler.sampledThisCycle = (ofCycle s.cycle s.accepted).length
  target : ∀ sample ∈ s.accepted, sample.epoch = s.epoch →
    s.sampler.targetPerCycle = sample.target ∨ s.sampler.targetPerCycle = 0
  allowed : ∀ sample ∈ s.accepted, sample.epoch = s.epoch → sample.startup = true →
    sample.steady + minimumSampleSpacing secondsPerCycle sample.target
      ≤ s.sampler.startupNextSampleAllowedAt
  paced : Paced secondsPerCycle s.accepted

theorem sound_initial (targetPerCycle : ℕ) (clock : Clock) :
    Sound secondsPerCycle (.initial targetPerCycle secondsPerCycle clock) where
  seconds := rfl
  cycles := by simp [State.initial]
  epochs := by simp [State.initial]
  current := by simp [State.initial]
  count := rfl
  target := by simp [State.initial]
  allowed := by simp [State.initial]
  paced := ⟨by simp [State.initial], .nil⟩

/-- There is no sample of a cycle yet to come. -/
theorem ofCycle_next {accepted : List Sample} {cycle : ℕ}
    (h : ∀ sample ∈ accepted, sample.cycle ≤ cycle) : ofCycle (cycle + 1) accepted = [] := by
  refine List.filter_eq_nil_iff.mpr ?_
  intro sample hsample hcycle
  have hle := h sample hsample
  have heq := of_decide_eq_true hcycle
  omega

/-! ### The target -/

theorem sound_setTargetPerCycle (h : Sound secondsPerCycle s) (target : ℕ) (clock : Clock) :
    Sound secondsPerCycle (step s (.setTargetPerCycle target clock)) := by
  by_cases hsame : s.sampler.targetPerCycle = target
  · have hstep : step s (.setTargetPerCycle target clock) = s := by
      simp [step, AllocationSubSampler.setTargetPerCycle, beginsEpoch, hsame]
    rw [hstep]
    exact h
  · by_cases hzero : target = 0
    · have hstep : step s (.setTargetPerCycle target clock)
          = { s with sampler := { s.sampler with targetPerCycle := 0 } } := by
        subst hzero
        simp [step, AllocationSubSampler.setTargetPerCycle, beginsEpoch, hsame]
      rw [hstep]
      exact ⟨h.seconds, h.cycles, h.epochs, h.current, h.count, fun _ _ _ => .inr rfl,
        h.allowed, h.paced⟩
    · have hstep : step s (.setTargetPerCycle target clock)
          = { s with
              sampler := { s.sampler.beginEpoch clock with targetPerCycle := target }
              cycle := s.cycle + 1
              epoch := s.epoch + 1 } := by
        simp [step, AllocationSubSampler.setTargetPerCycle, beginsEpoch, hsame, hzero]
      rw [hstep]
      -- no sample is of the epoch that begins
      have hnew : ∀ sample ∈ s.accepted, sample.epoch ≠ s.epoch + 1 := by
        intro sample hsample hepoch
        have hle := h.epochs sample hsample
        omega
      refine ⟨h.seconds, ?_, ?_, ?_, ?_, ?_, ?_, h.paced⟩
      · intro sample hsample
        exact Nat.le_succ_of_le (h.cycles sample hsample)
      · intro sample hsample
        exact Nat.le_succ_of_le (h.epochs sample hsample)
      · intro sample hsample hcycle
        have hle := h.cycles sample hsample
        dsimp only at hcycle
        omega
      · rw [ofCycle_next h.cycles]
        rfl
      · intro sample hsample hepoch
        exact absurd hepoch (hnew sample hsample)
      · intro sample hsample hepoch
        exact absurd hepoch (hnew sample hsample)

/-! ### A tick -/

/-- The cycle of a tick is entered. -/
def State.enter (s : State) (clock : Clock) : State :=
  { s with
    sampler := s.sampler.enterCycle clock.system
    cycle := if beginsCycle s.sampler clock then s.cycle + 1 else s.cycle }

theorem sound_enter (h : Sound secondsPerCycle s) (htarget : s.sampler.targetPerCycle ≠ 0)
    (clock : Clock) : Sound secondsPerCycle (s.enter clock) := by
  by_cases hadvance : s.sampler.nextCycleStartMillis < clock.system
  · have henter : s.enter clock
        = { s with sampler := s.sampler.advanceCycle clock.system, cycle := s.cycle + 1 } := by
      simp [State.enter, AllocationSubSampler.enterCycle, beginsCycle, hadvance, htarget]
    rw [henter]
    refine ⟨h.seconds, ?_, h.epochs, ?_, ?_, h.target, h.allowed, h.paced⟩
    · intro sample hsample
      exact Nat.le_succ_of_le (h.cycles sample hsample)
    · intro sample hsample hcycle
      have hle := h.cycles sample hsample
      dsimp only at hcycle
      omega
    · rw [ofCycle_next h.cycles]
      rfl
  · have henter : s.enter clock = s := by
      simp [State.enter, AllocationSubSampler.enterCycle, beginsCycle, hadvance]
    rw [henter]
    exact h

/-- A tick in its cycle is rejected, or it is within the target and behind the distance, and
sampled. -/
theorem sampleInCycle_cases (s : AllocationSubSampler) (steadyNow : ℕ)
    (die : (n : ℕ) → Fin (n + 1)) :
    (s.sampleInCycle steadyNow die = (false, { s with seenThisCycle := s.seenThisCycle + 1 }))
      ∨ (s.sampledThisCycle < s.targetPerCycle
        ∧ (0 < s.startupCyclesRemaining → s.startupNextSampleAllowedAt ≤ steadyNow)
        ∧ s.sampleInCycle steadyNow die
          = (true, { s with seenThisCycle := s.seenThisCycle + 1 }.sample steadyNow)) := by
  rw [AllocationSubSampler.sampleInCycle]
  by_cases hfull : s.targetPerCycle ≤ s.sampledThisCycle
  · left
    simp only [hfull, if_true]
  · by_cases hearly : (0 < s.startupCyclesRemaining && steadyNow < s.startupNextSampleAllowedAt)
    · left
      simp only [hfull, if_false]
      rw [if_pos hearly]
    · by_cases hroll : AllocationSubSampler.roll die (max s.seenLastCycle.toNat 1)
          ≤ s.targetPerCycle
      · right
        refine ⟨Nat.lt_of_not_le hfull, ?_, ?_⟩
        · intro hstartup
          simp [hstartup] at hearly
          exact hearly
        · simp only [hfull, if_false]
          rw [if_neg hearly, if_pos hroll]
      · left
        simp only [hfull, if_false]
        rw [if_neg hearly, if_neg hroll]

/-- The state with a sample accepted. -/
def State.accept (s : State) (steadyNow : ℕ) : State :=
  { s with
    sampler := { s.sampler with seenThisCycle := s.sampler.seenThisCycle + 1 }.sample steadyNow
    accepted :=
      { steady := steadyNow
        target := s.sampler.targetPerCycle
        startup := 0 < s.sampler.startupCyclesRemaining
        cycle := s.cycle
        epoch := s.epoch } :: s.accepted }

theorem step_tick (s : State) (clock : Clock) (die : (n : ℕ) → Fin (n + 1))
    (htarget : s.sampler.targetPerCycle ≠ 0) :
    step s (.tick clock die)
        = { s.enter clock with
            sampler := { (s.enter clock).sampler with
              seenThisCycle := (s.enter clock).sampler.seenThisCycle + 1 } }
      ∨ ((s.enter clock).sampler.sampledThisCycle < (s.enter clock).sampler.targetPerCycle
        ∧ (0 < (s.enter clock).sampler.startupCyclesRemaining →
          (s.enter clock).sampler.startupNextSampleAllowedAt ≤ clock.steady)
        ∧ step s (.tick clock die) = (s.enter clock).accept clock.steady) := by
  have hsampled : s.sampler.shouldSample clock die
      = (s.enter clock).sampler.sampleInCycle clock.steady die := if_neg htarget
  rcases sampleInCycle_cases (s.enter clock).sampler clock.steady die with
    hreject | ⟨hroom, hspaced, haccept⟩
  · left
    rw [hreject] at hsampled
    simp only [step, hsampled]
    rfl
  · right
    refine ⟨hroom, hspaced, ?_⟩
    rw [haccept] at hsampled
    simp only [step, hsampled]
    rfl

/-- **A sample is accepted** within the target and behind the distance. -/
theorem sound_accept (h : Sound secondsPerCycle s) {steadyNow : ℕ}
    (hroom : s.sampler.sampledThisCycle < s.sampler.targetPerCycle)
    (hspaced : 0 < s.sampler.startupCyclesRemaining →
      s.sampler.startupNextSampleAllowedAt ≤ steadyNow) :
    Sound secondsPerCycle (s.accept steadyNow) := by
  have hcount : s.sampler.sampledThisCycle + 1
      = (ofCycle s.cycle (s.accept steadyNow).accepted).length := by
    rw [h.count]
    simp [ofCycle, State.accept]
  have hallowed : (s.accept steadyNow).sampler.startupNextSampleAllowedAt
      = if 0 < s.sampler.startupCyclesRemaining then
          steadyNow + minimumSampleSpacing secondsPerCycle s.sampler.targetPerCycle
        else s.sampler.startupNextSampleAllowedAt := by
    rw [← h.seconds]
    rfl
  refine ⟨h.seconds, ?_, ?_, ?_, hcount, ?_, ?_, ?_, ?_⟩
  · intro sample hsample
    rcases List.mem_cons.mp hsample with rfl | hsample
    · exact Nat.le_refl _
    · exact h.cycles sample hsample
  · intro sample hsample
    rcases List.mem_cons.mp hsample with rfl | hsample
    · exact Nat.le_refl _
    · exact h.epochs sample hsample
  · intro sample hsample
    rcases List.mem_cons.mp hsample with rfl | hsample
    · intro _
      rfl
    · exact h.current sample hsample
  · intro sample hsample
    rcases List.mem_cons.mp hsample with rfl | hsample
    · intro _
      exact .inl rfl
    · exact h.target sample hsample
  · intro sample hsample hepoch hstartup
    rw [hallowed]
    rcases List.mem_cons.mp hsample with rfl | hsample
    · rw [if_pos (of_decide_eq_true hstartup)]
    · have hold := h.allowed sample hsample hepoch hstartup
      by_cases hpos : 0 < s.sampler.startupCyclesRemaining
      · have hearlier := hspaced hpos
        rw [if_pos hpos]
        omega
      · rw [if_neg hpos]
        exact hold
  · intro sample hsample
    rcases List.mem_cons.mp hsample with rfl | hsample
    · rw [← hcount]
      exact hroom
    · by_cases hcycle : sample.cycle = s.cycle
      · rw [hcycle, ← hcount]
        rcases h.target sample hsample (h.current sample hsample hcycle) with htarget | hzero
        · rw [← htarget]
          exact hroom
        · omega
      · have hother : ofCycle sample.cycle (s.accept steadyNow).accepted
            = ofCycle sample.cycle s.accepted :=
          List.filter_cons_of_neg (by simp [Ne.symm hcycle])
        rw [hother]
        exact h.paced.bounded sample hsample
  · refine List.pairwise_cons.mpr ⟨?_, h.paced.spaced⟩
    intro earlier hearlier hepoch hlater hstartup
    have hold := h.allowed earlier hearlier hepoch.symm hstartup
    exact hold.trans (hspaced (of_decide_eq_true hlater))

theorem sound_tick (h : Sound secondsPerCycle s) (clock : Clock) (die : (n : ℕ) → Fin (n + 1)) :
    Sound secondsPerCycle (step s (.tick clock die)) := by
  by_cases hzero : s.sampler.targetPerCycle = 0
  · have hstep : step s (.tick clock die) = s := by
      simp [step, AllocationSubSampler.shouldSample, beginsCycle, hzero]
    rw [hstep]
    exact h
  · have henter := sound_enter h hzero clock
    rcases step_tick s clock die hzero with hreject | ⟨hroom, hspaced, haccept⟩
    · rw [hreject]
      exact ⟨henter.seconds, henter.cycles, henter.epochs, henter.current, henter.count,
        henter.target, henter.allowed, henter.paced⟩
    · rw [haccept]
      exact sound_accept henter hroom hspaced

/-- **No cycle has more samples than its target**, and in the first cycles of a pacing epoch
the samples keep their distance, whatever the clocks and the die show. -/
theorem paced_of_reachable (secondsPerCycle : ℕ) (s : State)
    (hreachable : (subSampler secondsPerCycle).Reachable s) :
    Paced secondsPerCycle s.accepted := by
  have hinductive : System.Inductive (subSampler secondsPerCycle) (Sound secondsPerCycle) := by
    refine ⟨?_, ?_⟩
    · rintro _ ⟨targetPerCycle, clock, rfl⟩
      exact sound_initial targetPerCycle clock
    · intro s act t hsound hstep
      obtain rfl := Option.some.inj hstep
      cases act with
      | setTargetPerCycle target clock => exact sound_setTargetPerCycle hsound target clock
      | tick clock die => exact sound_tick hsound clock die
  exact (hinductive.reachable hreachable).paced

/-- A sample with the target 1, and one at the same time with the target 600. -/
def twoEpochs : List Act :=
  [.tick ⟨0, 0⟩ fun _ => 0, .setTargetPerCycle 600 ⟨0, 0⟩, .tick ⟨0, 0⟩ fun _ => 0]

def twoEpochsEnd : State := twoEpochs.foldl step (.initial 1 60 ⟨0, 0⟩)

theorem twoEpochs_reachable : (subSampler 60).Reachable twoEpochsEnd :=
  System.reachable_of_exec (l := twoEpochs) ⟨1, ⟨0, 0⟩, rfl⟩ rfl

theorem paced_of_reachable_twoEpochs : Paced 60 twoEpochsEnd.accepted :=
  paced_of_reachable 60 twoEpochsEnd twoEpochs_reachable

/-- Samples of two epochs need not keep a distance. -/
theorem not_spaced_across_epochs :
    ¬ ∀ s, (subSampler 60).Reachable s →
      s.accepted.Pairwise fun later earlier => later.startup = true → earlier.startup = true →
        earlier.steady + minimumSampleSpacing 60 later.target ≤ later.steady := by
  intro hspaced
  have hends := hspaced twoEpochsEnd twoEpochs_reachable
  have haccepted : twoEpochsEnd.accepted
      = [⟨0, 600, true, 1, 1⟩, ⟨0, 1, true, 0, 0⟩] := by decide
  rw [haccepted] at hends
  have hfirst := (List.pairwise_cons.mp hends).1 _ (List.mem_singleton.mpr rfl) rfl rfl
  revert hfirst
  decide

end AutoInstrumentation.Allocation
