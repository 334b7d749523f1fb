import AutoInstrumentation.SampleQueuesSound
import AutoInstrumentation.ThreadSamples.AppendedBatches

/-!
# AutoInstrumentation.SampleDelivery

From the sampling threads through the queues to the parsers of the managed side.

The queues hand out whole batches as bytes; the parsers turn the bytes of a call into
samples, whatever the rest of the reader's buffer holds. Together: what the readers parse
is what was published, in order, none lost but at the end, none twice.
-/

namespace AutoInstrumentation.SampleQueues

open Lib ThreadSamples

/-- A batch of thread samples with what it was written from. -/
structure ContinuousSample where
  selectiveSamplingEnabled : Bool
  ms : BitVec 64
  threads : List (SampledThread NamedFrame)
  stats : SamplingStatistics
  samplingInterval : BitVec 32

def ContinuousSample.sample (c : ContinuousSample) : Sample :=
  .continuous c.selectiveSamplingEnabled c.ms c.threads c.stats c.samplingInterval

/-- Every publication is of a sample whose writer did not overflow. -/
def PublishedSamples (s : State) : Prop :=
  ∀ t, ∀ p ∈ s.published t, ∃ sample : Sample,
    sample.sampleType = t ∧ sample.writer.overflowed = false ∧ p.batch = sample.batch

theorem inductive_publishedSamples : System.Inductive sampleQueues PublishedSamples where
  init := by
    rintro s rfl t p hp
    cases hp
  step := by
    rintro s a t hI ⟨-, rfl⟩
    cases a with
    | read u len => exact hI
    | publish admitted sample =>
        intro t p hp
        rw [step] at hp
        split at hp
        · exact hI t p hp
        · next hkeep =>
            have hwriter : sample.writer.overflowed = false := by
              cases hoverflowed : sample.writer.overflowed with
              | false => rfl
              | true =>
                  rw [hoverflowed, Bool.or_true] at hkeep
                  exact absurd rfl hkeep
            by_cases ht : t = sample.sampleType
            · subst ht
              simp only [logAt_same, List.mem_append, List.mem_singleton] at hp
              rcases hp with hp | rfl
              · exact hI _ p hp
              · exact ⟨sample, rfl, hwriter, rfl⟩
            · simp only [logAt_other _ ht] at hp
              exact hI t p hp

/-- The groups of a mapped list are the images of groups. -/
theorem exists_groups {α β : Type} {f : α → β} {groups : List (List β)} {rest : List β}
    {l : List α} (h : l.map f = groups.flatten ++ rest) :
    ∃ groups' : List (List α), groups'.map (List.map f) = groups ∧ groups'.flatten <+: l := by
  induction groups generalizing l with
  | nil => exact ⟨[], rfl, List.nil_prefix⟩
  | cons group groups ih =>
      rw [List.flatten_cons, List.append_assoc] at h
      obtain ⟨l₁, l₂, rfl, h₁, h₂⟩ := List.map_eq_append_iff.mp h
      obtain ⟨groups', hgroups, hbefore⟩ := ih h₂
      refine ⟨l₁ :: groups', ?_, ?_⟩
      · rw [List.map_cons, h₁, hgroups]
      · rw [List.flatten_cons]
        exact List.prefix_append_right_inj l₁ |>.mpr hbefore

/-- The stored publications are those of samples of the kind. -/
theorem exists_samples {α : Type} (mk : α → Sample) {t : SampleType}
    (hmk : ∀ sample : Sample, sample.sampleType = t → ∃ a, sample = mk a)
    {publications : List Publication}
    (h : ∀ p ∈ publications, ∃ sample : Sample,
      sample.sampleType = t ∧ sample.writer.overflowed = false ∧ p.batch = sample.batch) :
    ∃ l : List α, stored publications = l.map (fun a => (mk a).batch)
      ∧ ∀ a ∈ l, (mk a).writer.overflowed = false := by
  induction publications with
  | nil => exact ⟨[], rfl, fun a ha => by cases ha⟩
  | cons p publications ih =>
      obtain ⟨l, hl, hwriters⟩ := ih fun q hq => h q (List.mem_cons_of_mem _ hq)
      cases hstored : p.stored with
      | false =>
          refine ⟨l, ?_, hwriters⟩
          rw [stored, List.filter_cons_of_neg (by simp [hstored])]
          exact hl
      | true =>
          obtain ⟨sample, ht, hwriter, hbatch⟩ := h p List.mem_cons_self
          obtain ⟨a, rfl⟩ := hmk sample ht
          refine ⟨a :: l, ?_, ?_⟩
          · rw [stored, List.filter_cons_of_pos hstored, List.map_cons, List.map_cons, hbatch]
            exact congrArg _ hl
          · intro b hb
            rcases List.mem_cons.mp hb with rfl | hb
            · exact hwriter
            · exact hwriters b hb

/-- **What the readers of a queue parse**: the samples were published, the calls got groups of
the oldest of them, in order, and from the bytes of a call and any bytes behind them the parser
makes what the group means. -/
def Parsed {α : Type} (mk : α → Sample) (t : SampleType) (s : State)
    (parses : List α → List Byte → List Byte → Prop) : Prop :=
  ∃ (samples : List α) (groups : List (List α)),
    stored (s.published t) = samples.map (fun a => (mk a).batch)
      ∧ groups.flatten <+: samples
      ∧ List.Forall₂ (fun group data => ∀ unused, parses group data.1 unused) groups
        (s.consumed t)

theorem parsed_of_reachable {s : State} (h : sampleQueues.Reachable s) {α : Type}
    (mk : α → Sample) {t : SampleType}
    (hmk : ∀ sample : Sample, sample.sampleType = t → ∃ a, sample = mk a)
    {parses : List α → List Byte → List Byte → Prop}
    (hparses : ∀ group : List α, (∀ a ∈ group, (mk a).writer.overflowed = false) →
      (t = .continuous → group.length ≤ 1) →
        ∀ unused, parses group (bytesOf (group.map fun a => (mk a).batch)) unused) :
    Parsed mk t s parses := by
  obtain ⟨f, hf⟩ := inductive_inv.reachable h t
  obtain ⟨samples, hsamples, hwriters⟩ :=
    exists_samples mk hmk (inductive_publishedSamples.reachable h t)
  have hbalanced : samples.map (fun a => (mk a).batch) = f.delivered.flatten ++ f.pending := by
    rw [f.balanced, hf.accepted, hsamples]
  obtain ⟨groups, hgroups, hbefore⟩ := exists_groups hbalanced
  refine ⟨samples, groups, hsamples, hbefore, ?_⟩
  have hdelivered := hf.delivered
  rw [← hgroups, List.forall₂_map_left_iff] at hdelivered
  have hgroup : ∀ group ∈ groups, ∀ a ∈ group, (mk a).writer.overflowed = false := by
    intro group hmem a ha
    exact hwriters a (hbefore.subset (List.mem_flatten.mpr ⟨group, hmem, ha⟩))
  refine ((List.forall₂_and_left _ _).mpr ⟨hgroup, hdelivered⟩).imp ?_
  rintro group data ⟨hwriter, hdata⟩ unused
  rw [hdata.bytes]
  refine hparses group hwriter (fun ht => ?_) unused
  have hsingle := hdata.single ht
  rw [List.length_map] at hsingle
  exact hsingle

/-- The bytes of samples whose writers did not overflow. -/
theorem bytesOf_samples {α : Type} {mk : α → Sample} {bytes : α → List Byte}
    (hbytes : ∀ a, (mk a).writer.overflowed = false → (mk a).batch.buffer = bytes a)
    {group : List α} (h : ∀ a ∈ group, (mk a).writer.overflowed = false) :
    bytesOf (group.map fun a => (mk a).batch) = group.flatMap bytes := by
  rw [bytesOf, List.map_map, List.flatMap]
  refine congrArg _ (List.map_congr_left fun a ha => ?_)
  exact hbytes a (h a ha)

/-- Nothing is parsed of a buffer that nothing was read into. -/
theorem parseThreadSamples_unused (frequentSamplingEnabled : Bool) (unused : List Byte) :
    parseThreadSamples frequentSamplingEnabled unused 0 = some [] := by
  rw [parseThreadSamples, Nat.sub_zero]
  generalize hfuel : unused.length = fuel
  cases fuel with
  | zero => rfl
  | succ fuel =>
      rw [parseLoop, if_pos (Nat.le_of_eq hfuel)]
      rfl

/-- What a call of the queue of thread samples parses: at most one batch, with the flag that it
was written with. -/
def ParsesThreadSamples : List ContinuousSample → List Byte → List Byte → Prop
  | [], bytes, unused => ∀ frequentSamplingEnabled,
      parseThreadSamples frequentSamplingEnabled (bytes ++ unused) bytes.length = some []
  | [c], bytes, unused =>
      parseThreadSamples c.selectiveSamplingEnabled (bytes ++ unused) bytes.length
        = some (receivedSamples c.selectiveSamplingEnabled c.ms [] 0 c.threads)
  | _, _, _ => False

/-- **The delivery of samples.** In every reachable state of every interleaving of publishing
threads and readers with full-size buffers, the readers of each queue parse exactly what was
published, in order: each call of the allocation queue all allocations of its group, each call
of the queue of selected threads all its batches, the threads counted across them, and each call
of the queue of thread samples one batch or none. -/
theorem delivery_of_reachable {s : State} (h : sampleQueues.Reachable s) :
    Parsed Sample.allocation .allocation s (fun ticks bytes unused =>
        parseAllocationSamples (bytes ++ unused) bytes.length = ticks.flatMap receivedAllocation)
      ∧ Parsed Sample.selectedThreads .selectedThreads s (fun batches bytes unused =>
        parseSelectiveSamplerSamples (bytes ++ unused) bytes.length = receivedBatches 0 batches)
      ∧ Parsed ContinuousSample.sample .continuous s ParsesThreadSamples := by
  refine ⟨parsed_of_reachable h _ ?_ ?_, parsed_of_reachable h _ ?_ ?_,
    parsed_of_reachable h _ ?_ ?_⟩
  · intro sample ht
    cases sample with
    | allocation tick => exact ⟨tick, rfl⟩
    | continuous enabled ms threads stats interval => cases ht
    | selectedThreads threads => cases ht
  · intro ticks hwriters _ unused
    have hbytes (tick : AllocationTick)
        (hwriter : (Sample.allocation tick).writer.overflowed = false) :
        (Sample.allocation tick).batch.buffer = allocationBytes tick :=
      (writeAllocation_spec tick).2 hwriter
    rw [bytesOf_samples hbytes hwriters]
    exact parseAllocationSamples_appended ticks unused
  · intro sample ht
    cases sample with
    | allocation tick => cases ht
    | continuous enabled ms threads stats interval => cases ht
    | selectedThreads threads => exact ⟨threads, rfl⟩
  · intro batches hwriters _ unused
    have hbytes (threads : List SelectedThread)
        (hwriter : (Sample.selectedThreads threads).writer.overflowed = false) :
        (Sample.selectedThreads threads).batch.buffer = selectedBatchBytes threads :=
      writeSelectedBatch_written hwriter
    rw [bytesOf_samples hbytes hwriters]
    exact parseSelectiveSamplerSamples_appended batches unused
  · intro sample ht
    cases sample with
    | allocation tick => cases ht
    | continuous enabled ms threads stats interval =>
        exact ⟨⟨enabled, ms, threads, stats, interval⟩, rfl⟩
    | selectedThreads threads => cases ht
  · intro group hwriters hsingle unused
    match group, hwriters, hsingle rfl with
    | [], _, _ =>
        exact fun frequentSamplingEnabled =>
          parseThreadSamples_unused frequentSamplingEnabled unused
    | [c], hwriters, _ =>
        have hwriter : (writeBatch c.selectiveSamplingEnabled c.ms c.threads c.stats).overflowed
            = false := hwriters c List.mem_cons_self
        have hbytes := (writeBatch_spec c.selectiveSamplingEnabled c.ms c.threads c.stats).2 hwriter
        rw [List.map_singleton, bytesOf_singleton]
        show parseThreadSamples c.selectiveSamplingEnabled
          ((writeBatch c.selectiveSamplingEnabled c.ms c.threads c.stats).buffer ++ unused)
          (writeBatch c.selectiveSamplingEnabled c.ms c.threads c.stats).buffer.length = _
        rw [hbytes]
        exact parseThreadSamples_batchBytes _ _ _ _ unused

/-- Two allocations are published and read. -/
def twoAllocations : List Act :=
  let tick (name : List WChar) : AllocationTick :=
    ⟨5, 24, [0x41], name, ⟨0, 0, 0⟩, []⟩
  [.publish true (.allocation (tick [0x42])), .publish true (.allocation (tick [0x43])),
    .read .allocation bufferSize]

theorem delivery_of_twoAllocations :
    ∃ s : State, sampleQueues.Reachable s ∧ (s.consumed .allocation).length = 1
      ∧ Parsed Sample.allocation .allocation s fun ticks bytes unused =>
        parseAllocationSamples (bytes ++ unused) bytes.length
          = ticks.flatMap receivedAllocation := by
  have hrun : sampleQueues.Reachable (twoAllocations.foldl step .initial) :=
    ⟨_, twoAllocations, rfl, .cons ⟨trivial, rfl⟩ (.cons ⟨trivial, rfl⟩
      (.cons ⟨Int.le_refl _, rfl⟩ (.nil _)))⟩
  exact ⟨_, hrun, rfl, (delivery_of_reachable hrun).1⟩

end AutoInstrumentation.SampleQueues
