import AutoInstrumentation.ThreadStacksBuffer

/-!
# AutoInstrumentation.ThreadStacksBufferSound

The budget of the frame storage over whole runs.

The tracked capacity is the total of the capacities, whatever the allocator gives, and no
subtraction wraps around. A recorded frame is lost to `Reset`, to `Clear` and to a
`PrepareForCapture` that was not preceded by a `Reset`, and to nothing else. A thread is
given storage if the allocator gives no more than what is asked for it: the buffer refuses
storage it has not budgeted for.
-/

namespace AutoInstrumentation.ThreadStacksBuffer

open Lib

variable {Frame : Type}

theorem checkedSub_of_le {a b : ℕ} (h : b ≤ a) : checkedSub a b = some (a - b) := if_pos h

/-! ### Vectors -/

namespace FrameVector

@[simp] theorem frames_empty : (empty : FrameVector Frame).frames = [] := rfl

@[simp] theorem capacity_empty : (empty : FrameVector Frame).capacity = 0 := rfl

@[simp] theorem frames_store (frames : List Frame) (capacity : ℕ) :
    (store frames capacity).frames = frames := rfl

theorem capacity_store {frames : List Frame} {capacity : ℕ} (h : frames.length ≤ capacity) :
    (store frames capacity).capacity = capacity := Nat.max_eq_left h

@[simp] theorem frames_pushBack (v : FrameVector Frame) (frame : Frame) :
    (v.pushBack frame).frames = v.frames ++ [frame] := rfl

/-- A vector with room is not moved. -/
theorem capacity_pushBack {v : FrameVector Frame} (h : v.frames.length < v.capacity)
    (frame : Frame) : (v.pushBack frame).capacity = v.capacity := by
  refine capacity_store ?_
  rw [List.length_append]
  exact h

@[simp] theorem capacity_clear (v : FrameVector Frame) : v.clear.capacity = v.capacity := rfl

theorem frames_of_capacity_eq_zero {v : FrameVector Frame} (h : v.capacity = 0) :
    v.frames = [] := by
  refine List.eq_nil_of_length_eq_zero ?_
  have hfits := v.fits
  omega

end FrameVector

/-! ### Reservations -/

/-- Storage that a full vector is moved to: it has room, within the bounds. -/
structure Grown (buffer grown : FrameVector Frame) (maximumCapacity : ℕ) : Prop where
  frames : grown.frames = buffer.frames
  grows : buffer.capacity < grown.capacity
  perStack : grown.capacity ≤ maximumFramesPerStack
  bounded : grown.capacity ≤ maximumCapacity

theorem Grown.room {buffer grown : FrameVector Frame} {maximumCapacity : ℕ}
    (h : Grown buffer grown maximumCapacity) : grown.frames.length < grown.capacity := by
  rw [h.frames]
  exact Nat.lt_of_le_of_lt buffer.fits h.grows

theorem grown_of_ready {reserve : ℕ → Option ℕ}
    (henough : ∀ n capacity, reserve n = some capacity → n ≤ capacity)
    {buffer grown : FrameVector Frame} (hfull : ¬buffer.frames.length < buffer.capacity)
    {maximumCapacity : ℕ}
    (h : tryReserveStackFrame reserve buffer maximumCapacity = .ready grown) :
    Grown buffer grown maximumCapacity := by
  rw [tryReserveStackFrame] at h
  split at h
  · cases h
  · dsimp only at h
    split at h
    · cases h
    · next hgrows =>
        split at h
        · cases h
        · next capacity hreserve =>
            split at h
            · cases h
            · next hbounded =>
                cases h
                have hle := henough _ _ hreserve
                have hfits := buffer.fits
                have hcapacity : (FrameVector.store buffer.frames capacity).capacity = capacity :=
                  FrameVector.capacity_store (by omega)
                exact ⟨rfl, by omega, by omega, by omega⟩

/-- The reservation for a thread without storage, of at most the initial capacity. -/
theorem tryReserve_fresh (reserve : ℕ → Option ℕ) {buffer : FrameVector Frame}
    (hbuffer : buffer.capacity = 0) {n : ℕ} (hpos : 0 < n) (hn : n ≤ initialStackFrameCapacity) :
    tryReserveStackFrame reserve buffer n =
      match reserve n with
      | none => .interrupted
      | some capacity => if n < capacity then .refused else .ready (.store [] capacity) := by
  have hframes := FrameVector.frames_of_capacity_eq_zero hbuffer
  have hbounded : min maximumFramesPerStack n = n :=
    Nat.min_eq_right (Nat.le_trans hn (by decide))
  have hnext : min n (max initialStackFrameCapacity (0 * 2)) = n := Nat.min_eq_left hn
  have hnone : ¬maximumFramesPerStack ≤ ([] : List Frame).length := Nat.not_succ_le_zero 511
  simp only [tryReserveStackFrame, hframes, hbuffer, hbounded, hnext, if_neg hnone,
    if_neg (Nat.not_le.mpr hpos)]
  rfl

/-! ### The invariant -/

structure State.Sound (s : State Frame) : Prop where
  accounted : s.frameCapacity = s.threadStacks.total FrameVector.capacity
  budget : s.frameCapacity ≤ maximumFrameCapacity
  perStack : ∀ t v, s.threadStacks.find t = some v → v.capacity ≤ maximumFramesPerStack
  threads : s.threadStacks.size ≤ maximumThreads
  cache : ∀ t, s.cachedStack = some t → t = s.cachedThread ∧ s.threadStacks.find t ≠ none

theorem State.sound_initial : (State.initial : State Frame).Sound where
  accounted := rfl
  budget := Nat.zero_le _
  perStack t v h := by cases h
  threads := Nat.zero_le _
  cache t h := by cases h

/-- Another capacity of one thread, with the difference charged. -/
theorem State.Sound.update {s : State Frame} (h : s.Sound) {t : ThreadId}
    {old : FrameVector Frame} (hold : s.threadStacks.find t = some old) (new : FrameVector Frame)
    (hstack : new.capacity ≤ maximumFramesPerStack) {frameCapacity : ℕ}
    (hcharged : frameCapacity + old.capacity = s.frameCapacity + new.capacity)
    (hbudget : frameCapacity ≤ maximumFrameCapacity) :
    State.Sound { s with
      threadStacks := s.threadStacks.update t new
      frameCapacity := frameCapacity } where
  accounted := by
    have htotal := s.threadStacks.total_update FrameVector.capacity hold new
    have haccounted := h.accounted
    change frameCapacity = (s.threadStacks.update t new).total FrameVector.capacity
    omega
  budget := hbudget
  perStack t' v hv := by
    rw [Table.find_update, hold] at hv
    split at hv
    · cases hv
      exact hstack
    · exact h.perStack t' v hv
  threads := by
    change (s.threadStacks.update t new).size ≤ _
    rw [Table.size_update]
    exact h.threads
  cache t' ht' := by
    refine ⟨(h.cache t' ht').1, ?_⟩
    change (s.threadStacks.update t new).find t' ≠ none
    rw [Table.find_update, hold]
    split
    · exact Option.some_ne_none _
    · exact (h.cache t' ht').2

theorem State.recorded_update {s : State Frame} {t : ThreadId} {old : FrameVector Frame}
    (hold : s.threadStacks.find t = some old) (new : FrameVector Frame) (frameCapacity : ℕ)
    (t' : ThreadId) :
    State.recorded { s with
        threadStacks := s.threadStacks.update t new
        frameCapacity := frameCapacity } t' =
      if t = t' then new.frames else s.recorded t' := by
  rw [State.recorded, Table.find_update, hold]
  split
  · rfl
  · rfl

/-! ### Frames -/

theorem State.findStack_spec {s : State Frame} (h : s.Sound) (t : ThreadId) :
    (s.findStack t).1.Sound ∧ (s.findStack t).1.threadStacks = s.threadStacks
      ∧ ((s.findStack t).2 = none ∨
        (s.findStack t).2 = some t ∧ s.threadStacks.find t ≠ none) := by
  rw [State.findStack]
  split
  · split
    · exact ⟨h, rfl, .inl rfl⟩
    · next v hfind =>
        have hne : s.threadStacks.find t ≠ none := by
          rw [hfind]
          exact Option.some_ne_none v
        refine ⟨⟨h.accounted, h.budget, h.perStack, h.threads, ?_⟩, rfl, .inr ⟨rfl, hne⟩⟩
        intro t' ht'
        cases ht'
        exact ⟨rfl, hne⟩
  · next hcached =>
      refine ⟨h, rfl, ?_⟩
      rw [not_or, not_not] at hcached
      obtain ⟨hsome, rfl⟩ := hcached
      obtain ⟨t', ht'⟩ := Option.ne_none_iff_exists'.mp hsome
      obtain ⟨rfl, hfind⟩ := h.cache t' ht'
      exact .inr ⟨ht', hfind⟩

/-- **A prepared frame.** `TryPrepareFrame` loses no frame, and the vector it returns has room. -/
theorem State.tryPrepareFrame_spec (allocator : Allocator) {s : State Frame} (h : s.Sound)
    (t : ThreadId) :
    ∃ s' stack, s.tryPrepareFrame allocator t = some (s', stack) ∧ s'.Sound
      ∧ (∀ t', s'.recorded t' = s.recorded t')
      ∧ ∀ t', stack = some t' → t' = t ∧ ∃ v, s'.threadStacks.find t = some v
          ∧ v.frames.length < v.capacity := by
  obtain ⟨hsound, hstacks, hstack⟩ := s.findStack_spec h t
  rw [State.tryPrepareFrame]
  generalize s.findStack t = found at *
  obtain ⟨s₁, stack⟩ := found
  have hrecorded (t' : ThreadId) : s₁.recorded t' = s.recorded t' := by
    rw [State.recorded, State.recorded]
    exact congrArg (fun table => ((Table.find table t').map FrameVector.frames).getD []) hstacks
  dsimp only at hsound hstacks hstack
  rcases hstack with rfl | ⟨rfl, hfind⟩
  · exact ⟨s₁, none, rfl, hsound, hrecorded, fun t' ht' => by cases ht'⟩
  · obtain ⟨v, hv⟩ := Option.ne_none_iff_exists'.mp hfind
    rw [← hstacks] at hv
    simp only [hv, Option.bind_eq_bind, Option.bind_some]
    by_cases hroom : v.frames.length < v.capacity
    · rw [if_pos hroom]
      refine ⟨s₁, some t, rfl, hsound, hrecorded, ?_⟩
      intro t' ht'
      exact ⟨(Option.some.inj ht').symm, v, hv, hroom⟩
    · have hbudget := hsound.budget
      rw [if_neg hroom, checkedSub_of_le (by omega), Option.bind_some]
      cases hreserve : tryReserveStackFrame (allocator.reserve t) v
        (v.capacity + maximumFrameCapacity - s₁.frameCapacity) with
      | interrupted => exact ⟨s₁, none, rfl, hsound, hrecorded, fun t' ht' => by cases ht'⟩
      | refused => exact ⟨s₁, none, rfl, hsound, hrecorded, fun t' ht' => by cases ht'⟩
      | ready grown =>
          have hgrown := grown_of_ready (allocator.enough t) hroom hreserve
          have hgrows := hgrown.grows
          have hbounded := hgrown.bounded
          simp only [checkedSub_of_le hgrown.grows.le, Option.bind_some]
          refine ⟨_, _, rfl, hsound.update hv grown hgrown.perStack (by omega) (by omega), ?_, ?_⟩
          · intro t'
            rw [State.recorded_update hv, ← hrecorded t']
            split
            · next ht =>
                subst ht
                rw [hgrown.frames, State.recorded, hv]
                rfl
            · rfl
          · intro t' ht'
            refine ⟨(Option.some.inj ht').symm, grown, ?_, hgrown.room⟩
            rw [Table.find_update, if_pos rfl, hv]
            rfl

/-- **A recorded frame.** It is the last of its thread, if it is kept at all. -/
theorem State.recordFrame_spec (allocator : Allocator) {s : State Frame} (h : s.Sound)
    (t : ThreadId) (frame : Frame) :
    ∃ s', s.recordFrame allocator t frame = some s' ∧ s'.Sound
      ∧ (∀ t' ≠ t, s'.recorded t' = s.recorded t')
      ∧ (s'.recorded t = s.recorded t ∨ s'.recorded t = s.recorded t ++ [frame]) := by
  obtain ⟨s₁, stack, hprepared, hsound, hrecorded, hroom⟩ :=
    s.tryPrepareFrame_spec allocator h t
  rw [State.recordFrame, hprepared]
  cases stack with
  | none => exact ⟨s₁, rfl, hsound, fun t' _ => hrecorded t', .inl (hrecorded t)⟩
  | some t' =>
      obtain ⟨rfl, v, hv, hlt⟩ := hroom t' rfl
      have hcapacity := FrameVector.capacity_pushBack hlt frame
      have hstack := hsound.perStack t' v hv
      simp only [Option.bind_eq_bind, Option.bind_some, hv]
      refine ⟨_, rfl, hsound.update hv (v.pushBack frame) (by omega) (by omega)
        hsound.budget, ?_, .inr ?_⟩
      · intro t hne
        rw [State.recorded_update hv, if_neg (Ne.symm hne), hrecorded]
      · rw [State.recorded_update hv, if_pos rfl, FrameVector.frames_pushBack, ← hrecorded,
          State.recorded, hv]
        rfl

/-! ### Eviction -/

/-- The capacities are given back, since they are part of what is tracked. -/
theorem release_eq {buffers : List (ThreadId × FrameVector Frame)} {frameCapacity : ℕ}
    (h : (buffers.map fun p => p.2.capacity).sum ≤ frameCapacity) :
    release frameCapacity buffers =
      some (frameCapacity - (buffers.map fun p => p.2.capacity).sum) := by
  induction buffers generalizing frameCapacity with
  | nil => rfl
  | cons p buffers ih =>
      rw [List.map_cons, List.sum_cons] at h ⊢
      rw [release, List.foldlM_cons, checkedSub_of_le (by omega)]
      change release _ buffers = _
      rw [ih (by omega), Nat.sub_sub]

theorem State.evict_spec {s : State Frame} (h : s.Sound) (hcache : s.cachedStack = none)
    (activeThreads : List ThreadId) :
    ∃ s', s.evict activeThreads = some s' ∧ s'.Sound ∧ s'.cachedStack = none
      ∧ ∀ t, s'.threadStacks.find t = (s.threadStacks.find t).filter fun v =>
          !evicted activeThreads (t, v) := by
  have htotal := s.threadStacks.total_keep FrameVector.capacity (evicted activeThreads)
  have haccounted := h.accounted
  have hbudget := h.budget
  have hreleased : ((s.threadStacks.entries.filter (evicted activeThreads)).map
      fun p => p.2.capacity).sum
        = (s.threadStacks.keep (evicted activeThreads)).total FrameVector.capacity := rfl
  have hfind (t : ThreadId) := s.threadStacks.find_keep (p := fun p => !evicted activeThreads p) t
  rw [State.evict, release_eq (by omega), hreleased]
  refine ⟨_, rfl, ⟨?_, ?_, ?_, ?_, ?_⟩, hcache, hfind⟩
  · dsimp only
    omega
  · dsimp only
    omega
  · intro t v hv
    rw [hfind, Option.filter_eq_some_iff] at hv
    exact h.perStack t v hv.1
  · exact (s.threadStacks.size_keep_le _).trans h.threads
  · intro t ht
    rw [hcache] at ht
    cases ht

theorem State.reclaim_spec {s : State Frame} (h : s.Sound) (hcache : s.cachedStack = none)
    (capacity : ℕ) :
    ∃ s', s.reclaim capacity = some s' ∧ s'.Sound ∧ s'.cachedStack = none
      ∧ ∀ t, s'.threadStacks.find t = (s.threadStacks.find t).map (reclaimed capacity) := by
  have htotal := s.threadStacks.total_mapValues FrameVector.capacity (reclaimed capacity)
    (fun v => capacity < v.capacity) fun v => by
      rw [reclaimed]
      split
      · next hlt => simp [hlt]
      · next hle => simp [hle]
  have haccounted := h.accounted
  have hbudget := h.budget
  have hreleased : ((s.threadStacks.entries.filter fun p => capacity < p.2.capacity).map
      fun p => p.2.capacity).sum
        = (s.threadStacks.keep fun p => capacity < p.2.capacity).total FrameVector.capacity := rfl
  have hfind (t : ThreadId) := s.threadStacks.find_mapValues (reclaimed capacity) t
  rw [State.reclaim, release_eq (by omega), hreleased]
  refine ⟨_, rfl, ⟨?_, ?_, ?_, ?_, ?_⟩, hcache, hfind⟩
  · dsimp only
    omega
  · dsimp only
    omega
  · intro t v hv
    rw [hfind, Option.map_eq_some_iff] at hv
    obtain ⟨old, hold, rfl⟩ := hv
    rw [reclaimed]
    split
    · exact Nat.zero_le _
    · exact h.perStack t old hold
  · exact (s.threadStacks.size_mapValues _).trans_le h.threads
  · intro t ht
    rw [hcache] at ht
    cases ht

/-! ### Reservation -/

/-- The capacity a thread has. -/
def State.storage (s : State Frame) (t : ThreadId) : ℕ :=
  ((s.threadStacks.find t).map FrameVector.capacity).getD 0

theorem State.storage_of_find {s : State Frame} {t : ThreadId} {v : FrameVector Frame}
    (h : s.threadStacks.find t = some v) : s.storage t = v.capacity := by
  rw [State.storage, h]
  rfl

/-- An entry without storage is added. -/
theorem State.Sound.emplace {s : State Frame} (h : s.Sound) {t : ThreadId}
    (hnone : s.threadStacks.find t = none) (hsize : s.threadStacks.size < maximumThreads) :
    State.Sound { s with threadStacks := s.threadStacks.tryEmplace t .empty } where
  accounted := h.accounted.trans
    (s.threadStacks.total_tryEmplace FrameVector.capacity FrameVector.empty hnone).symm
  budget := h.budget
  perStack t' v hv := by
    rw [Table.find_tryEmplace _ hnone] at hv
    split at hv
    · cases hv
      exact Nat.zero_le _
    · exact h.perStack t' v hv
  threads := by
    change (s.threadStacks.tryEmplace t .empty).size ≤ _
    rw [Table.size_tryEmplace _ hnone]
    exact hsize
  cache t' ht' := by
    refine ⟨(h.cache t' ht').1, ?_⟩
    change (s.threadStacks.tryEmplace t .empty).find t' ≠ none
    rw [Table.find_tryEmplace _ hnone]
    split
    · exact Option.some_ne_none _
    · exact (h.cache t' ht').2

/-- What one round of the last loop does for its thread, and nothing else. -/
structure Reserved (reserve : ℕ → Option ℕ) (capacity : ℕ) (t : ThreadId) (s s' : State Frame)
    (goesOn : Bool) : Prop where
  sound : s'.Sound
  cache : s'.cachedStack = s.cachedStack
  others : ∀ t' ≠ t, s'.threadStacks.find t' = s.threadStacks.find t'
  recorded : s'.recorded t = s.recorded t
  charged : s'.frameCapacity + s.storage t = s.frameCapacity + s'.storage t
  kept : s.storage t ≠ 0 → s'.storage t = s.storage t
  size : s'.threadStacks.size
    ≤ s.threadStacks.size + if s.threadStacks.find t = none then 1 else 0
  bounded : s'.storage t ≤ max capacity (s.storage t)
  goesOn : reserve capacity ≠ none →
    (s.storage t = 0 → s.frameCapacity + capacity ≤ maximumFrameCapacity) → goesOn = true
  granted : (s.threadStacks.find t = none → s.threadStacks.size < maximumThreads) →
    s.frameCapacity + capacity ≤ maximumFrameCapacity → s.storage t = 0 →
      reserve capacity = some capacity → s'.storage t = capacity

/-- A round that changes nothing. -/
theorem Reserved.refl {reserve : ℕ → Option ℕ} {capacity : ℕ} {t : ThreadId} {s : State Frame}
    (h : s.Sound)
    (hgranted : (s.threadStacks.find t = none → s.threadStacks.size < maximumThreads) →
      s.frameCapacity + capacity ≤ maximumFrameCapacity → s.storage t = 0 →
        reserve capacity = some capacity → s.storage t = capacity) :
    Reserved reserve capacity t s s true where
  sound := h
  cache := rfl
  others _ _ := rfl
  recorded := rfl
  charged := rfl
  kept _ := rfl
  size := Nat.le_add_right ..
  bounded := Nat.le_max_right ..
  goesOn _ _ := rfl
  granted := hgranted

/-- A round for a thread that has an entry, which may have been added just now. -/
theorem Reserved.of_entry (allocator : Allocator) {capacity : ℕ} (hpos : 0 < capacity)
    (hcapacity : capacity ≤ initialStackFrameCapacity) {t : ThreadId} {s : State Frame}
    (h : s.Sound) {v : FrameVector Frame} (hv : s.threadStacks.find t = some v)
    (hempty : v.capacity = 0) {room : ℕ} (hroom : room = maximumFrameCapacity - s.frameCapacity) :
    ∃ s' goesOn, (match tryReserveStackFrame (allocator.reserve t) v (min capacity room) with
        | .interrupted => some (s, false)
        | .refused => some (s, true)
        | .ready grown =>
            some ({ s with
              threadStacks := s.threadStacks.update t grown
              frameCapacity := s.frameCapacity + grown.capacity }, true)) = some (s', goesOn)
      ∧ Reserved (allocator.reserve t) capacity t s s' goesOn := by
  have hbudget := h.budget
  have hstorage : s.storage t = 0 := (State.storage_of_find hv).trans hempty
  have hfits (hle : s.frameCapacity + capacity ≤ maximumFrameCapacity) :
      tryReserveStackFrame (allocator.reserve t) v (min capacity room) =
        match allocator.reserve t capacity with
        | none => .interrupted
        | some c => if capacity < c then .refused else .ready (.store [] c) := by
    rw [Nat.min_eq_left (by omega)]
    exact tryReserve_fresh _ hempty hpos hcapacity
  have hgrants (hle : s.frameCapacity + capacity ≤ maximumFrameCapacity)
      (hgives : allocator.reserve t capacity = some capacity) :
      tryReserveStackFrame (allocator.reserve t) v (min capacity room) =
        .ready (.store [] capacity) := by
    rw [hfits hle, hgives]
    exact if_neg (Nat.lt_irrefl capacity)
  have hfull : ¬v.frames.length < v.capacity := by
    rw [hempty]
    exact Nat.not_lt_zero _
  cases hreserve : tryReserveStackFrame (allocator.reserve t) v (min capacity room) with
  | interrupted =>
      refine ⟨s, false, rfl, { Reserved.refl h ?_ with goesOn := ?_ }⟩
      · intro _ hle _ hgives
        rw [hgrants hle hgives] at hreserve
        cases hreserve
      · intro hgives hle
        rw [hfits (hle hstorage)] at hreserve
        split at hreserve
        · next hnone => exact absurd hnone hgives
        · split at hreserve
          · cases hreserve
          · cases hreserve
  | refused =>
      refine ⟨s, true, rfl, Reserved.refl h ?_⟩
      intro _ hle _ hgives
      rw [hgrants hle hgives] at hreserve
      cases hreserve
  | ready grown =>
      have hgrown := grown_of_ready (allocator.enough t) hfull hreserve
      have hbounded := hgrown.bounded
      have hfind : (s.threadStacks.update t grown).find t = some grown := by
        rw [Table.find_update, if_pos rfl, hv]
        rfl
      have hstorage' := State.storage_of_find (s := { s with
        threadStacks := s.threadStacks.update t grown
        frameCapacity := s.frameCapacity + grown.capacity }) hfind
      refine ⟨_, true, rfl, ?_⟩
      constructor
      case sound => exact h.update hv grown hgrown.perStack (by omega) (by omega)
      case cache => rfl
      case others =>
        intro t' hne
        exact (Table.find_update ..).trans (if_neg (Ne.symm hne))
      case recorded =>
        rw [State.recorded_update hv, if_pos rfl, hgrown.frames, State.recorded, hv]
        rfl
      case charged =>
        rw [hstorage', hstorage]
        rfl
      case kept =>
        intro hne
        exact absurd hstorage hne
      case size =>
        change (s.threadStacks.update t grown).size ≤ _
        rw [Table.size_update]
        exact Nat.le_add_right ..
      case bounded =>
        rw [hstorage']
        omega
      case goesOn =>
        intro _ _
        rfl
      case granted =>
        intro _ hle _ hgives
        rw [hgrants hle hgives] at hreserve
        cases hreserve
        rw [hstorage']
        exact FrameVector.capacity_store (Nat.zero_le _)

/-- **One round of the last loop.** -/
theorem State.reserve_spec (allocator : Allocator) {capacity : ℕ} (hpos : 0 < capacity)
    (hcapacity : capacity ≤ initialStackFrameCapacity) (t : ThreadId) {s : State Frame}
    (h : s.Sound) :
    ∃ s' goesOn, s.reserve allocator capacity t = some (s', goesOn)
      ∧ Reserved (allocator.reserve t) capacity t s s' goesOn := by
  rw [State.reserve]
  by_cases hskip : s.threadStacks.find t = none
      ∧ (maximumThreads ≤ s.threadStacks.size ∨ maximumFrameCapacity ≤ s.frameCapacity)
  · rw [if_pos hskip]
    refine ⟨s, true, rfl, Reserved.refl h ?_⟩
    intro hsize hle _ _
    have hlt := hsize hskip.1
    rcases hskip.2 with hfull | hfull
    · omega
    · omega
  · rw [if_neg hskip]
    cases hfind : s.threadStacks.find t with
    | none =>
        have hsize : s.threadStacks.size < maximumThreads := by
          by_contra hge
          exact hskip ⟨hfind, .inl (Nat.not_lt.mp hge)⟩
        have hentry : (s.threadStacks.tryEmplace t .empty).find t =
            some (.empty : FrameVector Frame) := by
          rw [Table.find_tryEmplace _ hfind, if_pos rfl]
        have hsound := h.emplace hfind hsize
        obtain ⟨s', goesOn, heq, hs'⟩ :=
          Reserved.of_entry allocator hpos hcapacity hsound hentry rfl rfl
        have hbudget := h.budget
        simp only [Option.bind_eq_bind, hentry, Option.bind_some, FrameVector.capacity_empty,
          checkedSub_of_le hbudget]
        have hstorage : s.storage t = 0 := by
          rw [State.storage, hfind]
          rfl
        have hstorage' := State.storage_of_find (s := { s with
          threadStacks := s.threadStacks.tryEmplace t .empty }) hentry
        refine ⟨s', goesOn, heq, ?_⟩
        constructor
        case sound => exact hs'.sound
        case cache => exact hs'.cache
        case others =>
          intro t' hne
          rw [hs'.others t' hne, Table.find_tryEmplace _ hfind, if_neg (Ne.symm hne)]
        case recorded =>
          rw [hs'.recorded, State.recorded, hentry, State.recorded, hfind]
          rfl
        case charged =>
          have hcharged := hs'.charged
          rw [hstorage'] at hcharged
          rw [hstorage]
          exact hcharged
        case kept =>
          intro hne
          exact absurd hstorage hne
        case size =>
          have hle := hs'.size
          rw [hentry, if_neg (Option.some_ne_none _), Table.size_tryEmplace _ hfind] at hle
          rw [hfind, if_pos rfl]
          exact hle
        case bounded => exact hs'.bounded.trans (by rw [hstorage', hstorage]; exact Nat.le_refl _)
        case goesOn =>
          intro hgives hle
          exact hs'.goesOn hgives fun _ => hle hstorage
        case granted =>
          intro _ hle _ hgives
          refine hs'.granted ?_ hle hstorage' hgives
          intro hnone
          rw [hentry] at hnone
          cases hnone
    | some v =>
        have hbudget := h.budget
        have hsame : { s with threadStacks := s.threadStacks.tryEmplace t .empty } = s := by
          rw [Table.tryEmplace_of_find _ hfind]
        rw [hsame]
        simp only [Option.bind_eq_bind, hfind, Option.bind_some]
        by_cases hempty : v.capacity = 0
        · obtain ⟨s', goesOn, heq, hs'⟩ :=
            Reserved.of_entry allocator hpos hcapacity h hfind hempty rfl
          rw [if_pos hempty, checkedSub_of_le hbudget, Option.bind_some]
          exact ⟨s', goesOn, heq, hs'⟩
        · rw [if_neg hempty]
          refine ⟨s, true, rfl, Reserved.refl h ?_⟩
          intro _ _ hstorage _
          exact absurd ((State.storage_of_find hfind).symm.trans hstorage) hempty

theorem Reserved.recorded_eq {reserve : ℕ → Option ℕ} {capacity : ℕ} {t : ThreadId}
    {s s' : State Frame} {goesOn : Bool} (h : Reserved reserve capacity t s s' goesOn)
    (t' : ThreadId) : s'.recorded t' = s.recorded t' := by
  by_cases ht : t' = t
  · rw [ht, h.recorded]
  · rw [State.recorded, h.others t' ht, State.recorded]

theorem Reserved.storage_eq {reserve : ℕ → Option ℕ} {capacity : ℕ} {t : ThreadId}
    {s s' : State Frame} {goesOn : Bool} (h : Reserved reserve capacity t s s' goesOn)
    {t' : ThreadId} (ht : t' ≠ t) : s'.storage t' = s.storage t' := by
  rw [State.storage, h.others t' ht, State.storage]

/-- **The last loop.** It adds storage, and loses no frame. -/
theorem State.reserveAll_spec (allocator : Allocator) {capacity : ℕ} (hpos : 0 < capacity)
    (hcapacity : capacity ≤ initialStackFrameCapacity) (threads : List ThreadId)
    {s : State Frame} (h : s.Sound) :
    ∃ s', s.reserveAll allocator capacity threads = some s' ∧ s'.Sound
      ∧ s'.cachedStack = s.cachedStack ∧ (∀ t, s'.recorded t = s.recorded t)
      ∧ ∀ t, s.storage t ≠ 0 → s'.storage t = s.storage t := by
  induction threads generalizing s with
  | nil => exact ⟨s, rfl, h, rfl, fun _ => rfl, fun _ _ => rfl⟩
  | cons t threads ih =>
      obtain ⟨s₁, goesOn, heq, h₁⟩ := s.reserve_spec allocator hpos hcapacity t h
      have hkept (t' : ThreadId) (hne : s.storage t' ≠ 0) : s₁.storage t' = s.storage t' := by
        by_cases ht : t' = t
        · rw [ht] at hne ⊢
          exact h₁.kept hne
        · exact h₁.storage_eq ht
      rw [State.reserveAll, heq]
      cases goesOn with
      | false => exact ⟨s₁, rfl, h₁.sound, h₁.cache, h₁.recorded_eq, hkept⟩
      | true =>
          obtain ⟨s', heq', hsound, hcache, hrecorded, hstorage⟩ := ih h₁.sound
          refine ⟨s', heq', hsound, hcache.trans h₁.cache, ?_, ?_⟩
          · intro t'
            rw [hrecorded, h₁.recorded_eq]
          · intro t' hne
            rw [hstorage t' (by rwa [hkept t' hne]), hkept t' hne]

/-- The budget allows for the initial capacity of every thread that has no storage, and the
table for every thread that has no entry. -/
structure State.Affords (s : State Frame) (capacity : ℕ) (threads : List ThreadId) : Prop where
  budget : s.frameCapacity + capacity * threads.countP (s.storage · = 0) ≤ maximumFrameCapacity
  entries : s.threadStacks.size + threads.countP (s.threadStacks.find · = none) ≤ maximumThreads

/-- What one round uses of the budget it had for its thread. -/
theorem Reserved.affords {reserve : ℕ → Option ℕ} {capacity : ℕ} {t : ThreadId}
    {s s' : State Frame} {goesOn : Bool} (h : Reserved reserve capacity t s s' goesOn)
    {threads : List ThreadId} (ht : t ∉ threads) (haffords : s.Affords capacity (t :: threads)) :
    s'.Affords capacity threads where
  budget := by
    have hsame : threads.countP (s'.storage · = 0) = threads.countP (s.storage · = 0) := by
      refine List.countP_congr fun t' ht' => ?_
      have hne : t' ≠ t := fun heq => ht (heq ▸ ht')
      rw [h.storage_eq hne]
    have hbudget := haffords.budget
    have hcharged := h.charged
    have hbounded := h.bounded
    rw [List.countP_cons] at hbudget
    rw [hsame]
    by_cases hzero : s.storage t = 0
    · rw [hzero] at hcharged hbounded
      simp only [hzero, decide_true, if_true, Nat.mul_add, Nat.mul_one] at hbudget
      omega
    · have hkept := h.kept hzero
      simp only [hzero, decide_false, Bool.false_eq_true, if_false, Nat.add_zero] at hbudget
      omega
  entries := by
    have hsame : threads.countP (s'.threadStacks.find · = none) =
        threads.countP (s.threadStacks.find · = none) := by
      refine List.countP_congr fun t' ht' => ?_
      have hne : t' ≠ t := fun heq => ht (heq ▸ ht')
      rw [h.others t' hne]
    have hentries := haffords.entries
    have hsize := h.size
    rw [List.countP_cons] at hentries
    rw [hsame]
    by_cases hnone : s.threadStacks.find t = none
    · simp only [hnone, decide_true, if_true] at hentries hsize
      omega
    · simp only [hnone, decide_false, Bool.false_eq_true, if_false] at hentries hsize
      omega

/-- **Every thread is given storage**, if the budget allows for all of them and the allocator
gives what is asked. -/
theorem State.reserveAll_grants (allocator : Allocator) {capacity : ℕ} (hpos : 0 < capacity)
    (hcapacity : capacity ≤ initialStackFrameCapacity) {threads : List ThreadId}
    (hthreads : threads.Nodup) {s s' : State Frame} (h : s.Sound)
    (haffords : s.Affords capacity threads)
    (hgives : ∀ t ∈ threads, allocator.reserve t capacity ≠ none)
    (hrun : s.reserveAll allocator capacity threads = some s') {t : ThreadId} (ht : t ∈ threads)
    (hexact : s.storage t ≠ 0 ∨ allocator.reserve t capacity = some capacity) :
    s'.storage t ≠ 0 := by
  induction threads generalizing s with
  | nil => cases ht
  | cons t₁ threads ih =>
      obtain ⟨hfresh, hthreads⟩ := List.nodup_cons.mp hthreads
      obtain ⟨s₁, goesOn, heq, h₁⟩ := s.reserve_spec allocator hpos hcapacity t₁ h
      have hbudget : s.storage t₁ = 0 → s.frameCapacity + capacity ≤ maximumFrameCapacity := by
        intro hzero
        have hbudget := haffords.budget
        simp only [List.countP_cons, hzero, decide_true, if_true, Nat.mul_add, Nat.mul_one]
          at hbudget
        omega
      have hentry : s.threadStacks.find t₁ = none → s.threadStacks.size < maximumThreads := by
        intro hnone
        have hentries := haffords.entries
        simp only [List.countP_cons, hnone, decide_true, if_true] at hentries
        omega
      have hgoesOn := h₁.goesOn (hgives t₁ List.mem_cons_self) hbudget
      rw [State.reserveAll, heq, hgoesOn] at hrun
      change s₁.reserveAll allocator capacity threads = some s' at hrun
      have hstorage : t ∈ threads → s₁.storage t = s.storage t := by
        intro ht
        exact h₁.storage_eq fun heq => hfresh (heq ▸ ht)
      rcases List.mem_cons.mp ht with rfl | ht
      · have hne : s₁.storage t ≠ 0 := by
          by_cases hzero : s.storage t = 0
          · have hgranted := h₁.granted hentry (hbudget hzero) hzero
              (hexact.resolve_left (not_not.mpr hzero))
            omega
          · rwa [h₁.kept hzero]
        obtain ⟨s₂, heq₂, -, -, -, hkept⟩ :=
          s₁.reserveAll_spec allocator hpos hcapacity threads h₁.sound
        cases heq₂.symm.trans hrun
        rwa [hkept t hne]
      · refine ih hthreads h₁.sound (h₁.affords hfresh haffords) ?_ hrun ht ?_
        · intro t' ht'
          exact hgives t' (List.mem_cons_of_mem t₁ ht')
        · rwa [hstorage ht]

/-! ### The cohort -/

theorem initialCapacity_le (n : ℕ) : initialCapacity n ≤ initialStackFrameCapacity := by
  rw [initialCapacity]
  split
  · exact Nat.le_refl _
  · exact Nat.min_le_left ..

theorem initialCapacity_pos {n : ℕ} (h : n ≤ maximumThreads) : 0 < initialCapacity n := by
  rw [initialCapacity]
  split
  · decide
  · next hn =>
      have hdiv : 1 ≤ maximumFrameCapacity / n :=
        (Nat.one_le_div_iff (Nat.pos_of_ne_zero hn)).mpr (h.trans (by decide))
      exact Nat.lt_min.mpr ⟨by decide, hdiv⟩

/-- The initial capacities of all threads are within the budget. -/
theorem mul_initialCapacity_le (n : ℕ) : initialCapacity n * n ≤ maximumFrameCapacity := by
  rw [initialCapacity]
  split
  · next hn =>
      rw [hn]
      exact Nat.zero_le _
  · exact (Nat.mul_le_mul_right n (Nat.min_le_right ..)).trans (Nat.div_mul_le_self ..)

section Cohort

variable {s : State Frame} {threads : List ThreadId}

/-- The threads of the table are among those of the cohort. -/
def State.Within (s : State Frame) (threads : List ThreadId) : Prop :=
  ∀ t v, s.threadStacks.find t = some v → t ∈ threads

theorem State.Within.total_eq (h : s.Within threads) (hthreads : threads.Nodup)
    (weight : FrameVector Frame → ℕ) :
    s.threadStacks.total weight =
      (threads.map fun t => ((s.threadStacks.find t).map weight).getD 0).sum :=
  s.threadStacks.total_eq_sum weight hthreads fun p hp => h p.1 p.2 (Table.mem_entries.mp hp)

theorem State.Within.size_add (h : s.Within threads) (hthreads : threads.Nodup) :
    s.threadStacks.size + threads.countP (s.threadStacks.find · = none) = threads.length := by
  rw [Table.size_eq_total, h.total_eq hthreads]
  clear h hthreads
  induction threads with
  | nil => rfl
  | cons t threads ih =>
      rw [List.map_cons, List.sum_cons, List.countP_cons, List.length_cons]
      cases hfind : s.threadStacks.find t with
      | none => simpa using by omega
      | some v => simpa using by omega

theorem State.Within.total_add_le (h : s.Within threads) (hthreads : threads.Nodup)
    (hs : s.Sound) {capacity : ℕ} (hstorage : ∀ t, s.storage t ≤ capacity) :
    s.frameCapacity + capacity * threads.countP (s.storage · = 0) ≤ capacity * threads.length := by
  rw [hs.accounted, h.total_eq hthreads]
  change (threads.map s.storage).sum + _ ≤ _
  clear h hthreads
  induction threads with
  | nil => exact Nat.le_refl _
  | cons t threads ih =>
      have hle := hstorage t
      rw [List.map_cons, List.sum_cons, List.countP_cons, List.length_cons, Nat.mul_add,
        Nat.mul_add]
      split
      · next hzero =>
          have hzero := of_decide_eq_true hzero
          omega
      · omega

theorem State.Within.size_le (h : s.Within threads) (hthreads : threads.Nodup) :
    s.threadStacks.size ≤ threads.length := by
  have hsize := h.size_add hthreads
  omega

end Cohort

/-- The state behind the first loop. -/
theorem State.evict_cohort {s : State Frame} (h : s.Sound) (hcache : s.cachedStack = none)
    (threads : List ThreadId) :
    ∃ s', s.evict threads = some s' ∧ s'.Sound ∧ s'.cachedStack = none ∧ s'.Within threads
      ∧ (∀ t, s'.storage t = 0 → s'.threadStacks.find t = none)
      ∧ (∀ t ∉ threads, s'.recorded t = [])
      ∧ ∀ t ∈ threads, s'.recorded t = s.recorded t ∧ s'.storage t = s.storage t := by
  obtain ⟨s', heq, hsound, hcache', hfind⟩ := s.evict_spec h hcache threads
  have hevicted (t : ThreadId) (v : FrameVector Frame) :
      evicted threads (t, v) = false ↔ v.capacity ≠ 0 ∧ t ∈ threads := by
    simp [evicted]
  refine ⟨s', heq, hsound, hcache', ?_, ?_, ?_, ?_⟩
  · intro t v hv
    rw [hfind, Option.filter_eq_some_iff, Bool.not_eq_true', hevicted] at hv
    exact hv.2.2
  · intro t hzero
    by_contra hsome
    obtain ⟨v, hv⟩ := Option.ne_none_iff_exists'.mp hsome
    have hcapacity := State.storage_of_find hv
    rw [hfind, Option.filter_eq_some_iff, Bool.not_eq_true', hevicted] at hv
    exact hv.2.1 (hcapacity.symm.trans hzero)
  · intro t ht
    rw [State.recorded, hfind]
    cases s.threadStacks.find t with
    | none => rfl
    | some v =>
        have hout : evicted threads (t, v) = true := by
          rw [← Bool.not_eq_false, hevicted]
          exact fun h => ht h.2
        rw [Option.filter_some, hout]
        rfl
  · intro t ht
    rw [State.recorded, State.recorded, State.storage, State.storage, hfind]
    cases s.threadStacks.find t with
    | none => exact ⟨rfl, rfl⟩
    | some v =>
        by_cases hzero : v.capacity = 0
        · have hframes := FrameVector.frames_of_capacity_eq_zero hzero
          have hout : evicted threads (t, v) = true := by
            rw [← Bool.not_eq_false, hevicted]
            exact fun h => h.1 hzero
          rw [Option.filter_some, hout]
          exact ⟨hframes.symm, hzero.symm⟩
        · have hin : evicted threads (t, v) = false := (hevicted t v).mpr ⟨hzero, ht⟩
          rw [Option.filter_some, hin]
          exact ⟨rfl, rfl⟩

/-- The state behind the second loop, which runs if the budget is short. -/
theorem State.reclaim_cohort {s : State Frame} (h : s.Sound) (hcache : s.cachedStack = none)
    {threads : List ThreadId} (hthreads : threads.Nodup) (hwithin : s.Within threads)
    (hzero : ∀ t, s.storage t = 0 → s.threadStacks.find t = none) {n : ℕ}
    (hn : n = min threads.length maximumThreads) :
    ∃ s', (if maximumFrameCapacity - s.frameCapacity <
          (n - s.threadStacks.size) * initialCapacity n then s.reclaim (initialCapacity n)
        else some s) = some s'
      ∧ s'.Sound ∧ s'.cachedStack = none
      ∧ (∀ t, s'.recorded t = s.recorded t ∨ s'.recorded t = [])
      ∧ (∀ t, s.storage t ≤ initialCapacity n → s'.recorded t = s.recorded t)
      ∧ (threads.length ≤ maximumThreads → s'.Affords (initialCapacity n) threads) := by
  have hsize := hwithin.size_add hthreads
  split
  · obtain ⟨s', heq, hsound, hcache', hfind⟩ := s.reclaim_spec h hcache (initialCapacity n)
    have hwithin' : s'.Within threads := by
      intro t v hv
      rw [hfind, Option.map_eq_some_iff] at hv
      obtain ⟨old, hold, -⟩ := hv
      exact hwithin t old hold
    have hstorage (t : ThreadId) : s'.storage t ≤ initialCapacity n := by
      rw [State.storage, hfind]
      cases s.threadStacks.find t with
      | none => exact Nat.zero_le _
      | some v =>
          change (reclaimed (initialCapacity n) v).capacity ≤ _
          rw [reclaimed]
          split
          · exact Nat.zero_le _
          · next hle => exact Nat.not_lt.mp hle
    refine ⟨s', heq, hsound, hcache', ?_, ?_, ?_⟩
    · intro t
      rw [State.recorded, State.recorded, hfind]
      cases s.threadStacks.find t with
      | none => exact .inl rfl
      | some v =>
          simp only [Option.map_some, Option.getD_some, reclaimed]
          split
          · exact .inr rfl
          · exact .inl rfl
    · intro t hle
      rw [State.recorded, State.recorded, hfind]
      cases hv : s.threadStacks.find t with
      | none => rfl
      | some v =>
          rw [State.storage_of_find hv] at hle
          simp only [Option.map_some, Option.getD_some, reclaimed, if_neg (Nat.not_lt.mpr hle)]
    · intro hlength
      have hall := mul_initialCapacity_le n
      rw [Nat.min_eq_left hlength] at hn
      have htotal := hwithin'.total_add_le hthreads hsound hstorage
      have hsize' := hwithin'.size_add hthreads
      rw [← hn] at htotal
      exact ⟨htotal.trans hall, hsize'.trans_le hlength⟩
  · next hroom =>
      refine ⟨s, rfl, h, hcache, fun _ => .inl rfl, fun _ _ => rfl, ?_⟩
      intro hlength
      rw [Nat.min_eq_left hlength] at hn
      have hsame : threads.countP (s.storage · = 0) =
          threads.countP (s.threadStacks.find · = none) := by
        refine List.countP_congr fun t _ => ?_
        rw [decide_eq_true_eq, decide_eq_true_eq]
        constructor
        · exact hzero t
        · intro hnone
          rw [State.storage, hnone]
          rfl
      have hmissing : n - s.threadStacks.size =
          threads.countP (s.threadStacks.find · = none) := by
        omega
      have hbudget := h.budget
      rw [hmissing, Nat.mul_comm] at hroom
      refine ⟨?_, hsize.trans_le hlength⟩
      rw [hsame]
      omega

/-- **The preparation of a capture.** -/
theorem State.prepareForCapture_spec (allocator : Allocator) {s : State Frame} (h : s.Sound)
    {threads : List ThreadId} (hthreads : threads.Nodup) :
    ∃ s', s.prepareForCapture allocator threads = some s' ∧ s'.Sound
      ∧ (∀ t, s'.recorded t = s.recorded t ∨ s'.recorded t = [])
      ∧ (∀ t ∈ threads, s.storage t ≤ initialCapacity (min threads.length maximumThreads) →
        s'.recorded t = s.recorded t)
      ∧ (threads.length ≤ maximumThreads →
        (∀ t ∈ threads, allocator.reserve t (initialCapacity threads.length) ≠ none) →
        ∀ t ∈ threads, allocator.reserve t (initialCapacity threads.length) =
            some (initialCapacity threads.length) → s'.storage t ≠ 0) := by
  have h₀ : State.Sound { s with cachedStack := none } :=
    ⟨h.accounted, h.budget, h.perStack, h.threads, fun t ht => by cases ht⟩
  obtain ⟨s₁, heq₁, hsound₁, hcache₁, hwithin, hzero, hout, hin⟩ :=
    State.evict_cohort h₀ rfl threads
  have hin (t : ThreadId) (ht : t ∈ threads) :
      s₁.recorded t = s.recorded t ∧ s₁.storage t = s.storage t := hin t ht
  obtain ⟨s₂, heq₂, hsound₂, -, hrecorded₂, hkept₂, haffords⟩ :=
    s₁.reclaim_cohort hsound₁ hcache₁ hthreads hwithin hzero rfl
  have hsize : s₁.threadStacks.size ≤ min threads.length maximumThreads :=
    Nat.le_min.mpr ⟨hwithin.size_le hthreads, hsound₁.threads⟩
  have hpos := initialCapacity_pos (Nat.min_le_right threads.length maximumThreads)
  have hcapacity := initialCapacity_le (min threads.length maximumThreads)
  obtain ⟨s', heq, hsound, -, hrecorded, hkept⟩ :=
    s₂.reserveAll_spec allocator hpos hcapacity threads hsound₂
  refine ⟨s', ?_, hsound, ?_, ?_, ?_⟩
  · simp only [State.prepareForCapture, heq₁, Option.bind_eq_bind, Option.bind_some,
      checkedSub_of_le hsize, checkedSub_of_le hsound₁.budget]
    rw [show (pure s₁ : Option (State Frame)) = some s₁ from rfl,
      ← apply_ite fun o : Option (State Frame) => o.bind fun s =>
        s.reserveAll allocator (initialCapacity (min threads.length maximumThreads)) threads, heq₂]
    exact heq
  · intro t
    rw [hrecorded]
    by_cases ht : t ∈ threads
    · rw [← (hin t ht).1]
      exact hrecorded₂ t
    · rw [← hout t ht]
      exact .inr ((hrecorded₂ t).elim id fun h => h.trans (hout t ht).symm)
  · intro t ht hle
    rw [hrecorded, hkept₂ t ((hin t ht).2.trans_le hle), (hin t ht).1]
  · intro hlength hgives t ht hexact
    rw [Nat.min_eq_left hlength] at heq hpos hcapacity haffords
    exact s₂.reserveAll_grants allocator hpos hcapacity hthreads hsound₂ (haffords hlength) hgives
      heq ht (.inr hexact)

/-! ### Runs -/

theorem State.Sound.reset {s : State Frame} (h : s.Sound) : s.reset.Sound where
  accounted := by
    change s.frameCapacity = _
    rw [h.accounted, Table.total, Table.total, State.reset, Table.mapValues, List.map_map]
    rfl
  budget := h.budget
  perStack t v hv := by
    rw [State.reset, Table.find_mapValues, Option.map_eq_some_iff] at hv
    obtain ⟨old, hold, rfl⟩ := hv
    exact h.perStack t old hold
  threads := (s.threadStacks.size_mapValues _).trans_le h.threads
  cache t ht := by
    refine ⟨(h.cache t ht).1, ?_⟩
    rw [State.reset, Table.find_mapValues, ne_eq, Option.map_eq_none_iff]
    exact (h.cache t ht).2

theorem State.Sound.clear (s : State Frame) : s.clear.Sound where
  accounted := rfl
  budget := Nat.zero_le _
  perStack t v hv := by cases hv
  threads := Nat.zero_le _
  cache t ht := by cases ht

/-- **Every step is defined and keeps the invariant.** -/
theorem State.Sound.act {s : State Frame} (h : s.Sound) (a : Act Frame) :
    ∃ s', s.act a = some s' ∧ s'.Sound := by
  cases a with
  | prepareForCapture allocator threads distinct =>
      obtain ⟨s', heq, hsound, -⟩ := s.prepareForCapture_spec allocator h distinct
      exact ⟨s', heq, hsound⟩
  | recordFrame allocator t frame =>
      obtain ⟨s', heq, hsound, -⟩ := s.recordFrame_spec allocator h t frame
      exact ⟨s', heq, hsound⟩
  | reset => exact ⟨s.reset, rfl, h.reset⟩
  | clear => exact ⟨s.clear, rfl, .clear s⟩

theorem inductive_sound : System.Inductive (system Frame) State.Sound where
  init := by
    rintro s rfl
    exact State.sound_initial
  step s a t h hstep := by
    obtain ⟨s', heq, hsound⟩ := h.act a
    cases heq.symm.trans hstep
    exact hsound

/-- The bounds of the buffer, and what its operations do from a state. -/
structure State.BufferSound (s : State Frame) : Prop where
  tracked : s.frameCapacity = s.threadStacks.total FrameVector.capacity
  budget : s.frameCapacity ≤ 32768
  frames : ∀ t, (s.recorded t).length ≤ 512
  threads : s.threadStacks.size ≤ 1024
  /-- No subtraction wraps around. -/
  defined : ∀ a, s.act a ≠ none
  /-- A frame that is recorded is the last of its thread, or it is dropped. -/
  recordFrame : ∀ allocator t frame s', s.recordFrame allocator t frame = some s' →
    (∀ t' ≠ t, s'.recorded t' = s.recorded t')
      ∧ (s'.recorded t = s.recorded t ∨ s'.recorded t = s.recorded t ++ [frame])
  /-- The frames of a thread are lost together, if it is no longer active or has more storage
  than the initial capacity. -/
  prepareForCapture : ∀ allocator threads s', threads.Nodup →
    s.prepareForCapture allocator threads = some s' →
      (∀ t, s'.recorded t = s.recorded t ∨ s'.recorded t = [])
        ∧ ∀ t ∈ threads, s.storage t ≤ initialCapacity (min threads.length 1024) →
          s'.recorded t = s.recorded t
  /-- A thread is given storage if the allocator gives exactly what is asked for it. -/
  granted : ∀ allocator threads s', threads.Nodup → threads.length ≤ 1024 →
    s.prepareForCapture allocator threads = some s' →
      (∀ t ∈ threads, allocator.reserve t (initialCapacity threads.length) ≠ none) →
        ∀ t ∈ threads, allocator.reserve t (initialCapacity threads.length) =
          some (initialCapacity threads.length) → s'.storage t ≠ 0

theorem State.Sound.bufferSound {s : State Frame} (h : s.Sound) : s.BufferSound where
  tracked := h.accounted
  budget := h.budget
  frames t := by
    rw [State.recorded]
    cases hv : s.threadStacks.find t with
    | none => exact Nat.zero_le _
    | some v => exact v.fits.trans (h.perStack t v hv)
  threads := h.threads
  defined a := by
    obtain ⟨s', heq, -⟩ := h.act a
    rw [heq]
    exact Option.some_ne_none s'
  recordFrame allocator t frame s' hrun := by
    obtain ⟨s₁, heq, -, hframes⟩ := s.recordFrame_spec allocator h t frame
    cases heq.symm.trans hrun
    exact hframes
  prepareForCapture allocator threads s' hthreads hrun := by
    obtain ⟨s₁, heq, -, hrecorded, hkept, -⟩ := s.prepareForCapture_spec allocator h hthreads
    cases heq.symm.trans hrun
    exact ⟨hrecorded, hkept⟩
  granted allocator threads s' hthreads hlength hrun := by
    obtain ⟨s₁, heq, -, -, -, hgranted⟩ := s.prepareForCapture_spec allocator h hthreads
    cases heq.symm.trans hrun
    exact hgranted hlength

/-- **The buffer keeps its bounds in every run.** -/
theorem bufferSound_of_reachable (s : State Frame) (hs : (system Frame).Reachable s) :
    s.BufferSound :=
  (inductive_sound.reachable hs).bufferSound

/-- An allocator that gives what is asked and some more. -/
def generous (more : ℕ) : Allocator where
  reserve _ n := some (n + more)
  enough t n capacity h := by
    obtain rfl := Option.some.inj h
    exact Nat.le_add_right ..

/-- One thread is prepared, and a frame of it is recorded. -/
def recordedRun : List (Act ℕ) :=
  [.prepareForCapture (generous 0) [1] (List.nodup_singleton 1), .recordFrame (generous 0) 1 7]

theorem bufferSound_recorded :
    ∃ s, System.exec State.act .initial recordedRun = some s
      ∧ s.recorded 1 = [7] ∧ s.BufferSound := by
  have hrecorded : (System.exec State.act .initial recordedRun).map (·.recorded 1) = some [7] := by
    decide
  obtain ⟨s, hs, hseven⟩ := Option.map_eq_some_iff.mp hrecorded
  exact ⟨s, hs, hseven, bufferSound_of_reachable s (System.reachable_of_exec rfl hs)⟩

/-- If `reserve` gives one frame more than is asked, the thread is given no storage. -/
theorem not_granted_of_generous :
    ¬∀ s : State ℕ, (system ℕ).Reachable s → ∀ allocator threads s',
      threads.Nodup → threads.length ≤ 1024 → (∀ t n, allocator.reserve t n ≠ none) →
        s.prepareForCapture allocator threads = some s' → ∀ t ∈ threads, s'.storage t ≠ 0 := by
  intro h
  refine h .initial (.of_init rfl) (generous 1) [1] _ (List.nodup_singleton 1) (by decide) ?_ rfl
    1 List.mem_cons_self rfl
  intro t n hnone
  cases hnone

end AutoInstrumentation.ThreadStacksBuffer
