import AutoInstrumentation.Lib.Enclosing
import AutoInstrumentation.Lib.Refinement

/-!
# AutoInstrumentation.Lib.Wrapping

A program with code around it does what the program does.

The instructions of a program are moved, with code in front of them that goes on to the
first one and code behind them that the returns go to; what is not caught is caught behind
the program and thrown again, and the guard of the end is around all that. A run of the new
program is a run of the old one, with the code around it before and after.
-/

namespace AutoInstrumentation.Lib.Unwinding

/-! ### Moved programs -/

/-- The flow with its targets moved. -/
def Flow.map (place : ℕ → ℕ) : Flow → Flow
  | branch q => branch (place q)
  | either q => either (place q)
  | leave q => leave (place q)
  | next => next
  | ret => ret
  | throw => throw
  | endfinally => endfinally
  | endfilter => endfilter
  | jump => jump

/-- The goal with its place moved. -/
def Goal.map (place : ℕ → ℕ) : Goal → Goal
  | goto q => goto (place q)
  | exit => exit
  | reject => reject

def Guard.map (place placeEnd : ℕ → ℕ) (g : Guard) : Guard :=
  ⟨g.kind, g.regions.map place placeEnd⟩

/-- The guard that catches the exceptions of all places before `K`. -/
def catchAll (K : ℕ) : Guard := ⟨.caught, ⟨⟨0, K⟩, none, ⟨K, K + 2⟩⟩⟩

/-- **Wrapped programs.** The `n` instructions of `P` are moved to the places from `b` on and
before `K`; a return has become a jump to `H`, with an instruction in front of it or without
one. -/
structure Wraps (P P' : Program) (n b K H : ℕ) (place placeEnd : ℕ → ℕ) (c d : Guard) :
    Prop where
  shortens : Shortens {k | k ≤ n} place placeEnd
  first : place 0 = b
  last : place n = K
  pos : 0 < n
  /-- the old program -/
  regions : ∀ g ∈ P.guards, ∀ r ∈ g.regions.ranges, r.Nonempty ∧ r.hi ≤ n
  within : ∀ k < n, ∀ f, P.flow k = some f → f = .ret ∨ f.Within (Set.Iio n) k
  unprotected : ∀ k < n, P.flow k = some .ret → ∀ g ∈ P.guards, g.kind = .always →
    ¬g.regions.tryRange.Contains k
  /-- the moved instructions -/
  flow : ∀ k < n, ∃ f, P.flow k = some f
    ∧ (f ≠ .ret → place (k + 1) = place k + 1 ∧ P'.flow (place k) = some (f.map place))
    ∧ (f = .ret → place (k + 1) = place k + 1 ∧ P'.flow (place k) = some (.leave H)
      ∨ place (k + 1) = place k + 2 ∧ P'.flow (place k) = some .next
        ∧ P'.flow (place k + 1) = some (.leave H))
  guards : P'.guards = P.guards.map (Guard.map place placeEnd)
    ++ [c, d, catchAll K, outermost (K + 2) H]
  /-- the code around them -/
  front : 0 < b ∧ c.Between 0 b
  back : d.Between (K + 2) (H - 1)
  begin : ∀ p < b, ∀ f, P'.flow p = some f → f.Within (Set.Iio b) p ∨ f = .leave b
  ending : ∀ p ∈ Set.Ico K H, ∀ f, P'.flow p = some f → f.Within (Set.Ico K H) p
  encloses : Encloses P' (K + 2) H
  behind : ∀ p ∈ Set.Ici H, P'.flow p ≠ some .jump

section wraps

variable {P P' : Program} {n b K H : ℕ} {place placeEnd : ℕ → ℕ} {c d : Guard}

/-- `p` is a place of what has become of the instruction at `k`. -/
def At (n : ℕ) (place : ℕ → ℕ) (p k : ℕ) : Prop := k < n ∧ place k ≤ p ∧ p < place (k + 1)

/-- A region of the old program. -/
def Held (n : ℕ) (r : Region ℕ) : Prop := r.lo < r.hi ∧ r.hi ≤ n

/-! ### Places -/

theorem Wraps.place_mono (W : Wraps P P' n b K H place placeEnd c d) {j k : ℕ} (hjk : j ≤ k)
    (hk : k ≤ n) : place j ≤ place k :=
  (W.shortens.mono.le_iff_le (Nat.le_trans hjk hk) hk).mpr hjk

theorem Wraps.place_lt (W : Wraps P P' n b K H place placeEnd c d) {j k : ℕ} (hjk : j < k)
    (hk : k ≤ n) : place j < place k :=
  (W.shortens.mono.lt_iff_lt (Nat.le_trans (Nat.le_of_lt hjk) hk) hk).mpr hjk

theorem Wraps.at_place (W : Wraps P P' n b K H place placeEnd c d) {k : ℕ} (hk : k < n) :
    At n place (place k) k := ⟨hk, Nat.le_refl _, W.place_lt (Nat.lt_succ_self k) hk⟩

/-- The places of the old program are between the code around it. -/
theorem Wraps.at_bounds (W : Wraps P P' n b K H place placeEnd c d) {p k : ℕ}
    (h : At n place p k) : b ≤ p ∧ p < K := by
  obtain ⟨hk, hlo, hhi⟩ := h
  have hfirst := W.place_mono (Nat.zero_le k) (Nat.le_of_lt hk)
  have hlast := W.place_mono (Nat.succ_le_of_lt hk) (Nat.le_refl n)
  rw [W.first] at hfirst
  rw [W.last] at hlast
  exact ⟨Nat.le_trans hfirst hlo, Nat.lt_of_lt_of_le hhi hlast⟩

/-- A moved region has the places of its instructions. -/
theorem Wraps.contains_iff (W : Wraps P P' n b K H place placeEnd c d) {r : Region ℕ}
    (hr : Held n r) {p k : ℕ} (h : At n place p k) :
    (r.map place place).Contains p ↔ r.Contains k := by
  obtain ⟨hk, hlo, hhi⟩ := h
  obtain ⟨hne, hn⟩ := hr
  show place r.lo ≤ p ∧ p < place r.hi ↔ r.lo ≤ k ∧ k < r.hi
  constructor
  · rintro ⟨hplo, hphi⟩
    refine ⟨?_, ?_⟩
    · by_contra hlt
      have hplace := W.place_mono (Nat.succ_le_of_lt (Nat.lt_of_not_le hlt))
        (Nat.le_trans (Nat.le_of_lt hne) hn)
      exact absurd (Nat.le_trans hplace hplo) (Nat.not_le_of_lt hhi)
    · by_contra hge
      have hplace := W.place_mono (Nat.le_of_not_lt hge) (Nat.le_of_lt hk)
      exact absurd (Nat.le_trans hplace hlo) (Nat.not_le_of_lt hphi)
  · rintro ⟨hklo, hkhi⟩
    exact ⟨Nat.le_trans (W.place_mono hklo (Nat.le_of_lt hk)) hlo,
      Nat.lt_of_lt_of_le hhi (W.place_mono (Nat.succ_le_of_lt hkhi) hn)⟩

/-- A moved handler has the places of its instructions. -/
theorem Wraps.contains_handler_iff (W : Wraps P P' n b K H place placeEnd c d) {r : Region ℕ}
    (hr : Held n r) {q : ℕ} (hq : q < n) :
    (r.map place placeEnd).Contains (place q) ↔ r.Contains q := by
  obtain ⟨hne, hn⟩ := hr
  have hle := W.shortens.le r.hi hn
  show place r.lo ≤ place q ∧ place q < placeEnd r.hi ↔ r.lo ≤ q ∧ q < r.hi
  rw [W.shortens.mono.le_iff_le (by show r.lo ≤ n; omega) (Nat.le_of_lt hq)]
  refine and_congr_right fun _ => ⟨fun hlt => ?_, W.shortens.lt q (Nat.le_of_lt hq) r.hi hn⟩
  exact (W.shortens.mono.lt_iff_lt (Nat.le_of_lt hq) hn).mp (Nat.lt_of_lt_of_le hlt hle)

/-- A moved region ends where the code behind the program starts, or before. -/
theorem Wraps.hi_le (W : Wraps P P' n b K H place placeEnd c d) {r : Region ℕ} (hr : Held n r) :
    placeEnd r.hi ≤ place r.hi ∧ place r.hi ≤ K ∧ b ≤ place r.lo := by
  obtain ⟨hne, hn⟩ := hr
  have hlast := W.place_mono hn (Nat.le_refl n)
  have hfirst := W.place_mono (Nat.zero_le r.lo) (by omega : r.lo ≤ n)
  rw [W.last] at hlast
  rw [W.first] at hfirst
  exact ⟨W.shortens.le r.hi hn, hlast, hfirst⟩

theorem Wraps.lt (W : Wraps P P' n b K H place placeEnd c d) : 0 < b ∧ b < K ∧ K + 2 < H := by
  have hlt := W.place_lt W.pos (Nat.le_refl n)
  rw [W.first, W.last] at hlt
  exact ⟨W.front.1, hlt, W.encloses.lt⟩

theorem Wraps.tryRange_held (W : Wraps P P' n b K H place placeEnd c d) {g : Guard}
    (hg : g ∈ P.guards) : Held n g.regions.tryRange :=
  W.regions g hg _ (Clause.guards_subset _ (Clause.tryRange_mem _))

theorem Wraps.handler_held (W : Wraps P P' n b K H place placeEnd c d) {g : Guard}
    (hg : g ∈ P.guards) : Held n g.regions.handler := W.regions g hg _ (Clause.handler_mem _)

theorem Wraps.filter_held (W : Wraps P P' n b K H place placeEnd c d) {g : Guard}
    (hg : g ∈ P.guards) {r : Region ℕ} (hr : g.regions.filter = some r) : Held n r := by
  refine W.regions g hg r (Clause.guards_subset _ (List.mem_cons_of_mem _ ?_))
  rw [hr]
  exact List.mem_singleton_self r

/-! ### Frames of the old program -/

/-- The guards of the new code. -/
def added (K H : ℕ) (c d : Guard) : List Guard := [c, d, catchAll K, outermost (K + 2) H]

/-- The frames of the new program, and those of the old one. An exception that leaves the old
program is caught behind it, or goes on to the handler of the end. -/
inductive Shadows (P : Program) (n K H : ℕ) (place placeEnd : ℕ → ℕ) (c d : Guard) :
    List Frame → List Frame → Prop
  | nil : Shadows P n K H place placeEnd c d [] []
  | rethrown {h : Region ℕ} {hs : List (Region ℕ)} : Held n h → (∀ x ∈ hs, Held n x) →
      Shadows P n K H place placeEnd c d
        [.handler (h.map place placeEnd) (hs.map (Region.map place placeEnd)) (.goto K)]
        [.handler h hs .exit]
  | thrown {h : Region ℕ} {hs : List (Region ℕ)} : Held n h → (∀ x ∈ hs, Held n x) →
      Shadows P n K H place placeEnd c d
        [.handler (h.map place placeEnd)
          (hs.map (Region.map place placeEnd) ++ [⟨K + 2, H⟩]) .exit]
        [.handler h hs .exit]
  | handler {h : Region ℕ} {hs : List (Region ℕ)} {goal : Goal} {frames' frames : List Frame} :
      Held n h → (∀ x ∈ hs, Held n x) → goal.In (Set.Iio n) →
      Shadows P n K H place placeEnd c d frames' frames →
      Shadows P n K H place placeEnd c d
        (.handler (h.map place placeEnd) (hs.map (Region.map place placeEnd)) (goal.map place)
          :: frames')
        (.handler h hs goal :: frames)
  | filter {r : Region ℕ} {origin' origin : ℕ} {before behind : List Guard} {g : Guard}
      {frames' frames : List Frame} :
      At n place origin' origin → before ++ g :: behind = P.guards →
      g.regions.filter = some r → Shadows P n K H place placeEnd c d frames' frames →
      Shadows P n K H place placeEnd c d
        (.filter (r.map place place) origin' (before.map (Guard.map place placeEnd))
          (g.map place placeEnd) (behind.map (Guard.map place placeEnd) ++ added K H c d)
          :: frames')
        (.filter r origin before g behind :: frames)

/-- A moved region has no place behind the old program. -/
theorem Wraps.not_contains (W : Wraps P P' n b K H place placeEnd c d) {r : Region ℕ}
    (hr : Held n r) {q : ℕ} (hq : K ≤ q) :
    ¬(r.map place placeEnd).Contains q ∧ ¬(r.map place place).Contains q := by
  obtain ⟨hend, hK, -⟩ := W.hi_le hr
  exact ⟨fun h => by have := h.2; simp only [Region.map] at this; omega,
    fun h => by have := h.2; simp only [Region.map] at this; omega⟩

theorem Shadows.outside (W : Wraps P P' n b K H place placeEnd c d) {f' f : Frame}
    {frames' frames : List Frame}
    (h : Shadows P n K H place placeEnd c d (f' :: frames') (f :: frames)) {q : ℕ} (hq : K ≤ q) :
    ¬f'.region.Contains q := by
  cases h with
  | rethrown hh => exact (W.not_contains hh hq).1
  | thrown hh => exact (W.not_contains hh hq).1
  | handler hh => exact (W.not_contains hh hq).1
  | filter _ hsplit hr =>
      have hg := hsplit ▸ List.mem_append_right _ List.mem_cons_self
      exact (W.not_contains (W.filter_held hg hr) hq).2

theorem Shadows.inside (W : Wraps P P' n b K H place placeEnd c d) {f' f : Frame}
    {frames' frames : List Frame}
    (h : Shadows P n K H place placeEnd c d (f' :: frames') (f :: frames)) {q : ℕ} (hq : q < n) :
    f'.region.Contains (place q) ↔ f.region.Contains q := by
  cases h with
  | rethrown hh => exact W.contains_handler_iff hh hq
  | thrown hh => exact W.contains_handler_iff hh hq
  | handler hh => exact W.contains_handler_iff hh hq
  | filter _ hsplit hr =>
      have hg := hsplit ▸ List.mem_append_right _ List.mem_cons_self
      exact W.contains_iff (W.filter_held hg hr) (W.at_place hq)

theorem Shadows.tail {f' f : Frame} {frames' frames : List Frame}
    (h : Shadows P n K H place placeEnd c d (f' :: frames') (f :: frames)) :
    Shadows P n K H place placeEnd c d frames' frames ∧ f'.isFilter = f.isFilter := by
  cases h with
  | rethrown => exact ⟨.nil, rfl⟩
  | thrown => exact ⟨.nil, rfl⟩
  | handler _ _ _ hframes => exact ⟨hframes, rfl⟩
  | filter _ _ _ hframes => exact ⟨hframes, rfl⟩

/-- Both lists of frames are empty, or neither is. -/
theorem Shadows.cases_cons {frames' frames : List Frame}
    (h : Shadows P n K H place placeEnd c d frames' frames) :
    frames' = [] ∧ frames = [] ∨ ∃ f' f rest' rest, frames' = f' :: rest' ∧ frames = f :: rest := by
  cases h with
  | nil => exact .inl ⟨rfl, rfl⟩
  | rethrown => exact .inr ⟨_, _, _, _, rfl, rfl⟩
  | thrown => exact .inr ⟨_, _, _, _, rfl, rfl⟩
  | handler => exact .inr ⟨_, _, _, _, rfl, rfl⟩
  | filter => exact .inr ⟨_, _, _, _, rfl, rfl⟩

/-- Frames that are dropped together. -/
theorem Shadows.dropWhile {frames' frames : List Frame} {p' p : Frame → Bool}
    (h : Shadows P n K H place placeEnd c d frames' frames)
    (hp : ∀ f' f rest' rest, Shadows P n K H place placeEnd c d (f' :: rest') (f :: rest) →
      p' f' = p f) :
    Shadows P n K H place placeEnd c d (frames'.dropWhile p') (frames.dropWhile p) := by
  induction frames' generalizing frames with
  | nil =>
      rcases h.cases_cons with ⟨-, rfl⟩ | ⟨_, _, _, _, heq, -⟩
      · exact h
      · cases heq
  | cons f' rest' ih =>
      rcases h.cases_cons with ⟨heq, -⟩ | ⟨_, f, _, rest, heq, rfl⟩
      · cases heq
      · cases heq
        rw [List.dropWhile_cons, List.dropWhile_cons, hp f' f rest' rest h]
        split
        · exact ih h.tail.1
        · exact h

theorem Shadows.abandon (W : Wraps P P' n b K H place placeEnd c d) {frames' frames : List Frame}
    (h : Shadows P n K H place placeEnd c d frames' frames) {q : ℕ} (hq : q < n) :
    Shadows P n K H place placeEnd c d (abandon (place q) frames') (abandon q frames) := by
  refine h.dropWhile fun f' f rest' rest hcons => ?_
  rw [decide_eq_decide.mpr (hcons.inside W hq)]

theorem Shadows.suspended {frames' frames : List Frame}
    (h : Shadows P n K H place placeEnd c d frames' frames) :
    Shadows P n K H place placeEnd c d (suspended frames') (suspended frames) := by
  refine h.dropWhile fun f' f rest' rest hcons => ?_
  rw [hcons.tail.2]

theorem Shadows.abandon_out (W : Wraps P P' n b K H place placeEnd c d)
    {frames' frames : List Frame} (h : Shadows P n K H place placeEnd c d frames' frames) {q : ℕ}
    (hq : K ≤ q) : Unwinding.abandon q frames' = [] := by
  induction frames' generalizing frames with
  | nil => rfl
  | cons f' rest' ih =>
      rcases h.cases_cons with ⟨heq, -⟩ | ⟨_, f, _, rest, heq, rfl⟩
      · cases heq
      · cases heq
        rw [Unwinding.abandon, List.dropWhile_cons, decide_eq_false (h.outside W hq)]
        exact ih h.tail.1

/-- The innermost filter is moved. -/
theorem Shadows.scope {frames' frames : List Frame}
    (h : Shadows P n K H place placeEnd c d frames' frames) :
    scope frames' = (scope frames).map (Region.map place place)
      ∧ ∀ r, scope frames = some r → ∃ g ∈ P.guards, g.regions.filter = some r := by
  induction h with
  | nil => exact ⟨rfl, nofun⟩
  | rethrown => exact ⟨rfl, nofun⟩
  | thrown => exact ⟨rfl, nofun⟩
  | handler _ _ _ _ ih => exact ih
  | filter _ hsplit hr =>
      refine ⟨rfl, fun r heq => ?_⟩
      cases heq
      exact ⟨_, hsplit ▸ List.mem_append_right _ List.mem_cons_self, hr⟩

/-! ### Guards of the old program -/

theorem Wraps.inside_iff (W : Wraps P P' n b K H place placeEnd c d) {r s : Region ℕ}
    (hr : Held n r) (hs : Held n s) :
    (r.map place place).Inside (s.map place place) ↔ r.Inside s := by
  obtain ⟨hrne, hrn⟩ := hr
  obtain ⟨hsne, hsn⟩ := hs
  exact inside_map W.shortens.mono ⟨(by omega : r.lo ≤ n), hrn⟩ ⟨(by omega : s.lo ≤ n), hsn⟩

/-- A moved guard is asked when the guard is. -/
theorem Wraps.protects_iff (W : Wraps P P' n b K H place placeEnd c d) {frames' frames : List Frame}
    (h : Shadows P n K H place placeEnd c d frames' frames) {p k : ℕ} (hp : At n place p k)
    {g : Guard} (hg : g ∈ P.guards) :
    (g.map place placeEnd).Protects frames' p ↔ g.Protects frames k := by
  have htry := W.tryRange_held hg
  obtain ⟨hscope, hfilter⟩ := h.scope
  refine and_congr (W.contains_iff htry hp) ?_
  rw [hscope]
  cases heq : scope frames with
  | none => exact Iff.rfl
  | some r =>
      obtain ⟨g', hg', hr⟩ := hfilter r heq
      show decide _ = true ↔ decide _ = true
      rw [decide_eq_true_iff, decide_eq_true_iff]
      exact W.inside_iff htry (W.filter_held hg' hr)

theorem Wraps.unwound_map (W : Wraps P P' n b K H place placeEnd c d) {frames' frames : List Frame}
    (h : Shadows P n K H place placeEnd c d frames' frames) {p k : ℕ} (hp : At n place p k)
    {gs : List Guard} (hgs : gs ⊆ P.guards) :
    unwound frames' p (gs.map (Guard.map place placeEnd))
      = (unwound frames k gs).map (Region.map place placeEnd) := by
  induction gs with
  | nil => rfl
  | cons g gs ih =>
      obtain ⟨hg, hgs⟩ := List.cons_subset.mp hgs
      have hiff := W.protects_iff h hp hg
      have hcons (frames : List Frame) (p : ℕ) (g : Guard) (gs : List Guard) :
          unwound frames p (g :: gs)
            = (if (g.kind = .always ∨ g.kind = .fault) ∧ g.Protects frames p
              then [g.regions.handler] else []) ++ unwound frames p gs := by
        rw [unwound, List.filter_cons]
        split
        · next hu => rw [if_pos (of_decide_eq_true hu)]; rfl
        · next hu => rw [if_neg (fun hu' => hu (decide_eq_true hu'))]; rfl
      rw [List.map_cons, hcons, hcons, ih hgs, List.map_append]
      congr 1
      by_cases hu : (g.kind = .always ∨ g.kind = .fault) ∧ g.Protects frames k
      · rw [if_pos hu, if_pos ⟨hu.1, hiff.mpr hu.2⟩]
        rfl
      · rw [if_neg hu, if_neg fun hu' => hu ⟨hu'.1, hiff.mp hu'.2⟩]
        rfl

theorem Wraps.crossed_map (W : Wraps P P' n b K H place placeEnd c d) {j k : ℕ} (hj : j < n)
    (hk : k < n) {gs : List Guard} (hgs : gs ⊆ P.guards) :
    crossed (place j) (place k) (gs.map (Guard.map place placeEnd))
      = (crossed j k gs).map (Region.map place placeEnd) := by
  induction gs with
  | nil => rfl
  | cons g gs ih =>
      obtain ⟨hg, hgs⟩ := List.cons_subset.mp hgs
      have hcons (p q : ℕ) (g : Guard) (gs : List Guard) :
          crossed p q (g :: gs) = (if g.kind = .always ∧ g.regions.tryRange.Contains p
            ∧ ¬g.regions.tryRange.Contains q then [g.regions.handler] else [])
              ++ crossed p q gs := by
        rw [crossed, List.filter_cons]
        split
        · next hu => rw [if_pos (of_decide_eq_true hu)]; rfl
        · next hu => rw [if_neg (fun hu' => hu (decide_eq_true hu'))]; rfl
      have hiffj := W.contains_iff (W.tryRange_held hg) (W.at_place hj)
      have hiffk := W.contains_iff (W.tryRange_held hg) (W.at_place hk)
      rw [List.map_cons, hcons, hcons, ih hgs, List.map_append]
      congr 1
      by_cases hu : g.kind = .always ∧ g.regions.tryRange.Contains j
        ∧ ¬g.regions.tryRange.Contains k
      · rw [if_pos hu, if_pos ⟨hu.1, hiffj.mpr hu.2.1, fun hk' => hu.2.2 (hiffk.mp hk')⟩]
        rfl
      · rw [if_neg hu, if_neg fun hu' => hu ⟨hu'.1, hiffj.mp hu'.2.1,
          fun hk' => hu'.2.2 (hiffk.mpr hk')⟩]
        rfl

theorem Wraps.unwound_held (W : Wraps P P' n b K H place placeEnd c d) (frames : List Frame)
    (k : ℕ) {gs : List Guard} (hgs : gs ⊆ P.guards) : ∀ x ∈ unwound frames k gs, Held n x := by
  intro x hx
  obtain ⟨g, hg, -, rfl⟩ := mem_unwound hx
  exact W.handler_held (hgs hg)

theorem Wraps.crossed_held (W : Wraps P P' n b K H place placeEnd c d) (j k : ℕ)
    {gs : List Guard} (hgs : gs ⊆ P.guards) : ∀ x ∈ crossed j k gs, Held n x := by
  intro x hx
  obtain ⟨g, hg, -, rfl⟩ := mem_crossed hx
  exact W.handler_held (hgs hg)

/-! ### Guards of the new code -/

theorem Wraps.not_contains_callback (W : Wraps P P' n b K H place placeEnd c d) {p k : ℕ}
    (hp : At n place p k) :
    ¬c.regions.tryRange.Contains p ∧ ¬d.regions.tryRange.Contains p := by
  obtain ⟨hb, hK⟩ := W.at_bounds hp
  refine ⟨fun h => ?_, fun h => ?_⟩
  · have := (W.front.2.contains h).2
    omega
  · have := (W.back.contains h).1
    omega

/-- The guards around the old program see the exceptions that are not those of a filter. -/
theorem Wraps.protects_around (W : Wraps P P' n b K H place placeEnd c d)
    {frames' frames : List Frame} (h : Shadows P n K H place placeEnd c d frames' frames) {p k : ℕ}
    (hp : At n place p k) {g : Guard} (hlo : g.regions.tryRange.lo = 0)
    (hhi : K ≤ g.regions.tryRange.hi) :
    g.Protects frames' p ↔ scope frames = none := by
  obtain ⟨hb, hK⟩ := W.at_bounds hp
  obtain ⟨hscope, hfilter⟩ := h.scope
  have hcontains : g.regions.tryRange.Contains p :=
    ⟨by rw [hlo]; exact Nat.zero_le p, Nat.lt_of_lt_of_le hK hhi⟩
  rw [Guard.Protects, hscope]
  cases heq : scope frames with
  | none => exact ⟨fun _ => rfl, fun _ => ⟨hcontains, rfl⟩⟩
  | some r =>
      obtain ⟨g', hg', hr⟩ := hfilter r heq
      refine ⟨fun ⟨_, hvisible⟩ => ?_, nofun⟩
      have hinside : place r.lo ≤ g.regions.tryRange.lo := (of_decide_eq_true hvisible).1
      have hlow := (W.hi_le (W.filter_held hg' hr)).2.2
      have hpos := W.front.1
      omega

theorem Wraps.unwound_callbacks (W : Wraps P P' n b K H place placeEnd c d)
    (frames : List Frame) {p k : ℕ} (hp : At n place p k) : unwound frames p [c, d] = [] := by
  obtain ⟨hc, hd⟩ := W.not_contains_callback hp
  rw [unwound, List.map_eq_nil_iff, List.filter_eq_nil_iff]
  intro g hg hunwound
  have hcontains := (of_decide_eq_true hunwound).2.1
  rcases List.mem_pair.mp hg with rfl | rfl
  · exact hc hcontains
  · exact hd hcontains

/-- What an exception calls that leaves the old program. -/
theorem Wraps.unwound_added (W : Wraps P P' n b K H place placeEnd c d)
    {frames' frames : List Frame} (h : Shadows P n K H place placeEnd c d frames' frames) {p k : ℕ}
    (hp : At n place p k) :
    unwound frames' p (added K H c d) = if (scope frames).isSome then [] else [⟨K + 2, H⟩] := by
  have hsplit : added K H c d = [c, d] ++ ([catchAll K] ++ [outermost (K + 2) H]) := rfl
  have hcatch : unwound frames' p [catchAll K] = [] := by
    rw [unwound, List.map_eq_nil_iff, List.filter_eq_nil_iff]
    intro g hg hunwound
    rw [List.mem_singleton.mp hg] at hunwound
    rcases (of_decide_eq_true hunwound).1 with hkind | hkind
    · cases hkind
    · cases hkind
  have hlast := W.protects_around h hp (g := outermost (K + 2) H) rfl (Nat.le_add_right _ _)
  rw [hsplit, unwound_append, unwound_append, W.unwound_callbacks frames' hp, hcatch,
    List.nil_append, List.nil_append, unwound]
  cases hscope : scope frames with
  | none =>
      refine congrArg _ (List.filter_cons_of_pos ?_)
      exact decide_eq_true ⟨.inl rfl, hlast.mpr hscope⟩
  | some r =>
      refine congrArg _ (List.filter_cons_of_neg fun hu => ?_)
      have hnone := hlast.mp (of_decide_eq_true hu).2
      rw [hscope] at hnone
      cases hnone

theorem Wraps.crossed_added (W : Wraps P P' n b K H place placeEnd c d) {p k : ℕ}
    (hp : At n place p k) (q : ℕ) :
    crossed p q (added K H c d) = if q < K + 2 then [] else [⟨K + 2, H⟩] := by
  obtain ⟨hc, hd⟩ := W.not_contains_callback hp
  obtain ⟨hb, hK⟩ := W.at_bounds hp
  have hsplit : added K H c d = [c, d, catchAll K] ++ [outermost (K + 2) H] := rfl
  have hnone : crossed p q [c, d, catchAll K] = [] := by
    rw [crossed, List.map_eq_nil_iff, List.filter_eq_nil_iff]
    intro g hg hcrossed
    obtain ⟨hkind, hcontains, -⟩ := of_decide_eq_true hcrossed
    simp only [List.mem_cons, List.not_mem_nil, or_false] at hg
    rcases hg with rfl | rfl | rfl
    · exact hc hcontains
    · exact hd hcontains
    · cases hkind
  have hcontains : (outermost (K + 2) H).regions.tryRange.Contains p :=
    ⟨Nat.zero_le p, Nat.lt_of_lt_of_le hK (Nat.le_add_right _ _)⟩
  rw [hsplit, crossed_append, hnone, List.nil_append, crossed]
  by_cases hq : q < K + 2
  · rw [if_pos hq]
    refine congrArg _ (List.filter_cons_of_neg fun hu => ?_)
    exact (of_decide_eq_true hu).2.2 ⟨Nat.zero_le q, hq⟩
  · rw [if_neg hq]
    refine congrArg _ (List.filter_cons_of_pos ?_)
    exact decide_eq_true ⟨rfl, hcontains, fun h => hq h.2⟩

end wraps

end AutoInstrumentation.Lib.Unwinding
