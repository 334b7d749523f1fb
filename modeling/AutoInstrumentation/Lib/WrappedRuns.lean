import AutoInstrumentation.Lib.Wrapping
import Mathlib.Data.List.Nodup

/-!
# AutoInstrumentation.Lib.WrappedRuns

The runs of a program with code around it are runs of the program.

The new program runs the code in front of it, then what has become of the program, and then
the code behind it. A step in the middle is one of the old program, or none where a return
has become two instructions; the other steps show nothing of it. So a run of the new program
does the instructions of the old one in an order that the old one has.
-/

namespace AutoInstrumentation.Lib.Unwinding

section wraps

variable {P P' : Program} {n b K H : ℕ} {place placeEnd : ℕ → ℕ} {c d : Guard}

/-! ### States -/

/-- The places of the code around the old program, before `H`. -/
def around (b K H : ℕ) : Set ℕ := {p | p < b ∨ K ≤ p ∧ p < H}

/-- A state of the new program, and one of the old program: it has not been started, it is
where the new one is, or it has ended. -/
inductive Mirrors (P P' : Program) (n b K H : ℕ) (place placeEnd : ℕ → ℕ) (c d : Guard) :
    State → State → Prop
  | before {s' : State} : InZone ⟨0, 0⟩ (around b K H) {b} P'.guards [] s' →
      Mirrors P P' n b K H place placeEnd c d s' (.running 0 [])
  | running {p k : ℕ} {frames' frames : List Frame} : At n place p k →
      Shadows P n K H place placeEnd c d frames' frames →
      Mirrors P P' n b K H place placeEnd c d (.running p frames') (.running k frames)
  | searching {origin' origin : ℕ} {before behind pre post : List Guard}
      {frames' frames : List Frame} : At n place origin' origin → before ++ behind = P.guards →
      pre ++ post = added K H c d → (behind = [] ∨ pre = []) →
      Shadows P n K H place placeEnd c d frames' frames →
      Mirrors P P' n b K H place placeEnd c d
        (.searching origin' (before.map (Guard.map place placeEnd) ++ pre)
          (behind.map (Guard.map place placeEnd) ++ post) frames')
        (.searching origin before behind frames)
  | after {s' s : State} : s = .returned ∨ s = .threw →
      InZone ⟨0, 0⟩ (Set.Ico K H) {q | H ≤ q ∧ s = .returned} P'.guards [] s' →
      Mirrors P P' n b K H place placeEnd c d s' s
  | behind {s' : State} : Behind P' H s' → s' ≠ .jumped →
      Mirrors P P' n b K H place placeEnd c d s' .returned
  | threw {s : State} : s = .returned ∨ s = .threw ∨ s = .running 0 [] →
      Mirrors P P' n b K H place placeEnd c d .threw s

/-! ### What a run shows -/

/-- An instruction is done, or the handler that starts with it is called. -/
inductive Event
  | done (k : ℕ)
  | called (k : ℕ)
  deriving Repr, DecidableEq

/-- The instruction that the one at `p` is the last one of. -/
def doneAt (n : ℕ) (place : ℕ → ℕ) (p : ℕ) : List ℕ :=
  (List.range n).filter fun k => p + 1 = place (k + 1)

/-- The instruction that the one at `p` is the first one of. -/
def calledAt (n : ℕ) (place : ℕ → ℕ) (p : ℕ) : List ℕ :=
  (List.range n).filter fun k => p = place k

/-- The instructions of the old program that are done, and its handlers that are called. -/
def seen (n : ℕ) (place : ℕ → ℕ) (a : Option ℕ × Option (Region ℕ)) : List Event :=
  a.1.toList.flatMap (fun p => (doneAt n place p).map .done)
    ++ a.2.toList.flatMap fun r => (calledAt n place r.lo).map .called

def shown (a : Option ℕ × Option (Region ℕ)) : List Event :=
  a.1.toList.map .done ++ a.2.toList.map fun r => .called r.lo

/-- What is called with a label shows the same. -/
def SameCalls (n : ℕ) (place : ℕ → ℕ) (a' a : Option (Region ℕ)) : Prop :=
  seen n place (none, a') = shown (none, a)

theorem seen_eq_append (n : ℕ) (place : ℕ → ℕ) (p : Option ℕ) (a : Option (Region ℕ)) :
    seen n place (p, a) = seen n place (p, none) ++ seen n place (none, a) := by
  simp [seen]

theorem shown_eq_append (p : Option ℕ) (a : Option (Region ℕ)) :
    shown (p, a) = shown (p, none) ++ shown (none, a) := by
  simp [shown]

theorem filter_range_eq {n k : ℕ} (hk : k < n) (p : ℕ → Prop) [DecidablePred p]
    (h : ∀ j < n, p j ↔ j = k) : (List.range n).filter (fun j => p j) = [k] := by
  have hcongr : (List.range n).filter (fun j => p j) = (List.range n).filter (· == k) := by
    refine List.filter_congr fun j hj => ?_
    rw [decide_eq_decide.mpr (h j (List.mem_range.mp hj))]
    rfl
  rw [hcongr, List.filter_beq, List.count_eq_one_of_mem List.nodup_range (List.mem_range.mpr hk)]
  rfl

theorem Wraps.doneAt_last (W : Wraps P P' n b K H place placeEnd c d) {p k : ℕ} (hk : k < n)
    (hp : p + 1 = place (k + 1)) : doneAt n place p = [k] := by
  refine filter_range_eq hk _ fun j hj => ?_
  rw [hp]
  refine ⟨fun heq => ?_, fun heq => by rw [heq]⟩
  exact (Nat.succ.inj ((W.shortens.mono.eq_iff_eq (Nat.succ_le_of_lt hk)
    (Nat.succ_le_of_lt hj)).mp heq)).symm

theorem Wraps.doneAt_before (W : Wraps P P' n b K H place placeEnd c d) {p k : ℕ}
    (hp : At n place p k) (hne : p + 1 < place (k + 1)) : doneAt n place p = [] := by
  obtain ⟨hk, hlo, -⟩ := hp
  refine List.filter_eq_nil_iff.mpr fun j hj hin => ?_
  have hj := List.mem_range.mp hj
  have heq := of_decide_eq_true hin
  rcases Nat.lt_or_ge j k with hlt | hge
  · have hmono : place (j + 1) ≤ place k := W.place_mono hlt (Nat.le_of_lt hk)
    omega
  · have hmono : place (k + 1) ≤ place (j + 1) := W.place_mono (Nat.succ_le_succ hge) hj
    omega

/-- Around the program nothing of it is done. -/
theorem Wraps.doneAt_around (W : Wraps P P' n b K H place placeEnd c d) {p : ℕ}
    (hp : p < b ∨ K ≤ p) : doneAt n place p = [] := by
  refine List.filter_eq_nil_iff.mpr fun j hj hin => ?_
  have hj := List.mem_range.mp hj
  have heq := of_decide_eq_true hin
  have hfirst : place 0 < place (j + 1) := W.place_lt (Nat.succ_pos j) hj
  have hlast : place (j + 1) ≤ place n := W.place_mono hj (Nat.le_refl n)
  rw [W.first] at hfirst
  rw [W.last] at hlast
  rcases hp with hlt | hge
  · omega
  · omega

theorem Wraps.calledAt_place (W : Wraps P P' n b K H place placeEnd c d) {k : ℕ} (hk : k < n) :
    calledAt n place (place k) = [k] :=
  filter_range_eq hk _ fun _ hj =>
    (W.shortens.mono.eq_iff_eq (Nat.le_of_lt hk) (Nat.le_of_lt hj)).trans eq_comm

theorem Wraps.calledAt_around (W : Wraps P P' n b K H place placeEnd c d) {p : ℕ}
    (hp : p < b ∨ K ≤ p) : calledAt n place p = [] := by
  refine List.filter_eq_nil_iff.mpr fun j hj hin => ?_
  have hbounds := W.at_bounds (W.at_place (List.mem_range.mp hj))
  rw [← of_decide_eq_true hin] at hbounds
  rcases hp with hlt | hge
  · omega
  · omega

/-- A step in the middle of what has become of an instruction, and its last step. -/
theorem Wraps.seen_before (W : Wraps P P' n b K H place placeEnd c d) {p k : ℕ}
    (hp : At n place p k) (hne : p + 1 < place (k + 1)) : seen n place (some p, none) = [] := by
  simp [seen, W.doneAt_before hp hne]

theorem Wraps.seen_last (W : Wraps P P' n b K H place placeEnd c d) {p k : ℕ} (hk : k < n)
    (hp : p + 1 = place (k + 1)) {a' a : Option (Region ℕ)} (ha : SameCalls n place a' a) :
    seen n place (some p, a') = shown (some k, a) := by
  rw [seen_eq_append, shown_eq_append, ha]
  simp [seen, shown, W.doneAt_last hk hp]

theorem sameCalls_none : SameCalls n place none none := rfl

/-- The next handler of a list is called, and may be one of the new code behind it. -/
theorem Wraps.sameCalls_head (W : Wraps P P' n b K H place placeEnd c d) (hs : List (Region ℕ))
    (hhs : ∀ x ∈ hs, Held n x) (rest : List (Region ℕ)) (hrest : ∀ r ∈ rest, K ≤ r.lo) :
    SameCalls n place (hs.map (Region.map place placeEnd) ++ rest).head? hs.head? := by
  cases hs with
  | nil =>
      cases rest with
      | nil => rfl
      | cons r rest =>
          have hnone := W.calledAt_around (.inr (hrest r List.mem_cons_self))
          show [] ++ ((calledAt n place r.lo).map Event.called ++ []) = []
          rw [hnone]
          rfl
  | cons x hs =>
      obtain ⟨hlt, hn⟩ := hhs x List.mem_cons_self
      have hone := W.calledAt_place (Nat.lt_of_lt_of_le hlt hn)
      show [] ++ ((calledAt n place (place x.lo)).map Event.called ++ []) = [.called x.lo]
      rw [hone]
      rfl

/-! ### The code around the program -/

theorem Flow.Within.mono {R S : Set ℕ} (hsub : R ⊆ S) {p : ℕ} {f : Flow} (h : f.Within R p) :
    f.Within S p := by
  cases f with
  | next => exact hsub h
  | branch q => exact hsub h
  | either q => exact ⟨hsub h.1, hsub h.2⟩
  | leave q => exact hsub h
  | ret => exact h
  | jump => exact h
  | throw => trivial
  | endfinally => trivial
  | endfilter => trivial

/-- The code around the program, or only the code behind it, is a zone with no guard around
it. -/
theorem Wraps.zone (W : Wraps P P' n b K H place placeEnd c d) {R O : Set ℕ}
    (hR : R ⊆ around b K H) (hending : Set.Ico K H ⊆ R) (hbegin : ∀ p ∈ R, p < b → Set.Iio b ⊆ R)
    (hO : ∀ q ∈ O, q = b ∨ H ≤ q)
    (hflow : ∀ p ∈ R, ∀ f, P'.flow p = some f → f.Within R p ∨ ∃ q ∈ O, f = .leave q) :
    Zone P' ⟨0, 0⟩ R O P'.guards [] := by
  obtain ⟨hpos, hbK, hKH⟩ := W.lt
  have hapart {r : Region ℕ} (hlo : r.lo ∈ R) (hr : r.lo < r.hi)
      (hout : r.hi ≤ b ∨ K ≤ r.lo ∧ r.hi ≤ H) : Apart ⟨0, 0⟩ R O r := by
    refine ⟨hlo, fun heq => ?_, fun q hq hcontains => ?_⟩
    · rw [heq] at hr
      exact Nat.lt_irrefl _ hr
    · have := hcontains.1
      have := hcontains.2
      rcases hO q hq with rfl | hq
      · omega
      · omega
  have hcases : ∀ g ∈ P'.guards, ∀ p ∈ R, g.regions.tryRange.Contains p →
      Apart ⟨0, 0⟩ R O g.regions.handler
        ∧ ∀ r, g.regions.filter = some r → Apart ⟨0, 0⟩ R O r := by
    intro g hg p hp hcontains
    rw [W.guards] at hg
    rcases List.mem_append.mp hg with hg | hg
    · -- a moved guard has no place here
      obtain ⟨g₀, hg₀, rfl⟩ := List.mem_map.mp hg
      obtain ⟨-, hhi, hlo⟩ := W.hi_le (W.tryRange_held hg₀)
      have hp' : place g₀.regions.tryRange.lo ≤ p ∧ p < place g₀.regions.tryRange.hi := hcontains
      rcases hR hp with hlt | ⟨hge, -⟩
      · omega
      · omega
    · simp only [List.mem_cons, List.not_mem_nil, or_false] at hg
      rcases hg with rfl | rfl | rfl | rfl
      · have hlt := (W.front.2.contains hcontains).2
        have hsub := hbegin p hp hlt
        obtain ⟨-, hne, hhi⟩ := W.front.2.handler_mem
        refine ⟨hapart (hsub (Nat.lt_of_lt_of_le hne hhi)) hne (.inl hhi), fun r hr => ?_⟩
        have := W.front.2.filter_mem hr
        have hrb : r.hi ≤ b := by omega
        exact hapart (hsub (Nat.lt_of_lt_of_le this.1 hrb)) this.1 (.inl hrb)
      · obtain ⟨hlo, hne, hhi⟩ := W.back.handler_mem
        refine ⟨hapart (hending ⟨by omega, by omega⟩) hne (.inr ⟨by omega, by omega⟩),
          fun r hr => ?_⟩
        have := W.back.filter_mem hr
        exact hapart (hending ⟨by omega, by omega⟩) this.1 (.inr ⟨by omega, by omega⟩)
      · have hK : K < H := by omega
        refine ⟨hapart (hending ⟨Nat.le_refl K, hK⟩) ?_ (.inr ⟨Nat.le_refl K, ?_⟩), nofun⟩
        · exact Nat.lt_add_of_pos_right (Nat.succ_pos 1)
        · exact Nat.le_of_lt hKH
      · refine ⟨hapart (hending ⟨Nat.le_add_right K 2, hKH⟩) hKH (.inr ⟨?_, Nat.le_refl H⟩), nofun⟩
        exact Nat.le_add_right K 2
  refine ⟨(List.append_nil _).symm, hflow, fun g hg p hp hcontains =>
    (hcases g hg p hp hcontains).1, fun g hg p hp hcontains => (hcases g hg p hp hcontains).2,
    ?_, ?_, ?_, ?_⟩
  all_goals intro g hg; cases hg

theorem Wraps.zone_before (W : Wraps P P' n b K H place placeEnd c d) :
    Zone P' ⟨0, 0⟩ (around b K H) {b} P'.guards [] := by
  have hsub : Set.Iio b ⊆ around b K H := fun q hq => .inl hq
  have hending : Set.Ico K H ⊆ around b K H := fun q hq => .inr hq
  refine W.zone (fun _ hp => hp) hending (fun _ _ _ => hsub) (fun q hq => .inl hq) ?_
  intro p hp f hf
  rcases hp with hlt | hge
  · rcases W.begin p hlt f hf with hwithin | rfl
    · exact .inl (hwithin.mono hsub)
    · exact .inr ⟨b, rfl, rfl⟩
  · exact .inl ((W.ending p hge f hf).mono hending)

theorem Wraps.zone_after (W : Wraps P P' n b K H place placeEnd c d) (done : Prop) :
    Zone P' ⟨0, 0⟩ (Set.Ico K H) {q | H ≤ q ∧ done} P'.guards [] := by
  obtain ⟨-, hbK, -⟩ := W.lt
  refine W.zone (fun q hq => .inr hq) (fun _ hq => hq) (fun p hp hlt => ?_)
    (fun q hq => .inr hq.1) fun p hp f hf => .inl (W.ending p hp f hf)
  exact absurd hp.1 (Nat.not_le_of_lt (Nat.lt_trans hlt hbK))

/-! ### Labels -/

theorem completed_running (p : ℕ) (frames : List Frame) (t : State) :
    completed (.running p frames) t = none ∨ completed (.running p frames) t = some p := by
  cases t with
  | searching _ before _ _ =>
      cases before with
      | nil => exact .inl rfl
      | cons => exact .inr rfl
  | running => exact .inr rfl
  | returned => exact .inr rfl
  | threw => exact .inr rfl
  | jumped => exact .inr rfl

theorem completed_searching (origin : ℕ) (before behind : List Guard) (frames : List Frame)
    (t : State) : completed (.searching origin before behind frames) t = none := by
  cases t with
  | _ => rfl

theorem completed_refused (p origin : ℕ) (frames frames' : List Frame) (before behind : List Guard)
    (g : Guard) :
    completed (.running p frames) (.searching origin (before ++ [g]) behind frames') = some p := by
  cases before with
  | nil => rfl
  | cons => rfl

/-- An instruction that calls handlers, or reaches the goal, is done. -/
theorem completed_proceed {p : ℕ} {frames frames' : List Frame} {hs : List (Region ℕ)}
    {goal : Goal} {t : State} (h : proceed hs goal frames' = some t) :
    completed (.running p frames) t = some p := by
  cases hs with
  | cons => cases h; rfl
  | nil =>
      cases goal with
      | goto => cases h; rfl
      | exit => cases h; rfl
      | reject =>
          cases frames' with
          | nil => cases h
          | cons f frames' =>
              cases f with
              | handler => cases h
              | filter r origin before g behind =>
                  cases h
                  exact completed_refused _ _ _ _ _ _ _

theorem proceed_label {hs : List (Region ℕ)} {goal : Goal} {frames : List Frame} {t : State}
    {h : Region ℕ} (hproceed : proceed hs goal frames = some t) (hh : hs.head? = some h) :
    ∃ frames, t = .running h.lo frames := by
  cases hs with
  | nil => cases hh
  | cons x hs =>
      cases hh
      cases hproceed
      exact ⟨_, rfl⟩

/-- A handler that is called is where the control is. -/
theorem Step.label {s t : State} {a : Option (Region ℕ)} (hstep : Step P s a t) {h : Region ℕ}
    (hh : a = some h) : ∃ frames, t = .running h.lo frames := by
  cases hstep with
  | leave _ hproceed => exact proceed_label hproceed hh
  | endfinally _ hproceed => exact proceed_label hproceed hh
  | accept _ hproceed => exact proceed_label hproceed hh
  | caught _ _ hproceed => exact proceed_label hproceed hh
  | uncaught hproceed => exact proceed_label hproceed hh
  | _ => cases hh

/-- Nothing of the program is seen in the code around it. -/
theorem Wraps.seen_of_zone (W : Wraps P P' n b K H place placeEnd c d) {F : Region ℕ}
    {R O : Set ℕ} {inner outer : List Guard} {s t : State} {a : Option (Region ℕ)}
    (hR : R ⊆ around b K H) (hs : InZone F R O inner outer s) (hstep : Step P' s a t)
    (ht : a = none ∨ InZone F R O inner outer t) : seen n place (completed s t, a) = [] := by
  have hplace {p : ℕ} (hp : p ∈ R) : p < b ∨ K ≤ p := (hR hp).imp id fun h => h.1
  have hcalled : seen n place (none, a) = [] := by
    cases a with
    | none => rfl
    | some h =>
        obtain ⟨frames, rfl⟩ := hstep.label rfl
        rcases ht with hnone | ht
        · cases hnone
        · cases ht with
          | running hp => simp [seen, W.calledAt_around (hplace hp)]
  rw [seen_eq_append, hcalled, List.append_nil]
  cases hdone : completed s t with
  | none => rfl
  | some p =>
      cases hs with
      | @running p' frames hp =>
          have heq := completed_running p' frames t
          rw [hdone] at heq
          rcases heq with heq | heq
          · cases heq
          · cases heq
            simp [seen, W.doneAt_around (hplace hp)]
      | searching =>
          rw [completed_searching] at hdone
          cases hdone

/-! ### Handlers of the old program -/

/-- The search goes on behind a guard of the old program. -/
theorem Mirrors.passed {p k : ℕ} {before behind : List Guard} {g : Guard}
    {frames' frames : List Frame} (hp : At n place p k)
    (hsplit : before ++ g :: behind = P.guards)
    (hframes : Shadows P n K H place placeEnd c d frames' frames) :
    Mirrors P P' n b K H place placeEnd c d
      (.searching p (before.map (Guard.map place placeEnd) ++ [g.map place placeEnd])
        (behind.map (Guard.map place placeEnd) ++ added K H c d) frames')
      (.searching k (before ++ [g]) behind frames) := by
  have hmirrors : Mirrors P P' n b K H place placeEnd c d
      (.searching p ((before ++ [g]).map (Guard.map place placeEnd) ++ [])
        (behind.map (Guard.map place placeEnd) ++ added K H c d) frames')
      (.searching k (before ++ [g]) behind frames) := by
    refine .searching hp ?_ (List.nil_append _) (.inr rfl) hframes
    rw [List.append_assoc]
    exact hsplit
  rw [List.append_nil, List.map_append] at hmirrors
  exact hmirrors

/-- Handlers are called on the way to a place of the old program. -/
theorem Wraps.proceed_in (W : Wraps P P' n b K H place placeEnd c d) {hs : List (Region ℕ)}
    (goal : Goal) {frames' frames : List Frame} {t' : State} (hhs : ∀ x ∈ hs, Held n x)
    (hgoal : goal.In (Set.Iio n)) (hframes : Shadows P n K H place placeEnd c d frames' frames)
    (h : proceed (hs.map (Region.map place placeEnd)) (goal.map place) frames' = some t') :
    ∃ t, proceed hs goal frames = some t ∧ Mirrors P P' n b K H place placeEnd c d t' t := by
  cases hs with
  | cons x hs =>
      obtain ⟨hx, hhs⟩ := List.forall_mem_cons.mp hhs
      cases h
      exact ⟨_, rfl, .running (W.at_place (Nat.lt_of_lt_of_le hx.1 hx.2))
        (.handler hx hhs hgoal hframes)⟩
  | nil =>
      cases goal with
      | goto q =>
          cases h
          exact ⟨_, rfl, .running (W.at_place hgoal) hframes⟩
      | exit => exact absurd hgoal id
      | reject =>
          cases hframes with
          | nil => cases h
          | rethrown => cases h
          | thrown => cases h
          | handler => cases h
          | @filter r origin' origin before behind g frames' frames horigin hsplit _ hframes =>
              cases h
              exact ⟨_, rfl, .passed horigin hsplit hframes⟩

/-- Handlers are called on the way out of the old program, with an exception that is caught
behind it. -/
theorem Wraps.proceed_rethrown (W : Wraps P P' n b K H place placeEnd c d) {hs : List (Region ℕ)}
    {t' : State} (hhs : ∀ x ∈ hs, Held n x)
    (h : proceed (hs.map (Region.map place placeEnd)) (.goto K) [] = some t') :
    ∃ t, proceed hs .exit [] = some t ∧ Mirrors P P' n b K H place placeEnd c d t' t := by
  cases hs with
  | cons x hs =>
      obtain ⟨hx, hhs⟩ := List.forall_mem_cons.mp hhs
      cases h
      exact ⟨_, rfl, .running (W.at_place (Nat.lt_of_lt_of_le hx.1 hx.2)) (.rethrown hx hhs)⟩
  | nil =>
      cases h
      have hK : K < H := by
        have := W.lt
        omega
      exact ⟨_, rfl, .after (.inr rfl) (.running ⟨Nat.le_refl K, hK⟩ .nil)⟩

/-- The handler of the end is called. -/
theorem Wraps.ending_called (W : Wraps P P' n b K H place placeEnd c d) (goal : Goal)
    {s t' : State} (hs : s = .returned ∨ s = .threw) (hgoal : goal.Out {q | H ≤ q ∧ s = .returned})
    (h : proceed [⟨K + 2, H⟩] goal [] = some t') :
    Mirrors P P' n b K H place placeEnd c d t' s := by
  cases h
  refine .after hs (.running ⟨Nat.le_add_right K 2, W.encloses.lt⟩ ?_)
  have hregion : ∀ q ∈ {q | H ≤ q ∧ s = .returned}, ¬(⟨K + 2, H⟩ : Region ℕ).Contains q :=
    fun q hq hcontains => Nat.not_lt_of_le hq.1 hcontains.2
  have hnone : ∀ x ∈ ([] : List (Region ℕ)),
      Apart ⟨0, 0⟩ (Set.Ico K H) {q | H ≤ q ∧ s = .returned} x := fun x hx => by cases hx
  exact .last hregion hnone hgoal

/-- Handlers are called on the way out of the old program, and then the handler of the end. -/
theorem Wraps.proceed_thrown (W : Wraps P P' n b K H place placeEnd c d) {hs : List (Region ℕ)}
    {t' : State} (hhs : ∀ x ∈ hs, Held n x)
    (h : proceed (hs.map (Region.map place placeEnd) ++ [⟨K + 2, H⟩]) .exit [] = some t') :
    ∃ t, proceed hs .exit [] = some t ∧ Mirrors P P' n b K H place placeEnd c d t' t := by
  cases hs with
  | cons x hs =>
      obtain ⟨hx, hhs⟩ := List.forall_mem_cons.mp hhs
      cases h
      exact ⟨_, rfl, .running (W.at_place (Nat.lt_of_lt_of_le hx.1 hx.2)) (.thrown hx hhs)⟩
  | nil => exact ⟨_, rfl, W.ending_called .exit (.inr rfl) trivial h⟩

/-! ### Steps -/

/-- Steps of the old program that match one of the new program. -/
def Matched (P P' : Program) (n b K H : ℕ) (place placeEnd : ℕ → ℕ) (c d : Guard) (s' : State)
    (a' : Option (Region ℕ)) (t' s : State) : Prop :=
  ∃ l t, System.Run P.traced s l t ∧ Mirrors P P' n b K H place placeEnd c d t' t
    ∧ seen n place (completed s' t', a') = l.flatMap shown

theorem Matched.stay {s' t' s : State} {a' : Option (Region ℕ)}
    (ht : Mirrors P P' n b K H place placeEnd c d t' s)
    (ha : seen n place (completed s' t', a') = []) :
    Matched P P' n b K H place placeEnd c d s' a' t' s := ⟨[], s, .nil s, ht, ha⟩

theorem Matched.one {s' t' s t : State} {a' a : Option (Region ℕ)} (hstep : Step P s a t)
    (ht : Mirrors P P' n b K H place placeEnd c d t' t)
    (ha : seen n place (completed s' t', a') = shown (completed s t, a)) :
    Matched P P' n b K H place placeEnd c d s' a' t' s := by
  refine ⟨[(completed s t, a)], t, .cons ⟨hstep, rfl⟩ (.nil t), ht, ?_⟩
  rw [ha]
  simp

/-- A moved instruction is reached. -/
theorem Wraps.mirrors_running (W : Wraps P P' n b K H place placeEnd c d) {k : ℕ} (hk : k < n)
    {frames' frames : List Frame}
    (hframes : Shadows P n K H place placeEnd c d frames' frames) :
    Mirrors P P' n b K H place placeEnd c d (.running (place k) frames') (.running k frames) :=
  .running (W.at_place hk) hframes

/-- An instruction throws. -/
theorem Wraps.mirrors_thrown (W : Wraps P P' n b K H place placeEnd c d) {p k : ℕ}
    {frames' frames : List Frame} (hp : At n place p k)
    (hframes : Shadows P n K H place placeEnd c d frames' frames) :
    Mirrors P P' n b K H place placeEnd c d (.searching p [] P'.guards frames')
      (.searching k [] P.guards frames) := by
  rw [W.guards]
  exact .searching hp (List.nil_append P.guards) (List.nil_append (added K H c d)) (.inr rfl)
    hframes

/-- The second pass for a guard of the old program that catches. -/
theorem Wraps.caught (W : Wraps P P' n b K H place placeEnd c d) {p k : ℕ}
    {frames' frames : List Frame} {before behind : List Guard} {g : Guard} {t' : State}
    (hp : At n place p k) (hsplit : before ++ g :: behind = P.guards)
    (hframes : Shadows P n K H place placeEnd c d frames' frames)
    (h : proceed (unwound frames' p (before.map (Guard.map place placeEnd)))
      (.goto (g.map place placeEnd).regions.handler.lo)
      (abandon (g.map place placeEnd).regions.handler.lo frames') = some t') :
    ∃ t, proceed (unwound frames k before) (.goto g.regions.handler.lo)
        (abandon g.regions.handler.lo frames) = some t
      ∧ Mirrors P P' n b K H place placeEnd c d t' t
      ∧ SameCalls n place (unwound frames' p (before.map (Guard.map place placeEnd))).head?
        (unwound frames k before).head? := by
  have hbefore : before ⊆ P.guards := hsplit ▸ List.subset_append_left _ _
  have hg : g ∈ P.guards := hsplit ▸ List.mem_append_right _ List.mem_cons_self
  obtain ⟨hne, hn⟩ := W.handler_held hg
  have hheld := W.unwound_held frames k hbefore
  have hcalls := W.sameCalls_head _ hheld [] (fun r hr => by cases hr)
  rw [List.append_nil] at hcalls
  rw [W.unwound_map hframes hp hbefore] at h ⊢
  have hlo : g.regions.handler.lo < n := Nat.lt_of_lt_of_le hne hn
  obtain ⟨t, ht, hmirrors⟩ := W.proceed_in (.goto g.regions.handler.lo) hheld hlo
    (hframes.abandon W hlo) h
  exact ⟨t, ht, hmirrors, hcalls⟩

/-- **A moved instruction** does what it did. -/
theorem Wraps.step_moved (W : Wraps P P' n b K H place placeEnd c d) {k : ℕ} {f : Flow}
    {frames' frames : List Frame} {a' : Option (Region ℕ)} {t' : State} (hk : k < n)
    (hflow : P.flow k = some f) (hret : f ≠ .ret)
    (hframes : Shadows P n K H place placeEnd c d frames' frames)
    (hstep : Step P' (.running (place k) frames') a' t') :
    Matched P P' n b K H place placeEnd c d (.running (place k) frames') a' t'
      (.running k frames) := by
  obtain ⟨f₀, hf₀, hmoved, -⟩ := W.flow k hk
  obtain rfl : f₀ = f := Option.some.inj (hf₀.symm.trans hflow)
  obtain ⟨hnext, hflow'⟩ := hmoved hret
  have hwithin := (W.within k hk f₀ hflow).resolve_left hret
  have hdone {a' a : Option (Region ℕ)} (ha : SameCalls n place a' a) :
      seen n place (some (place k), a') = shown (some k, a) := W.seen_last hk hnext.symm ha
  have hplain := hdone sameCalls_none
  have hbehind : ∀ r ∈ [(⟨K + 2, H⟩ : Region ℕ)], K ≤ r.lo := by
    intro r hr
    rw [List.mem_singleton.mp hr]
    exact Nat.le_add_right K 2
  have hguards : P'.guards = P.guards.map (Guard.map place placeEnd) ++ added K H c d := W.guards
  cases hstep with
  | next h =>
      rw [hflow'] at h
      cases f₀ with
      | next =>
          have hmirrors := W.mirrors_running hwithin hframes
          rw [hnext] at hmirrors
          exact .one (.next hflow) hmirrors hplain
      | _ => cases h
  | branch h =>
      rw [hflow'] at h
      cases f₀ with
      | branch q =>
          cases h
          exact .one (.branch hflow) (.running (W.at_place hwithin) hframes) hplain
      | _ => cases h
  | eitherTarget h =>
      rw [hflow'] at h
      cases f₀ with
      | either q =>
          cases h
          exact .one (.eitherTarget hflow) (.running (W.at_place hwithin.1) hframes) hplain
      | _ => cases h
  | eitherNext h =>
      rw [hflow'] at h
      cases f₀ with
      | either q =>
          have hmirrors := W.mirrors_running hwithin.2 hframes
          rw [hnext] at hmirrors
          exact .one (.eitherNext hflow) hmirrors hplain
      | _ => cases h
  | leave h hproceed =>
      rw [hflow'] at h
      cases f₀ with
      | leave q =>
          cases h
          have hq : q < n := hwithin
          have hnone : crossed (place k) (place q) (added K H c d) = [] := by
            rw [W.crossed_added (W.at_place hk), if_pos]
            have := (W.at_bounds (W.at_place hq)).2
            omega
          rw [hguards, crossed_append, W.crossed_map hk hq (List.Subset.refl _)] at hproceed ⊢
          have hheld := W.crossed_held k q (List.Subset.refl P.guards)
          have hcalls := W.sameCalls_head _ hheld (crossed (place k) (place q) (added K H c d))
            (by rw [hnone]; exact fun r hr => by cases hr)
          rw [hnone, List.append_nil] at hproceed
          obtain ⟨t, ht, hmirrors⟩ := W.proceed_in (.goto q) hheld hq
            (hframes.abandon W hq) hproceed
          refine .one (.leave hflow ht) hmirrors ?_
          rw [completed_proceed hproceed, completed_proceed ht]
          exact hdone hcalls
      | _ => cases h
  | ret h =>
      rw [hflow'] at h
      cases f₀ with
      | ret => exact absurd rfl hret
      | _ => cases h
  | jump h =>
      rw [hflow'] at h
      cases f₀ with
      | jump => exact absurd hwithin id
      | _ => cases h
  | throw => exact .one (.throw hflow) (W.mirrors_thrown (W.at_place hk) hframes) rfl
  | endfinally h hproceed =>
      rw [hflow'] at h
      cases f₀ with
      | endfinally =>
          cases hframes with
          | rethrown _ hhs =>
              obtain ⟨t, ht, hmirrors⟩ := W.proceed_rethrown hhs hproceed
              have hcalls := W.sameCalls_head _ hhs [] fun r hr => by cases hr
              rw [List.append_nil] at hcalls
              refine .one (.endfinally hflow ht) hmirrors ?_
              rw [completed_proceed hproceed, completed_proceed ht]
              exact hdone hcalls
          | thrown _ hhs =>
              obtain ⟨t, ht, hmirrors⟩ := W.proceed_thrown hhs hproceed
              refine .one (.endfinally hflow ht) hmirrors ?_
              rw [completed_proceed hproceed, completed_proceed ht]
              exact hdone (W.sameCalls_head _ hhs _ hbehind)
          | handler _ hhs hgoal hframes =>
              obtain ⟨t, ht, hmirrors⟩ := W.proceed_in _ hhs hgoal hframes hproceed
              have hcalls := W.sameCalls_head _ hhs [] fun r hr => by cases hr
              rw [List.append_nil] at hcalls
              refine .one (.endfinally hflow ht) hmirrors ?_
              rw [completed_proceed hproceed, completed_proceed ht]
              exact hdone hcalls
      | _ => cases h
  | accept h hproceed =>
      rw [hflow'] at h
      cases f₀ with
      | endfilter =>
          cases hframes with
          | filter hp hsplit _ hframes =>
              obtain ⟨t, ht, hmirrors, hcalls⟩ := W.caught hp hsplit hframes hproceed
              refine .one (.accept hflow ht) hmirrors ?_
              rw [completed_proceed hproceed, completed_proceed ht]
              exact hdone hcalls
      | _ => cases h
  | refuse h =>
      rw [hflow'] at h
      cases f₀ with
      | endfilter =>
          cases hframes with
          | filter hp hsplit _ hframes =>
              refine .one (.refuse hflow) (.passed hp hsplit hframes) ?_
              rw [completed_refused, completed_refused]
              exact hplain
      | _ => cases h

/-- **What a return has become** calls the handler of the end and goes on behind it. -/
theorem Wraps.step_return (W : Wraps P P' n b K H place placeEnd c d) {p k : ℕ}
    {frames' frames : List Frame} {a' : Option (Region ℕ)} {t' : State} (hp : At n place p k)
    (hflow : P.flow k = some .ret)
    (hframes : Shadows P n K H place placeEnd c d frames' frames)
    (hstep : Step P' (.running p frames') a' t') :
    Matched P P' n b K H place placeEnd c d (.running p frames') a' t' (.running k frames) := by
  obtain ⟨f, hf, -, hmoved⟩ := W.flow k hp.1
  obtain rfl : f = .ret := Option.some.inj (hf.symm.trans hflow)
  -- the jump is the last of one or two instructions
  have hcases : p + 1 = place (k + 1) ∧ P'.flow p = some (.leave H)
      ∨ place k + 1 < place (k + 1) ∧ p = place k ∧ P'.flow p = some .next := by
    obtain ⟨-, hlo, hhi⟩ := hp
    rcases hmoved rfl with ⟨hnext, hleave⟩ | ⟨hnext, hstore, hleave⟩
    · obtain rfl : p = place k := by omega
      exact .inl ⟨hnext.symm, hleave⟩
    · rcases Nat.lt_or_eq_of_le hlo with hlt | rfl
      · obtain rfl : p = place k + 1 := by omega
        exact .inl ⟨hnext.symm, hleave⟩
      · exact .inr ⟨by omega, rfl, hstore⟩
  rcases hcases with ⟨hlast, hleave⟩ | ⟨hmore, rfl, hstore⟩
  · cases hstep with
    | leave h hproceed =>
        rw [hleave] at h
        cases h
        have hold : crossed p H (P.guards.map (Guard.map place placeEnd)) = [] := by
          rw [crossed, List.map_eq_nil_iff, List.filter_eq_nil_iff]
          intro g' hg' hcrossed
          obtain ⟨g, hg, rfl⟩ := List.mem_map.mp hg'
          obtain ⟨hkind, hcontains, -⟩ := of_decide_eq_true hcrossed
          exact W.unprotected k hp.1 hflow g hg hkind
            ((W.contains_iff (W.tryRange_held hg) hp).mp hcontains)
        have hnew : crossed p H (added K H c d) = [⟨K + 2, H⟩] := by
          rw [W.crossed_added hp, if_neg (Nat.not_lt_of_lt W.lt.2.2)]
        have hguards : P'.guards = P.guards.map (Guard.map place placeEnd) ++ added K H c d :=
          W.guards
        have hKH : K ≤ H := by
          have := W.lt
          omega
        rw [hguards, crossed_append, hold, hnew, List.nil_append, hframes.abandon_out W hKH]
          at hproceed
        rw [hguards, crossed_append, hold, hnew, List.nil_append]
        refine .one (.ret hflow)
          (W.ending_called (.goto H) (.inl rfl) ⟨Nat.le_refl H, rfl⟩ hproceed) ?_
        rw [completed_proceed hproceed]
        have hcalls := W.sameCalls_head [] (fun x hx => by cases hx) [⟨K + 2, H⟩]
          fun r hr => by
            rw [List.mem_singleton.mp hr]
            exact Nat.le_add_right K 2
        exact W.seen_last hp.1 hlast hcalls
    | throw => exact .one (.throw hflow) (W.mirrors_thrown hp hframes) rfl
    | next h => rw [hleave] at h; cases h
    | branch h => rw [hleave] at h; cases h
    | eitherTarget h => rw [hleave] at h; cases h
    | eitherNext h => rw [hleave] at h; cases h
    | ret h => rw [hleave] at h; cases h
    | jump h => rw [hleave] at h; cases h
    | endfinally h => rw [hleave] at h; cases h
    | accept h => rw [hleave] at h; cases h
    | refuse h => rw [hleave] at h; cases h
  · cases hstep with
    | next h =>
        have hat : At n place (place k + 1) k := ⟨hp.1, Nat.le_succ _, hmore⟩
        exact .stay (.running hat hframes) (W.seen_before hp hmore)
    | throw => exact .one (.throw hflow) (W.mirrors_thrown hp hframes) rfl
    | leave h => rw [hstore] at h; cases h
    | branch h => rw [hstore] at h; cases h
    | eitherTarget h => rw [hstore] at h; cases h
    | eitherNext h => rw [hstore] at h; cases h
    | ret h => rw [hstore] at h; cases h
    | jump h => rw [hstore] at h; cases h
    | endfinally h => rw [hstore] at h; cases h
    | accept h => rw [hstore] at h; cases h
    | refuse h => rw [hstore] at h; cases h

/-- The search for an exception of the old program, among its guards. -/
theorem Wraps.step_searching (W : Wraps P P' n b K H place placeEnd c d) {p k : ℕ}
    {before behind : List Guard} {g : Guard} {frames' frames : List Frame}
    {a' : Option (Region ℕ)} {t' : State} (hp : At n place p k)
    (hsplit : before ++ g :: behind = P.guards)
    (hframes : Shadows P n K H place placeEnd c d frames' frames)
    (hstep : Step P' (.searching p (before.map (Guard.map place placeEnd))
      (g.map place placeEnd :: (behind.map (Guard.map place placeEnd) ++ added K H c d)) frames')
      a' t') :
    Matched P P' n b K H place placeEnd c d (.searching p (before.map (Guard.map place placeEnd))
      (g.map place placeEnd :: (behind.map (Guard.map place placeEnd) ++ added K H c d)) frames')
      a' t' (.searching k before (g :: behind) frames) := by
  have hg : g ∈ P.guards := hsplit ▸ List.mem_append_right _ List.mem_cons_self
  have hprotects := W.protects_iff hframes hp hg
  cases hstep with
  | skip hskip =>
      refine .one (.skip fun h => hskip ⟨h.1, hprotects.mpr h.2⟩) (.passed hp hsplit hframes) ?_
      rfl
  | caught hkind hguard hproceed =>
      obtain ⟨t, ht, hmirrors, hcalls⟩ := W.caught hp hsplit hframes hproceed
      refine .one (.caught hkind (hprotects.mp hguard) ht) hmirrors ?_
      rw [completed_searching, completed_searching]
      exact hcalls
  | filtered hkind hguard hfilter =>
      obtain ⟨r, hr, rfl⟩ := Option.map_eq_some_iff.mp hfilter
      obtain ⟨hne, hn⟩ := W.filter_held hg hr
      refine .one (.filtered hkind (hprotects.mp hguard) hr)
        (.running (W.at_place (Nat.lt_of_lt_of_le hne hn)) (.filter hp hsplit hr hframes)) ?_
      rfl

/-- The guards of the new code one by one. -/
theorem added_split {pre post : List Guard} {g : Guard} (h : pre ++ g :: post = added K H c d) :
    pre = [] ∧ g = c ∨ pre = [c] ∧ g = d ∨ pre = [c, d] ∧ g = catchAll K
      ∨ pre = [c, d, catchAll K] ∧ g = outermost (K + 2) H := by
  rw [added] at h
  cases pre with
  | nil =>
      cases h
      exact .inl ⟨rfl, rfl⟩
  | cons _ pre =>
      cases pre with
      | nil =>
          cases h
          exact .inr (.inl ⟨rfl, rfl⟩)
      | cons _ pre =>
          cases pre with
          | nil =>
              cases h
              exact .inr (.inr (.inl ⟨rfl, rfl⟩))
          | cons _ pre =>
              cases pre with
              | nil =>
                  cases h
                  exact .inr (.inr (.inr ⟨rfl, rfl⟩))
              | cons _ pre => simp at h

/-- Behind the guards of the old program, which has no more that catch. -/
theorem Wraps.step_leaving (W : Wraps P P' n b K H place placeEnd c d) {p k : ℕ}
    {pre post : List Guard} {frames' frames : List Frame} {a' : Option (Region ℕ)} {t' : State}
    (hp : At n place p k) (hadded : pre ++ post = added K H c d)
    (hframes : Shadows P n K H place placeEnd c d frames' frames)
    (hstep : Step P' (.searching p (P.guards.map (Guard.map place placeEnd) ++ pre) post frames')
      a' t') :
    Matched P P' n b K H place placeEnd c d
      (.searching p (P.guards.map (Guard.map place placeEnd) ++ pre) post frames') a' t'
      (.searching k P.guards [] frames) := by
  have hheld := W.unwound_held frames k (List.Subset.refl P.guards)
  have hmap := W.unwound_map hframes hp (List.Subset.refl P.guards)
  have hnone (hscope : scope frames = none) :
      Unwinding.suspended frames' = [] ∧ Unwinding.suspended frames = [] := by
    have hold : Unwinding.suspended frames = [] := by
      rw [scope, Option.map_eq_none_iff] at hscope
      exact List.head?_eq_none_iff.mp hscope
    have hshadows := hframes.suspended
    rw [hold] at hshadows
    rcases hshadows.cases_cons with ⟨h, -⟩ | ⟨_, _, _, _, -, heq⟩
    · exact ⟨h, hold⟩
    · cases heq
  obtain ⟨hc, hd⟩ := W.not_contains_callback hp
  -- the handlers are called, and the exception goes on
  have huncaught {rest : List (Region ℕ)} {t : State} {goal : Goal} {out : List Frame}
      (hrest : ∀ r ∈ rest, K ≤ r.lo)
      (hgoal : (if (scope frames).isSome then .reject else .exit) = goal)
      (hout : Unwinding.suspended frames = out)
      (ht : proceed (unwound frames k P.guards) goal out = some t)
      (hmirrors : Mirrors P P' n b K H place placeEnd c d t' t) :
      Matched P P' n b K H place placeEnd c d
        (.searching p (P.guards.map (Guard.map place placeEnd) ++ pre) post frames')
        ((unwound frames k P.guards).map (Region.map place placeEnd) ++ rest).head? t'
        (.searching k P.guards [] frames) := by
    rw [← hgoal, ← hout] at ht
    refine .one (.uncaught ht) hmirrors ?_
    rw [completed_searching, completed_searching]
    exact W.sameCalls_head _ hheld rest hrest
  cases hstep with
  | @skip _ _ post g _ hskip =>
      have hmirrors : Mirrors P P' n b K H place placeEnd c d
          (.searching p (P.guards.map (Guard.map place placeEnd) ++ (pre ++ [g]))
            (([] : List Guard).map (Guard.map place placeEnd) ++ post) frames')
          (.searching k P.guards [] frames) := by
        refine .searching hp (List.append_nil _) ?_ (.inl rfl) hframes
        rw [List.append_assoc]
        exact hadded
      rw [← List.append_assoc] at hmirrors
      exact .stay hmirrors rfl
  | caught hkind hguard hproceed =>
      rcases added_split hadded with ⟨-, rfl⟩ | ⟨-, rfl⟩ | ⟨rfl, rfl⟩ | ⟨-, rfl⟩
      · exact absurd hguard.1 hc
      · exact absurd hguard.1 hd
      · have hscope := (W.protects_around hframes hp rfl (Nat.le_refl K)).mp hguard
        rw [unwound_append, hmap, W.unwound_callbacks frames' hp] at hproceed ⊢
        rw [List.append_nil, (hframes.abandon_out W (Nat.le_refl K) :
          Unwinding.abandon (catchAll K).regions.handler.lo frames' = [])] at hproceed
        obtain ⟨t, ht, hmirrors⟩ := W.proceed_rethrown hheld hproceed
        refine huncaught (fun r hr => by cases hr) ?_ (hnone hscope).2 ht hmirrors
        rw [hscope]
        rfl
      · cases hkind
  | filtered hkind hguard hfilter =>
      rcases added_split hadded with ⟨-, rfl⟩ | ⟨-, rfl⟩ | ⟨-, rfl⟩ | ⟨-, rfl⟩
      · exact absurd hguard.1 hc
      · exact absurd hguard.1 hd
      · cases hkind
      · cases hkind
  | uncaught hproceed =>
      rw [List.append_nil] at hadded
      have hrest : ∀ r ∈ unwound frames' p (added K H c d), K ≤ r.lo := by
        rw [W.unwound_added hframes hp]
        intro r hr
        split at hr
        · cases hr
        · rw [List.mem_singleton.mp hr]
          exact Nat.le_add_right K 2
      rw [unwound_append, hmap, hadded, hframes.scope.1, Option.isSome_map] at hproceed
      rw [unwound_append, hmap, hadded]
      cases hscope : scope frames with
      | none =>
          rw [hscope, W.unwound_added hframes hp, (hnone hscope).1, hscope] at hproceed
          obtain ⟨t, ht, hmirrors⟩ := W.proceed_thrown hheld hproceed
          refine huncaught hrest ?_ (hnone hscope).2 ht hmirrors
          rw [hscope]
          rfl
      | some r =>
          rw [hscope, W.unwound_added hframes hp, hscope, Option.isSome_some, if_pos rfl,
            if_pos rfl, List.append_nil] at hproceed
          obtain ⟨t, ht, hmirrors⟩ :=
            W.proceed_in .reject hheld trivial hframes.suspended hproceed
          refine huncaught hrest ?_ rfl ht hmirrors
          rw [hscope]
          rfl

/-! ### Steps of the code around it -/

/-- In front of the program. -/
theorem Wraps.step_before (W : Wraps P P' n b K H place placeEnd c d) {s' t' : State}
    {a' : Option (Region ℕ)} (hs : InZone ⟨0, 0⟩ (around b K H) {b} P'.guards [] s')
    (hstep : Step P' s' a' t') :
    Matched P P' n b K H place placeEnd c d s' a' t' (.running 0 []) := by
  have hseen (ht : a' = none ∨ InZone ⟨0, 0⟩ (around b K H) {b} P'.guards [] t') :=
    W.seen_of_zone (fun _ hp => hp) hs hstep ht
  rcases W.zone_before.step hs hstep with ⟨ht, -⟩ | ⟨goal, hgoal, rfl, hproceed⟩
  · exact .stay (.before ht) (hseen (.inr ht))
  · refine .stay ?_ (hseen (.inl rfl))
    cases goal with
    | goto q =>
        obtain rfl : q = b := hgoal
        cases hproceed
        have hmirrors := W.mirrors_running W.pos .nil
        rwa [W.first] at hmirrors
    | exit =>
        cases hproceed
        exact .threw (.inr (.inr rfl))
    | reject => exact absurd hgoal id

/-- Behind the program, up to the end of the handler. -/
theorem Wraps.step_after (W : Wraps P P' n b K H place placeEnd c d) {s' t' s : State}
    {a' : Option (Region ℕ)} (hended : s = .returned ∨ s = .threw)
    (hs : InZone ⟨0, 0⟩ (Set.Ico K H) {q | H ≤ q ∧ s = .returned} P'.guards [] s')
    (hstep : Step P' s' a' t') : Matched P P' n b K H place placeEnd c d s' a' t' s := by
  have hseen (ht : a' = none ∨ InZone ⟨0, 0⟩ (Set.Ico K H) {q | H ≤ q ∧ s = .returned}
      P'.guards [] t') := W.seen_of_zone (fun _ hp => .inr hp) hs hstep ht
  rcases (W.zone_after _).step hs hstep with ⟨ht, -⟩ | ⟨goal, hgoal, rfl, hproceed⟩
  · exact .stay (.after hended ht) (hseen (.inr ht))
  · refine .stay ?_ (hseen (.inl rfl))
    cases goal with
    | goto q =>
        obtain ⟨hq, rfl⟩ := hgoal
        cases hproceed
        exact .behind (.running hq) nofun
    | exit =>
        cases hproceed
        exact .threw (hended.imp_right .inl)
    | reject => exact absurd hgoal id

theorem proceed_ne_jumped {hs : List (Region ℕ)} {goal : Goal} {frames : List Frame} {t : State}
    (h : proceed hs goal frames = some t) : t ≠ .jumped := by
  rintro rfl
  cases hs with
  | cons => cases h
  | nil =>
      cases goal with
      | goto => cases h
      | exit => cases h
      | reject =>
          cases frames with
          | nil => cases h
          | cons f frames =>
              cases f with
              | handler => cases h
              | filter => cases h

/-- Behind the handler. -/
theorem Wraps.step_behind (W : Wraps P P' n b K H place placeEnd c d) {s' t' : State}
    {a' : Option (Region ℕ)} (hs : Behind P' H s') (hstep : Step P' s' a' t') :
    Matched P P' n b K H place placeEnd c d s' a' t' .returned := by
  have hne : t' ≠ .jumped := by
    rintro rfl
    cases hs with
    | @running p hp =>
        cases hstep with
        | jump hflow => exact W.behind _ hp hflow
        | leave _ h => exact proceed_ne_jumped h rfl
    | searching =>
        cases hstep with
        | caught _ _ h => exact proceed_ne_jumped h rfl
        | uncaught h => exact proceed_ne_jumped h rfl
    | returned => cases hstep
    | threw => cases hstep
    | jumped => cases hstep
  obtain ⟨ht, rfl⟩ := W.encloses.behind_step hs hstep
  refine .stay (.behind ht hne) ?_
  cases hdone : completed s' t' with
  | none => rfl
  | some p =>
      cases hs with
      | @running p' hp =>
          have heq := completed_running p' [] t'
          rw [hdone] at heq
          rcases heq with heq | heq
          · cases heq
          · cases heq
            have hK : K ≤ p := by
              have hp : H ≤ p := hp
              have := W.lt
              omega
            simp [seen, W.doneAt_around (.inr hK)]
      | searching =>
          rw [completed_searching] at hdone
          cases hdone
      | returned => cases hstep
      | threw => cases hstep
      | jumped => cases hstep

/-! ### Runs -/

/-- **The new program refines the old one.** -/
theorem Wraps.refines (W : Wraps P P' n b K H place placeEnd c d) :
    System.Refines P'.traced P.traced (Mirrors P P' n b K H place placeEnd c d) (seen n place)
      shown := by
  refine ⟨fun s' a t' s hs hstep => ?_⟩
  obtain ⟨p, a'⟩ := a
  obtain ⟨hstep, rfl⟩ := hstep
  suffices h : Matched P P' n b K H place placeEnd c d s' a' t' s by
    obtain ⟨l, t, hrun, ht, hseen⟩ := h
    exact ⟨l, t, hrun, ht, hseen⟩
  cases hs with
  | before hs => exact W.step_before hs hstep
  | @running p k frames' frames hp hframes =>
      obtain ⟨f, hflow, hmoved, -⟩ := W.flow k hp.1
      by_cases hret : f = .ret
      · rw [hret] at hflow
        exact W.step_return hp hflow hframes hstep
      · obtain rfl : p = place k := by
          obtain ⟨hnext, -⟩ := hmoved hret
          obtain ⟨-, hlo, hhi⟩ := hp
          omega
        exact W.step_moved hp.1 hflow hret hframes hstep
  | @searching p k before behind pre post _ _ hp hsplit hadded hnil hframes =>
      cases behind with
      | nil =>
          rw [List.append_nil] at hsplit
          subst hsplit
          exact W.step_leaving hp hadded hframes hstep
      | cons g behind =>
          obtain rfl : pre = [] := hnil.resolve_left (by simp)
          rw [List.append_nil] at hstep ⊢
          obtain rfl : post = added K H c d := hadded
          exact W.step_searching hp hsplit hframes hstep
  | after hended hs => exact W.step_after hended hs hstep
  | behind hs => exact W.step_behind hs hstep
  | threw => cases hstep

/-- **Runs.** A run of the new program does what a run of the old one does, and in its order.
It returns only if the old one does; if it throws, the old one has ended or not begun. -/
theorem Wraps.run (W : Wraps P P' n b K H place placeEnd c d)
    {l' : List (Option ℕ × Option (Region ℕ))} {u' : State}
    (hrun : System.Run P'.traced (.running 0 []) l' u') :
    ∃ l u, System.Run P.traced (.running 0 []) l u
      ∧ l'.flatMap (seen n place) = l.flatMap shown
      ∧ (u' = .returned → u = .returned)
      ∧ (u' = .threw → u = .returned ∨ u = .threw ∨ u = .running 0 []) ∧ u' ≠ .jumped := by
  have hstart : Mirrors P P' n b K H place placeEnd c d (.running 0 []) (.running 0 []) :=
    .before (.running (.inl W.front.1) .nil)
  obtain ⟨l, u, hruns, hu, hseen⟩ := W.refines.run hrun hstart
  refine ⟨l, u, hruns, hseen, ?_, ?_, ?_⟩
  · rintro rfl
    cases hu with
    | before hs => cases hs
    | after _ hs => cases hs
    | behind => rfl
  · rintro rfl
    cases hu with
    | before hs => cases hs
    | after _ hs => cases hs
    | behind => exact .inl rfl
    | threw h => exact h
  · rintro rfl
    cases hu with
    | before hs => cases hs
    | after _ hs => cases hs
    | behind _ hne => exact hne rfl

end wraps

end AutoInstrumentation.Lib.Unwinding
