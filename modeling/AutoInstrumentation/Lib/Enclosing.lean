import AutoInstrumentation.Lib.Unwinding
import Mathlib.Data.List.Infix

/-!
# AutoInstrumentation.Lib.Enclosing

A guard around a whole program: its handler is called just once in a run that ends.

A zone is a part of a program that can only be left in one way, with the handlers of the
guards around it called before. The program inside the guard is a zone, which is left by a
call of the handler; the handler is another one, which is left for the code behind it or for
good. What happens in a zone is the same in both.
-/

namespace AutoInstrumentation.Lib.Unwinding

/-! ### Lists of handlers -/

theorem crossed_append (p q : ℕ) (gs gs' : List Guard) :
    crossed p q (gs ++ gs') = crossed p q gs ++ crossed p q gs' := by
  rw [crossed, List.filter_append, List.map_append]
  rfl

theorem unwound_append (frames : List Frame) (p : ℕ) (gs gs' : List Guard) :
    unwound frames p (gs ++ gs') = unwound frames p gs ++ unwound frames p gs' := by
  rw [unwound, List.filter_append, List.map_append]
  rfl

theorem mem_crossed {p q : ℕ} {gs : List Guard} {h : Region ℕ} (hh : h ∈ crossed p q gs) :
    ∃ g ∈ gs, g.regions.tryRange.Contains p ∧ g.regions.handler = h := by
  obtain ⟨g, hg, rfl⟩ := List.mem_map.mp hh
  obtain ⟨hmem, hcrossed⟩ := List.mem_filter.mp hg
  exact ⟨g, hmem, (of_decide_eq_true hcrossed).2.1, rfl⟩

theorem mem_unwound {frames : List Frame} {p : ℕ} {gs : List Guard} {h : Region ℕ}
    (hh : h ∈ unwound frames p gs) :
    ∃ g ∈ gs, g.regions.tryRange.Contains p ∧ g.regions.handler = h := by
  obtain ⟨g, hg, rfl⟩ := List.mem_map.mp hh
  obtain ⟨hmem, hunwound⟩ := List.mem_filter.mp hg
  exact ⟨g, hmem, (of_decide_eq_true hunwound).2.1, rfl⟩

/-! ### Zones -/

/-- The instruction at `p` stays in `R`. -/
def Flow.Within (R : Set ℕ) (p : ℕ) : Flow → Prop
  | next => p + 1 ∈ R
  | branch q => q ∈ R
  | either q => q ∈ R ∧ p + 1 ∈ R
  | leave q => q ∈ R
  | ret => False
  | jump => False
  | _ => True

/-- A region other than `F` that starts in `R` and has no place in `O`. -/
structure Apart (F : Region ℕ) (R O : Set ℕ) (r : Region ℕ) : Prop where
  lo : r.lo ∈ R
  ne : r ≠ F
  outside : ∀ q ∈ O, ¬r.Contains q

/-- **Zones.** What is in `R` stays there, or goes to `O` and crosses the guards `outer`; the
guards `inner` have their handlers in `R`. -/
structure Zone (P : Program) (F : Region ℕ) (R O : Set ℕ) (inner outer : List Guard) : Prop where
  guards : P.guards = inner ++ outer
  flow : ∀ p ∈ R, ∀ f, P.flow p = some f → f.Within R p ∨ ∃ q ∈ O, f = .leave q
  handler : ∀ g ∈ inner, ∀ p ∈ R, g.regions.tryRange.Contains p → Apart F R O g.regions.handler
  filter : ∀ g ∈ inner, ∀ p ∈ R, g.regions.tryRange.Contains p →
    ∀ r, g.regions.filter = some r → Apart F R O r
  always : ∀ g ∈ outer, g.kind = .always
  around : ∀ g ∈ outer, ∀ p ∈ R, g.regions.tryRange.Contains p
  crossed : ∀ g ∈ outer, ∀ q ∈ O, ¬g.regions.tryRange.Contains q
  invisible : ∀ g ∈ outer, ∀ g' ∈ inner, ∀ r, g'.regions.filter = some r →
    ¬g.regions.tryRange.Inside r

/-- The goal is in `R`. -/
def Goal.In (R : Set ℕ) : Goal → Prop
  | goto q => q ∈ R
  | exit => False
  | reject => True

/-- The goal is in `O`, or out of the program. -/
def Goal.Out (O : Set ℕ) : Goal → Prop
  | goto q => q ∈ O
  | exit => True
  | reject => False

section zone

variable {P : Program} {F : Region ℕ} {R O : Set ℕ} {inner outer : List Guard}

/-- What is underneath the code of a zone: the lowest frame may lead out of it. -/
inductive Frames (F : Region ℕ) (R O : Set ℕ) (inner outer : List Guard) : List Frame → Prop
  | nil : Frames F R O inner outer []
  | last {h : Region ℕ} {hs : List (Region ℕ)} {goal : Goal} :
      (∀ q ∈ O, ¬h.Contains q) → (∀ x ∈ hs, Apart F R O x) → goal.Out O →
      Frames F R O inner outer [.handler h (hs ++ outer.map (·.regions.handler)) goal]
  | handler {h : Region ℕ} {hs : List (Region ℕ)} {goal : Goal} {frames : List Frame} :
      (∀ q ∈ O, ¬h.Contains q) → (∀ x ∈ hs, Apart F R O x) → goal.In R →
      Frames F R O inner outer frames → Frames F R O inner outer (.handler h hs goal :: frames)
  | filter {r : Region ℕ} {origin : ℕ} {before behind : List Guard} {g : Guard}
      {frames : List Frame} :
      (∀ q ∈ O, ¬r.Contains q) → origin ∈ R → g.regions.filter = some r →
      g.regions.tryRange.Contains origin → before ++ g :: behind = inner →
      Frames F R O inner outer frames →
      Frames F R O inner outer (.filter r origin before g (behind ++ outer) :: frames)

/-- The states in a zone. -/
inductive InZone (F : Region ℕ) (R O : Set ℕ) (inner outer : List Guard) : State → Prop
  | running {p : ℕ} {frames : List Frame} :
      p ∈ R → Frames F R O inner outer frames → InZone F R O inner outer (.running p frames)
  | searching {origin : ℕ} {before behind : List Guard} {frames : List Frame} :
      origin ∈ R → before ++ behind = inner ++ outer → Frames F R O inner outer frames →
      InZone F R O inner outer (.searching origin before behind frames)

theorem Frames.tail {f : Frame} {frames : List Frame}
    (h : Frames F R O inner outer (f :: frames)) : Frames F R O inner outer frames := by
  cases h with
  | last => exact .nil
  | handler _ _ _ hframes => exact hframes
  | filter _ _ _ _ _ hframes => exact hframes

theorem Frames.outside {f : Frame} {frames : List Frame}
    (h : Frames F R O inner outer (f :: frames)) : ∀ q ∈ O, ¬f.region.Contains q := by
  cases h with
  | last hregion => exact hregion
  | handler hregion => exact hregion
  | filter hregion => exact hregion

theorem Frames.dropWhile {frames : List Frame} (h : Frames F R O inner outer frames)
    (p : Frame → Bool) : Frames F R O inner outer (frames.dropWhile p) := by
  induction frames with
  | nil => exact h
  | cons f frames ih =>
      rw [List.dropWhile_cons]
      split
      · exact ih h.tail
      · exact h

/-- Nothing is left of the frames outside. -/
theorem Frames.abandon_out {frames : List Frame} (h : Frames F R O inner outer frames) {q : ℕ}
    (hq : q ∈ O) : abandon q frames = [] := by
  induction frames with
  | nil => rfl
  | cons f frames ih =>
      rw [abandon, List.dropWhile_cons, decide_eq_false (h.outside q hq)]
      exact ih h.tail

/-- The innermost filter is one of an inner guard. -/
theorem Frames.scope {frames : List Frame} (h : Frames F R O inner outer frames) {r : Region ℕ}
    (hr : scope frames = some r) : ∃ g ∈ inner, g.regions.filter = some r := by
  induction h with
  | nil => cases hr
  | last => cases hr
  | handler _ _ _ _ ih => exact ih hr
  | filter _ _ hfilter _ hsplit _ _ =>
      cases hr
      refine ⟨_, ?_, hfilter⟩
      rw [← hsplit]
      exact List.mem_append_right _ List.mem_cons_self

/-! ### Ways through and out of a zone -/

/-- Calling handlers of the zone on the way to a place of it. -/
theorem proceed_in {hs : List (Region ℕ)} (goal : Goal) {frames : List Frame} {t : State}
    (hhs : ∀ x ∈ hs, Apart F R O x) (hgoal : goal.In R) (hframes : Frames F R O inner outer frames)
    (h : proceed hs goal frames = some t) :
    InZone F R O inner outer t ∧ hs.head? ≠ some F := by
  cases hs with
  | cons x hs =>
      obtain ⟨hx, hhs⟩ := List.forall_mem_cons.mp hhs
      cases h
      exact ⟨.running hx.lo (.handler hx.outside hhs hgoal hframes),
        fun heq => hx.ne (Option.some.inj heq)⟩
  | nil =>
      refine ⟨?_, fun heq => nomatch heq⟩
      cases goal with
      | goto q =>
          cases h
          exact .running hgoal hframes
      | exit => exact absurd hgoal id
      | reject =>
          cases hframes with
          | nil => cases h
          | last => cases h
          | handler => cases h
          | filter hregion horigin hfilter hcontains hsplit hframes =>
              cases h
              refine .searching horigin ?_ hframes
              rw [← hsplit]
              simp only [List.append_assoc, List.cons_append, List.nil_append]

/-- How a zone is left. -/
def Leaves (O : Set ℕ) (outer : List Guard) (a : Option (Region ℕ)) (t : State) : Prop :=
  ∃ goal : Goal, goal.Out O ∧ a = (outer.map (·.regions.handler)).head?
    ∧ proceed (outer.map (·.regions.handler)) goal [] = some t

/-- Calling handlers of the zone, and those around it, on the way out. -/
theorem proceed_out {hs : List (Region ℕ)} (goal : Goal) {t : State}
    (hhs : ∀ x ∈ hs, Apart F R O x) (hgoal : goal.Out O)
    (h : proceed (hs ++ outer.map (·.regions.handler)) goal [] = some t) :
    InZone F R O inner outer t ∧ (hs ++ outer.map (·.regions.handler)).head? ≠ some F
      ∨ Leaves O outer (hs ++ outer.map (·.regions.handler)).head? t := by
  cases hs with
  | nil => exact .inr ⟨goal, hgoal, rfl, h⟩
  | cons x hs =>
      obtain ⟨hx, hhs⟩ := List.forall_mem_cons.mp hhs
      cases h
      exact .inl ⟨.running hx.lo (.last hx.outside hhs hgoal),
        fun heq => hx.ne (Option.some.inj heq)⟩

/-! ### Handlers of a zone -/

theorem Zone.crossed_inner (Z : Zone P F R O inner outer) {p : ℕ} (hp : p ∈ R) (q : ℕ) :
    ∀ x ∈ Unwinding.crossed p q inner, Apart F R O x := by
  intro x hx
  obtain ⟨g, hg, hcontains, rfl⟩ := mem_crossed hx
  exact Z.handler g hg p hp hcontains

theorem Zone.unwound_inner (Z : Zone P F R O inner outer) {p : ℕ} (hp : p ∈ R)
    (frames : List Frame) {gs : List Guard}
    (hgs : gs ⊆ inner) : ∀ x ∈ unwound frames p gs, Apart F R O x := by
  intro x hx
  obtain ⟨g, hg, hcontains, rfl⟩ := mem_unwound hx
  exact Z.handler g (hgs hg) p hp hcontains

/-- Within the zone no outer guard is crossed. -/
theorem Zone.crossed_outer_in (Z : Zone P F R O inner outer) {p q : ℕ} (hq : q ∈ R) :
    Unwinding.crossed p q outer = [] := by
  rw [Unwinding.crossed, List.map_eq_nil_iff, List.filter_eq_nil_iff]
  intro g hg hcrossed
  exact (of_decide_eq_true hcrossed).2.2 (Z.around g hg q hq)

theorem Zone.crossed_outer_out (Z : Zone P F R O inner outer) {p q : ℕ} (hp : p ∈ R) (hq : q ∈ O) :
    Unwinding.crossed p q outer = outer.map (·.regions.handler) := by
  rw [Unwinding.crossed, List.filter_eq_self.mpr]
  intro g hg
  exact decide_eq_true ⟨Z.always g hg, Z.around g hg p hp, Z.crossed g hg q hq⟩

/-- Out of a filter no outer guard sees an exception; elsewhere they all do. -/
theorem Zone.unwound_outer (Z : Zone P F R O inner outer) {p : ℕ} (hp : p ∈ R) {frames : List Frame}
    (hframes : Frames F R O inner outer frames) :
    unwound frames p outer
      = if (Unwinding.scope frames).isSome then [] else outer.map (·.regions.handler) := by
  cases hscope : Unwinding.scope frames with
  | none =>
      rw [unwound, List.filter_eq_self.mpr]
      · rfl
      · intro g hg
        refine decide_eq_true ⟨.inl (Z.always g hg), Z.around g hg p hp, ?_⟩
        rw [hscope]
        rfl
  | some r =>
      obtain ⟨g', hg', hfilter⟩ := hframes.scope hscope
      show unwound frames p outer = []
      rw [unwound, List.map_eq_nil_iff, List.filter_eq_nil_iff]
      intro g hg hunwound
      obtain ⟨-, -, hvisible⟩ := of_decide_eq_true hunwound
      rw [hscope] at hvisible
      exact Z.invisible g hg g' hg' r hfilter (of_decide_eq_true hvisible)

/-- A guard that catches is an inner one. -/
theorem Zone.split_inner (Z : Zone P F R O inner outer) {before behind : List Guard} {g : Guard}
    (hsplit : before ++ g :: behind = inner ++ outer) (hkind : g.kind ≠ .always) :
    ∃ behind', behind = behind' ++ outer ∧ before ++ g :: behind' = inner := by
  rcases List.append_eq_append_iff.mp hsplit with
    ⟨middle, hinner, hbehind⟩ | ⟨middle, hbefore, houter⟩
  · cases middle with
    | nil =>
        have hg : g ∈ outer := by
          rw [List.nil_append] at hbehind
          rw [← hbehind]
          exact List.mem_cons_self
        exact absurd (Z.always g hg) hkind
    | cons g' middle =>
        obtain ⟨rfl, rfl⟩ := List.cons.inj hbehind
        exact ⟨middle, rfl, hinner.symm⟩
  · have hg : g ∈ outer := by
      rw [houter]
      exact List.mem_append_right _ List.mem_cons_self
    exact absurd (Z.always g hg) hkind

/-! ### Steps of a zone -/

/-- The second pass for an inner guard that catches. -/
theorem Zone.caught (Z : Zone P F R O inner outer) {origin : ℕ} {before behind : List Guard}
    {g : Guard} {frames : List Frame} {t : State} (horigin : origin ∈ R) (hcontains : g.regions.tryRange.Contains origin)
    (hsplit : before ++ g :: behind = inner) (hframes : Frames F R O inner outer frames)
    (h : proceed (unwound frames origin before) (.goto g.regions.handler.lo)
      (abandon g.regions.handler.lo frames) = some t) :
    InZone F R O inner outer t ∧ (unwound frames origin before).head? ≠ some F := by
  have hbefore : before ⊆ inner := hsplit ▸ List.subset_append_left _ _
  have hg : g ∈ inner := hsplit ▸ List.mem_append_right _ List.mem_cons_self
  exact proceed_in (.goto _) (Z.unwound_inner horigin frames hbefore)
    (Z.handler g hg origin horigin hcontains).lo (hframes.dropWhile _) h

/-- The second pass when no guard catches. -/
theorem Zone.uncaught (Z : Zone P F R O inner outer) {origin : ℕ} {frames : List Frame}
    {t : State} (horigin : origin ∈ R)
    (hframes : Frames F R O inner outer frames)
    (h : proceed (unwound frames origin (inner ++ outer))
      (if (scope frames).isSome then .reject else .exit) (suspended frames) = some t) :
    InZone F R O inner outer t ∧ (unwound frames origin (inner ++ outer)).head? ≠ some F
      ∨ Leaves O outer (unwound frames origin (inner ++ outer)).head? t := by
  have hinner := Z.unwound_inner horigin frames (List.Subset.refl inner)
  rw [unwound_append, Z.unwound_outer horigin hframes] at h ⊢
  cases hscope : Unwinding.scope frames with
  | some r =>
      rw [hscope, Option.isSome_some, if_pos rfl, if_pos rfl, List.append_nil] at h
      rw [Option.isSome_some, if_pos rfl, List.append_nil]
      exact .inl (proceed_in .reject hinner trivial (hframes.dropWhile _) h)
  | none =>
      have hnone : suspended frames = [] := by
        rw [Unwinding.scope, Option.map_eq_none_iff] at hscope
        exact List.head?_eq_none_iff.mp hscope
      rw [hscope, hnone, Option.isSome_none, if_neg Bool.false_ne_true,
        if_neg Bool.false_ne_true] at h
      rw [Option.isSome_none, if_neg Bool.false_ne_true]
      exact proceed_out .exit hinner trivial h

/-- **A step from a zone** stays there and does not call `F`, or leaves it. -/
theorem Zone.step (Z : Zone P F R O inner outer) {s t : State} {a : Option (Region ℕ)}
    (hs : InZone F R O inner outer s)
    (h : Step P s a t) : InZone F R O inner outer t ∧ a ≠ some F ∨ Leaves O outer a t := by
  cases hs with
  | @running p frames hp hframes =>
      have stays {f : Flow} (hflow : P.flow p = some f) (hleave : ∀ q, f ≠ .leave q) :
          f.Within R p := by
        rcases Z.flow p hp f hflow with hwithin | ⟨q, -, rfl⟩
        · exact hwithin
        · exact absurd rfl (hleave q)
      cases h with
      | next hflow =>
          exact .inl ⟨.running (stays hflow fun _ => nofun) hframes, nofun⟩
      | branch hflow => exact .inl ⟨.running (stays hflow fun _ => nofun) hframes, nofun⟩
      | eitherTarget hflow => exact .inl ⟨.running (stays hflow fun _ => nofun).1 hframes, nofun⟩
      | eitherNext hflow => exact .inl ⟨.running (stays hflow fun _ => nofun).2 hframes, nofun⟩
      | ret hflow => exact absurd (stays hflow fun _ => nofun) id
      | jump hflow => exact absurd (stays hflow fun _ => nofun) id
      | throw => exact .inl ⟨.searching hp Z.guards hframes, nofun⟩
      | @leave _ q _ _ hflow hproceed =>
          rw [Z.guards, crossed_append] at hproceed ⊢
          rcases Z.flow p hp _ hflow with hq | ⟨q', hq, heq⟩
          · rw [Z.crossed_outer_in hq, List.append_nil] at hproceed ⊢
            exact .inl
              (proceed_in (.goto q) (Z.crossed_inner hp q) hq (hframes.dropWhile _) hproceed)
          · cases heq
            rw [Z.crossed_outer_out hp hq, hframes.abandon_out hq] at hproceed
            rw [Z.crossed_outer_out hp hq]
            exact proceed_out (.goto q) (Z.crossed_inner hp q) hq hproceed
      | endfinally _ hproceed =>
          cases hframes with
          | last _ hhs hgoal => exact proceed_out _ hhs hgoal hproceed
          | handler _ hhs hgoal hframes => exact .inl (proceed_in _ hhs hgoal hframes hproceed)
      | accept _ hproceed =>
          cases hframes with
          | filter _ horigin _ hcontains hsplit hframes =>
              exact .inl (Z.caught horigin hcontains hsplit hframes hproceed)
      | refuse =>
          cases hframes with
          | filter _ horigin _ _ hsplit hframes =>
              refine .inl ⟨.searching horigin ?_ hframes, nofun⟩
              rw [← hsplit]
              simp only [List.append_assoc, List.cons_append, List.nil_append]
  | searching horigin hsplit hframes =>
      cases h with
      | skip =>
          refine .inl ⟨.searching horigin ?_ hframes, nofun⟩
          rw [List.append_assoc]
          exact hsplit
      | caught hkind hprotects hproceed =>
          obtain ⟨behind', -, hinner⟩ := Z.split_inner hsplit (by rw [hkind]; nofun)
          exact .inl (Z.caught horigin hprotects.1 hinner hframes hproceed)
      | filtered hkind hprotects hfilter =>
          obtain ⟨behind', rfl, hinner⟩ := Z.split_inner hsplit (by rw [hkind]; nofun)
          have hg := hinner ▸ List.mem_append_right _ List.mem_cons_self
          have hr := Z.filter _ hg _ horigin hprotects.1 _ hfilter
          exact .inl ⟨.running hr.lo
            (.filter hr.outside horigin hfilter hprotects.1 hinner hframes), nofun⟩
      | uncaught hproceed =>
          rw [List.append_nil] at hsplit
          rw [hsplit] at hproceed ⊢
          exact Z.uncaught horigin hframes hproceed

end zone

/-! ### The guard around the program -/

/-- The guard of all places before `T`, with its handler from there to `H`. -/
def outermost (T H : ℕ) : Guard := ⟨.always, ⟨⟨0, T⟩, none, ⟨T, H⟩⟩⟩

/-- The regions of a guard are places from `lo` to before `hi`; its filter ends before its
handler. -/
structure Guard.Between (lo hi : ℕ) (g : Guard) : Prop where
  nonempty : ∀ r ∈ g.regions.ranges, r.Nonempty
  within : ∀ r ∈ g.regions.ranges, lo ≤ r.lo ∧ r.hi ≤ hi
  filter : ∀ r, g.regions.filter = some r → r.hi ≤ g.regions.handler.lo

/-- **A program inside a guard.** Code before `T` stays there or leaves for behind `H`; the
handler stays in itself; and what is behind it does not go back. -/
structure Encloses (P : Program) (T H : ℕ) : Prop where
  pos : 0 < T
  lt : T < H
  guards : ∃ gs, P.guards = gs ++ [outermost T H]
    ∧ ∀ g ∈ gs, g.Between 0 T ∨ g.Between T (H - 1)
  program : ∀ p < T, ∀ f, P.flow p = some f →
    f.Within (Set.Iio T) p ∨ ∃ q ∈ Set.Ici H, f = .leave q
  handler : ∀ p ∈ Set.Ico T H, ∀ f, P.flow p = some f → f.Within (Set.Ico T H) p
  behind : ∀ p ∈ Set.Ici H, ∀ f, P.flow p = some f →
    f.Within (Set.Ici H) p ∨ f = .ret ∨ f = .jump

section enclosing

variable {P : Program} {T H : ℕ}

theorem Guard.Between.filter_mem {lo hi : ℕ} {g : Guard} (h : g.Between lo hi) {r : Region ℕ}
    (hr : g.regions.filter = some r) : r.lo < r.hi ∧ lo ≤ r.lo ∧ r.hi ≤ g.regions.handler.lo
      ∧ g.regions.handler.lo < g.regions.handler.hi ∧ g.regions.handler.hi ≤ hi := by
  have hmem : r ∈ g.regions.ranges := by
    refine Clause.guards_subset _ (List.mem_cons_of_mem _ ?_)
    rw [hr]
    exact List.mem_singleton_self r
  exact ⟨h.nonempty r hmem, (h.within r hmem).1, h.filter r hr,
    h.nonempty _ (Clause.handler_mem _), (h.within _ (Clause.handler_mem _)).2⟩

theorem Guard.Between.handler_mem {lo hi : ℕ} {g : Guard} (h : g.Between lo hi) :
    lo ≤ g.regions.handler.lo ∧ g.regions.handler.lo < g.regions.handler.hi
      ∧ g.regions.handler.hi ≤ hi :=
  ⟨(h.within _ (Clause.handler_mem _)).1, h.nonempty _ (Clause.handler_mem _),
    (h.within _ (Clause.handler_mem _)).2⟩

theorem Guard.Between.contains {lo hi : ℕ} {g : Guard} (h : g.Between lo hi) {p : ℕ}
    (hp : g.regions.tryRange.Contains p) : lo ≤ p ∧ p < hi := by
  obtain ⟨hlo, hhi⟩ := h.within _ (Clause.guards_subset _ (Clause.tryRange_mem _))
  exact ⟨Nat.le_trans hlo hp.1, Nat.lt_of_lt_of_le hp.2 hhi⟩

/-- The program inside the guard is a zone. -/
theorem Encloses.front (h : Encloses P T H) {gs : List Guard}
    (hguards : P.guards = gs ++ [outermost T H])
    (hgs : ∀ g ∈ gs, g.Between 0 T ∨ g.Between T (H - 1)) :
    Zone P ⟨T, H⟩ (Set.Iio T) (Set.Ici H) gs [outermost T H] := by
  have hlt := h.lt
  -- a guard of a place before `T` has its regions there
  have hfront : ∀ g ∈ gs, ∀ p ∈ Set.Iio T, g.regions.tryRange.Contains p → g.Between 0 T := by
    intro g hg p hp hcontains
    rcases hgs g hg with hbetween | hbetween
    · exact hbetween
    · exact absurd (hbetween.contains hcontains).1 (Nat.not_le_of_lt hp)
  have hapart {r : Region ℕ} (hr : r.lo < r.hi) (hhi : r.hi ≤ T) :
      Apart ⟨T, H⟩ (Set.Iio T) (Set.Ici H) r := by
    refine ⟨Nat.lt_of_lt_of_le hr hhi, fun heq => ?_, fun q hq hcontains => ?_⟩
    · rw [heq] at hhi
      exact absurd hlt (Nat.not_lt_of_le hhi)
    · have := hcontains.2
      have : H ≤ q := hq
      omega
  refine ⟨hguards, h.program, fun g hg p hp hcontains => ?_, fun g hg p hp hcontains r hr => ?_,
    ?_, ?_, ?_, ?_⟩
  · obtain ⟨-, hr, hhi⟩ := (hfront g hg p hp hcontains).handler_mem
    exact hapart hr hhi
  · have := (hfront g hg p hp hcontains).filter_mem hr
    exact hapart this.1 (by omega)
  · intro g hg
    rw [List.mem_singleton.mp hg]
    rfl
  · intro g hg p hp
    rw [List.mem_singleton.mp hg]
    exact ⟨Nat.zero_le p, hp⟩
  · intro g hg q hq hcontains
    rw [List.mem_singleton.mp hg] at hcontains
    have : q < T := hcontains.2
    have : H ≤ q := hq
    omega
  · intro g hg g' hg' r hr hinside
    rw [List.mem_singleton.mp hg] at hinside
    have hlo : r.lo ≤ 0 := hinside.1
    have hhi : T ≤ r.hi := hinside.2
    have hpos := h.pos
    rcases hgs g' hg' with hbetween | hbetween
    · have := hbetween.filter_mem hr
      omega
    · have := hbetween.filter_mem hr
      omega

/-- Its handler is another one, with no guard around it. -/
theorem Encloses.called (h : Encloses P T H) {gs : List Guard}
    (hguards : P.guards = gs ++ [outermost T H])
    (hgs : ∀ g ∈ gs, g.Between 0 T ∨ g.Between T (H - 1)) :
    Zone P ⟨T, H⟩ (Set.Ico T H) (Set.Ici H) P.guards [] := by
  have hlt := h.lt
  have hback : ∀ g ∈ P.guards, ∀ p ∈ Set.Ico T H, g.regions.tryRange.Contains p →
      g.Between T (H - 1) := by
    intro g hg p hp hcontains
    obtain ⟨hlo, hhi⟩ := hp
    rw [hguards] at hg
    rcases List.mem_append.mp hg with hg | hg
    · rcases hgs g hg with hbetween | hbetween
      · exact absurd (hbetween.contains hcontains).2 (Nat.not_lt_of_le hlo)
      · exact hbetween
    · rw [List.mem_singleton.mp hg] at hcontains
      exact absurd hcontains.2 (Nat.not_lt_of_le hlo)
  have hapart {r : Region ℕ} (hr : r.lo < r.hi) (hlo : T ≤ r.lo) (hhi : r.hi ≤ H - 1) :
      Apart ⟨T, H⟩ (Set.Ico T H) (Set.Ici H) r := by
    refine ⟨⟨hlo, by omega⟩, fun heq => ?_, fun q hq hcontains => ?_⟩
    · rw [heq] at hhi
      have : H ≤ H - 1 := hhi
      omega
    · have := hcontains.2
      have : H ≤ q := hq
      omega
  refine ⟨(List.append_nil _).symm, fun p hp f hf => .inl (h.handler p hp f hf),
    fun g hg p hp hcontains => ?_, fun g hg p hp hcontains r hr => ?_, ?_, ?_, ?_, ?_⟩
  · obtain ⟨hlo, hr, hhi⟩ := (hback g hg p hp hcontains).handler_mem
    exact hapart hr hlo hhi
  · have := (hback g hg p hp hcontains).filter_mem hr
    exact hapart this.1 this.2.1 (by omega)
  all_goals intro g hg; cases hg

/-- Behind the handler no guard has a place. -/
theorem Encloses.not_contains (h : Encloses P T H) {p : ℕ} (hp : p ∈ Set.Ici H) :
    ∀ g ∈ P.guards, ¬g.regions.tryRange.Contains p := by
  obtain ⟨gs, hguards, hgs⟩ := h.guards
  have hlt := h.lt
  have hp : H ≤ p := hp
  intro g hg hcontains
  rw [hguards] at hg
  rcases List.mem_append.mp hg with hg | hg
  · rcases hgs g hg with hbetween | hbetween
    · have := (hbetween.contains hcontains).2
      omega
    · have := (hbetween.contains hcontains).2
      omega
  · rw [List.mem_singleton.mp hg] at hcontains
    have : p < T := hcontains.2
    omega

/-- The states behind the handler. -/
inductive Behind (P : Program) (H : ℕ) : State → Prop
  | running {p : ℕ} : p ∈ Set.Ici H → Behind P H (.running p [])
  | searching {origin : ℕ} {before behind : List Guard} : origin ∈ Set.Ici H →
      before ++ behind = P.guards → Behind P H (.searching origin before behind [])
  | returned : Behind P H .returned
  | threw : Behind P H .threw
  | jumped : Behind P H .jumped

theorem arrive_out {goal : Goal} {t : State} (hgoal : goal.Out (Set.Ici H))
    (h : arrive goal [] = some t) : Behind P H t := by
  cases goal with
  | goto q =>
      cases h
      exact .running hgoal
  | exit =>
      cases h
      exact .threw
  | reject => cases h

/-- A step behind the handler calls none. -/
theorem Encloses.behind_step (h : Encloses P T H) {s t : State} {a : Option (Region ℕ)}
    (hs : Behind P H s) (hstep : Step P s a t) : Behind P H t ∧ a = none := by
  cases hs with
  | @running p hp =>
      have stays {f : Flow} (hflow : P.flow p = some f) (hret : f ≠ .ret) (hjump : f ≠ .jump) :
          f.Within (Set.Ici H) p := by
        rcases h.behind p hp f hflow with hwithin | hf | hf
        · exact hwithin
        · exact absurd hf hret
        · exact absurd hf hjump
      cases hstep with
      | next hflow => exact ⟨.running (stays hflow nofun nofun), rfl⟩
      | branch hflow => exact ⟨.running (stays hflow nofun nofun), rfl⟩
      | eitherTarget hflow => exact ⟨.running (stays hflow nofun nofun).1, rfl⟩
      | eitherNext hflow => exact ⟨.running (stays hflow nofun nofun).2, rfl⟩
      | ret => exact ⟨.returned, rfl⟩
      | jump => exact ⟨.jumped, rfl⟩
      | throw => exact ⟨.searching hp rfl, rfl⟩
      | @leave _ q _ _ hflow hproceed =>
          have hnil : crossed p q P.guards = [] := by
            rw [crossed, List.map_eq_nil_iff, List.filter_eq_nil_iff]
            intro g hg hcrossed
            exact h.not_contains hp g hg (of_decide_eq_true hcrossed).2.1
          rw [hnil] at hproceed ⊢
          cases hproceed
          exact ⟨.running (stays hflow nofun nofun), rfl⟩
  | @searching origin before behind horigin hsplit =>
      cases hstep with
      | skip =>
          refine ⟨.searching horigin ?_, rfl⟩
          rw [List.append_assoc]
          exact hsplit
      | caught _ hprotects =>
          refine absurd hprotects.1 (h.not_contains horigin _ ?_)
          rw [← hsplit]
          exact List.mem_append_right _ List.mem_cons_self
      | filtered _ hprotects =>
          refine absurd hprotects.1 (h.not_contains horigin _ ?_)
          rw [← hsplit]
          exact List.mem_append_right _ List.mem_cons_self
      | uncaught hproceed =>
          have hnil : unwound [] origin before = [] := by
            rw [unwound, List.map_eq_nil_iff, List.filter_eq_nil_iff]
            intro g hg hunwound
            refine h.not_contains horigin g ?_ (of_decide_eq_true hunwound).2.1
            rw [← hsplit]
            exact List.mem_append_left _ hg
          rw [hnil] at hproceed ⊢
          cases hproceed
          exact ⟨.threw, rfl⟩
  | returned => cases hstep
  | threw => cases hstep
  | jumped => cases hstep

/-! ### Runs -/

/-- Where a run is, by how often it has called the handler. -/
inductive Called (P : Program) (T H : ℕ) : State → ℕ → Prop
  | notYet {s : State} {gs : List Guard} : P.guards = gs ++ [outermost T H] →
      InZone ⟨T, H⟩ (Set.Iio T) (Set.Ici H) gs [outermost T H] s → Called P T H s 0
  | running {s : State} :
      InZone ⟨T, H⟩ (Set.Ico T H) (Set.Ici H) P.guards [] s → Called P T H s 1
  | done {s : State} : Behind P H s → Called P T H s 1

/-- One step. -/
theorem Encloses.step (h : Encloses P T H) {s t : State} {a : Option (Region ℕ)} {n : ℕ}
    (hs : Called P T H s n) (hstep : Step P s a t) :
    Called P T H t (n + if a = some ⟨T, H⟩ then 1 else 0) := by
  obtain ⟨gs, hguards, hgs⟩ := h.guards
  cases hs with
  | @notYet gs' hguards' hs =>
      have heq : gs' = gs := List.append_cancel_right (hguards'.symm.trans hguards)
      subst heq
      rcases (h.front hguards hgs).step hs hstep with ⟨ht, hne⟩ | ⟨goal, hgoal, rfl, hproceed⟩
      · rw [if_neg hne]
        exact .notYet hguards ht
      · -- the program is left: the handler is called
        have hcall : ([outermost T H].map (·.regions.handler)).head? = some ⟨T, H⟩ := rfl
        rw [if_pos hcall]
        cases hproceed
        refine .running (.running ⟨Nat.le_refl T, h.lt⟩ ?_)
        have hregion : ∀ q ∈ Set.Ici H, ¬(⟨T, H⟩ : Region ℕ).Contains q :=
          fun q hq hcontains => Nat.not_lt_of_le hq hcontains.2
        have hnone : ∀ x ∈ ([] : List (Region ℕ)), Apart ⟨T, H⟩ (Set.Ico T H) (Set.Ici H) x :=
          fun x hx => by cases hx
        exact .last hregion hnone hgoal
  | running hs =>
      rcases (h.called hguards hgs).step hs hstep with ⟨ht, hne⟩ | ⟨goal, hgoal, rfl, hproceed⟩
      · rw [if_neg hne]
        exact .running ht
      · exact .done (arrive_out hgoal hproceed)
  | done hs =>
      obtain ⟨ht, rfl⟩ := h.behind_step hs hstep
      exact .done ht

/-- Many steps. -/
theorem Encloses.called_run (h : Encloses P T H) {l : List (Option (Region ℕ))} {s t : State}
    {n : ℕ} (hs : Called P T H s n) (hrun : System.Run P.system s l t) :
    Called P T H t (n + l.count (some ⟨T, H⟩)) := by
  induction hrun generalizing n with
  | nil => exact hs
  | @cons _ _ _ a l hstep _ ih =>
      have hnext := ih (h.step hs hstep)
      rw [List.count_cons, Nat.add_comm (l.count _), ← Nat.add_assoc]
      simpa using hnext

/-- **Runs.** A handler around the program is called at most once, and just once in a run that
ends. -/
theorem Encloses.run (h : Encloses P T H) {l : List (Option (Region ℕ))} {s : State}
    (hrun : System.Run P.system (.running 0 []) l s) :
    l.count (some ⟨T, H⟩) ≤ 1 ∧ (s.Ended → l.count (some ⟨T, H⟩) = 1) := by
  obtain ⟨gs, hguards, -⟩ := h.guards
  have hend := h.called_run (.notYet hguards (.running h.pos .nil)) hrun
  rw [Nat.zero_add] at hend
  generalize l.count (some ⟨T, H⟩) = n at hend ⊢
  cases hend with
  | notYet _ hs =>
      refine ⟨Nat.zero_le _, fun hended => ?_⟩
      cases hs with
      | running => exact absurd hended id
      | searching => exact absurd hended id
  | running => exact ⟨Nat.le_refl _, fun _ => rfl⟩
  | done => exact ⟨Nat.le_refl _, fun _ => rfl⟩

end enclosing

end AutoInstrumentation.Lib.Unwinding
