import Mathlib.Order.Monotone.Defs
import Mathlib.Order.Lattice

/-!
# AutoInstrumentation.Lib.Regions

Tables of protected regions and their handlers.

A clause has half-open intervals of a linear order: what it protects, its handler, and
possibly a filter. In a well-formed table any two intervals are nested or disjoint, and a
clause comes before the clauses that enclose it. The theorems say what becomes of a table
when its intervals are moved, and when clauses are added behind it.
-/

namespace AutoInstrumentation.Lib

/-! ### Intervals -/

/-- The places from `lo` on and before `hi`. -/
structure Region (α : Type) where
  lo : α
  hi : α
  deriving Repr, DecidableEq

namespace Region

variable {α β : Type}

/-- The interval with its ends moved by `f` and by `g`. -/
def map (f g : α → β) (r : Region α) : Region β := ⟨f r.lo, g r.hi⟩

variable [LinearOrder α]

def Nonempty (r : Region α) : Prop := r.lo < r.hi

/-- `r` lies in `s`. -/
def Inside (r s : Region α) : Prop := s.lo ≤ r.lo ∧ r.hi ≤ s.hi

def Disjoint (r s : Region α) : Prop := r.hi ≤ s.lo ∨ s.hi ≤ r.lo

/-- Nested or disjoint. -/
def Laminar (r s : Region α) : Prop := r.Inside s ∨ s.Inside r ∨ r.Disjoint s

def Contains (r : Region α) (a : α) : Prop := r.lo ≤ a ∧ a < r.hi

instance (r : Region α) : Decidable r.Nonempty := inferInstanceAs (Decidable (_ < _))
instance (r s : Region α) : Decidable (r.Inside s) := inferInstanceAs (Decidable (_ ∧ _))
instance (r s : Region α) : Decidable (r.Disjoint s) := inferInstanceAs (Decidable (_ ∨ _))
instance (r s : Region α) : Decidable (r.Laminar s) := inferInstanceAs (Decidable (_ ∨ _ ∨ _))

theorem Disjoint.symm {r s : Region α} (h : r.Disjoint s) : s.Disjoint r := Or.symm h

theorem Laminar.symm {r s : Region α} (h : r.Laminar s) : s.Laminar r := by
  rcases h with h | h | h
  · exact .inr (.inl h)
  · exact .inl h
  · exact .inr (.inr h.symm)

/-- A moved interval contains what has become of the places of the interval. -/
theorem contains_map_iff {f : ℕ → α} (hf : Monotone f) {r : Region ℕ} {a : α} :
    (r.map f f).Contains a ↔ ∃ k, r.Contains k ∧ f k ≤ a ∧ a < f (k + 1) := by
  obtain ⟨lo, hi⟩ := r
  constructor
  · intro ⟨hlo, hhi⟩
    induction hi with
    | zero => exact absurd (lt_of_le_of_lt hlo hhi) (not_lt_of_ge (hf (Nat.zero_le lo)))
    | succ hi ih =>
        rcases lt_or_ge a (f hi) with hlt | hge
        · obtain ⟨k, ⟨hk, hkhi⟩, hak⟩ := ih hlo hlt
          exact ⟨k, ⟨hk, Nat.lt_succ_of_lt hkhi⟩, hak⟩
        · have hle : lo ≤ hi := by
            by_contra hgt
            exact absurd (lt_of_le_of_lt hlo hhi) (not_lt_of_ge (hf (Nat.lt_of_not_le hgt)))
          exact ⟨hi, ⟨hle, Nat.lt_succ_self hi⟩, hge, hhi⟩
  · intro ⟨k, ⟨hlo, hhi⟩, hak, hlt⟩
    exact ⟨le_trans (hf hlo) hak, lt_of_lt_of_le hlt (hf hhi)⟩

/-- Two intervals that start with the same place cover the same just when they end together. -/
theorem forall_contains_iff {r r' : Region ℕ} {n : ℕ} (hlo : r'.lo = r.lo)
    (hr : r.Nonempty) (hr' : r'.Nonempty) (hn : r.hi ≤ n) (hn' : r'.hi ≤ n) :
    (∀ p < n, r'.Contains p ↔ r.Contains p) ↔ r'.hi = r.hi := by
  obtain ⟨lo, hi⟩ := r
  obtain ⟨lo', hi'⟩ := r'
  simp only [Nonempty, Contains] at *
  subst hlo
  constructor
  · intro hsame
    rcases Nat.lt_trichotomy hi' hi with hlt | heq | hgt
    · have := hsame hi' (by omega)
      omega
    · exact heq
    · have := hsame hi (by omega)
      omega
  · rintro rfl p -
    exact Iff.rfl

end Region

/-! ### Clauses -/

/-- What a clause protects, its filter and its handler. -/
structure Clause (α : Type) where
  tryRange : Region α
  filter : Option (Region α)
  handler : Region α
  deriving Repr, DecidableEq

namespace Clause

variable {α β : Type}

/-- The intervals but the handler. -/
def guards (c : Clause α) : List (Region α) := c.tryRange :: c.filter.toList

def ranges (c : Clause α) : List (Region α) := c.handler :: c.guards

theorem tryRange_mem (c : Clause α) : c.tryRange ∈ c.guards := List.mem_cons_self

theorem handler_mem (c : Clause α) : c.handler ∈ c.ranges := List.mem_cons_self

theorem guards_subset (c : Clause α) : c.guards ⊆ c.ranges := List.subset_cons_self _ _

/-- The clause with its places moved by `f`, but the end of the handler by `g`. -/
def map (f g : α → β) (c : Clause α) : Clause β where
  tryRange := c.tryRange.map f f
  filter := c.filter.map (Region.map f f)
  handler := c.handler.map f g

theorem guards_map (f g : α → β) (c : Clause α) :
    (c.map f g).guards = c.guards.map (Region.map f f) := by
  cases hfilter : c.filter with
  | none => simp [guards, map, hfilter]
  | some r => simp [guards, map, hfilter]

/-- Something that holds of every interval of a moved clause. -/
theorem forall_ranges_map {f g : α → β} {c : Clause α} {P : Region β → Prop} :
    (∀ s ∈ (c.map f g).ranges, P s)
      ↔ P (c.handler.map f g) ∧ ∀ r ∈ c.guards, P (r.map f f) := by
  rw [ranges, List.forall_mem_cons, guards_map, List.forall_mem_map]
  rfl

theorem map_mem_ranges (f : α → β) {c : Clause α} {r : Region α} (hr : r ∈ c.ranges) :
    r.map f f ∈ (c.map f f).ranges := by
  rcases List.mem_cons.mp hr with rfl | hr
  · exact handler_mem _
  · refine guards_subset _ ?_
    rw [guards_map]
    exact List.mem_map_of_mem hr

variable [LinearOrder α]

/-- What `d` protects lies in `c`, and is not what `c` protects. -/
def Encloses (c d : Clause α) : Prop :=
  d.tryRange ≠ c.tryRange ∧ ∃ r ∈ c.ranges, d.tryRange.Inside r

end Clause

/-! ### Tables -/

section tables

variable {α : Type} [LinearOrder α]

/-- **Well-formed tables.** -/
structure WellFormedTable (t : List (Clause α)) : Prop where
  nonempty : ∀ c ∈ t, ∀ r ∈ c.ranges, r.Nonempty
  apart : ∀ c ∈ t, c.tryRange.Disjoint c.handler
  laminar : ∀ c ∈ t, ∀ d ∈ t, ∀ r ∈ c.ranges, ∀ s ∈ d.ranges, r.Laminar s
  ordered : t.Pairwise fun c d => ¬c.Encloses d

/-- `d` can stand behind `c` in a table. -/
structure Follows (c d : Clause α) : Prop where
  laminar : ∀ r ∈ c.ranges, ∀ s ∈ d.ranges, r.Laminar s
  outside : ¬c.Encloses d

/-- Two tables one behind the other. -/
theorem wellFormedTable_append {t u : List (Clause α)} :
    WellFormedTable (t ++ u)
      ↔ WellFormedTable t ∧ WellFormedTable u ∧ ∀ c ∈ t, ∀ d ∈ u, Follows c d := by
  constructor
  · intro h
    obtain ⟨ht, hu, hbehind⟩ := List.pairwise_append.mp h.ordered
    have hleft {c : Clause α} (hc : c ∈ t) : c ∈ t ++ u := List.mem_append_left u hc
    have hright {c : Clause α} (hc : c ∈ u) : c ∈ t ++ u := List.mem_append_right t hc
    refine ⟨⟨?_, ?_, ?_, ht⟩, ⟨?_, ?_, ?_, hu⟩, ?_⟩
    · exact fun c hc => h.nonempty c (hleft hc)
    · exact fun c hc => h.apart c (hleft hc)
    · exact fun c hc d hd => h.laminar c (hleft hc) d (hleft hd)
    · exact fun c hc => h.nonempty c (hright hc)
    · exact fun c hc => h.apart c (hright hc)
    · exact fun c hc d hd => h.laminar c (hright hc) d (hright hd)
    · exact fun c hc d hd => ⟨h.laminar c (hleft hc) d (hright hd), hbehind c hc d hd⟩
  · rintro ⟨ht, hu, hfollows⟩
    refine ⟨?_, ?_, ?_, ?_⟩
    · intro c hc
      exact (List.mem_append.mp hc).elim (ht.nonempty c) (hu.nonempty c)
    · intro c hc
      exact (List.mem_append.mp hc).elim (ht.apart c) (hu.apart c)
    · intro c hc d hd r hr s hs
      rcases List.mem_append.mp hc with hc | hc
      · rcases List.mem_append.mp hd with hd | hd
        · exact ht.laminar c hc d hd r hr s hs
        · exact (hfollows c hc d hd).laminar r hr s hs
      · rcases List.mem_append.mp hd with hd | hd
        · exact ((hfollows d hd c hc).laminar s hs r hr).symm
        · exact hu.laminar c hc d hd r hr s hs
    · exact List.pairwise_append.mpr
        ⟨ht.ordered, hu.ordered, fun c hc d hd => (hfollows c hc d hd).outside⟩

/-- The clauses of a table one by one. -/
theorem wellFormedTable_cons {c : Clause α} {t : List (Clause α)} (hc : WellFormedTable [c])
    (ht : WellFormedTable t) (h : ∀ d ∈ t, Follows c d) : WellFormedTable (c :: t) :=
  wellFormedTable_append.mpr ⟨hc, ht, fun _ ha d hd => List.mem_singleton.mp ha ▸ h d hd⟩

/-- A table of one clause. -/
theorem wellFormedTable_singleton {c : Clause α} (hnonempty : ∀ r ∈ c.ranges, r.Nonempty)
    (hapart : c.tryRange.Disjoint c.handler)
    (hlaminar : ∀ r ∈ c.ranges, ∀ s ∈ c.ranges, r.Laminar s) : WellFormedTable [c] := by
  refine ⟨?_, ?_, ?_, List.pairwise_singleton _ _⟩
  · intro d hd
    rw [List.mem_singleton.mp hd]
    exact hnonempty
  · intro d hd
    rw [List.mem_singleton.mp hd]
    exact hapart
  · intro d hd e he
    rw [List.mem_singleton.mp hd, List.mem_singleton.mp he]
    exact hlaminar

/-- A clause may follow one that has a place to itself: its intervals enclose the place, or
are apart from it. -/
theorem follows_of_within {c d : Clause α} (lo hi : α)
    (hc : ∀ r ∈ c.ranges, lo ≤ r.lo ∧ r.hi ≤ hi)
    (hd : ∀ s ∈ d.ranges, s.lo ≤ lo ∧ hi ≤ s.hi ∨ hi ≤ s.lo ∨ s.hi ≤ lo)
    (hout : ∀ r ∈ c.ranges, ¬d.tryRange.Inside r) : Follows c d := by
  refine ⟨fun r hr s hs => ?_, fun ⟨_, r, hr, hin⟩ => hout r hr hin⟩
  obtain ⟨hlo, hhi⟩ := hc r hr
  rcases hd s hs with ⟨hslo, hshi⟩ | hs | hs
  · exact .inl ⟨le_trans hslo hlo, le_trans hhi hshi⟩
  · exact .inr (.inr (.inl (le_trans hhi hs)))
  · exact .inr (.inr (.inr (le_trans hs hlo)))

end tables

/-! ### Moving the places of a table -/

variable {α β : Type} [LinearOrder α] [LinearOrder β]

/-- All ends of the intervals are in `places`. -/
def EndsIn (places : Set α) (t : List (Clause α)) : Prop :=
  ∀ c ∈ t, ∀ r ∈ c.ranges, r.lo ∈ places ∧ r.hi ∈ places

/-- `g` is `f`, or falls short of it by less than a place. -/
structure Shortens (places : Set α) (f g : α → β) : Prop where
  mono : StrictMonoOn f places
  le : ∀ a ∈ places, g a ≤ f a
  lt : ∀ a ∈ places, ∀ b ∈ places, a < b → f a < g b

theorem shortens_self {places : Set α} {f : α → β} (hf : StrictMonoOn f places) :
    Shortens places f f := ⟨hf, fun _ _ => le_rfl, fun _ ha _ hb hab => hf ha hb hab⟩

section moving

variable {places : Set α} {f g : α → β}

theorem inside_map (hf : StrictMonoOn f places) {r s : Region α}
    (hr : r.lo ∈ places ∧ r.hi ∈ places) (hs : s.lo ∈ places ∧ s.hi ∈ places) :
    (r.map f f).Inside (s.map f f) ↔ r.Inside s :=
  and_congr (hf.le_iff_le hs.1 hr.1) (hf.le_iff_le hr.2 hs.2)

theorem disjoint_map (hf : StrictMonoOn f places) {r s : Region α}
    (hr : r.lo ∈ places ∧ r.hi ∈ places) (hs : s.lo ∈ places ∧ s.hi ∈ places) :
    (r.map f f).Disjoint (s.map f f) ↔ r.Disjoint s :=
  or_congr (hf.le_iff_le hr.2 hs.1) (hf.le_iff_le hs.2 hr.1)

theorem laminar_map (hf : StrictMonoOn f places) {r s : Region α}
    (hr : r.lo ∈ places ∧ r.hi ∈ places) (hs : s.lo ∈ places ∧ s.hi ∈ places) :
    (r.map f f).Laminar (s.map f f) ↔ r.Laminar s :=
  or_congr (inside_map hf hr hs) (or_congr (inside_map hf hs hr) (disjoint_map hf hr hs))

/-- Disjoint intervals stay so when they end earlier. -/
theorem Shortens.disjoint (hg : Shortens places f g) {r s : Region α}
    (hr : r.lo ∈ places ∧ r.hi ∈ places) (hs : s.lo ∈ places ∧ s.hi ∈ places)
    (h : r.Disjoint s) : (r.map f g).Disjoint (s.map f f) := by
  rcases h with h | h
  · exact .inl (le_trans (hg.le _ hr.2) ((hg.mono.le_iff_le hr.2 hs.1).mpr h))
  · exact .inr ((hg.mono.le_iff_le hs.2 hr.1).mpr h)

/-- A handler and another interval, moved: they stay nested or disjoint unless the interval
starts within the handler, ended with it, and now ends behind it. -/
theorem Shortens.laminar_handler (hg : Shortens places f g) {r h : Region α}
    (hr : r.lo ∈ places ∧ r.hi ∈ places) (hh : h.lo ∈ places ∧ h.hi ∈ places)
    (hne : r.Nonempty) (hlaminar : h.Laminar r) :
    (h.map f g).Laminar (r.map f f) ↔ (r.hi = h.hi → h.lo < r.lo → g h.hi = f h.hi) := by
  constructor
  · intro hmoved heq hlt
    have hrlo : f r.lo < g h.hi := hg.lt _ hr.1 _ hh.2 (heq ▸ hne)
    rcases hmoved with hin | hin | hout | hout
    · exact absurd ((hg.mono.le_iff_le hr.1 hh.1).mp hin.1) (not_le_of_gt hlt)
    · refine le_antisymm (hg.le _ hh.2) ?_
      calc f h.hi = f r.hi := congrArg f heq.symm
        _ ≤ g h.hi := hin.2
    · exact absurd hout (not_le_of_gt hrlo)
    · exact absurd ((hg.mono.le_iff_le hr.2 hh.1).mp hout) (not_le_of_gt (lt_trans hlt hne))
  · intro hclash
    rcases hlaminar with hin | hin | hout
    · exact .inl ⟨(hg.mono.le_iff_le hr.1 hh.1).mpr hin.1,
        le_trans (hg.le _ hh.2) ((hg.mono.le_iff_le hh.2 hr.2).mpr hin.2)⟩
    · rcases lt_or_eq_of_le hin.2 with hlt | heq
      · exact .inr (.inl ⟨(hg.mono.le_iff_le hh.1 hr.1).mpr hin.1,
          le_of_lt (hg.lt _ hr.2 _ hh.2 hlt)⟩)
      · rcases lt_or_eq_of_le hin.1 with hlt | hlo
        · refine .inr (.inl ⟨(hg.mono.le_iff_le hh.1 hr.1).mpr hin.1, ?_⟩)
          show f r.hi ≤ g h.hi
          rw [hclash heq hlt, heq]
        · refine .inl ⟨(hg.mono.le_iff_le hr.1 hh.1).mpr (le_of_eq hlo.symm), ?_⟩
          show g h.hi ≤ f r.hi
          rw [heq]
          exact hg.le _ hh.2
    · exact .inr (.inr (hg.disjoint hh hr hout))

/-- Two handlers, moved. -/
theorem Shortens.laminar_handlers (hg : Shortens places f g) {h k : Region α}
    (hh : h.lo ∈ places ∧ h.hi ∈ places) (hk : k.lo ∈ places ∧ k.hi ∈ places)
    (hlaminar : h.Laminar k) : (h.map f g).Laminar (k.map f g) := by
  have inside {r s : Region α} (hr : r.lo ∈ places ∧ r.hi ∈ places)
      (hs : s.lo ∈ places ∧ s.hi ∈ places) (hin : r.Inside s) :
      (r.map f g).Inside (s.map f g) := by
    refine ⟨(hg.mono.le_iff_le hs.1 hr.1).mpr hin.1, ?_⟩
    rcases lt_or_eq_of_le hin.2 with hlt | heq
    · exact le_trans (hg.le _ hr.2) (le_of_lt (hg.lt _ hr.2 _ hs.2 hlt))
    · exact le_of_eq (congrArg g heq)
  rcases hlaminar with hin | hin | hout | hout
  · exact .inl (inside hh hk hin)
  · exact .inr (.inl (inside hk hh hin))
  · exact .inr (.inr (.inl (le_trans (hg.le _ hh.2) ((hg.mono.le_iff_le hh.2 hk.1).mpr hout))))
  · exact .inr (.inr (.inr (le_trans (hg.le _ hk.2) ((hg.mono.le_iff_le hk.2 hh.1).mpr hout))))

/-- No clause encloses another one only when they are moved. -/
theorem Shortens.encloses (hg : Shortens places f g) {c d : Clause α}
    (hc : ∀ r ∈ c.ranges, r.lo ∈ places ∧ r.hi ∈ places)
    (hd : ∀ r ∈ d.ranges, r.lo ∈ places ∧ r.hi ∈ places)
    (h : (c.map f g).Encloses (d.map f g)) : c.Encloses d := by
  obtain ⟨hne, s, hs, hin⟩ := h
  have hdtry := hd _ (d.guards_subset d.tryRange_mem)
  refine ⟨fun heq => hne (congrArg (Region.map f f) heq), ?_⟩
  revert hin
  refine Clause.forall_ranges_map (P := fun s => (d.map f g).tryRange.Inside s → _) |>.mpr
    ⟨fun hin => ?_, fun r hr hin => ?_⟩ s hs
  · have hh := hc _ c.handler_mem
    exact ⟨c.handler, c.handler_mem, (hg.mono.le_iff_le hh.1 hdtry.1).mp hin.1,
      (hg.mono.le_iff_le hdtry.2 hh.2).mp (le_trans hin.2 (hg.le _ hh.2))⟩
  · have hr' := hc r (c.guards_subset hr)
    exact ⟨r, c.guards_subset hr, (inside_map hg.mono hdtry hr').mp hin⟩

end moving

/-- **Moving a table.** Intervals that are moved by a strictly monotone function stay nested
or disjoint, and the handlers may even end earlier, unless an interval starts within a
handler and ended with it. -/
theorem wellFormedTable_map_iff {places : Set α} {f g : α → β} {t : List (Clause α)}
    (hg : Shortens places f g) (hends : EndsIn places t) (h : WellFormedTable t) :
    WellFormedTable (t.map (Clause.map f g)) ↔
      ∀ c ∈ t, ∀ d ∈ t, ∀ r ∈ d.guards, r.hi = c.handler.hi → c.handler.lo < r.lo →
        g c.handler.hi = f c.handler.hi := by
  have handler {c : Clause α} (hc : c ∈ t) := hends c hc _ c.handler_mem
  have guard {c : Clause α} (hc : c ∈ t) {r : Region α} (hr : r ∈ c.guards) :=
    hends c hc r (c.guards_subset hr)
  have clash {c d : Clause α} (hc : c ∈ t) (hd : d ∈ t) {r : Region α} (hr : r ∈ d.guards) :=
    hg.laminar_handler (guard hd hr) (handler hc) (h.nonempty d hd r (d.guards_subset hr))
      (h.laminar c hc d hd _ c.handler_mem r (d.guards_subset hr))
  constructor
  · intro hmoved c hc d hd r hr
    refine (clash hc hd hr).mp (hmoved.laminar _ (List.mem_map_of_mem hc) _
      (List.mem_map_of_mem hd) _ (Clause.handler_mem _) _ ?_)
    refine Clause.guards_subset _ ?_
    rw [Clause.guards_map]
    exact List.mem_map_of_mem hr
  · intro hclash
    refine ⟨?_, ?_, ?_, ?_⟩
    · rw [List.forall_mem_map]
      refine fun c hc => Clause.forall_ranges_map.mpr ⟨?_, fun r hr => ?_⟩
      · exact hg.lt _ (handler hc).1 _ (handler hc).2 (h.nonempty c hc _ c.handler_mem)
      · exact hg.mono (guard hc hr).1 (guard hc hr).2 (h.nonempty c hc r (c.guards_subset hr))
    · rw [List.forall_mem_map]
      intro c hc
      exact (hg.disjoint (handler hc) (guard hc c.tryRange_mem) (h.apart c hc).symm).symm
    · rw [List.forall_mem_map]
      intro c hc
      rw [List.forall_mem_map]
      intro d hd
      refine Clause.forall_ranges_map.mpr ⟨?_, fun r hr => ?_⟩
      · refine Clause.forall_ranges_map.mpr ⟨?_, fun s hs => ?_⟩
        · exact hg.laminar_handlers (handler hc) (handler hd)
            (h.laminar c hc d hd _ c.handler_mem _ d.handler_mem)
        · exact (clash hc hd hs).mpr (hclash c hc d hd s hs)
      · refine Clause.forall_ranges_map.mpr ⟨?_, fun s hs => ?_⟩
        · exact ((clash hd hc hr).mpr (hclash d hd c hc r hr)).symm
        · exact (laminar_map hg.mono (guard hc hr) (guard hd hs)).mpr
            (h.laminar c hc d hd r (c.guards_subset hr) s (d.guards_subset hs))
    · rw [List.pairwise_map]
      refine h.ordered.imp_of_mem ?_
      intro c d hc hd hout hmoved
      exact hout (hg.encloses (hends c hc) (hends d hd) hmoved)

/-- A strictly monotone function neither makes a table well formed nor spoils it. -/
theorem wellFormedTable_map {places : Set α} {f : α → β} {t : List (Clause α)}
    (hf : StrictMonoOn f places) (hends : EndsIn places t) :
    WellFormedTable (t.map (Clause.map f f)) ↔ WellFormedTable t := by
  refine ⟨fun h => ?_, fun h =>
    (wellFormedTable_map_iff (shortens_self hf) hends h).mpr fun _ _ _ _ _ _ _ _ => rfl⟩
  refine ⟨?_, ?_, ?_, ?_⟩
  · intro c hc r hr
    have hne := h.nonempty _ (List.mem_map_of_mem hc) _ (Clause.map_mem_ranges f hr)
    exact (hf.lt_iff_lt (hends c hc r hr).1 (hends c hc r hr).2).mp hne
  · intro c hc
    exact (disjoint_map hf (hends c hc _ (c.guards_subset c.tryRange_mem))
      (hends c hc _ c.handler_mem)).mp (h.apart _ (List.mem_map_of_mem hc))
  · intro c hc d hd r hr s hs
    exact (laminar_map hf (hends c hc r hr) (hends d hd s hs)).mp
      (h.laminar _ (List.mem_map_of_mem hc) _ (List.mem_map_of_mem hd)
        _ (Clause.map_mem_ranges f hr) _ (Clause.map_mem_ranges f hs))
  · refine (List.pairwise_map.mp h.ordered).imp_of_mem ?_
    rintro c d hc hd hout ⟨hne, r, hr, hin⟩
    have hdtry := hends d hd _ (d.guards_subset d.tryRange_mem)
    have hctry := hends c hc _ (c.guards_subset c.tryRange_mem)
    refine hout ⟨fun heq => hne ?_, r.map f f, Clause.map_mem_ranges f hr,
      (inside_map hf hdtry (hends c hc r hr)).mpr hin⟩
    have hlo : d.tryRange.lo = c.tryRange.lo :=
      hf.injOn hdtry.1 hctry.1 (congrArg Region.lo heq)
    have hhi : d.tryRange.hi = c.tryRange.hi :=
      hf.injOn hdtry.2 hctry.2 (congrArg Region.hi heq)
    cases hd' : d.tryRange with
    | mk lo hi =>
        cases hc' : c.tryRange with
        | mk lo' hi' =>
            rw [hd', hc'] at hlo hhi
            exact congrArg₂ Region.mk hlo hhi

end AutoInstrumentation.Lib
