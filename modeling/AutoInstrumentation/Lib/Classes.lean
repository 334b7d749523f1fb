import Mathlib.Algebra.Ring.Nat

/-!
# AutoInstrumentation.Lib.Classes

Lists that are updated class by class.

Each step of a run has a class of elements of its own: it replaces the elements of this
class, as they demand, and keeps all others. So the steps of a run do not see each other,
whatever their order.
-/

namespace AutoInstrumentation.Lib

variable {α β : Type}

/-! ### Classes -/

/-- Nothing is in both. -/
def Apart (p q : α → Bool) : Prop := ∀ x, p x = true → q x = false

theorem Apart.symm {p q : α → Bool} (h : Apart p q) : Apart q p := by
  intro x hq
  cases hp : p x with
  | false => rfl
  | true =>
      rw [h x hp] at hq
      cases hq

theorem filter_apart {p q : α → Bool} (h : Apart p q) (xs : List α) :
    (xs.filter fun x => !p x).filter q = xs.filter q := by
  rw [List.filter_filter]
  refine List.filter_congr fun x _ => ?_
  cases hp : p x with
  | false => simp
  | true => simp [h x hp]

/-- **Lists with the same elements** in each class, and outside all of them, are the same but
for their order. -/
theorem perm_of_classes (ps : List (α → Bool)) {xs ys : List α}
    (h : ∀ p ∈ ps, xs.filter p = ys.filter p)
    (houtside : ∀ q, (∀ p ∈ ps, Apart p q) → xs.filter q = ys.filter q) : xs.Perm ys := by
  induction ps generalizing xs ys with
  | nil =>
      have heq := houtside (fun _ => true) (fun p hp => by cases hp)
      rw [List.filter_eq_self.mpr fun _ _ => rfl, List.filter_eq_self.mpr fun _ _ => rfl] at heq
      exact .of_eq heq
  | cons p ps ih =>
      have hothers : (xs.filter fun x => !p x).Perm (ys.filter fun x => !p x) := by
        refine ih (fun q hq => ?_) fun q hq => ?_
        · rw [List.filter_filter, List.filter_filter]
          have hclass := congrArg (List.filter fun x => !p x) (h q (List.mem_cons_of_mem p hq))
          rw [List.filter_filter, List.filter_filter] at hclass
          simpa only [Bool.and_comm] using hclass
        · -- what is outside the other classes, and outside the first
          have hfirst : Apart p fun x => q x && !p x := by
            intro x hp
            simp [hp]
          have hrest (r : α → Bool) (hr : r ∈ ps) : Apart r fun x => q x && !p x := by
            intro x hx
            simp [hq r hr x hx]
          rw [List.filter_filter, List.filter_filter]
          refine houtside _ fun r hr => ?_
          rcases List.mem_cons.mp hr with rfl | hr
          · exact hfirst
          · exact hrest r hr
      have hxs := List.filter_append_perm p xs
      rw [h p List.mem_cons_self] at hxs
      exact hxs.symm.trans ((hothers.append_left _).trans (List.filter_append_perm p ys))

/-! ### Runs -/

/-- A step updates the elements of its class, by themselves, and keeps all others. -/
structure Classwise (classOf : β → α → Bool) (update : β → List α → Option (List α))
    (step : List α → β → Option (List α)) : Prop where
  isSome : ∀ xs b, (step xs b).isSome = (update b (xs.filter (classOf b))).isSome
  own : ∀ {xs b ys}, step xs b = some ys →
    update b (xs.filter (classOf b)) = some (ys.filter (classOf b))
  others : ∀ {xs b ys}, step xs b = some ys →
    ∀ q, Apart (classOf b) q → ys.filter q = xs.filter q

section Runs

variable {classOf : β → α → Bool} {update : β → List α → Option (List α)}
  {step : List α → β → Option (List α)} {bs bs' : List β} {xs ys zs : List α}

/-- The classes of a run have nothing in common. -/
abbrev Separate (classOf : β → α → Bool) (bs : List β) : Prop :=
  bs.Pairwise fun b c => Apart (classOf b) (classOf c)

theorem Separate.perm (h : Separate classOf bs) (hbs : bs.Perm bs') : Separate classOf bs' :=
  hbs.pairwise h Apart.symm

/-- **A run** updates each class once, and keeps what is in none. -/
theorem Classwise.run (h : Classwise classOf update step) (hbs : Separate classOf bs)
    (hrun : bs.foldlM step xs = some ys) :
    (∀ b ∈ bs, update b (xs.filter (classOf b)) = some (ys.filter (classOf b)))
      ∧ ∀ q, (∀ b ∈ bs, Apart (classOf b) q) → ys.filter q = xs.filter q := by
  induction bs generalizing xs with
  | nil =>
      cases hrun
      exact ⟨(fun b hb => by cases hb), fun q _ => rfl⟩
  | cons b bs ih =>
      rw [List.foldlM_cons] at hrun
      obtain ⟨stepped, hstep, hrun⟩ := Option.bind_eq_some_iff.mp hrun
      obtain ⟨hb, hbs⟩ := List.pairwise_cons.mp hbs
      obtain ⟨hclasses, houtside⟩ := ih hbs hrun
      refine ⟨fun c hc => ?_, fun q hq => ?_⟩
      · rcases List.mem_cons.mp hc with rfl | hc
        · rw [houtside _ fun d hd => (hb d hd).symm]
          exact h.own hstep
        · rw [← h.others hstep _ (hb c hc)]
          exact hclasses c hc
      · rw [houtside q fun c hc => hq c (List.mem_cons_of_mem b hc)]
        exact h.others hstep q (hq b List.mem_cons_self)

/-- A run goes through when each class can be updated. -/
theorem Classwise.isSome_run (h : Classwise classOf update step) (hbs : Separate classOf bs)
    (xs : List α)
    (hsome : ∀ b ∈ bs, (update b (xs.filter (classOf b))).isSome = true) :
    (bs.foldlM step xs).isSome = true := by
  induction bs generalizing xs with
  | nil => rfl
  | cons b bs ih =>
      obtain ⟨hb, hbs⟩ := List.pairwise_cons.mp hbs
      have hstep := h.isSome xs b
      rw [hsome b List.mem_cons_self] at hstep
      obtain ⟨stepped, hstep⟩ := Option.isSome_iff_exists.mp hstep
      rw [List.foldlM_cons, hstep]
      refine ih hbs stepped fun c hc => ?_
      rw [h.others hstep _ (hb c hc)]
      exact hsome c (List.mem_cons_of_mem b hc)

/-- **The order of the steps** does not matter. -/
theorem Classwise.run_perm (h : Classwise classOf update step) (hbs : Separate classOf bs)
    (hperm : bs.Perm bs') (hrun : bs.foldlM step xs = some ys) :
    ∃ zs, bs'.foldlM step xs = some zs ∧ zs.Perm ys := by
  obtain ⟨hclasses, houtside⟩ := h.run hbs hrun
  obtain ⟨zs, hzs⟩ := Option.isSome_iff_exists.mp
    (h.isSome_run (hbs.perm hperm) xs fun b hb => by
      rw [hclasses b (hperm.mem_iff.mpr hb)]
      rfl)
  obtain ⟨hclasses', houtside'⟩ := h.run (hbs.perm hperm) hzs
  refine ⟨zs, hzs, perm_of_classes (bs.map classOf) (fun p hp => ?_) fun q hq => ?_⟩
  · obtain ⟨b, hb, rfl⟩ := List.mem_map.mp hp
    have heq := hclasses' b (hperm.mem_iff.mp hb)
    rw [hclasses b hb] at heq
    exact (Option.some.inj heq).symm
  · rw [houtside q fun b hb => hq _ (List.mem_map_of_mem hb),
      houtside' q fun b hb => hq _ (List.mem_map_of_mem (hperm.mem_iff.mpr hb))]

/-- **A second run** of updates that keep their own results changes nothing but the order. -/
theorem Classwise.run_again (h : Classwise classOf update step) (hbs : Separate classOf bs)
    (hagain : ∀ b ∈ bs, ∀ us vs, (∀ u ∈ us, classOf b u = true) →
      update b us = some vs → update b vs = some vs)
    (hrun : bs.foldlM step xs = some ys) :
    ∃ zs, bs.foldlM step ys = some zs ∧ zs.Perm ys := by
  obtain ⟨hclasses, -⟩ := h.run hbs hrun
  have hkept (b : β) (hb : b ∈ bs) := hagain b hb _ _ (fun u hu => (List.mem_filter.mp hu).2)
    (hclasses b hb)
  obtain ⟨zs, hzs⟩ := Option.isSome_iff_exists.mp
    (h.isSome_run hbs ys fun b hb => by
      rw [hkept b hb]
      rfl)
  obtain ⟨hclasses', houtside'⟩ := h.run hbs hzs
  refine ⟨zs, hzs, perm_of_classes (bs.map classOf) (fun p hp => ?_) fun q hq => ?_⟩
  · obtain ⟨b, hb, rfl⟩ := List.mem_map.mp hp
    have heq := hclasses' b hb
    rw [hkept b hb] at heq
    exact (Option.some.inj heq).symm
  · exact houtside' q fun b hb => hq _ (List.mem_map_of_mem hb)

end Runs

end AutoInstrumentation.Lib
