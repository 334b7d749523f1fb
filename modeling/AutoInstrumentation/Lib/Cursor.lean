import Mathlib.Algebra.Ring.Nat
import Mathlib.Data.List.Basic

/-!
# AutoInstrumentation.Lib.Cursor

Cursors over a list of tokens, and the rules to reason about what they consume.

A cursor is a partial function from the tokens ahead to a result and the tokens
it leaves. Two judgements relate a cursor to an encoding `bs`: `Reads p bs a`
says that `p` reads exactly `bs`, with the result `a`, whatever follows; and
`Takes p bs Q` says that `p`, *if* it succeeds on an input that starts with `bs`,
has consumed exactly `bs`, with a result that satisfies `Q`. Both compose along
the monad's bind, so that the proof about a parser follows its text. `Shrinks`
bounds what a cursor leaves, which is what a recursion over the input needs.
-/

namespace AutoInstrumentation.Lib

/-- Read from the front of a list of tokens, or fail. -/
abbrev Cursor (β : Type) (α : Type) := StateT (List β) Option α

namespace Cursor

variable {β α γ : Type}

/-- The next token. -/
def next : Cursor β β
  | [] => none
  | b :: bs => some (b, bs)

/-- The next token, left where it is. -/
def peek : Cursor β β
  | [] => none
  | b :: bs => some (b, b :: bs)

/-- How many tokens are left. -/
def remaining : Cursor β ℕ := fun bs => some (bs.length, bs)

/-- The next `n` tokens, all of them or none. -/
def takeN (n : ℕ) : Cursor β (List β) := fun bs =>
  if n ≤ bs.length then some (bs.take n, bs.drop n) else none

/-- Run a cursor `n` times. -/
def times (p : Cursor β Unit) : ℕ → Cursor β Unit
  | 0 => pure ()
  | n + 1 => do
      p
      times p n

theorem bind_apply (p : Cursor β α) (f : α → Cursor β γ) (bs : List β) :
    (p >>= f) bs = (p bs).bind fun r => f r.1 r.2 := rfl

theorem bind_eq_some {p : Cursor β α} {f : α → Cursor β γ} {bs r : List β} {c : γ}
    (h : (p >>= f) bs = some (c, r)) : ∃ a m, p bs = some (a, m) ∧ f a m = some (c, r) := by
  rw [bind_apply] at h
  obtain ⟨⟨a, m⟩, ha, hf⟩ := Option.bind_eq_some_iff.mp h
  exact ⟨a, m, ha, hf⟩

theorem pure_apply (a : α) (bs : List β) : (pure a : Cursor β α) bs = some (a, bs) := rfl

theorem failure_apply (bs : List β) : (failure : Cursor β α) bs = none := rfl

/-! ### Exact reading -/

/-- `p` reads exactly `bs`, and gives `a`. -/
def Reads (p : Cursor β α) (bs : List β) (a : α) : Prop :=
  ∀ rest, p (bs ++ rest) = some (a, rest)

/-- If `p` succeeds where `bs` is next, it reads exactly `bs`, and its result
satisfies `Q`. -/
def Takes (p : Cursor β α) (bs : List β) (Q : α → Prop) : Prop :=
  ∀ rest a r, p (bs ++ rest) = some (a, r) → r = rest ∧ Q a

theorem reads_pure (a : α) : Reads (pure a : Cursor β α) [] a := fun _ => rfl

theorem reads_next (b : β) : Reads next [b] b := fun _ => rfl

theorem Reads.bind {p : Cursor β α} {f : α → Cursor β γ} {bs cs : List β} {a : α} {c : γ}
    (hp : Reads p bs a) (hf : Reads (f a) cs c) : Reads (p >>= f) (bs ++ cs) c := by
  intro rest
  rw [bind_apply, List.append_assoc, hp]
  exact hf rest

/-- What is left to read once the first part is known. -/
theorem Reads.unbind {p : Cursor β α} {f : α → Cursor β γ} {bs cs : List β} {a : α} {c : γ}
    (hp : Reads p bs a) (h : Reads (p >>= f) (bs ++ cs) c) : Reads (f a) cs c := by
  intro rest
  have hrest := h rest
  rwa [bind_apply, List.append_assoc, hp] at hrest

theorem reads_takeN (bs : List β) : Reads (takeN bs.length) bs bs := by
  intro rest
  rw [takeN, if_pos (by rw [List.length_append]; exact Nat.le_add_right _ _),
    List.take_left, List.drop_left]

/-- A cursor that only reshapes the result of another. -/
theorem Reads.bind_pure {p : Cursor β α} {bs : List β} {a : α} (h : Reads p bs a) (f : α → γ) :
    Reads (p >>= fun a => pure (f a)) bs (f a) := by
  have hb := h.bind (f := fun a => (pure (f a) : Cursor β γ)) (reads_pure (f a))
  rwa [List.append_nil] at hb

/-- A cursor that reads the whole of its encoding needs no more than its length. -/
theorem reads_remaining {f : ℕ → Cursor β α} {bs : List β} {a : α}
    (h : ∀ n, bs.length ≤ n → Reads (f n) bs a) : Reads (remaining >>= f) bs a := by
  intro rest
  rw [bind_apply]
  refine h _ ?_ rest
  rw [List.length_append]
  exact Nat.le_add_right _ _

/-- Looking at the next token consumes nothing. -/
theorem reads_peek {b : β} {f : β → Cursor β γ} {cs : List β} {c : γ}
    (h : Reads (f b) (b :: cs) c) : Reads (peek >>= f) (b :: cs) c := fun rest => h rest

/-- A cursor whose first token is known. -/
theorem Reads.next {b : β} {f : β → Cursor β γ} {cs : List β} {c : γ}
    (h : Reads (f b) cs c) : Reads (Cursor.next >>= f) (b :: cs) c := (reads_next b).bind h

theorem Reads.takes {p : Cursor β α} {bs : List β} {a : α} (h : Reads p bs a) :
    Takes p bs (· = a) := by
  intro rest b r hr
  rw [h rest] at hr
  obtain ⟨rfl, rfl⟩ := Prod.mk.inj (Option.some.inj hr)
  exact ⟨rfl, rfl⟩

theorem takes_failure (bs : List β) (Q : α → Prop) : Takes (failure : Cursor β α) bs Q :=
  fun _ _ _ h => nomatch h

theorem takes_pure {a : α} {Q : α → Prop} (h : Q a) : Takes (pure a : Cursor β α) [] Q :=
  fun _ _ _ hr => by
    obtain ⟨rfl, rfl⟩ := Prod.mk.inj (Option.some.inj hr)
    exact ⟨rfl, h⟩

theorem Takes.mono {p : Cursor β α} {bs : List β} {Q R : α → Prop} (h : Takes p bs Q)
    (hQ : ∀ a, Q a → R a) : Takes p bs R :=
  fun rest a r hr => (h rest a r hr).imp_right (hQ a)

theorem Takes.bind {p : Cursor β α} {f : α → Cursor β γ} {bs cs : List β} {Q : α → Prop}
    {R : γ → Prop} (hp : Takes p bs Q) (hf : ∀ a, Q a → Takes (f a) cs R) :
    Takes (p >>= f) (bs ++ cs) R := by
  intro rest c r h
  rw [List.append_assoc] at h
  obtain ⟨a, m, ha, hc⟩ := bind_eq_some h
  obtain ⟨rfl, hQ⟩ := hp (cs ++ rest) a m ha
  exact hf a hQ rest c r hc

/-- A cursor that only reshapes the result of another. -/
theorem Takes.bind_pure {p : Cursor β α} {f : α → γ} {bs : List β} {Q : α → Prop}
    {R : γ → Prop} (hp : Takes p bs Q) (hf : ∀ a, Q a → R (f a)) :
    Takes (p >>= fun a => pure (f a)) bs R := by
  have h := hp.bind (f := fun a => (pure (f a) : Cursor β γ)) fun a ha => takes_pure (hf a ha)
  rwa [List.append_nil] at h

/-- A cursor whose first token is known. -/
theorem takes_next {b : β} {f : β → Cursor β γ} {cs : List β} {R : γ → Prop}
    (h : Takes (f b) cs R) : Takes (next >>= f) (b :: cs) R :=
  (reads_next b).takes.bind fun _ hb => hb ▸ h

/-- Looking at the next token consumes nothing. -/
theorem takes_peek {b : β} {f : β → Cursor β γ} {cs : List β} {R : γ → Prop}
    (h : Takes (f b) (b :: cs) R) : Takes (peek >>= f) (b :: cs) R :=
  fun rest c r hr => h rest c r hr

/-! ### What a cursor leaves -/

/-- `p` never leaves more than it was given. -/
def Shrinks (p : Cursor β α) : Prop :=
  ∀ bs a r, p bs = some (a, r) → r.length ≤ bs.length

theorem shrinks_pure (a : α) : Shrinks (pure a : Cursor β α) := by
  intro bs b r h
  obtain ⟨-, rfl⟩ := Prod.mk.inj (Option.some.inj h)
  exact Nat.le_refl _

theorem shrinks_failure : Shrinks (failure : Cursor β α) := fun _ _ _ h => nomatch h

theorem shrinks_next : Shrinks (next : Cursor β β) := by
  intro bs b r h
  cases bs with
  | nil => cases h
  | cons b bs =>
      obtain ⟨-, rfl⟩ := Prod.mk.inj (Option.some.inj h)
      exact Nat.le_succ _

theorem shrinks_peek : Shrinks (peek : Cursor β β) := by
  intro bs b r h
  cases bs with
  | nil => cases h
  | cons b bs =>
      obtain ⟨-, rfl⟩ := Prod.mk.inj (Option.some.inj h)
      exact Nat.le_refl _

theorem shrinks_takeN (n : ℕ) : Shrinks (takeN n : Cursor β (List β)) := by
  intro bs a r h
  rw [takeN] at h
  by_cases hn : n ≤ bs.length
  · rw [if_pos hn] at h
    obtain ⟨-, rfl⟩ := Prod.mk.inj (Option.some.inj h)
    rw [List.length_drop]
    exact Nat.sub_le _ _
  · rw [if_neg hn] at h
    cases h

theorem shrinks_ite {c : Prop} [Decidable c] {p q : Cursor β α} (hp : Shrinks p)
    (hq : Shrinks q) : Shrinks (if c then p else q) := by
  split
  · exact hp
  · exact hq

theorem Shrinks.bind {p : Cursor β α} {f : α → Cursor β γ} (hp : Shrinks p)
    (hf : ∀ a, Shrinks (f a)) : Shrinks (p >>= f) := by
  intro bs c r h
  obtain ⟨a, m, ha, hc⟩ := bind_eq_some h
  exact Nat.le_trans (hf a m c r hc) (hp bs a m ha)

theorem Shrinks.times {p : Cursor β Unit} (hp : Shrinks p) (n : ℕ) : Shrinks (times p n) := by
  induction n with
  | zero => exact shrinks_pure _
  | succ n ih => exact hp.bind fun _ => ih

/-- `p` leaves less than it was given. -/
def Consumes (p : Cursor β α) : Prop :=
  ∀ bs a r, p bs = some (a, r) → r.length < bs.length

theorem Consumes.shrinks {p : Cursor β α} (h : Consumes p) : Shrinks p :=
  fun bs a r hr => Nat.le_of_lt (h bs a r hr)

theorem consumes_next : Consumes (next : Cursor β β) := by
  intro bs b r h
  cases bs with
  | nil => cases h
  | cons b bs =>
      obtain ⟨-, rfl⟩ := Prod.mk.inj (Option.some.inj h)
      exact Nat.lt_succ_self _

theorem Consumes.bind {p : Cursor β α} {f : α → Cursor β γ} (hp : Consumes p)
    (hf : ∀ a, Shrinks (f a)) : Consumes (p >>= f) := by
  intro bs c r h
  obtain ⟨a, m, ha, hc⟩ := bind_eq_some h
  exact Nat.lt_of_le_of_lt (hf a m c r hc) (hp bs a m ha)

/-! ### Cursors that agree on short inputs -/

/-- `p` and `q` do the same on every input of at most `n` tokens. -/
def AgreeUpTo (n : ℕ) (p q : Cursor β α) : Prop :=
  ∀ bs, bs.length ≤ n → p bs = q bs

theorem AgreeUpTo.refl (n : ℕ) (p : Cursor β α) : AgreeUpTo n p p := fun _ _ => rfl

theorem agree_ite {n : ℕ} {c : Prop} [Decidable c] {p p' q q' : Cursor β α}
    (hp : AgreeUpTo n p p') (hq : AgreeUpTo n q q') :
    AgreeUpTo n (if c then p else q) (if c then p' else q') := by
  split
  · exact hp
  · exact hq

theorem AgreeUpTo.bind {n : ℕ} {p : Cursor β α} {f g : α → Cursor β γ} (hp : Shrinks p)
    (h : ∀ a, AgreeUpTo n (f a) (g a)) : AgreeUpTo n (p >>= f) (p >>= g) := by
  intro bs hbs
  rw [bind_apply, bind_apply]
  cases hr : p bs with
  | none => rfl
  | some r => exact h r.1 r.2 (Nat.le_trans (hp bs r.1 r.2 hr) hbs)

theorem AgreeUpTo.times {n : ℕ} {p q : Cursor β Unit} (hp : Shrinks p) (h : AgreeUpTo n p q)
    (k : ℕ) : AgreeUpTo n (times p k) (times q k) := by
  induction k with
  | zero => exact .refl n _
  | succ k ih =>
      intro bs hbs
      change (p bs).bind (fun r => Cursor.times p k r.2) = (q bs).bind fun r => Cursor.times q k r.2
      rw [← h bs hbs]
      cases hr : p bs with
      | none => rfl
      | some r => exact ih r.2 (Nat.le_trans (hp bs r.1 r.2 hr) hbs)

/-- Behind a cursor that consumes, the inputs are shorter. -/
theorem AgreeUpTo.consume {n : ℕ} {p : Cursor β α} {f g : α → Cursor β γ} (hp : Consumes p)
    (h : ∀ m, m < n → ∀ a, AgreeUpTo m (f a) (g a)) : AgreeUpTo n (p >>= f) (p >>= g) := by
  intro bs hbs
  rw [bind_apply, bind_apply]
  cases hr : p bs with
  | none => rfl
  | some r => exact h r.2.length (Nat.lt_of_lt_of_le (hp bs r.1 r.2 hr) hbs) r.1 r.2 (Nat.le_refl _)

/-- After a token, one less is ahead. -/
theorem AgreeUpTo.next {n : ℕ} {f g : β → Cursor β γ} (h : ∀ b, AgreeUpTo n (f b) (g b)) :
    AgreeUpTo (n + 1) (Cursor.next >>= f) (Cursor.next >>= g) := by
  intro bs hbs
  cases bs with
  | nil => rfl
  | cons b bs => exact h b bs (Nat.le_of_succ_le_succ hbs)

end Cursor

end AutoInstrumentation.Lib
