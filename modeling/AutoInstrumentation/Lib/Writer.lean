import Mathlib.Algebra.Ring.Nat
import Mathlib.Data.List.Basic

/-!
# AutoInstrumentation.Lib.Writer

Writers over a bounded output, and the rules to reason about what they emit.

A writer maps states to states. An `Output` says what of a state is its output, what
is the encoder's own state (a code table, say), when the writer has failed, and how
much output there may be. `Writes o w enc next` says that `w` keeps within the limit
and that, unless it fails, it appends `enc` of the encoder's state and moves that
state by `next`. A failure is never undone. The judgement composes along sequences,
guards and folds, which gives the encoding of a whole output from those of its parts.
-/

namespace AutoInstrumentation.Lib

/-- What a writer state shows. -/
structure Output (S β σ : Type) where
  bytes : S → List β
  state : S → σ
  failed : S → Bool
  limit : ℕ

variable {S β σ α : Type}

/-- `w` appends `enc` and moves the encoder's state by `next`, or fails. -/
structure Writes (o : Output S β σ) (w : S → S) (enc : σ → List β) (next : σ → σ) : Prop where
  fits : ∀ s, (o.bytes s).length ≤ o.limit → (o.bytes (w s)).length ≤ o.limit
  written : ∀ s, o.failed (w s) = false → o.failed s = false
    ∧ o.bytes (w s) = o.bytes s ++ enc (o.state s) ∧ o.state (w s) = next (o.state s)

/-- The encoding of a list whose elements share the encoder's state. -/
def encodeList (enc : α → σ → List β) (next : α → σ → σ) : List α → σ → List β
  | [], _ => []
  | a :: as, c => enc a c ++ encodeList enc next as (next a c)

namespace Writes

variable {o : Output S β σ}

theorem skip : Writes o (fun s => s) (fun _ => []) (fun c => c) where
  fits _ h := h
  written _ h := ⟨h, (List.append_nil _).symm, rfl⟩

theorem comp {v w : S → S} {e f : σ → List β} {m n : σ → σ} (hv : Writes o v e m)
    (hw : Writes o w f n) :
    Writes o (fun s => w (v s)) (fun c => e c ++ f (m c)) (fun c => n (m c)) where
  fits s h := hw.fits _ (hv.fits s h)
  written s h := by
    obtain ⟨hmid, hbytes, hstate⟩ := hw.written _ h
    obtain ⟨hstart, hbytes', hstate'⟩ := hv.written _ hmid
    refine ⟨hstart, ?_, ?_⟩
    · rw [hbytes, hbytes', hstate', List.append_assoc]
    · rw [hstate, hstate']

/-- A guard that fails without output. -/
theorem guard {w : S → S} {e : σ → List β} {m : σ → σ} (hw : Writes o w e m) (g : S → Bool)
    {fail : S → S} (hfail : ∀ s, o.failed (fail s) = true)
    (hbytes : ∀ s, o.bytes (fail s) = o.bytes s) :
    Writes o (fun s => if g s then w s else fail s) e m where
  fits s h := by
    by_cases hg : g s
    · simpa only [hg, if_true] using hw.fits s h
    · simpa only [hg, Bool.false_eq_true, if_false, hbytes] using h
  written s h := by
    by_cases hg : g s
    · simp only [hg, if_true] at h ⊢
      exact hw.written s h
    · simp only [hg, Bool.false_eq_true, if_false, hfail, Bool.true_eq_false] at h

theorem congr {w : S → S} {e e' : σ → List β} {m m' : σ → σ} (hw : Writes o w e m)
    (he : ∀ c, e c = e' c) (hm : ∀ c, m c = m' c) : Writes o w e' m' := by
  obtain rfl : e = e' := funext he
  obtain rfl : m = m' := funext hm
  exact hw

theorem foldl {f : S → α → S} {enc : α → σ → List β} {next : α → σ → σ}
    (h : ∀ a, Writes o (fun s => f s a) (enc a) (next a)) (as : List α) :
    Writes o (fun s => as.foldl f s) (encodeList enc next as)
      (fun c => as.foldl (fun c a => next a c) c) := by
  induction as with
  | nil => exact skip
  | cons a as ih => exact (h a).comp ih

end Writes

end AutoInstrumentation.Lib
