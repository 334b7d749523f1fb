import Mathlib.Data.Option.Basic

/-!
# AutoInstrumentation.Lib.Monitored

Programs that make calls, and monitors that watch them.

A `Prog` makes calls, each of which can answer anything of its type, and it can throw. A
monitor follows the calls and their answers, and refuses those that must not be made.
`Obeys` is the weakest precondition of a program: no call is refused, whatever the answers
are, and the end satisfies the postcondition for returns or the one for exceptions. The
rules follow the constructions of programs; `Obeys.run` turns what they show into a
statement about the trace of calls in any environment. A program whose calls a monitor
passes over needs no more than a list of these, `Calls`.
-/

namespace AutoInstrumentation.Lib

/-- A program: `ε` are its calls, `A e` the answers to the call `e`, `χ` what it throws. -/
inductive Prog {ε : Type} (A : ε → Type) (χ α : Type)
  | pure (a : α)
  | throw (x : χ)
  | call (e : ε) (k : A e → Prog A χ α)

/-- A call that was made, and its answer. -/
structure Answered {ε : Type} (A : ε → Type) where
  event : ε
  answer : A event

variable {ε : Type} {A : ε → Type} {χ α β σ : Type}

namespace Prog

def bind : Prog A χ α → (α → Prog A χ β) → Prog A χ β
  | pure a, f => f a
  | throw x, _ => throw x
  | call e k, f => call e fun a => bind (k a) f

/-- What is thrown is handled by `handler`. -/
def tryCatch : Prog A χ α → (χ → Prog A χ α) → Prog A χ α
  | pure a, _ => pure a
  | throw x, handler => handler x
  | call e k, handler => call e fun a => tryCatch (k a) handler

/-- `cleanup` runs at the end, after a return and after an exception. -/
def ensure : Prog A χ α → Prog A χ Unit → Prog A χ α
  | pure a, cleanup => bind cleanup fun _ => pure a
  | throw x, cleanup => bind cleanup fun _ => throw x
  | call e k, cleanup => call e fun a => ensure (k a) cleanup

/-- A scope: what `acquire` gives is released at its end. -/
def scope (acquire : Prog A χ α) (release : α → Prog A χ Unit) (body : α → Prog A χ β) :
    Prog A χ β :=
  bind acquire fun a => ensure (body a) (release a)

/-- One call. -/
def perform (e : ε) : Prog A χ (A e) := call e pure

/-- The outcome and the calls, when `env` answers a call from what happened before it. -/
def run (env : List (Answered A) → (e : ε) → A e) :
    Prog A χ α → List (Answered A) → Except χ α × List (Answered A)
  | pure a, trace => (.ok a, trace)
  | throw x, trace => (.error x, trace)
  | call e k, trace => run env (k (env trace e)) (trace ++ [⟨e, env trace e⟩])

instance : Monad (Prog A χ) where
  pure := Prog.pure
  bind := Prog.bind

end Prog

/-! ### Monitors -/

/-- A monitor: where a call with an answer takes its state, unless the call is refused. -/
abbrev Monitor {ε : Type} (A : ε → Type) (σ : Type) := σ → (e : ε) → A e → Option σ

/-- The monitor over a trace. -/
def Monitor.after (δ : Monitor A σ) (s : σ) : List (Answered A) → Option σ
  | [] => some s
  | c :: trace => (δ s c.event c.answer).bind fun s' => after δ s' trace

theorem Monitor.after_append (δ : Monitor A σ) (s : σ) (trace more : List (Answered A)) :
    δ.after s (trace ++ more) = (δ.after s trace).bind fun s' => δ.after s' more := by
  induction trace generalizing s with
  | nil => rfl
  | cons c trace ih =>
      rw [List.cons_append, after, after]
      cases δ s c.event c.answer with
      | none => rfl
      | some s' => exact ih s'

/-- No call is refused, and the end satisfies `Q` if the program returns and `R` if it
throws. -/
def Obeys (δ : Monitor A σ) (Q : α → σ → Prop) (R : χ → σ → Prop) : Prog A χ α → σ → Prop
  | .pure a, s => Q a s
  | .throw x, s => R x s
  | .call e k, s => ∀ a, ∃ s', δ s e a = some s' ∧ Obeys δ Q R (k a) s'

namespace Obeys

variable {δ : Monitor A σ} {Q Q' : α → σ → Prop} {R R' : χ → σ → Prop} {s : σ}

theorem pure {a : α} (h : Q a s) : Obeys δ Q R (Prog.pure a) s := h

theorem throw {x : χ} (h : R x s) : Obeys δ Q R (Prog.throw x) s := h

theorem mono {p : Prog A χ α} (h : Obeys δ Q R p s) (hQ : ∀ a s, Q a s → Q' a s)
    (hR : ∀ x s, R x s → R' x s) : Obeys δ Q' R' p s := by
  induction p generalizing s with
  | pure a => exact hQ a s h
  | throw x => exact hR x s h
  | call e k ih =>
      intro a
      obtain ⟨s', hs', hk⟩ := h a
      exact ⟨s', hs', ih a hk⟩

theorem bind {p : Prog A χ α} {f : α → Prog A χ β} {Q : β → σ → Prop}
    (h : Obeys δ (fun a s => Obeys δ Q R (f a) s) R p s) : Obeys δ Q R (p.bind f) s := by
  induction p generalizing s with
  | pure a => exact h
  | throw x => exact h
  | call e k ih =>
      intro a
      obtain ⟨s', hs', hk⟩ := h a
      exact ⟨s', hs', ih a hk⟩

theorem tryCatch {p : Prog A χ α} {handler : χ → Prog A χ α}
    (h : Obeys δ Q (fun x s => Obeys δ Q R (handler x) s) p s) :
    Obeys δ Q R (p.tryCatch handler) s := by
  induction p generalizing s with
  | pure a => exact h
  | throw x => exact h
  | call e k ih =>
      intro a
      obtain ⟨s', hs', hk⟩ := h a
      exact ⟨s', hs', ih a hk⟩

theorem ensure {cleanup : Prog A χ Unit} {p : Prog A χ α}
    (h : Obeys δ (fun a s => Obeys δ (fun _ s => Q a s) R cleanup s)
      (fun x s => Obeys δ (fun _ s => R x s) R cleanup s) p s) :
    Obeys δ Q R (p.ensure cleanup) s := by
  induction p generalizing s with
  | pure a => exact bind h
  | throw x => exact bind h
  | call e k ih =>
      intro a
      obtain ⟨s', hs', hk⟩ := h a
      exact ⟨s', hs', ih a hk⟩

/-- **A scope.** What the body leaves is met by the release, however the body ends. -/
theorem scope {acquire : Prog A χ α} {release : α → Prog A χ Unit} {body : α → Prog A χ β}
    {Q : β → σ → Prop} {Acquired : α → σ → Prop}
    (hacquire : Obeys δ Acquired R acquire s)
    (hbody : ∀ a s, Acquired a s →
      Obeys δ (fun b s => Obeys δ (fun _ s => Q b s) R (release a) s)
        (fun x s => Obeys δ (fun _ s => R x s) R (release a) s) (body a) s) :
    Obeys δ Q R (Prog.scope acquire release body) s :=
  bind (hacquire.mono (fun a s h => ensure (hbody a s h)) fun _ _ h => h)

theorem call {e : ε} {k : A e → Prog A χ α}
    (h : ∀ a, ∃ s', δ s e a = some s' ∧ Obeys δ Q R (k a) s') :
    Obeys δ Q R (Prog.call e k) s := h

theorem perform {e : ε} {Q : A e → σ → Prop} (h : ∀ a, ∃ s', δ s e a = some s' ∧ Q a s') :
    Obeys δ Q R (Prog.perform e) s := h

/-- **Every run.** The monitor accepts the trace, and its state satisfies the postcondition
of the outcome. -/
theorem run {p : Prog A χ α} (h : Obeys δ Q R p s)
    (env : List (Answered A) → (e : ε) → A e) {s₀ : σ} {trace : List (Answered A)}
    (htrace : δ.after s₀ trace = some s) :
    ∃ s', δ.after s₀ (p.run env trace).2 = some s'
      ∧ (∀ a, (p.run env trace).1 = .ok a → Q a s')
      ∧ ∀ x, (p.run env trace).1 = .error x → R x s' := by
  induction p generalizing s trace with
  | pure a =>
      refine ⟨s, htrace, fun b hb => ?_, fun x hx => by cases hx⟩
      obtain rfl := Except.ok.inj hb
      exact h
  | throw x =>
      refine ⟨s, htrace, fun b hb => (by cases hb), fun y hy => ?_⟩
      obtain rfl := Except.error.inj hy
      exact h
  | call e k ih =>
      obtain ⟨s', hs', hk⟩ := h (env trace e)
      refine ih (env trace e) hk ?_
      rw [Monitor.after_append, htrace]
      simp [Monitor.after, hs']

end Obeys

/-! ### The calls of a program -/

/-- Every call that the program can make satisfies `P`. -/
def Prog.Calls (P : ε → Prop) : Prog A χ α → Prop
  | .pure _ => True
  | .throw _ => True
  | .call e k => P e ∧ ∀ a, Calls P (k a)

namespace Prog.Calls

variable {P : ε → Prop}

theorem bind {p : Prog A χ α} {f : α → Prog A χ β} (hp : p.Calls P) (hf : ∀ a, (f a).Calls P) :
    (p.bind f).Calls P := by
  induction p with
  | pure a => exact hf a
  | throw x => exact hp
  | call e k ih => exact ⟨hp.1, fun a => ih a (hp.2 a)⟩

theorem tryCatch {p : Prog A χ α} {handler : χ → Prog A χ α} (hp : p.Calls P)
    (hhandler : ∀ x, (handler x).Calls P) : (p.tryCatch handler).Calls P := by
  induction p with
  | pure a => exact hp
  | throw x => exact hhandler x
  | call e k ih => exact ⟨hp.1, fun a => ih a (hp.2 a)⟩

theorem ensure {p : Prog A χ α} {cleanup : Prog A χ Unit} (hp : p.Calls P)
    (hcleanup : cleanup.Calls P) : (p.ensure cleanup).Calls P := by
  induction p with
  | pure a => exact bind hcleanup fun _ => trivial
  | throw x => exact bind hcleanup fun _ => trivial
  | call e k ih => exact ⟨hp.1, fun a => ih a (hp.2 a)⟩

theorem scope {acquire : Prog A χ α} {release : α → Prog A χ Unit} {body : α → Prog A χ β}
    (hacquire : acquire.Calls P) (hrelease : ∀ a, (release a).Calls P)
    (hbody : ∀ a, (body a).Calls P) : (Prog.scope acquire release body).Calls P :=
  bind hacquire fun a => ensure (hbody a) (hrelease a)

end Prog.Calls

/-- A program whose calls a monitor passes over leaves its state as it was. -/
theorem Obeys.of_calls {δ : Monitor A σ} {s : σ} {p : Prog A χ α}
    (h : p.Calls fun e => ∀ a, δ s e a = some s) :
    Obeys δ (fun _ u => u = s) (fun _ u => u = s) p s := by
  induction p with
  | pure a => exact .pure rfl
  | throw x => exact .throw rfl
  | call e k ih => exact .call fun a => ⟨s, h.1 a, ih a (h.2 a)⟩

end AutoInstrumentation.Lib
