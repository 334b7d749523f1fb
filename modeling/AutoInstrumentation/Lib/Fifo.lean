import Mathlib.Algebra.Ring.Nat
import Mathlib.Data.List.Basic

/-!
# AutoInstrumentation.Lib.Fifo

First-in first-out queues with their history.

A `Fifo α` remembers what it has accepted and what each delivery took out, and
carries the balance of the two: the deliveries, in order, followed by what is still
pending are what was accepted, in order. So whatever refines a `Fifo` loses nothing,
duplicates nothing, reorders nothing and splits no element.
-/

namespace AutoInstrumentation.Lib

universe u

/-- A queue that has accepted `accepted` and delivered `delivered`. -/
structure Fifo (α : Type u) where
  accepted : List α
  delivered : List (List α)
  pending : List α
  balanced : delivered.flatten ++ pending = accepted

namespace Fifo

variable {α : Type u}

def empty : Fifo α where
  accepted := []
  delivered := []
  pending := []
  balanced := rfl

/-- Accept one more element at the back. -/
def push (f : Fifo α) (a : α) : Fifo α where
  accepted := f.accepted ++ [a]
  delivered := f.delivered
  pending := f.pending ++ [a]
  balanced := by rw [← List.append_assoc, f.balanced]

/-- Deliver the `n` oldest elements at once. -/
def deliver (f : Fifo α) (n : ℕ) : Fifo α where
  accepted := f.accepted
  delivered := f.delivered ++ [f.pending.take n]
  pending := f.pending.drop n
  balanced := by
    rw [List.flatten_concat, List.append_assoc, List.take_append_drop, f.balanced]

@[simp] theorem push_accepted (f : Fifo α) (a : α) : (f.push a).accepted = f.accepted ++ [a] := rfl
@[simp] theorem push_delivered (f : Fifo α) (a : α) : (f.push a).delivered = f.delivered := rfl
@[simp] theorem push_pending (f : Fifo α) (a : α) : (f.push a).pending = f.pending ++ [a] := rfl

@[simp] theorem deliver_accepted (f : Fifo α) (n : ℕ) : (f.deliver n).accepted = f.accepted := rfl
@[simp] theorem deliver_delivered (f : Fifo α) (n : ℕ) :
    (f.deliver n).delivered = f.delivered ++ [f.pending.take n] := rfl
@[simp] theorem deliver_pending (f : Fifo α) (n : ℕ) :
    (f.deliver n).pending = f.pending.drop n := rfl

end Fifo

end AutoInstrumentation.Lib
