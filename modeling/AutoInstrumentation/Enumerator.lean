import Mathlib.Algebra.Ring.Nat
import Mathlib.Data.List.Basic

/-!
# AutoInstrumentation.Enumerator

The enumerators over metadata and their iterators (`clr_helpers.h`).

An enumerator asks the metadata interface for one batch after the other. An iterator knows
its enumerator by address, keeps the last batch and a place in it, and is moved by hand; two
iterators are compared by their enumerators and by whether they have an element. What an
iterator has yet to visit is a list, and each operation is stated on that list.
-/

namespace AutoInstrumentation

abbrev HResult := BitVec 32

def sOk : HResult := 0
def sFalse : HResult := 1

def kEnumeratorMax : ℕ := 256

/-- An enumeration of the metadata interface: the batches it has yet to deliver, and what it
answers, with no element, when there is none left. -/
structure Enumerator (α : Type) where
  batches : List (List α)
  sizes : ∀ batch ∈ batches, 0 < batch.length ∧ batch.length ≤ kEnumeratorMax
  endStatus : HResult

namespace Enumerator

variable {α : Type}

/-- `Enumerator::Next`. -/
def next (e : Enumerator α) : (HResult × List α) × Enumerator α :=
  match h : e.batches with
  | [] => ((e.endStatus, []), e)
  | batch :: batches =>
      ((sOk, batch), { e with
        batches := batches
        sizes := fun b hb => e.sizes b (h ▸ List.mem_cons_of_mem batch hb) })

/-- All that the enumeration delivers. -/
def elements (e : Enumerator α) : List α := e.batches.flatten

end Enumerator

/-- An iterator, with the address of its enumerator in `ι`. -/
structure EnumeratorIterator (ι α : Type) where
  enumerator : ι
  status : HResult
  arr : List α
  idx : ℕ
  sz : ℕ
  deriving DecidableEq, Repr

namespace EnumeratorIterator

variable {ι α : Type}

/-- The call of `Next` that the constructor and the increment make. -/
def fetch (enumerator : ι) (e : Enumerator α) : EnumeratorIterator ι α × Enumerator α :=
  let ((status, arr), e) := e.next
  ({ enumerator := enumerator
     status := if status = sOk ∧ arr.length = 0 then sFalse else status
     arr := arr
     idx := 0
     sz := arr.length }, e)

/-- `Enumerator::begin`. -/
def start (enumerator : ι) (e : Enumerator α) : EnumeratorIterator ι α × Enumerator α :=
  fetch enumerator e

/-- `Enumerator::end`. -/
def stop (enumerator : ι) : EnumeratorIterator ι α where
  enumerator := enumerator
  status := sFalse
  arr := []
  idx := 0
  sz := 0

/-- `operator!=`. -/
def differs [DecidableEq ι] (i other : EnumeratorIterator ι α) : Bool :=
  i.enumerator ≠ other.enumerator ∨ decide (i.status = sOk) ≠ decide (other.status = sOk)

/-- `operator*`, where there is an element in the place. -/
def deref (i : EnumeratorIterator ι α) : Option α := i.arr[i.idx]?

/-- `n - 1` of a `ULONG`. -/
def ulongPred (n : ℕ) : ℕ := if n = 0 then 2 ^ 32 - 1 else n - 1

/-- `operator++`. -/
def increment (i : EnumeratorIterator ι α) (e : Enumerator α) :
    EnumeratorIterator ι α × Enumerator α :=
  if i.idx < ulongPred i.sz then ({ i with idx := i.idx + 1 }, e)
  else fetch i.enumerator e

/-! ### What is left to visit -/

/-- The elements from the place of the iterator on. -/
def pending (i : EnumeratorIterator ι α) (e : Enumerator α) : List α :=
  if i.status = sOk then i.arr.drop i.idx ++ e.elements else []

/-- An iterator with an element stands in its batch. -/
def Valid (i : EnumeratorIterator ι α) : Prop :=
  i.status = sOk → i.idx < i.arr.length ∧ i.sz = i.arr.length ∧ i.sz ≤ kEnumeratorMax

theorem fetch_enumerator (enumerator : ι) (e : Enumerator α) :
    (fetch enumerator e).1.enumerator = enumerator := rfl

theorem fetch_spec (enumerator : ι) (e : Enumerator α) :
    (fetch enumerator e).1.Valid
      ∧ (fetch enumerator e).1.pending (fetch enumerator e).2 = e.elements := by
  obtain ⟨batches, sizes, endStatus⟩ := e
  cases batches with
  | nil =>
      have hstatus : (fetch enumerator ⟨[], sizes, endStatus⟩).1.status ≠ sOk := by
        change (if endStatus = sOk ∧ 0 = 0 then sFalse else endStatus) ≠ sOk
        split
        · decide
        · next hnot => exact fun h => hnot ⟨h, rfl⟩
      exact ⟨fun h => absurd h hstatus, if_neg hstatus⟩
  | cons batch batches =>
      obtain ⟨hpos, hmax⟩ := sizes batch List.mem_cons_self
      have hstatus : (fetch enumerator ⟨batch :: batches, sizes, endStatus⟩).1.status = sOk := by
        refine if_neg ?_
        rintro ⟨-, hzero⟩
        exact Nat.ne_of_gt hpos hzero
      exact ⟨fun _ => ⟨hpos, rfl, hmax⟩, if_pos hstatus⟩

theorem status_eq_ok_iff {i : EnumeratorIterator ι α} (h : i.Valid) (e : Enumerator α) :
    i.status = sOk ↔ i.pending e ≠ [] := by
  rw [pending]
  split
  · next hstatus =>
      obtain ⟨hidx, -⟩ := h hstatus
      refine iff_of_true hstatus ?_
      intro hnil
      have hlength := congrArg List.length (List.append_eq_nil_iff.mp hnil).1
      rw [List.length_drop, List.length_nil] at hlength
      omega
  · next hstatus => exact iff_of_false hstatus (not_not.mpr rfl)

/-- **The end of an enumeration.** An iterator differs from the end of its enumerator exactly
if it has an element to visit. -/
theorem differs_stop_iff [DecidableEq ι] {i : EnumeratorIterator ι α} (h : i.Valid)
    (e : Enumerator α) : i.differs (stop i.enumerator) ↔ i.pending e ≠ [] := by
  rw [← status_eq_ok_iff h e, differs]
  by_cases hstatus : i.status = sOk
  · simp [stop, hstatus, sOk, sFalse]
  · simp [stop, hstatus, show sFalse ≠ sOk from by decide]

/-- An iterator differs from the end of every other enumerator. -/
theorem differs_stop_of_ne [DecidableEq ι] {i : EnumeratorIterator ι α} {other : ι}
    (h : i.enumerator ≠ other) : i.differs (stop other) = true := by
  simp [differs, stop, h]

/-- **The next element.** The element of the iterator is the first that is left, and the
increment leaves the others. -/
theorem visit {i : EnumeratorIterator ι α} (h : i.Valid) {e : Enumerator α} {x : α} {xs : List α}
    (hpending : i.pending e = x :: xs) :
    i.deref = some x ∧ (i.increment e).1.Valid
      ∧ (i.increment e).1.enumerator = i.enumerator
      ∧ (i.increment e).1.pending (i.increment e).2 = xs := by
  have hstatus : i.status = sOk := by
    rw [status_eq_ok_iff h e, hpending]
    exact List.cons_ne_nil x xs
  obtain ⟨hidx, hsz, hmax⟩ := h hstatus
  rw [pending, if_pos hstatus, List.drop_eq_getElem_cons hidx, List.cons_append,
    List.cons.injEq] at hpending
  obtain ⟨rfl, rfl⟩ := hpending
  have hbound : ulongPred i.sz = i.sz - 1 := if_neg (by omega)
  refine ⟨List.getElem?_eq_getElem hidx, ?_⟩
  rw [increment, hbound]
  by_cases hlast : i.idx < i.sz - 1
  · rw [if_pos hlast]
    refine ⟨fun _ => ⟨?_, hsz, hmax⟩, rfl, if_pos hstatus⟩
    change i.idx + 1 < i.arr.length
    omega
  · rw [if_neg hlast, List.drop_eq_nil_of_le (by omega), List.nil_append]
    obtain ⟨hvalid, hfetched⟩ := fetch_spec i.enumerator e
    exact ⟨hvalid, rfl, hfetched⟩

end EnumeratorIterator

end AutoInstrumentation
