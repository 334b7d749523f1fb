import Mathlib.Algebra.Ring.Nat
import Mathlib.Data.List.Basic

/-!
# AutoInstrumentation.Lib.Splices

Texts that are changed in several places at once.

A text is cut into `Piece`s, each of them kept or replaced, with a tag of what it was
replaced for. The pieces say what the old text was, what the new one is, and at which
places of the old text the replacements are made (`splices`). `applySplices` makes
replacements that are given by their places, and fails on those that overlap; on the
splices of pieces it gives the new text (`applySplices_pieces`), and they are in order
(`pairwise_splices`).
-/

namespace AutoInstrumentation.Lib

universe u v

/-- A part of a text. -/
inductive Piece (α : Type u) (β : Type v)
  | keep (text : List α)
  | replace (old new : List α) (tag : β)

/-- A replacement of the text between two places. -/
structure Splice (α : Type u) (β : Type v) where
  start : ℕ
  finish : ℕ
  value : List α
  tag : β

variable {α : Type u} {β : Type v}

namespace Piece

def old : Piece α β → List α
  | keep text => text
  | replace old _ _ => old

def new : Piece α β → List α
  | keep text => text
  | replace _ new _ => new

def tag : Piece α β → Option β
  | keep _ => none
  | replace _ _ tag => some tag

end Piece

def oldText (pieces : List (Piece α β)) : List α := pieces.flatMap Piece.old

def newText (pieces : List (Piece α β)) : List α := pieces.flatMap Piece.new

def tags (pieces : List (Piece α β)) : List β := pieces.filterMap Piece.tag

/-- The replacements, when the pieces begin at `start`. -/
def splices (start : ℕ) : List (Piece α β) → List (Splice α β)
  | [] => []
  | .keep text :: pieces => splices (start + text.length) pieces
  | .replace old new tag :: pieces =>
      ⟨start, start + old.length, new, tag⟩ :: splices (start + old.length) pieces

/-- Make the replacements behind `copied`, in order. -/
def applySplices (text : List α) : ℕ → List (Splice α β) → Option (List α)
  | copied, [] => some (text.drop copied)
  | copied, s :: rest =>
      if s.start < copied ∨ s.finish < s.start ∨ text.length < s.finish then none
      else
        (applySplices text s.finish rest).map fun rewritten =>
          (text.take s.start).drop copied ++ (s.value ++ rewritten)

section
variable (text old new : List α) (tag : β) (pieces more : List (Piece α β))

@[simp] theorem oldText_nil : oldText ([] : List (Piece α β)) = [] := rfl
@[simp] theorem newText_nil : newText ([] : List (Piece α β)) = [] := rfl
@[simp] theorem tags_nil : tags ([] : List (Piece α β)) = [] := rfl

@[simp] theorem oldText_keep : oldText (.keep text :: pieces) = text ++ oldText pieces := rfl
@[simp] theorem newText_keep : newText (.keep text :: pieces) = text ++ newText pieces := rfl
@[simp] theorem tags_keep : tags (.keep text :: pieces) = tags pieces := rfl

@[simp] theorem oldText_replace :
    oldText (.replace old new tag :: pieces) = old ++ oldText pieces := rfl
@[simp] theorem newText_replace :
    newText (.replace old new tag :: pieces) = new ++ newText pieces := rfl
@[simp] theorem tags_replace : tags (.replace old new tag :: pieces) = tag :: tags pieces := rfl

@[simp] theorem oldText_append : oldText (pieces ++ more) = oldText pieces ++ oldText more := by
  simp [oldText]

@[simp] theorem newText_append : newText (pieces ++ more) = newText pieces ++ newText more := by
  simp [newText]

@[simp] theorem tags_append : tags (pieces ++ more) = tags pieces ++ tags more := by
  simp [tags]

end

/-- Pieces behind others begin where those end. -/
theorem splices_append (start : ℕ) (pieces more : List (Piece α β)) :
    splices start (pieces ++ more)
      = splices start pieces ++ splices (start + (oldText pieces).length) more := by
  induction pieces generalizing start with
  | nil => simp [splices]
  | cons piece pieces ih =>
      cases piece with
      | keep text => simp [splices, ih, Nat.add_assoc]
      | replace old new tag => simp [splices, ih, Nat.add_assoc]

theorem tags_splices (start : ℕ) (pieces : List (Piece α β)) :
    (splices start pieces).map Splice.tag = tags pieces := by
  induction pieces generalizing start with
  | nil => rfl
  | cons piece pieces ih =>
      cases piece with
      | keep text => simp [splices, ih]
      | replace old new tag => simp [splices, ih]

/-- The splices of pieces lie behind their beginning. -/
theorem start_le_of_mem_splices {start : ℕ} {pieces : List (Piece α β)} {s : Splice α β}
    (h : s ∈ splices start pieces) : start ≤ s.start ∧ s.start ≤ s.finish := by
  induction pieces generalizing start with
  | nil => cases h
  | cons piece pieces ih =>
      cases piece with
      | keep text =>
          have hle := ih h
          omega
      | replace old new tag =>
          rcases List.mem_cons.mp h with rfl | h
          · simp
          · have hle := ih h
            omega

/-- **The splices of pieces are in order**, and do not overlap. -/
theorem pairwise_splices (start : ℕ) (pieces : List (Piece α β)) :
    (splices start pieces).Pairwise fun s t => s.finish ≤ t.start := by
  induction pieces generalizing start with
  | nil => exact .nil
  | cons piece pieces ih =>
      cases piece with
      | keep text => exact ih (start + text.length)
      | replace old new tag =>
          refine .cons (fun t ht => ?_) (ih (start + old.length))
          exact (start_le_of_mem_splices ht).1

/-- The replacements of the pieces behind `before`, of which all from `copied` on is
still to be copied. -/
theorem applySplices_behind (pieces : List (Piece α β)) (before : List α) (copied : ℕ)
    (h : copied ≤ before.length) :
    applySplices (before ++ oldText pieces) copied (splices before.length pieces)
      = some (before.drop copied ++ newText pieces) := by
  induction pieces generalizing before copied with
  | nil => simp [splices, applySplices]
  | cons piece pieces ih =>
      cases piece with
      | keep text =>
          have hrest := ih (before ++ text) copied (by simp; omega)
          rw [List.length_append, List.append_assoc] at hrest
          rw [oldText_keep, newText_keep, splices, hrest, List.drop_append_of_le_length h,
            List.append_assoc]
      | replace old new tag =>
          have hrest := ih (before ++ old) (before ++ old).length le_rfl
          rw [List.drop_length, List.nil_append, List.append_assoc, List.length_append] at hrest
          rw [oldText_replace, newText_replace, splices, applySplices, if_neg, hrest]
          · simp
          · simp only [List.length_append]
            omega

/-- **The replacements turn the old text into the new one.** -/
theorem applySplices_pieces (pieces : List (Piece α β)) :
    applySplices (oldText pieces) 0 (splices 0 pieces) = some (newText pieces) :=
  applySplices_behind pieces [] 0 le_rfl

end AutoInstrumentation.Lib
