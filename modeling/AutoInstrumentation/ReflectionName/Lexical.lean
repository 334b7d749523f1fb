import AutoInstrumentation.ReflectionName.Grammar

/-!
# AutoInstrumentation.ReflectionName.Lexical

Text that the searches of the parser skip as a whole.

`Quoted q` is text that a quote `q` may enclose, and `Closed` is text whose quotes and
brackets are closed in itself; the flag says whether commas may stand in it outside all
brackets. A search that meets closed text goes on behind it in the state it came with.
-/

namespace AutoInstrumentation.ReflectionName

open Lib

/-- Text that does not end a quotation by `q`. -/
inductive Quoted (q : Byte) : List Byte → Prop
  | nil : Quoted q []
  | plain {c : Byte} {text : List Byte} (h : c ≠ backslash) (hq : c ≠ q) (ht : Quoted q text) :
      Quoted q (c :: text)
  | escaped {c : Byte} {text : List Byte} (ht : Quoted q text) : Quoted q (backslash :: c :: text)

/-- A character that no search takes for syntax, but perhaps for a separator. -/
def isOrdinary (c : Byte) : Bool :=
  !(c == backslash || isQuote c || c == openBracket || c == closeBracket)

/-- Text that is closed in itself. -/
inductive Closed : Bool → List Byte → Prop
  | nil {commas : Bool} : Closed commas []
  | plain {commas : Bool} {c : Byte} {text : List Byte} (h : isOrdinary c = true)
      (hc : c = comma → commas = true) (ht : Closed commas text) : Closed commas (c :: text)
  | escaped {commas : Bool} {c : Byte} {text : List Byte} (ht : Closed commas text) :
      Closed commas (backslash :: c :: text)
  | quoted {commas : Bool} {q : Byte} {inner text : List Byte} (hq : isQuote q = true)
      (hi : Quoted q inner) (ht : Closed commas text) :
      Closed commas (q :: (inner ++ q :: text))
  | group {commas : Bool} {inner text : List Byte} (hi : Closed true inner)
      (ht : Closed commas text) :
      Closed commas (openBracket :: (inner ++ closeBracket :: text))

namespace Closed

theorem append {commas : Bool} {s t : List Byte} (hs : Closed commas s) (ht : Closed commas t) :
    Closed commas (s ++ t) := by
  induction hs with
  | nil => exact ht
  | plain h hc _ ih => exact .plain h hc (ih ht)
  | escaped _ ih => exact .escaped (ih ht)
  | quoted hq hi _ ih =>
      rw [List.cons_append, List.append_assoc, List.cons_append]
      exact .quoted hq hi (ih ht)
  | group hi _ _ ih =>
      rw [List.cons_append, List.append_assoc, List.cons_append]
      exact .group hi (ih ht)

theorem mono {commas : Bool} {t : List Byte} (h : Closed commas t) : Closed true t := by
  induction h with
  | nil => exact .nil
  | plain h _ _ ih => exact .plain h (fun _ => rfl) ih
  | escaped _ ih => exact .escaped ih
  | quoted hq hi _ ih => exact .quoted hq hi ih
  | group hi _ _ ih => exact .group hi ih

theorem flatMap {α : Type} {commas : Bool} {f : α → List Byte} {xs : List α}
    (h : ∀ x ∈ xs, Closed commas (f x)) : Closed commas (xs.flatMap f) := by
  induction xs with
  | nil => exact .nil
  | cons x xs ih =>
      rw [List.flatMap_cons]
      exact (h x List.mem_cons_self).append (ih fun y hy => h y (List.mem_cons_of_mem x hy))

end Closed

theorem isOrdinary_iff {c : Byte} : isOrdinary c = true
    ↔ c ≠ backslash ∧ isQuote c = false ∧ c ≠ openBracket ∧ c ≠ closeBracket := by
  simp only [isOrdinary, Bool.not_eq_true', Bool.or_eq_false_iff, beq_eq_false_iff_ne, and_assoc,
    ne_eq]

theorem quote_ne {q : Byte} (h : isQuote q = true) : q ≠ backslash := by
  rintro rfl
  cases h

theorem toggleQuote_none (q : Byte) : toggleQuote none q = some q := rfl

theorem toggleQuote_self (q : Byte) : toggleQuote (some q) q = none := by
  rw [toggleQuote, if_neg (Option.some_ne_none q), if_pos rfl]

theorem toggleQuote_other {q c : Byte} (h : c ≠ q) : toggleQuote (some q) c = some q := by
  rw [toggleQuote, if_neg (Option.some_ne_none q), if_neg fun h' => h (Option.some.inj h').symm]

theorem shift_shift (m n : ℕ) (r : Found) : Found.shift m (Found.shift n r) = Found.shift (n + m) r := by
  simp only [Found.shift, Option.map_map, Function.comp_def, Nat.add_assoc]

theorem shift_zero (r : Found) : Found.shift 0 r = r := by
  cases r with
  | none => rfl
  | some p => cases p <;> rfl

/-! ### Separators -/

theorem findTopLevelSeparator_quoted {q sep : Byte} {inner : List Byte} (h : Quoted q inner)
    (hq : isQuote q = true) (depth : ℕ) (rest : List Byte) :
    findTopLevelSeparator sep (some q) depth (inner ++ q :: rest)
      = Found.shift (inner.length + 1) (findTopLevelSeparator sep none depth rest) := by
  induction h with
  | nil =>
      rw [List.nil_append, findTopLevelSeparator_quote hq (quote_ne hq), toggleQuote_self]
      rfl
  | @plain c text hc hcq _ ih =>
      have hone : findTopLevelSeparator sep (some q) depth (c :: (text ++ q :: rest))
          = Found.shift 1 (findTopLevelSeparator sep (some q) depth (text ++ q :: rest)) := by
        cases hquote : isQuote c with
        | true => rw [findTopLevelSeparator_quote hquote hc, toggleQuote_other hcq]
        | false =>
            rw [findTopLevelSeparator_plain hquote hc]
            simp only [reduceCtorEq, if_false, false_and, ite_self]
      rw [List.cons_append, hone, ih, shift_shift, List.length_cons]
  | escaped _ ih =>
      rw [List.cons_append, List.cons_append, findTopLevelSeparator_escape, ih, shift_shift]
      rfl

theorem findTopLevelSeparator_closed {commas : Bool} {t : List Byte} (h : Closed commas t)
    {depth : ℕ} (hdepth : commas = true → 0 < depth) (rest : List Byte) :
    findTopLevelSeparator comma none depth (t ++ rest)
      = Found.shift t.length (findTopLevelSeparator comma none depth rest) := by
  induction h generalizing depth rest with
  | nil => exact (shift_zero _).symm
  | @plain commas c text h hc _ ih =>
      obtain ⟨hb, hquote, ho, hcl⟩ := isOrdinary_iff.mp h
      have hsep : ¬((none : Option Byte) = none ∧ c = comma ∧ depth = 0) := by
        rintro ⟨-, hcomma, hzero⟩
        have hpos := hdepth (hc hcomma)
        omega
      rw [List.cons_append, findTopLevelSeparator_plain hquote hb, if_neg ho, if_neg hcl,
        if_neg hsep, ih hdepth, shift_shift, List.length_cons]
  | escaped _ ih =>
      rw [List.cons_append, List.cons_append, findTopLevelSeparator_escape, ih hdepth, shift_shift]
      rfl
  | @quoted commas q inner text hq hi _ ih =>
      rw [List.cons_append, findTopLevelSeparator_quote hq (quote_ne hq), toggleQuote_none,
        List.append_assoc, List.cons_append, findTopLevelSeparator_quoted hi hq, ih hdepth,
        shift_shift, shift_shift]
      congr 1
      simp only [List.length_cons, List.length_append]
      omega
  | @group commas inner text _ _ ihi ih =>
      rw [List.cons_append, findTopLevelSeparator_plain (by decide) (by decide), if_pos rfl,
        if_pos rfl, List.append_assoc, List.cons_append, ihi (fun _ => Nat.succ_pos depth),
        findTopLevelSeparator_plain (by decide) (by decide), if_neg (by decide), if_pos rfl,
        if_pos rfl, if_neg (Nat.succ_ne_zero depth), Nat.succ_sub_one, ih hdepth, shift_shift,
        shift_shift, shift_shift]
      congr 1
      simp only [List.length_cons, List.length_append]
      omega

/-! ### Closing brackets -/

theorem findClosing_quoted {q : Byte} {inner : List Byte} (h : Quoted q inner)
    (hq : isQuote q = true) (depth : ℕ) (rest : List Byte) :
    findClosing (some q) depth (inner ++ q :: rest)
      = (findClosing none depth rest).map (· + (inner.length + 1)) := by
  induction h with
  | nil =>
      rw [List.nil_append, findClosing_quote hq (quote_ne hq), toggleQuote_self]
      rfl
  | @plain c text hc hcq _ ih =>
      have hone : findClosing (some q) depth (c :: (text ++ q :: rest))
          = (findClosing (some q) depth (text ++ q :: rest)).map (· + 1) := by
        cases hquote : isQuote c with
        | true => rw [findClosing_quote hquote hc, toggleQuote_other hcq]
        | false =>
            rw [findClosing_plain hquote hc]
            simp only [reduceCtorEq, if_false, and_false, ite_self]
      rw [List.cons_append, hone, ih, Option.map_map, List.length_cons]
      rfl
  | escaped _ ih =>
      rw [List.cons_append, List.cons_append, findClosing_escape, ih, Option.map_map]
      rfl

theorem findClosing_closed {commas : Bool} {t : List Byte} (h : Closed commas t) {depth : ℕ}
    (hdepth : 0 < depth) (rest : List Byte) :
    findClosing none depth (t ++ rest) = (findClosing none depth rest).map (· + t.length) := by
  induction h generalizing depth rest with
  | nil => exact Option.map_id'.symm
  | @plain commas c text h hc _ ih =>
      obtain ⟨hb, hquote, ho, hcl⟩ := isOrdinary_iff.mp h
      rw [List.cons_append, findClosing_plain hquote hb, if_neg ho, if_neg fun h => hcl h.1,
        ih hdepth, Option.map_map, List.length_cons]
      rfl
  | escaped _ ih =>
      rw [List.cons_append, List.cons_append, findClosing_escape, ih hdepth, Option.map_map]
      rfl
  | @quoted commas q inner text hq hi _ ih =>
      rw [List.cons_append, findClosing_quote hq (quote_ne hq), toggleQuote_none,
        List.append_assoc, List.cons_append, findClosing_quoted hi hq, ih hdepth, Option.map_map,
        Option.map_map]
      congr 1
      funext n
      simp only [Function.comp_apply, List.length_cons, List.length_append]
      omega
  | @group commas inner text _ _ ihi ih =>
      rw [List.cons_append, findClosing_plain (by decide) (by decide), if_pos rfl, if_pos rfl,
        List.append_assoc, List.cons_append, ihi (Nat.succ_pos depth),
        findClosing_plain (by decide) (by decide), if_neg (by decide), if_pos ⟨rfl, rfl⟩,
        Nat.succ_sub_one, if_neg (Nat.pos_iff_ne_zero.mp hdepth), ih hdepth, Option.map_map,
        Option.map_map, Option.map_map]
      congr 1
      funext n
      simp only [Function.comp_apply, List.length_cons, List.length_append]
      omega

/-- The bracket that opens a group finds the one that closes it. -/
theorem findClosingBracket_group {inner : List Byte} (h : Closed true inner) (rest : List Byte) :
    findClosingBracket (openBracket :: (inner ++ closeBracket :: rest))
      = some (inner.length + 1) := by
  rw [findClosingBracket, if_pos rfl, findClosing_closed h Nat.one_pos,
    findClosing_plain (by decide) (by decide), if_neg (by decide), if_pos ⟨rfl, rfl⟩, if_pos rfl]
  simp only [Option.map_some, Nat.zero_add]

end AutoInstrumentation.ReflectionName
