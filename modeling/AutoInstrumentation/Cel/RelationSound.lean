import AutoInstrumentation.Cel.Evaluation

/-!
# AutoInstrumentation.Cel.RelationSound

When the relational operators agree with each other.

They do exactly if one of `<`, `==` and `>` holds (`coherent_iff`), since `<=` and `>=` are the
negations of `>` and `<`. So values that have no order have to be equal.
-/

namespace AutoInstrumentation.Cel

open Lib

variable {ο : Type} {runtime : Runtime ο} {a b : Value ο}

/-- A relational operator evaluates to `true`. -/
def Holds (runtime : Runtime ο) (left : Value ο) (operator : List Char) (right : Value ο) : Prop :=
  binaryOperator runtime left (operator.map code) right = .bool true

/-- Numbers and strings have an order, but for `NaN`. -/
def Ordered : Value ο → Value ο → Prop
  | .number left, .number right => left.toDouble ≠ .nan ∧ right.toDouble ≠ .nan
  | .string _, .string _ => True
  | _, _ => False

/-- The operators agree for two values. -/
structure Coherent (runtime : Runtime ο) (a b : Value ο) : Prop where
  lessOrEqual : Holds runtime a ['<', '='] b ↔ Holds runtime a ['<'] b ∨ Holds runtime a ['=', '='] b
  greaterOrEqual :
    Holds runtime a ['>', '='] b ↔ Holds runtime a ['>'] b ∨ Holds runtime a ['=', '='] b
  flip : Holds runtime a ['<'] b ↔ Holds runtime b ['>'] a
  lessNotEqual : ¬ (Holds runtime a ['<'] b ∧ Holds runtime a ['=', '='] b)
  greaterNotEqual : ¬ (Holds runtime a ['>'] b ∧ Holds runtime a ['=', '='] b)
  lessNotGreater : ¬ (Holds runtime a ['<'] b ∧ Holds runtime a ['>'] b)
  unordered : ¬ Ordered a b → ¬ Holds runtime a ['<'] b ∧ ¬ Holds runtime a ['>'] b
    ∧ (Holds runtime a ['<', '='] b → Holds runtime a ['=', '='] b)
    ∧ (Holds runtime a ['>', '='] b → Holds runtime a ['=', '='] b)

/-! ### Operators -/

theorem holds_eq : Holds runtime a ['=', '='] b ↔ areEqual runtime a b = true := by
  show Value.bool _ = .bool true ↔ _
  rw [Value.bool.injEq]

theorem holds_lt : Holds runtime a ['<'] b ↔ compareLessThan a b = true := by
  show Value.bool _ = .bool true ↔ _
  rw [Value.bool.injEq]

theorem holds_gt : Holds runtime a ['>'] b ↔ compareGreaterThan a b = true := by
  show Value.bool _ = .bool true ↔ _
  rw [Value.bool.injEq]

theorem holds_le : Holds runtime a ['<', '='] b ↔ compareGreaterThan a b = false := by
  show Value.bool _ = .bool true ↔ _
  rw [Value.bool.injEq, Bool.not_eq_true']

theorem holds_ge : Holds runtime a ['>', '='] b ↔ compareLessThan a b = false := by
  show Value.bool _ = .bool true ↔ _
  rw [Value.bool.injEq, Bool.not_eq_true']

/-- The orders of both sides are one. -/
theorem compareLessThan_flip (a b : Value ο) : compareLessThan a b = compareGreaterThan b a := by
  cases a with
  | string left =>
      cases b with
      | string right =>
          simp only [compareLessThan, compareGreaterThan, compareOrdinal]
          have hswap : compare left right = (compare right left).swap := Std.OrientedCmp.eq_swap
          rw [hswap]
          cases compare right left <;> rfl
      | null | bool | number | object => rfl
  | number left => cases b <;> rfl
  | null | bool | object => cases b <;> rfl

theorem compare_of_not_ordered (h : ¬ Ordered a b) :
    compareLessThan a b = false ∧ compareGreaterThan a b = false := by
  cases a with
  | number left =>
      cases b with
      | number right =>
          rw [Ordered, not_and_or, not_not, not_not] at h
          simp only [compareLessThan, compareGreaterThan]
          rcases h with hnan | hnan
          · rw [hnan]
            cases right.toDouble <;> exact ⟨rfl, rfl⟩
          · rw [hnan]
            cases left.toDouble <;> exact ⟨rfl, rfl⟩
      | null | bool | string | object => exact ⟨rfl, rfl⟩
  | string left =>
      cases b with
      | string right => exact absurd trivial h
      | null | bool | number | object => exact ⟨rfl, rfl⟩
  | null | bool | object => cases b <;> exact ⟨rfl, rfl⟩

/-- One of three holds. -/
def ExactlyOne (p q r : Bool) : Prop :=
  (p = true ∧ q = false ∧ r = false) ∨ (p = false ∧ q = true ∧ r = false)
    ∨ (p = false ∧ q = false ∧ r = true)

/-- **The operators agree** exactly if one of `<`, `==` and `>` holds. -/
theorem coherent_iff :
    Coherent runtime a b
      ↔ ExactlyOne (compareLessThan a b) (areEqual runtime a b) (compareGreaterThan a b) := by
  constructor
  · intro h
    have hle := h.lessOrEqual
    have hge := h.greaterOrEqual
    have hlt := h.lessNotEqual
    have hgt := h.greaterNotEqual
    have hneither := h.lessNotGreater
    rw [holds_le, holds_lt, holds_eq] at hle
    rw [holds_ge, holds_gt, holds_eq] at hge
    rw [holds_lt, holds_eq] at hlt
    rw [holds_gt, holds_eq] at hgt
    rw [holds_lt, holds_gt] at hneither
    revert hle hge hlt hgt hneither
    rw [ExactlyOne]
    generalize compareLessThan a b = less
    generalize areEqual runtime a b = equal
    generalize compareGreaterThan a b = greater
    cases less <;> cases equal <;> cases greater <;> simp
  · intro h
    refine ⟨?_, ?_, ?_, ?_, ?_, ?_, ?_⟩
    · rw [holds_le, holds_lt, holds_eq]
      rcases h with ⟨hlt, heq, hgt⟩ | ⟨hlt, heq, hgt⟩ | ⟨hlt, heq, hgt⟩ <;> simp [hlt, heq, hgt]
    · rw [holds_ge, holds_gt, holds_eq]
      rcases h with ⟨hlt, heq, hgt⟩ | ⟨hlt, heq, hgt⟩ | ⟨hlt, heq, hgt⟩ <;> simp [hlt, heq, hgt]
    · rw [holds_lt, holds_gt, compareLessThan_flip]
    · rw [holds_lt, holds_eq]
      rcases h with ⟨hlt, heq, hgt⟩ | ⟨hlt, heq, hgt⟩ | ⟨hlt, heq, hgt⟩ <;> simp [hlt, heq]
    · rw [holds_gt, holds_eq]
      rcases h with ⟨hlt, heq, hgt⟩ | ⟨hlt, heq, hgt⟩ | ⟨hlt, heq, hgt⟩ <;> simp [heq, hgt]
    · rw [holds_lt, holds_gt]
      rcases h with ⟨hlt, heq, hgt⟩ | ⟨hlt, heq, hgt⟩ | ⟨hlt, heq, hgt⟩ <;> simp [hlt, hgt]
    · intro hordered
      obtain ⟨hlt, hgt⟩ := compare_of_not_ordered hordered
      rw [ExactlyOne, hlt, hgt] at h
      have heq : areEqual runtime a b = true := by simpa using h
      rw [holds_lt, holds_gt, holds_eq, hlt, hgt]
      exact ⟨Bool.false_ne_true, Bool.false_ne_true, fun _ => heq, fun _ => heq⟩

/-! ### Values -/

/-- Numbers and strings of which one of `<`, `==` and `>` holds. -/
def Comparable : Value ο → Value ο → Prop
  | .number left, .number right => left.toDouble ≠ .nan ∧ right.toDouble ≠ .nan
      ∧ ¬ ∃ negative, left.toDouble = .infinity negative ∧ right.toDouble = .infinity negative
  | .string _, .string _ => True
  | _, _ => False

/-- Other values that are equal, by the `Equals` of an object. -/
def Same (runtime : Runtime ο) : Value ο → Value ο → Prop
  | .null, .null => True
  | .bool left, .bool right => left = right
  | .object _, .null => False
  | .object left, right => runtime.equals left right = true
  | _, _ => False

theorem exactlyOne_number (left right : Binary64) :
    ExactlyOne (left.lt right) ((left.sub right).abs.lt Binary64.epsilon) (right.lt left)
      ↔ left ≠ .nan ∧ right ≠ .nan
        ∧ ¬ ∃ negative, left = .infinity negative ∧ right = .infinity negative := by
  cases left with
  | nan => cases right <;> simp [ExactlyOne, Binary64.lt, Binary64.sub, Binary64.add, Binary64.abs]
  | infinity negative =>
      cases right with
      | nan => cases negative <;> simp [ExactlyOne, Binary64.lt, Binary64.sub, Binary64.add,
          Binary64.neg, Binary64.abs]
      | infinity negative' =>
          cases negative <;> cases negative' <;> simp [ExactlyOne, Binary64.lt, Binary64.sub,
            Binary64.add, Binary64.neg, Binary64.abs, Binary64.epsilon]
      | finite units => cases negative <;> simp [ExactlyOne, Binary64.lt, Binary64.sub,
          Binary64.add, Binary64.neg, Binary64.abs, Binary64.epsilon]
  | finite units =>
      cases right with
      | nan => simp [ExactlyOne, Binary64.lt, Binary64.sub, Binary64.add, Binary64.neg,
          Binary64.abs]
      | infinity negative => cases negative <;> simp [ExactlyOne, Binary64.lt, Binary64.sub,
          Binary64.add, Binary64.neg, Binary64.abs, Binary64.epsilon]
      | finite units' =>
          have hclose : ((Binary64.finite units).sub (.finite units')).abs.lt Binary64.epsilon
              = decide (units = units') := by
            rw [Bool.eq_iff_iff, Binary64.abs_sub_lt_epsilon, decide_eq_true_iff]
            constructor
            · rintro ⟨both, hleft, hright⟩
              exact (Binary64.finite.inj hleft).trans (Binary64.finite.inj hright).symm
            · rintro rfl
              exact ⟨units, rfl, rfl⟩
          rw [hclose]
          rcases Int.lt_trichotomy units units' with hlt | heq | hgt
          · simp [ExactlyOne, Binary64.lt]
            omega
          · simp [ExactlyOne, Binary64.lt, heq]
          · simp [ExactlyOne, Binary64.lt]
            omega

theorem exactlyOne_string (left right : WString) :
    ExactlyOne (compareOrdinal left right == .lt) (left == right)
      (compareOrdinal left right == .gt) := by
  have heq : compareOrdinal left right = .eq ↔ left = right :=
    Std.compare_eq_iff_eq
  cases hcompare : compareOrdinal left right with
  | lt =>
      have hne : left ≠ right := fun h => by
        rw [heq.mpr h] at hcompare
        cases hcompare
      exact .inl ⟨rfl, beq_eq_false_iff_ne.mpr hne, rfl⟩
  | eq => exact .inr (.inl ⟨rfl, beq_iff_eq.mpr (heq.mp hcompare), rfl⟩)
  | gt =>
      have hne : left ≠ right := fun h => by
        rw [heq.mpr h] at hcompare
        cases hcompare
      exact .inr (.inr ⟨rfl, beq_eq_false_iff_ne.mpr hne, rfl⟩)

/-- Without an order, equality is all there is. -/
theorem exactlyOne_iff_of_not_ordered (h : ¬ Ordered a b) :
    ExactlyOne (compareLessThan a b) (areEqual runtime a b) (compareGreaterThan a b)
      ↔ areEqual runtime a b = true := by
  obtain ⟨hlt, hgt⟩ := compare_of_not_ordered h
  rw [ExactlyOne, hlt, hgt]
  simp

/-- **The relational operators agree** exactly for numbers (no `NaN`, and not twice the same
infinity), strings, and values that are equal. -/
theorem coherent_iff_comparable (runtime : Runtime ο) (a b : Value ο) :
    Coherent runtime a b ↔ Comparable a b ∨ Same runtime a b := by
  rw [coherent_iff]
  cases a with
  | number left =>
      cases b with
      | number right =>
          have hsame : ¬ Same runtime (.number left) (.number right) := id
          rw [or_iff_left hsame]
          exact exactlyOne_number left.toDouble right.toDouble
      | null | bool | string | object =>
          rw [exactlyOne_iff_of_not_ordered (by exact id)]
          simp [areEqual, Comparable, Same]
  | string left =>
      cases b with
      | string right => exact iff_of_true (exactlyOne_string left right) (.inl trivial)
      | null | bool | number | object =>
          rw [exactlyOne_iff_of_not_ordered (by exact id)]
          simp [areEqual, Comparable, Same]
  | null =>
      rw [exactlyOne_iff_of_not_ordered (by cases b <;> exact id)]
      cases b <;> simp [areEqual, Comparable, Same]
  | bool left =>
      rw [exactlyOne_iff_of_not_ordered (by cases b <;> exact id)]
      cases b <;> simp [areEqual, Comparable, Same]
  | object left =>
      rw [exactlyOne_iff_of_not_ordered (by cases b <;> exact id)]
      cases b <;> simp [areEqual, Comparable, Same]

/-- A runtime without objects. -/
def noObjects : Runtime Empty where
  collection value := value.elim
  equals value := value.elim
  text _ := none
  getPropertyValue _ _ := .null

/-- `null <= 5` is true, and `null < 5` and `null == 5` are not. -/
theorem null_not_coherent :
    ¬ ∀ a b : Value Empty, Coherent noObjects a b := by
  intro hall
  have hnull := (hall .null (.number (.int 5))).lessOrEqual
  rw [holds_le, holds_lt, holds_eq] at hnull
  revert hnull
  decide

end AutoInstrumentation.Cel
