import AutoInstrumentation.Cel.IntegerExpressions

/-!
# AutoInstrumentation.Cel.IntegerExpressionsSound

Expressions of integers are evaluated exactly, as an `int` or as a `double` that is the same
number (`evaluate_node`). Comparisons and conditions take both, an index only an `int`.
-/

namespace AutoInstrumentation.Cel

open Lib

variable {ο : Type} {runtime : Runtime ο} {context : Context ο}

/-! ### Integers as numbers -/

/-- An integer as one of its two numbers. -/
def represent (asInt : Bool) (n : ℤ) : Number :=
  if asInt then .int (.ofInt 32 n) else .double (.ofInt n)

theorem InRange.natAbs_lt {n : ℤ} (h : InRange n) : n.natAbs < 2 ^ 53 := by
  obtain ⟨hlower, hupper⟩ := h
  omega

theorem InRange.toInt_ofInt {n : ℤ} (h : InRange n) : (BitVec.ofInt 32 n).toInt = n := by
  obtain ⟨hlower, hupper⟩ := h
  rw [BitVec.toInt_ofInt]
  exact Int.bmod_eq_of_le (by omega) (by omega)

/-- Both numbers are the same `double`. -/
theorem toDouble_represent {n : ℤ} (h : InRange n) (asInt : Bool) :
    (represent asInt n).toDouble = .ofInt n := by
  cases asInt with
  | false => rfl
  | true => exact congrArg Binary64.ofInt h.toInt_ofInt

theorem negate_represent {n : ℤ} (h : InRange n) (asInt : Bool) :
    negate (.number (represent asInt n) : Value ο) = .number (represent asInt (-n)) := by
  cases asInt with
  | false => exact congrArg (fun d => Value.number (.double d)) (Binary64.neg_ofInt h.natAbs_lt)
  | true =>
      show Value.number (.int (-BitVec.ofInt 32 n)) = .number (.int (BitVec.ofInt 32 (-n)))
      rw [BitVec.ofInt_neg]

section Pairs

variable {x y : ℤ} (hx : InRange x) (hy : InRange y) (xAsInt yAsInt : Bool)

include hx hy

/-- A sum, difference or product is a `double`. -/
theorem arithmetic_represent {operator : Arithmetic} (hxy : InRange (operator.apply x y)) :
    binaryOperator runtime (.number (represent xAsInt x)) operator.text
        (.number (represent yAsInt y))
      = .number (represent false (operator.apply x y)) := by
  cases operator with
  | plus =>
      show ofDouble ((represent xAsInt x).toDouble.add (represent yAsInt y).toDouble) = _
      rw [toDouble_represent hx, toDouble_represent hy,
        Binary64.add_ofInt hx.natAbs_lt hy.natAbs_lt]
      rfl
  | minus =>
      show ofDouble ((represent xAsInt x).toDouble.sub (represent yAsInt y).toDouble) = _
      rw [toDouble_represent hx, toDouble_represent hy,
        Binary64.sub_ofInt hx.natAbs_lt hy.natAbs_lt]
      rfl
  | times =>
      show ofDouble ((represent xAsInt x).toDouble.mul (represent yAsInt y).toDouble) = _
      rw [toDouble_represent hx, toDouble_represent hy,
        Binary64.mul_ofInt hx.natAbs_lt hy.natAbs_lt hxy.natAbs_lt]
      rfl

theorem areEqual_represent (runtime : Runtime ο) :
    areEqual runtime (.number (represent xAsInt x)) (.number (represent yAsInt y))
      = decide (x = y) := by
  show ((represent xAsInt x).toDouble.sub (represent yAsInt y).toDouble).abs.lt Binary64.epsilon
    = decide (x = y)
  rw [toDouble_represent hx, toDouble_represent hy, Bool.eq_iff_iff,
    Binary64.abs_sub_lt_epsilon, decide_eq_true_iff]
  rw [← Binary64.ofInt_inj hx.natAbs_lt hy.natAbs_lt]
  constructor
  · rintro ⟨units, hleft, hright⟩
    exact hleft.trans hright.symm
  · intro heq
    exact ⟨_, Binary64.ofInt_eq hx.natAbs_lt, heq.symm.trans (Binary64.ofInt_eq hx.natAbs_lt)⟩

theorem compareLessThan_represent :
    compareLessThan (.number (represent xAsInt x) : Value ο) (.number (represent yAsInt y))
      = decide (x < y) := by
  show (represent xAsInt x).toDouble.lt (represent yAsInt y).toDouble = decide (x < y)
  rw [toDouble_represent hx, toDouble_represent hy, Binary64.lt_ofInt hx.natAbs_lt hy.natAbs_lt]

theorem compareGreaterThan_represent :
    compareGreaterThan (.number (represent xAsInt x) : Value ο) (.number (represent yAsInt y))
      = decide (y < x) := by
  show (represent yAsInt y).toDouble.lt (represent xAsInt x).toDouble = decide (y < x)
  rw [toDouble_represent hx, toDouble_represent hy, Binary64.lt_ofInt hy.natAbs_lt hx.natAbs_lt]

/-- **A comparison of two integers** is that of the integers. -/
theorem relation_represent (operator : Relation) :
    binaryOperator runtime (.number (represent xAsInt x)) operator.text
        (.number (represent yAsInt y))
      = .bool (operator.holds x y) := by
  have hequal := areEqual_represent hx hy xAsInt yAsInt runtime
  have hless := compareLessThan_represent (ο := ο) hx hy xAsInt yAsInt
  have hgreater := compareGreaterThan_represent (ο := ο) hx hy xAsInt yAsInt
  cases operator with
  | equal => exact congrArg Value.bool hequal
  | notEqual =>
      refine congrArg Value.bool ((congrArg (! ·) hequal).trans ?_)
      rw [Relation.holds, decide_not]
  | less => exact congrArg Value.bool hless
  | lessOrEqual =>
      refine congrArg Value.bool ((congrArg (! ·) hgreater).trans ?_)
      rw [Relation.holds, ← decide_not, decide_eq_decide]
      exact Int.not_lt
  | greater => exact congrArg Value.bool hgreater
  | greaterOrEqual =>
      refine congrArg Value.bool ((congrArg (! ·) hless).trans ?_)
      rw [Relation.holds, ← decide_not, decide_eq_decide]
      exact Int.not_lt

end Pairs

/-- A number is true if it is not zero. -/
theorem isTrue_represent {n : ℤ} (h : InRange n) (asInt : Bool) :
    isTrue (.number (represent asInt n) : Value ο) = decide (n ≠ 0) := by
  cases asInt with
  | true =>
      show decide (BitVec.ofInt 32 n ≠ 0) = decide (n ≠ 0)
      rw [decide_eq_decide, not_iff_not, ← BitVec.toInt_inj, h.toInt_ofInt]
      rfl
  | false =>
      show Binary64.epsilon.lt (Binary64.ofInt n).abs = decide (n ≠ 0)
      rw [Binary64.ofInt_eq h.natAbs_lt]
      show decide ((1 : ℤ) < (n * Binary64.one).natAbs) = decide (n ≠ 0)
      rw [decide_eq_decide, Int.natAbs_mul, Int.natAbs_natCast]
      have hone : 1 < Binary64.one := Nat.one_lt_two_pow (by decide)
      constructor
      · rintro hlt rfl
        simp at hlt
      · intro hne
        have hpos := Int.natAbs_pos.mpr hne
        have hle := Nat.le_mul_of_pos_left Binary64.one hpos
        omega

/-! ### Expressions -/

theorem evaluateSize_eq {value : Value ο} {n : ℕ} (h : exactSize runtime value = some n) :
    evaluateSize runtime [value] = .number (represent true n) := by
  have hrepresent : (represent true n) = .int (.ofNat 32 n) :=
    congrArg Number.int (BitVec.ofInt_natCast 32 n)
  rw [hrepresent]
  cases value with
  | string text =>
      obtain rfl := Option.some.inj h
      rfl
  | object value =>
      simp only [exactSize] at h
      simp only [evaluateSize]
      cases hcollection : runtime.collection value with
      | array items =>
          rw [hcollection] at h
          obtain rfl := Option.some.inj h
          rfl
      | list items =>
          rw [hcollection] at h
          obtain rfl := Option.some.inj h
          rfl
      | counted count =>
          rw [hcollection] at h
          obtain rfl := Option.some.inj h
          simp [ofCount]
      | other =>
          rw [hcollection] at h
          cases h
  | null | bool | number => cases h

/-- The value of an expression that fits is in range. -/
theorem value_inRange : (e : IntegerExpression) → e.Fits runtime context →
    InRange (e.value runtime context)
  | .literal value, _ => by
      have hlower := BitVec.le_toInt value
      have hupper := BitVec.toInt_lt (x := value)
      exact ⟨hlower, hupper⟩
  | .size argument, h => by
      obtain ⟨n, hsize, hrange⟩ := h
      rw [IntegerExpression.value, hsize]
      exact hrange
  | .negate _, h => h.2
  | .arithmetic _ _ _, h => h.2.2
  | .ternary condition trueExpr falseExpr, h => by
      rw [IntegerExpression.value]
      split
      · exact value_inRange trueExpr h.2.1
      · exact value_inRange falseExpr h.2.2

mutual

/-- **An expression of integers** is evaluated to its value, as an `int` if no arithmetic is on
the way. -/
theorem evaluate_node : (e : IntegerExpression) → e.Fits runtime context →
    evaluate runtime context e.node
      = .number (represent (e.staysInt runtime context) (e.value runtime context))
  | .literal value, _ => by
      show Value.number (.int value) = .number (.int (.ofInt 32 value.toInt))
      rw [BitVec.ofInt_toInt]
  | .size argument, h => by
      obtain ⟨n, hsize, -⟩ := h
      rw [IntegerExpression.value, hsize]
      exact evaluateSize_eq hsize
  | .negate operand, h => by
      show negate (evaluate runtime context operand.node) = _
      rw [evaluate_node operand h.1, negate_represent (value_inRange operand h.1)]
      rfl
  | .arithmetic left operator right, h => by
      rw [IntegerExpression.node, evaluate, evaluate_node left h.1, evaluate_node right h.2.1]
      exact arithmetic_represent (value_inRange left h.1) (value_inRange right h.2.1) _ _ h.2.2
  | .ternary condition trueExpr falseExpr, h => by
      rw [IntegerExpression.node, evaluate, isTrue_node condition h.1, IntegerExpression.staysInt,
        IntegerExpression.value]
      split
      · exact evaluate_node trueExpr h.2.1
      · exact evaluate_node falseExpr h.2.2

/-- **A condition** is true if it holds of the integers. -/
theorem isTrue_node : (c : IntegerCondition) → c.Fits runtime context →
    isTrue (evaluate runtime context c.node) = c.value runtime context
  | .relation left operator right, h => by
      rw [IntegerCondition.node, evaluate, evaluate_node left h.1, evaluate_node right h.2,
        relation_represent (value_inRange left h.1) (value_inRange right h.2)]
      rfl
  | .truthy expression, h => by
      rw [IntegerCondition.node, evaluate_node expression h,
        isTrue_represent (value_inRange expression h)]
      rfl
  | .not condition, h => by
      show (!isTrue (evaluate runtime context condition.node)) = _
      rw [isTrue_node condition h]
      rfl
  | .and left right, h => by
      show (isTrue (evaluate runtime context left.node)
        && isTrue (evaluate runtime context right.node)) = _
      rw [isTrue_node left h.1, isTrue_node right h.2]
      rfl
  | .or left right, h => by
      show (isTrue (evaluate runtime context left.node)
        || isTrue (evaluate runtime context right.node)) = _
      rw [isTrue_node left h.1, isTrue_node right h.2]
      rfl

end

/-! ### Indices -/

theorem itemAt_ofInt (items : List (Value ο)) {n : ℤ} (h : InRange n) :
    itemAt (items.map some) (.ofInt 32 n) = elementAt items n := by
  rw [itemAt, elementAt, h.toInt_ofInt, List.length_map]
  by_cases hnegative : n < 0
  · rw [if_pos (.inl hnegative), if_pos hnegative]
  · by_cases hlength : (items.length : ℤ) ≤ n
    · have hnone : items[n.toNat]? = none := List.getElem?_eq_none (by omega)
      rw [if_pos (.inr hlength), if_neg hnegative, hnone]
      rfl
    · have hrange : ¬ (n < 0 ∨ (items.length : ℤ) ≤ n) := not_or.mpr ⟨hnegative, hlength⟩
      rw [if_neg hrange, if_neg hnegative, List.getElem?_map]
      cases items[n.toNat]? with
      | none => rfl
      | some value => rfl

/-- **An index** that is an `int` has the element at its position, and a `double` has none. -/
theorem indexAccess_represent {target : ο} {items : List (Value ο)}
    (hitems : runtime.collection target = .array (items.map some)
      ∨ runtime.collection target = .list (items.map some)) {n : ℤ} (h : InRange n)
    (asInt : Bool) :
    indexAccess runtime (.object target) (.number (represent asInt n))
      = if asInt then elementAt items n else .null := by
  cases asInt with
  | false => rfl
  | true =>
      show getIndexValue runtime target (.ofInt 32 n) = elementAt items n
      rw [getIndexValue, ← itemAt_ofInt items h]
      rcases hitems with hitems | hitems
      · rw [hitems]
      · rw [hitems]

/-- **Comparisons of integer expressions are those of the integers.** An index has the element
at its position exactly if no sum, difference or product is on the way to it, unless there is
none or it is `null`. -/
theorem integerExpression_exact_iff (runtime : Runtime ο) (context : Context ο) :
    (∀ (left : IntegerExpression) (operator : Relation) (right : IntegerExpression),
      left.Fits runtime context → right.Fits runtime context →
      evaluate runtime context (.binaryOperator left.node operator.text right.node)
        = .bool (operator.holds (left.value runtime context) (right.value runtime context)))
    ∧ ∀ (index : IntegerExpression) (target : CelNode Binary64) (collection : ο)
        (items : List (Value ο)), index.Fits runtime context →
      evaluate runtime context target = .object collection →
      (runtime.collection collection = .array (items.map some)
        ∨ runtime.collection collection = .list (items.map some)) →
      (evaluate runtime context (.indexAccess target index.node)
          = elementAt items (index.value runtime context)
        ↔ index.staysInt runtime context = true
          ∨ elementAt items (index.value runtime context) = .null) := by
  refine ⟨?_, ?_⟩
  · intro left operator right hleft hright
    rw [evaluate, evaluate_node left hleft, evaluate_node right hright]
    exact relation_represent (value_inRange left hleft) (value_inRange right hright) _ _ operator
  · intro index target collection items hindex htarget hitems
    rw [evaluate, evaluate_node index hindex, htarget,
      indexAccess_represent hitems (value_inRange index hindex)]
    cases index.staysInt runtime context with
    | true => simp
    | false =>
        rw [if_neg Bool.false_ne_true, or_iff_right Bool.false_ne_true]
        exact eq_comm

def oneItem : List (Value Unit) := [.string [code 'a']]

/-- A runtime with one object: an array of a string. -/
def oneArray : Runtime Unit where
  collection _ := .array (oneItem.map some)
  equals _ _ := false
  text _ := none
  getPropertyValue _ _ := .null

def oneArgument : Context Unit where
  instanceValue := .null
  arguments := .object ()
  returnValue := .null
  methodName := none
  typeName := none

/-- `arguments`. -/
def argumentsNode : CelNode Binary64 :=
  .identifier (['a', 'r', 'g', 'u', 'm', 'e', 'n', 't', 's'].map code)

/-- `size(arguments) - 1`. -/
def lastPosition : IntegerExpression := .arithmetic (.size argumentsNode) .minus (.literal 1)

theorem lastPosition_fits : lastPosition.Fits oneArray oneArgument :=
  ⟨⟨1, rfl, by decide, by decide⟩, trivial, by decide, by decide⟩

theorem integerExpression_exact_iff_lastPosition :
    evaluate oneArray oneArgument (.indexAccess argumentsNode lastPosition.node)
        = elementAt oneItem (lastPosition.value oneArray oneArgument)
      ↔ lastPosition.staysInt oneArray oneArgument = true
        ∨ elementAt oneItem (lastPosition.value oneArray oneArgument) = .null :=
  (integerExpression_exact_iff oneArray oneArgument).2 lastPosition argumentsNode () oneItem
    lastPosition_fits rfl (.inl rfl)

/-- `arguments[size(arguments) - 1]` is not the last argument. -/
theorem lastPosition_not_element :
    ¬ ∀ (index : IntegerExpression) (target : CelNode Binary64) (collection : Unit)
        (items : List (Value Unit)), index.Fits oneArray oneArgument →
      evaluate oneArray oneArgument target = .object collection →
      (oneArray.collection collection = .array (items.map some)
        ∨ oneArray.collection collection = .list (items.map some)) →
      evaluate oneArray oneArgument (.indexAccess target index.node)
        = elementAt items (index.value oneArray oneArgument) := by
  intro hall
  have hlast := hall lastPosition argumentsNode () oneItem lastPosition_fits rfl (.inl rfl)
  -- the index is a `double`
  cases hlast

end AutoInstrumentation.Cel
