import AutoInstrumentation.Cel.Evaluation

/-!
# AutoInstrumentation.Cel.IntegerExpressions

Expressions of integers: literals and sizes with signs, sums, differences, products and
choices, and what they are exactly.
-/

namespace AutoInstrumentation.Cel

open Lib

/-! ### Operators -/

inductive Arithmetic
  | plus | minus | times

def Arithmetic.text : Arithmetic → WString
  | .plus => ['+'].map code
  | .minus => ['-'].map code
  | .times => ['*'].map code

def Arithmetic.apply : Arithmetic → ℤ → ℤ → ℤ
  | .plus, x, y => x + y
  | .minus, x, y => x - y
  | .times, x, y => x * y

inductive Relation
  | equal | notEqual | less | lessOrEqual | greater | greaterOrEqual

def Relation.text : Relation → WString
  | .equal => ['=', '='].map code
  | .notEqual => ['!', '='].map code
  | .less => ['<'].map code
  | .lessOrEqual => ['<', '='].map code
  | .greater => ['>'].map code
  | .greaterOrEqual => ['>', '='].map code

def Relation.holds : Relation → ℤ → ℤ → Bool
  | .equal, x, y => x = y
  | .notEqual, x, y => x ≠ y
  | .less, x, y => x < y
  | .lessOrEqual, x, y => x ≤ y
  | .greater, x, y => y < x
  | .greaterOrEqual, x, y => y ≤ x

/-! ### Expressions -/

mutual

inductive IntegerExpression
  | literal (value : BitVec 32)
  | size (argument : CelNode Binary64)
  | negate (operand : IntegerExpression)
  | arithmetic (left : IntegerExpression) (operator : Arithmetic) (right : IntegerExpression)
  | ternary (condition : IntegerCondition) (trueExpr falseExpr : IntegerExpression)

/-- A number is a condition too: it is not zero. -/
inductive IntegerCondition
  | relation (left : IntegerExpression) (operator : Relation) (right : IntegerExpression)
  | truthy (expression : IntegerExpression)
  | not (condition : IntegerCondition)
  | and (left right : IntegerCondition)
  | or (left right : IntegerCondition)

end

mutual

def IntegerExpression.node : IntegerExpression → CelNode Binary64
  | .literal value => .literal (.int value)
  | .size argument => .functionCall (['s', 'i', 'z', 'e'].map code) [argument]
  | .negate operand => .unaryOperator (['-'].map code) operand.node
  | .arithmetic left operator right => .binaryOperator left.node operator.text right.node
  | .ternary condition trueExpr falseExpr =>
      .ternary condition.node trueExpr.node falseExpr.node

def IntegerCondition.node : IntegerCondition → CelNode Binary64
  | .relation left operator right => .binaryOperator left.node operator.text right.node
  | .truthy expression => expression.node
  | .not condition => .unaryOperator (['!'].map code) condition.node
  | .and left right => .binaryOperator left.node (['&', '&'].map code) right.node
  | .or left right => .binaryOperator left.node (['|', '|'].map code) right.node

end

/-! ### Exact values -/

section Exact

variable {ο : Type} (runtime : Runtime ο) (context : Context ο)

/-- The size of a string, an array or a collection. -/
def exactSize : Value ο → Option ℕ
  | .string text => some text.length
  | .object value =>
      match runtime.collection value with
      | .array items => some items.length
      | .list items => some items.length
      | .counted count => some count.toNat
      | .other => none
  | _ => none

mutual

def IntegerExpression.value : IntegerExpression → ℤ
  | .literal value => value.toInt
  | .size argument => ((exactSize runtime (evaluate runtime context argument)).getD 0 : ℕ)
  | .negate operand => -operand.value
  | .arithmetic left operator right => operator.apply left.value right.value
  | .ternary condition trueExpr falseExpr =>
      if condition.value then trueExpr.value else falseExpr.value

def IntegerCondition.value : IntegerCondition → Bool
  | .relation left operator right => operator.holds left.value right.value
  | .truthy expression => expression.value ≠ 0
  | .not condition => !condition.value
  | .and left right => left.value && right.value
  | .or left right => left.value || right.value

end

/-- An integer of 32 bits. -/
def InRange (n : ℤ) : Prop := -2 ^ 31 ≤ n ∧ n < 2 ^ 31

mutual

/-- All sizes are sizes of collections, and all values are integers of 32 bits. -/
def IntegerExpression.Fits : IntegerExpression → Prop
  | .literal _ => True
  | .size argument => ∃ n : ℕ,
      exactSize runtime (evaluate runtime context argument) = some n ∧ InRange n
  | .negate operand => operand.Fits ∧ InRange (-operand.value runtime context)
  | .arithmetic left operator right => left.Fits ∧ right.Fits ∧
      InRange (operator.apply (left.value runtime context) (right.value runtime context))
  | .ternary condition trueExpr falseExpr => condition.Fits ∧ trueExpr.Fits ∧ falseExpr.Fits

def IntegerCondition.Fits : IntegerCondition → Prop
  | .relation left _ right => left.Fits ∧ right.Fits
  | .truthy expression => expression.Fits
  | .not condition => condition.Fits
  | .and left right => left.Fits ∧ right.Fits
  | .or left right => left.Fits ∧ right.Fits

end

/-- No sum, difference or product is on the way to the value: it keeps the type of an
integer. -/
def IntegerExpression.staysInt : IntegerExpression → Bool
  | .literal _ => true
  | .size _ => true
  | .negate operand => operand.staysInt
  | .arithmetic _ _ _ => false
  | .ternary condition trueExpr falseExpr =>
      if condition.value runtime context then trueExpr.staysInt else falseExpr.staysInt

end Exact

/-- The element at a position, and `null` where there is none. -/
def elementAt {ο : Type} (items : List (Value ο)) (position : ℤ) : Value ο :=
  if position < 0 then .null else items[position.toNat]?.getD .null

end AutoInstrumentation.Cel
