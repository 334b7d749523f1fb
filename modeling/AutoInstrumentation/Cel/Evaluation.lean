import AutoInstrumentation.Cel.Parser
import AutoInstrumentation.Lib.Binary64

/-!
# AutoInstrumentation.Cel.Evaluation

The evaluation of expressions (`Nodes/*.cs`, `CelHelpers.cs`, `CelExpression.cs`).

What the evaluator does not look into is an `object`: the runtime answers what kind of
collection it is, what its `Equals` says, what text it has and what its properties are. An
evaluation reads objects and changes none.
-/

namespace AutoInstrumentation.Cel

open Lib

/-! ### Values -/

/-- The types of `IsNumeric`. A `float` is a `double` too, and a `decimal` is a number of units
of a power of ten. -/
inductive Number
  | int (value : BitVec 32)
  | long (value : BitVec 64)
  | float (value : Binary64)
  | double (value : Binary64)
  | decimal (unscaled : ℤ) (scale : ℕ)
  | byte (value : BitVec 8)
  | short (value : BitVec 16)
  | uint (value : BitVec 32)
  | ulong (value : BitVec 64)
  | ushort (value : BitVec 16)
  | sbyte (value : BitVec 8)
  deriving DecidableEq, Repr

/-- `object?`. -/
inductive Value (ο : Type)
  | null
  | bool (value : Bool)
  | string (value : WString)
  | number (value : Number)
  | object (value : ο)
  deriving DecidableEq, Repr

/-- What an object is to `size()` and to an index. A position whose indexer throws has no
element. -/
inductive Collection (ο : Type)
  | array (items : List (Option (Value ο)))
  | list (items : List (Option (Value ο)))
  /-- An `ICollection`, or an object with a `Count` or a `Length`. -/
  | counted (count : BitVec 32)
  | other

/-- What the evaluator asks objects. -/
structure Runtime (ο : Type) where
  collection : ο → Collection ο
  equals : ο → Value ο → Bool
  /-- `ToString`, which may answer `null`. -/
  text : Value ο → Option WString
  getPropertyValue : Value ο → WString → Value ο

/-- `NoCodeExpressionContext`. -/
structure Context (ο : Type) where
  instanceValue : Value ο
  arguments : Value ο
  returnValue : Value ο
  methodName : Option WString
  typeName : Option WString

/-- `Convert.ToDouble`. -/
def Number.toDouble : Number → Binary64
  | .int value => .ofInt value.toInt
  | .long value => .ofInt value.toInt
  | .float value => value
  | .double value => value
  | .decimal unscaled scale => .ofQuotient (unscaled * Binary64.one) (10 ^ scale)
  | .byte value => .ofInt value.toNat
  | .short value => .ofInt value.toInt
  | .uint value => .ofInt value.toNat
  | .ulong value => .ofInt value.toNat
  | .ushort value => .ofInt value.toNat
  | .sbyte value => .ofInt value.toInt

/-- `float.Epsilon`, the least `float` above zero. -/
def floatEpsilon : Binary64 := .finite (2 ^ 925)

/-- `IsTrue` of a number. -/
def Number.isTrue : Number → Bool
  | .int value => value ≠ 0
  | .long value => value ≠ 0
  | .float value => floatEpsilon.lt value.abs
  | .double value => Binary64.epsilon.lt value.abs
  | .decimal unscaled _ => unscaled ≠ 0
  | .byte value => value ≠ 0
  | .short value => value ≠ 0
  | .uint value => value ≠ 0
  | .ulong value => value ≠ 0
  | .ushort value => value ≠ 0
  | .sbyte value => value ≠ 0

variable {ο : Type}

/-- `CelHelpers.IsTrue`. -/
def isTrue : Value ο → Bool
  | .null => false
  | .bool value => value
  | .string value => value ≠ []
  | .number value => value.isTrue
  | .object _ => true

/-! ### Operators -/

section Operators

variable (runtime : Runtime ο)

/-- `AreEqual`. The `Equals` of a built-in type rejects the values of all others. -/
def areEqual : Value ο → Value ο → Bool
  | .null, .null => true
  | .null, _ => false
  | _, .null => false
  | .bool left, .bool right => left == right
  | .number left, .number right =>
      (left.toDouble.sub right.toDouble).abs.lt Binary64.epsilon
  | .string left, .string right => left == right
  | .object left, right => runtime.equals left right
  | _, _ => false

/-- `string.CompareOrdinal`. -/
def compareOrdinal (left right : WString) : Ordering := compare left right

def compareLessThan : Value ο → Value ο → Bool
  | .number left, .number right => left.toDouble.lt right.toDouble
  | .string left, .string right => compareOrdinal left right == .lt
  | _, _ => false

def compareGreaterThan : Value ο → Value ο → Bool
  | .number left, .number right => right.toDouble.lt left.toDouble
  | .string left, .string right => compareOrdinal left right == .gt
  | _, _ => false

/-- An operator of doubles. -/
def arithmetic (f : Binary64 → Binary64 → Value ο) : Value ο → Value ο → Value ο
  | .number left, .number right => f left.toDouble right.toDouble
  | _, _ => .null

def ofDouble (value : Binary64) : Value ο := .number (.double value)

def add : Value ο → Value ο → Value ο
  | .string left, .string right => .string (left ++ right)
  | left, right => arithmetic (fun l r => ofDouble (l.add r)) left right

def subtract : Value ο → Value ο → Value ο := arithmetic fun l r => ofDouble (l.sub r)

def multiply : Value ο → Value ο → Value ο := arithmetic fun l r => ofDouble (l.mul r)

def divide : Value ο → Value ο → Value ο :=
  arithmetic fun l r => if r.abs.lt Binary64.epsilon then .null else ofDouble (l.div r)

def modulo : Value ο → Value ο → Value ο :=
  arithmetic fun l r => if r.abs.lt Binary64.epsilon then .null else ofDouble (l.rem r)

/-- The operators that evaluate both operands. -/
def valueOperators : List (WString × (Value ο → Value ο → Value ο)) :=
  [(['=', '='].map code, fun l r => .bool (areEqual runtime l r)),
    (['!', '='].map code, fun l r => .bool (!areEqual runtime l r)),
    (['<'].map code, fun l r => .bool (compareLessThan l r)),
    (['>'].map code, fun l r => .bool (compareGreaterThan l r)),
    (['<', '='].map code, fun l r => .bool (!compareGreaterThan l r)),
    (['>', '='].map code, fun l r => .bool (!compareLessThan l r)),
    (['+'].map code, add), (['-'].map code, subtract), (['*'].map code, multiply),
    (['/'].map code, divide), (['%'].map code, modulo)]

/-- `CelBinaryOperatorNode.Evaluate`. -/
def binaryOperator (left : Value ο) (operator : WString) (right : Value ο) : Value ο :=
  if operator = ['&', '&'].map code then .bool (isTrue left && isTrue right)
  else if operator = ['|', '|'].map code then .bool (isTrue left || isTrue right)
  else ((valueOperators runtime).lookup operator).elim .null fun evaluate => evaluate left right

end Operators

/-- `Negate`: the type stays. -/
def negate : Value ο → Value ο
  | .number (.int value) => .number (.int (-value))
  | .number (.long value) => .number (.long (-value))
  | .number (.float value) => .number (.float value.neg)
  | .number (.double value) => .number (.double value.neg)
  | .number (.decimal unscaled scale) => .number (.decimal (-unscaled) scale)
  | _ => .null

/-- `CelUnaryOperatorNode.Evaluate`. -/
def unaryOperator (operator : WString) (operand : Value ο) : Value ο :=
  if operator = ['!'].map code then .bool (!isTrue operand)
  else if operator = ['-'].map code then negate operand
  else .null

/-! ### Functions and indices -/

section Functions

variable (runtime : Runtime ο)

/-- `value?.ToString()`. -/
def textOf : Value ο → Option WString
  | .null => none
  | value => runtime.text value

def evaluateString : List (Value ο) → Value ο
  | [value] => .string ((textOf runtime value).getD [])
  | _ => .string []

/-- A boxed `int?`. -/
def ofCount (count : BitVec 32) : Value ο := .number (.int count)

def evaluateSize : List (Value ο) → Value ο
  | [.string text] => ofCount (.ofNat 32 text.length)
  | [.object value] =>
      match runtime.collection value with
      | .array items => ofCount (.ofNat 32 items.length)
      | .list items => ofCount (.ofNat 32 items.length)
      | .counted count => ofCount count
      | .other => .null
  | _ => .null

/-- A test of the texts of two arguments. -/
def evaluateTexts (test : WString → WString → Bool) : List (Value ο) → Value ο
  | [left, right] =>
      match textOf runtime left, textOf runtime right with
      | some text, some other => .bool (test text other)
      | _, _ => .bool false
  | _ => .bool false

/-- `CelFunctionCallNode.Evaluate`. -/
def functionCall (functionName : WString) (arguments : List (Value ο)) : Value ο :=
  if functionName = ['s', 't', 'r', 'i', 'n', 'g'].map code then evaluateString runtime arguments
  else if functionName = ['s', 'i', 'z', 'e'].map code then evaluateSize runtime arguments
  else if functionName = ['s', 't', 'a', 'r', 't', 's', 'W', 'i', 't', 'h'].map code then
    evaluateTexts runtime (fun text other => other.isPrefixOf text) arguments
  else if functionName = ['e', 'n', 'd', 's', 'W', 'i', 't', 'h'].map code then
    evaluateTexts runtime (fun text other => other.isSuffixOf text) arguments
  else if functionName = ['c', 'o', 'n', 't', 'a', 'i', 'n', 's'].map code then
    evaluateTexts runtime (fun text other => text.tails.any other.isPrefixOf) arguments
  else .null

/-- The element at an index that is in range and does not throw. -/
def itemAt (items : List (Option (Value ο))) (index : BitVec 32) : Value ο :=
  if index.toInt < 0 ∨ (items.length : ℤ) ≤ index.toInt then .null
  else (items[index.toInt.toNat]?.join).getD .null

/-- `CelExpression.GetIndexValue`. -/
def getIndexValue (target : ο) (index : BitVec 32) : Value ο :=
  match runtime.collection target with
  | .array items => itemAt items index
  | .list items => itemAt items index
  | _ => .null

/-- `CelIndexAccessNode.Evaluate`: an index is an `int`. -/
def indexAccess (target index : Value ο) : Value ο :=
  match target, index with
  | .object target, .number (.int index) => getIndexValue runtime target index
  | _, _ => .null

/-- `CelMemberAccessNode.Evaluate`. -/
def memberAccess (target : Value ο) (memberName : WString) : Value ο :=
  match target with
  | .null => .null
  | target => runtime.getPropertyValue target memberName

end Functions

/-! ### Nodes -/

def ofText : Option WString → Value ο
  | none => .null
  | some text => .string text

/-- `CelIdentifierNode.Evaluate`. -/
def identifier (context : Context ο) (name : WString) : Value ο :=
  if name = ['i', 'n', 's', 't', 'a', 'n', 'c', 'e'].map code then context.instanceValue
  else if name = ['r', 'e', 't', 'u', 'r', 'n'].map code then context.returnValue
  else if name = ['m', 'e', 't', 'h', 'o', 'd'].map code then ofText context.methodName
  else if name = ['t', 'y', 'p', 'e'].map code then ofText context.typeName
  else if name = ['a', 'r', 'g', 'u', 'm', 'e', 'n', 't', 's'].map code then context.arguments
  else .null

def literal : CelLiteral Binary64 → Value ο
  | .string value => .string value
  | .int value => .number (.int value)
  | .double value => ofDouble value
  | .bool value => .bool value
  | .null => .null

mutual

/-- `CelNode.Evaluate`. -/
def evaluate (runtime : Runtime ο) (context : Context ο) : CelNode Binary64 → Value ο
  | .literal value => literal value
  | .identifier name => identifier context name
  | .memberAccess target memberName =>
      memberAccess runtime (evaluate runtime context target) memberName
  | .indexAccess target index =>
      indexAccess runtime (evaluate runtime context target) (evaluate runtime context index)
  | .functionCall functionName arguments =>
      functionCall runtime functionName (evaluateAll runtime context arguments)
  | .unaryOperator operator operand => unaryOperator operator (evaluate runtime context operand)
  | .binaryOperator left operator right =>
      binaryOperator runtime (evaluate runtime context left) operator
        (evaluate runtime context right)
  | .ternary condition trueExpr falseExpr =>
      if isTrue (evaluate runtime context condition) then evaluate runtime context trueExpr
      else evaluate runtime context falseExpr

def evaluateAll (runtime : Runtime ο) (context : Context ο) :
    List (CelNode Binary64) → List (Value ο)
  | [] => []
  | node :: nodes => evaluate runtime context node :: evaluateAll runtime context nodes

end

end AutoInstrumentation.Cel
