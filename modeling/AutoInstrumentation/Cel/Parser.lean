import AutoInstrumentation.Cel.Digits

/-!
# AutoInstrumentation.Cel.Parser

The recursive descent parser of `CelParser.cs`.

The state is the list of the tokens from the position on. Past the end `Current` stays
at the last token (`last`). A `double` is whatever `double.Parse` makes of a text, so its
type and `doubleParse` are parameters.

All recursion goes through `ParseTernary`, which is given a number of calls that it may
nest, and so are the loops; for the tokens of a text the number of the tokens is enough
(`parse_iff`).
-/

namespace AutoInstrumentation.Cel

/-! ### Nodes -/

/-- The value of a literal. -/
inductive CelLiteral (δ : Type)
  | string (value : WString)
  | int (value : BitVec 32)
  | double (value : δ)
  | bool (value : Bool)
  | null
  deriving DecidableEq, Repr

inductive CelNode (δ : Type)
  | literal (value : CelLiteral δ)
  | identifier (name : WString)
  | memberAccess (target : CelNode δ) (memberName : WString)
  | indexAccess (target index : CelNode δ)
  | functionCall (functionName : WString) (arguments : List (CelNode δ))
  | unaryOperator (operator : WString) (operand : CelNode δ)
  | binaryOperator (left : CelNode δ) (operator : WString) (right : CelNode δ)
  | ternary (condition trueExpr falseExpr : CelNode δ)

/-! ### Numbers -/

/-- `int.Parse`, on a text that begins with a digit or a `-`. -/
def intParse (text : WString) : Except CelError (BitVec 32) :=
  let negative := text.head? = some (code '-')
  let digits := if negative then text.tail else text
  if digits = [] ∨ ¬digits.all isAsciiDigit then .error .format
  else if digitsValue digits < 2 ^ 31 ∨ negative ∧ digitsValue digits = 2 ^ 31 then
    .ok (if negative then -.ofNat 32 (digitsValue digits) else .ofNat 32 (digitsValue digits))
  else .error .overflow

variable {δ : Type}

/-- The literal of a number. -/
def numberLiteral (doubleParse : WString → Option δ) (value : WString) :
    Except CelError (CelLiteral δ) :=
  if value.contains (code '.') then
    match doubleParse value with
    | some d => .ok (.double d)
    | none => .error .format
  else (intParse value).map .int

/-! ### Tokens -/

abbrev ParserM (α : Type) := StateT (List CelToken) (Except CelError) α

variable (last : CelToken)

def current : ParserM CelToken := fun tokens => .ok (tokens.headD last, tokens)

/-- `Consume()`. -/
def consume : ParserM CelToken := fun tokens => .ok (tokens.headD last, tokens.tail)

/-- `Consume(expectedType)`. -/
def consumeType (expectedType : CelTokenType) : ParserM CelToken := do
  let token ← current last
  if token.type ≠ expectedType then
    throw (.expectedToken expectedType token.type token.position)
  else consume last

/-- `Match`. -/
def matchTypes (types : List CelTokenType) : ParserM Bool := do
  let token ← current last
  pure (types.contains token.type)

def unexpectedToken {α : Type} : ParserM α := do
  let token ← current last
  throw (.unexpectedToken token.type token.position)

/-! ### The levels -/

/-- The number of a token, which takes a conversion. -/
def consumeNumber (doubleParse : WString → Option δ) : ParserM (CelNode δ) := do
  let token ← consume last
  match numberLiteral doubleParse token.value with
  | .ok value => pure (.literal value)
  | .error e => throw e

def parsePrimary (doubleParse : WString → Option δ) (parseTernary : ParserM (CelNode δ)) :
    ParserM (CelNode δ) := do
  if ← matchTypes last [.true] then do
    let _ ← consume last
    pure (.literal (.bool true))
  else if ← matchTypes last [.false] then do
    let _ ← consume last
    pure (.literal (.bool false))
  else if ← matchTypes last [.null] then do
    let _ ← consume last
    pure (.literal .null)
  else if ← matchTypes last [.number] then
    consumeNumber last doubleParse
  else if ← matchTypes last [.string] then do
    let token ← consume last
    pure (.literal (.string token.value))
  else if ← matchTypes last [.identifier] then do
    let token ← consume last
    pure (.identifier token.value)
  else if ← matchTypes last [.leftParen] then do
    let _ ← consume last
    let expr ← parseTernary
    let _ ← consumeType last .rightParen
    pure expr
  else unexpectedToken last

/-- The arguments after the first. -/
def argumentsLoop (parseTernary : ParserM (CelNode δ)) :
    ℕ → List (CelNode δ) → ParserM (List (CelNode δ))
  | 0, _ => throw .stackOverflow
  | n + 1, args => do
      if ← matchTypes last [.comma] then do
        let _ ← consume last
        let arg ← parseTernary
        argumentsLoop parseTernary n (args ++ [arg])
      else pure args

def parseArguments (parseTernary : ParserM (CelNode δ)) (n : ℕ) : ParserM (List (CelNode δ)) := do
  if ← matchTypes last [.rightParen] then pure []
  else do
    let arg ← parseTernary
    argumentsLoop last parseTernary n [arg]

/-- `expr is CelIdentifierNode`, with its `RawExpression`. -/
def CelNode.rawExpression : CelNode δ → Option WString
  | .identifier name => some name
  | _ => none

/-- The loop of `ParsePostfix`. -/
def postfixLoop (parseTernary : ParserM (CelNode δ)) : ℕ → CelNode δ → ParserM (CelNode δ)
  | 0, _ => throw .stackOverflow
  | n + 1, expr => do
      if ← matchTypes last [.dot] then do
        let _ ← consume last
        let memberName ← consumeType last .identifier
        postfixLoop parseTernary n (.memberAccess expr memberName.value)
      else if ← matchTypes last [.leftBracket] then do
        let _ ← consume last
        let index ← parseTernary
        let _ ← consumeType last .rightBracket
        postfixLoop parseTernary n (.indexAccess expr index)
      else if ← matchTypes last [.leftParen] then
        match expr.rawExpression with
        | none => pure expr
        | some name => do
            let _ ← consume last
            let args ← parseArguments last parseTernary n
            let _ ← consumeType last .rightParen
            postfixLoop parseTernary n (.functionCall name args)
      else pure expr

def parsePostfix (doubleParse : WString → Option δ) (parseTernary : ParserM (CelNode δ)) (n : ℕ) :
    ParserM (CelNode δ) := do
  let expr ← parsePrimary last doubleParse parseTernary
  postfixLoop last parseTernary n expr

/-- `ParseUnary` over `ParsePostfix`. -/
def unaryLoop (parsePostfix : ParserM (CelNode δ)) : ℕ → ParserM (CelNode δ)
  | 0 => throw .stackOverflow
  | n + 1 => do
      if ← matchTypes last [.not, .minus] then do
        let op ← consume last
        let operand ← unaryLoop parsePostfix n
        pure (.unaryOperator op.value operand)
      else parsePostfix

def parseUnary (doubleParse : WString → Option δ) (parseTernary : ParserM (CelNode δ)) (n : ℕ) :
    ParserM (CelNode δ) :=
  unaryLoop last (parsePostfix last doubleParse parseTernary n) n

/-- The loop of a level of left-associative operators. -/
def operatorLoop (types : List CelTokenType) (parseOperand : ParserM (CelNode δ)) :
    ℕ → CelNode δ → ParserM (CelNode δ)
  | 0, _ => throw .stackOverflow
  | n + 1, left => do
      if ← matchTypes last types then do
        let op ← consume last
        let right ← parseOperand
        operatorLoop types parseOperand n (.binaryOperator left op.value right)
      else pure left

def parseOperators (types : List CelTokenType) (parseOperand : ParserM (CelNode δ)) (n : ℕ) :
    ParserM (CelNode δ) := do
  let left ← parseOperand
  operatorLoop last types parseOperand n left

section Ladder

variable (doubleParse : WString → Option δ) (parseTernary : ParserM (CelNode δ)) (n : ℕ)

def parseMultiplicative : ParserM (CelNode δ) :=
  parseOperators last [.multiply, .divide, .modulo]
    (parseUnary last doubleParse parseTernary n) n

def parseAdditive : ParserM (CelNode δ) :=
  parseOperators last [.plus, .minus] (parseMultiplicative last doubleParse parseTernary n) n

def parseRelation : ParserM (CelNode δ) :=
  parseOperators last
    [.lessThan, .lessThanOrEqual, .greaterThan, .greaterThanOrEqual, .equal, .notEqual]
    (parseAdditive last doubleParse parseTernary n) n

def parseLogicalAnd : ParserM (CelNode δ) :=
  parseOperators last [.and] (parseRelation last doubleParse parseTernary n) n

def parseLogicalOr : ParserM (CelNode δ) :=
  parseOperators last [.or] (parseLogicalAnd last doubleParse parseTernary n) n

/-- `ParseTernary` over its recursive calls. -/
def parseTernaryBody : ParserM (CelNode δ) := do
  let expr ← parseLogicalOr last doubleParse parseTernary n
  if ← matchTypes last [.question] then do
    let _ ← consume last
    let trueExpr ← parseLogicalOr last doubleParse parseTernary n
    let _ ← consumeType last .colon
    let falseExpr ← parseTernary
    pure (.ternary expr trueExpr falseExpr)
  else pure expr

end Ladder

def parseTernary (doubleParse : WString → Option δ) : ℕ → ParserM (CelNode δ)
  | 0 => throw .stackOverflow
  | n + 1 => parseTernaryBody last doubleParse (parseTernary doubleParse n) n

/-- `Parse`, once the last token is known. -/
def parseToEnd (doubleParse : WString → Option δ) (n : ℕ) : ParserM (CelNode δ) := do
  let expr ← parseTernary last doubleParse n
  let token ← current last
  if token.type ≠ .endOfInput then unexpectedToken last
  else pure expr

def parse (doubleParse : WString → Option δ) (tokens : List CelToken) :
    Except CelError (CelNode δ) :=
  match tokens.getLast? with
  | none => .error .argumentOutOfRange
  | some last =>
      match parseToEnd last doubleParse (tokens.length + 1) tokens with
      | .ok (expr, _) => .ok expr
      | .error e => .error e

end AutoInstrumentation.Cel
