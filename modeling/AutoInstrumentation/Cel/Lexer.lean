import Mathlib.Algebra.Ring.Nat
import Mathlib.Data.List.Basic

/-!
# AutoInstrumentation.Cel.Lexer

The lexer of the expressions of configured targets (`CelLexer.cs`).

A `char` is a UTF-16 code unit. What the runtime knows of Unicode is a parameter: the
categories of characters, of which the lexer only tells letters, decimal digits and
separators apart.
-/

namespace AutoInstrumentation.Cel

/-- `char`. -/
abbrev WChar := BitVec 16

/-- `string`. -/
abbrev WString := List WChar

/-- A character literal. -/
def code (c : Char) : WChar := .ofNat 16 c.toNat

/-! ### Characters -/

inductive UnicodeCategory
  | letter | decimalDigitNumber | separator | other
  deriving DecidableEq, Repr

/-- The categories of the ASCII characters. -/
def asciiCategory (c : WChar) : UnicodeCategory :=
  if code 'a' ≤ c ∧ c ≤ code 'z' ∨ code 'A' ≤ c ∧ c ≤ code 'Z' then .letter
  else if code '0' ≤ c ∧ c ≤ code '9' then .decimalDigitNumber
  else if c = code ' ' then .separator
  else .other

/-- `CharUnicodeInfo`, fixed for ASCII and for the control character U+0085. -/
structure Unicode where
  category : WChar → UnicodeCategory
  ascii : ∀ c < 0x80, category c = asciiCategory c
  nextLine : category 0x85 = .other

/-- A runtime that knows the ASCII characters. -/
def asciiUnicode : Unicode where
  category c := if c < 0x80 then asciiCategory c else .other
  ascii _ h := if_pos h
  nextLine := by decide

namespace Unicode

variable (unicode : Unicode)

/-- `char.IsLetter`. -/
def isLetter (c : WChar) : Bool := unicode.category c == .letter

/-- `char.IsDigit`. -/
def isDigit (c : WChar) : Bool := unicode.category c == .decimalDigitNumber

/-- `char.IsLetterOrDigit`. -/
def isLetterOrDigit (c : WChar) : Bool := unicode.isLetter c || unicode.isDigit c

/-- `char.IsWhiteSpace`: the separators, U+0009 to U+000D and U+0085. -/
def isWhiteSpace (c : WChar) : Bool :=
  unicode.category c == .separator || (0x09 ≤ c && c ≤ 0x0d) || c == 0x85

end Unicode

/-! ### Tokens -/

inductive CelTokenType
  | string | number | true | false | null
  | identifier
  | dot | leftParen | rightParen | leftBracket | rightBracket | comma | question | colon | not
  | equal | notEqual | lessThan | lessThanOrEqual | greaterThan | greaterThanOrEqual
  | and | or | minus | plus | multiply | divide | modulo
  | endOfInput
  deriving DecidableEq, Repr

structure CelToken where
  type : CelTokenType
  value : WString
  position : ℕ
  deriving DecidableEq, Repr

/-- The exceptions, of which all but the last four are `InvalidOperationException`s. -/
inductive CelError
  /-- `Unexpected character '{c}' at position {position}` -/
  | unexpectedCharacter (c : WChar) (position : ℕ)
  /-- `Invalid escape sequence at end of string at position {position}` -/
  | invalidEscapeAtEnd (position : ℕ)
  /-- `Invalid escape sequence '\{next}' at position {position}` -/
  | invalidEscape (next : WChar) (position : ℕ)
  /-- `Unterminated string literal at position {startPos}` -/
  | unterminatedString (startPos : ℕ)
  /-- `Unexpected token {type} at position {position}` -/
  | unexpectedToken (type : CelTokenType) (position : ℕ)
  /-- `Expected token type {expectedType} but got {type} at position {position}` -/
  | expectedToken (expectedType type : CelTokenType) (position : ℕ)
  /-- `FormatException` -/
  | format
  /-- `OverflowException` -/
  | overflow
  /-- `ArgumentOutOfRangeException` -/
  | argumentOutOfRange
  /-- The recursion does not end. -/
  | stackOverflow
  deriving DecidableEq, Repr

/-- A token, the position after it and the input from there. -/
abbrev Lexed := CelToken × ℕ × WString

/-! ### Readers -/

/-- The escape sequences. -/
def escapes : List (WChar × WChar) :=
  [(code 'n', code '\n'), (code 'r', code '\r'), (code 't', code '\t'), (code '\\', code '\\'),
    (code '"', code '"'), (code '\'', code '\'')]

/-- The loop of `ReadStringLiteral`. -/
def readStringBody (quote : WChar) (startPos : ℕ) :
    ℕ → WString → WString → Except CelError Lexed
  | _, _, [] => .error (.unterminatedString startPos)
  | position, sb, c :: rest =>
      if c = quote then .ok (⟨.string, sb, startPos⟩, position + 1, rest)
      else if c = code '\\' then
        match rest with
        | [] => .error (.invalidEscapeAtEnd position)
        | next :: rest =>
            match escapes.lookup next with
            | none => .error (.invalidEscape next (position + 1))
            | some escaped => readStringBody quote startPos (position + 2) (sb ++ [escaped]) rest
      else readStringBody quote startPos (position + 1) (sb ++ [c]) rest

def readStringLiteral (position : ℕ) (quote : WChar) (input : WString) : Except CelError Lexed :=
  readStringBody quote position (position + 1) [] input

/-- Skip what was read. -/
def lexed (type : CelTokenType) (value : WString) (position : ℕ) (input : WString) : Lexed :=
  (⟨type, value, position⟩, position + value.length, input.drop value.length)

/-- The digits and points of a number. -/
def numberDigits (unicode : Unicode) (input : WString) : WString :=
  input.takeWhile fun c => unicode.isDigit c || c == code '.'

def readNumber (unicode : Unicode) (position : ℕ) (input : WString) : Lexed :=
  let value :=
    if input.head? = some (code '-') then code '-' :: numberDigits unicode input.tail
    else numberDigits unicode input
  lexed .number value position input

def keywords : List (WString × CelTokenType) :=
  [(['t', 'r', 'u', 'e'].map code, .true), (['f', 'a', 'l', 's', 'e'].map code, .false),
    (['n', 'u', 'l', 'l'].map code, .null)]

def readIdentifierOrKeyword (unicode : Unicode) (position : ℕ) (input : WString) : Lexed :=
  let value := input.takeWhile fun c => unicode.isLetterOrDigit c || c == code '_'
  lexed ((keywords.lookup value).getD .identifier) value position input

def twoCharOperators : List (WString × CelTokenType) :=
  [(['=', '='].map code, .equal), (['!', '='].map code, .notEqual),
    (['<', '='].map code, .lessThanOrEqual), (['>', '='].map code, .greaterThanOrEqual),
    (['&', '&'].map code, .and), (['|', '|'].map code, .or)]

def singleOperators : List (WString × CelTokenType) :=
  [(['.'].map code, .dot), (['('].map code, .leftParen), ([')'].map code, .rightParen),
    (['['].map code, .leftBracket), ([']'].map code, .rightBracket), ([','].map code, .comma),
    (['?'].map code, .question), ([':'].map code, .colon), (['!'].map code, .not),
    (['<'].map code, .lessThan), (['>'].map code, .greaterThan), (['-'].map code, .minus),
    (['+'].map code, .plus), (['*'].map code, .multiply), (['/'].map code, .divide),
    (['%'].map code, .modulo)]

def readOperator (position : ℕ) (input : WString) : Option Lexed :=
  match twoCharOperators.lookup (input.take 2) with
  | some type => some (lexed type (input.take 2) position input)
  | none =>
      (singleOperators.lookup (input.take 1)).map fun type =>
        lexed type (input.take 1) position input

/-! ### The loop -/

/-- The types of the previous token after which a `-` may begin a number. -/
def beforeNegative : List CelTokenType :=
  [.leftParen, .leftBracket, .comma, .question, .colon, .equal, .notEqual, .lessThan,
    .lessThanOrEqual, .greaterThan, .greaterThanOrEqual, .and, .or, .plus, .minus, .multiply,
    .divide, .modulo]

def canBeNegativeNumber (unicode : Unicode) (lastToken : Option CelTokenType) (c : WChar)
    (rest : WString) : Bool :=
  c == code '-' && rest.head?.any unicode.isDigit && lastToken.all (beforeNegative.contains ·)

/-- One turn of the loop of `Tokenize`, at a character that is no white space. -/
def readToken (unicode : Unicode) (lastToken : Option CelTokenType) (position : ℕ) (c : WChar)
    (rest : WString) : Except CelError Lexed :=
  if c = code '"' ∨ c = code '\'' then readStringLiteral position c rest
  else if unicode.isDigit c || canBeNegativeNumber unicode lastToken c rest then
    .ok (readNumber unicode position (c :: rest))
  else if unicode.isLetter c || c == code '_' then
    .ok (readIdentifierOrKeyword unicode position (c :: rest))
  else
    match readOperator position (c :: rest) with
    | some token => .ok token
    | none => .error (.unexpectedCharacter c position)

/-- The loop of `Tokenize`. Each turn takes a character. -/
def tokenizeFrom (unicode : Unicode) :
    ℕ → Option CelTokenType → ℕ → WString → Except CelError (List CelToken)
  | 0, _, _, _ => .error .stackOverflow
  | _ + 1, _, position, [] => .ok [⟨.endOfInput, [], position⟩]
  | fuel + 1, lastToken, position, c :: rest =>
      if unicode.isWhiteSpace c then tokenizeFrom unicode fuel lastToken (position + 1) rest
      else
        match readToken unicode lastToken position c rest with
        | .error e => .error e
        | .ok (token, position, rest) =>
            match tokenizeFrom unicode fuel (some token.type) position rest with
            | .error e => .error e
            | .ok tokens => .ok (token :: tokens)

def tokenize (unicode : Unicode) (input : WString) : Except CelError (List CelToken) :=
  tokenizeFrom unicode (input.length + 1) none 0 input

end AutoInstrumentation.Cel
