import AutoInstrumentation.Cel.LexerSound

/-!
# AutoInstrumentation.Cel.Lexemes

Lexemes as they are written, with white space between them, and the tokens that correspond
to them.

A number may be written with a sign directly before it. The sign belongs to the number where
a number may begin an operand, and is a token of its own elsewhere.
-/

namespace AutoInstrumentation.Cel

/-! ### Lexemes -/

/-- A character of a string, as it is written in a literal. -/
inductive Piece
  | plain (c : WChar)
  | escape (next : WChar)

namespace Piece

def text : Piece → WString
  | plain c => [c]
  | escape next => [code '\\', next]

/-- What the piece stands for. -/
def value : Piece → WString
  | plain c => [c]
  | escape next => (escapes.lookup next).toList

/-- A piece of a literal between these quotes. -/
def Allowed (quote : WChar) : Piece → Prop
  | plain c => c ≠ quote ∧ c ≠ code '\\'
  | escape next => (escapes.lookup next).isSome = true

end Piece

/-- A lexeme as it is written. -/
inductive Written
  | string (quote : WChar) (pieces : List Piece)
  | number (digits : WString)
  /-- A `-` with a number directly behind it. -/
  | signed (digits : WString)
  | name (text : WString)
  | operator (text : WString)

namespace Written

def text : Written → WString
  | string quote pieces => quote :: pieces.flatMap Piece.text ++ [quote]
  | number digits => digits
  | signed digits => code '-' :: digits
  | .name text => text
  | .operator text => text

def WellWritten (unicode : Unicode) : Written → Prop
  | string quote pieces =>
      (quote = code '"' ∨ quote = code '\'') ∧ ∀ piece ∈ pieces, piece.Allowed quote
  | number digits => IsNumber unicode digits
  | signed digits => IsNumber unicode digits
  | .name text => (∃ c cs, text = c :: cs ∧ (unicode.isLetter c || c == code '_') = true) ∧
      ∀ c ∈ text, (unicode.isLetterOrDigit c || c == code '_') = true
  | .operator text => text ∈ (twoCharOperators ++ singleOperators).map Prod.fst

def isSigned : Written → Bool
  | signed _ => true
  | _ => false

/-- The type of the token, which is the last one of a number with a sign. -/
def type : Written → CelTokenType
  | string _ _ => .string
  | number _ => .number
  | signed _ => .number
  | .name text => (keywords.lookup text).getD .identifier
  | .operator text => operatorType text

/-- The tokens at a position, with the sign of a number in its token or before it. -/
def tokens (asOne : Bool) (position : ℕ) : Written → List CelToken
  | string _ pieces => [⟨.string, pieces.flatMap Piece.value, position⟩]
  | number digits => [⟨.number, digits, position⟩]
  | signed digits =>
      if asOne then [⟨.number, code '-' :: digits, position⟩]
      else [⟨.minus, [code '-'], position⟩, ⟨.number, digits, position + 1⟩]
  | .name text => [⟨(keywords.lookup text).getD .identifier, text, position⟩]
  | .operator text => [⟨operatorType text, text, position⟩]

end Written

/-! ### Texts -/

def White (unicode : Unicode) (blanks : WString) : Prop :=
  ∀ c ∈ blanks, unicode.isWhiteSpace c = true

/-- Lexemes with the white space behind each of them. -/
def source (items : List (Written × WString)) : WString :=
  items.flatMap fun item => item.1.text ++ item.2

/-- Lexemes that are written well, with white space between them. -/
def Separated (unicode : Unicode) : List (Written × WString) → Prop
  | [] => True
  | (written, blanks) :: items =>
      written.WellWritten unicode ∧ White unicode blanks ∧ (items ≠ [] → blanks ≠ []) ∧
        Separated unicode items

/-- The tokens of the lexemes, by whether a sign belongs to its number behind a token. -/
def correspondingTokens (asOne : Option CelTokenType → Bool) :
    Option CelTokenType → ℕ → List (Written × WString) → List CelToken
  | _, position, [] => [⟨.endOfInput, [], position⟩]
  | lastToken, position, (written, blanks) :: items =>
      written.tokens (asOne lastToken) position
        ++ correspondingTokens asOne (some written.type)
          (position + written.text.length + blanks.length) items

/-- A value or a closing bracket ends an operand, and nothing follows the end. -/
def endsOperand : CelTokenType → Bool
  | .string | .number | .true | .false | .null | .identifier | .rightParen | .rightBracket
  | .endOfInput => true
  | _ => false

/-- A number may begin an operand: at the beginning, and behind anything but the end of an
operand and the point before a member. -/
def operandMayStart (lastToken : Option CelTokenType) : Bool :=
  lastToken.all fun type => !endsOperand type && type != .dot

/-! ### Turns -/

/-- One turn of the loop of `Tokenize`: white space is skipped, or a token is read. -/
def turn (unicode : Unicode) (lastToken : Option CelTokenType) (position : ℕ) (c : WChar)
    (rest : WString) : Except CelError (Option CelToken × ℕ × WString) :=
  if unicode.isWhiteSpace c then .ok (none, position + 1, rest)
  else
    (readToken unicode lastToken position c rest).map fun lexed =>
      (some lexed.1, lexed.2.1, lexed.2.2)

/-- The exceptions that `Tokenize` throws. -/
def CelError.isLexical : CelError → Bool
  | .unexpectedCharacter _ _ | .invalidEscapeAtEnd _ | .invalidEscape _ _
  | .unterminatedString _ => true
  | _ => false

end AutoInstrumentation.Cel
