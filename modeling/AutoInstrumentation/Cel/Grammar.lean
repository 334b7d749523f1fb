import AutoInstrumentation.Cel.Parser

/-!
# AutoInstrumentation.Cel.Grammar

The expressions as a grammar over tokens, and how a node is printed.

The grammar has a level for each precedence, from the conditional operator (1) over the
binary operators (2 to 6) and the unary ones (7) to the postfix ones (8) and the primary
expressions (9). A level may stand wherever a looser one may (`Parses.tighter`), the left
operand of a binary operator is of its own level and the right one of the next. The printer
puts parentheses exactly where a node is looser than its place.
-/

namespace AutoInstrumentation.Cel

variable {δ : Type}

/-! ### Precedence -/

/-- The level of the operator that a token continues an operand with. -/
def CelTokenType.level : CelTokenType → ℕ
  | .question => 1
  | .or => 2
  | .and => 3
  | .equal | .notEqual | .lessThan | .lessThanOrEqual | .greaterThan | .greaterThanOrEqual => 4
  | .plus | .minus => 5
  | .multiply | .divide | .modulo => 6
  | .dot | .leftBracket | .leftParen => 8
  | _ => 0

/-! ### The grammar -/

/-- The node of a token that is an expression by itself. -/
def CelToken.node (doubleParse : WString → Option δ) (t : CelToken) : Option (CelNode δ) :=
  match t.type with
  | .true => some (.literal (.bool true))
  | .false => some (.literal (.bool false))
  | .null => some (.literal .null)
  | .number => (numberLiteral doubleParse t.value).toOption.map .literal
  | .string => some (.literal (.string t.value))
  | .identifier => some (.identifier t.value)
  | _ => none

mutual

/-- The tokens are an expression of the level, with the node. -/
inductive Parses (doubleParse : WString → Option δ) : ℕ → List CelToken → CelNode δ → Prop
  | tighter {ℓ : ℕ} {us : List CelToken} {e : CelNode δ} (bound : ℓ < 9)
      (h : Parses doubleParse (ℓ + 1) us e) : Parses doubleParse ℓ us e
  | primary {t : CelToken} {e : CelNode δ} (h : t.node doubleParse = some e) :
      Parses doubleParse 9 [t] e
  | paren {l r : CelToken} {us : List CelToken} {e : CelNode δ} (left : l.type = .leftParen)
      (right : r.type = .rightParen) (h : Parses doubleParse 1 us e) :
      Parses doubleParse 9 (l :: (us ++ [r])) e
  | memberAccess {us : List CelToken} {e : CelNode δ} {d n : CelToken} (dot : d.type = .dot)
      (name : n.type = .identifier) (h : Parses doubleParse 8 us e) :
      Parses doubleParse 8 (us ++ [d, n]) (.memberAccess e n.value)
  | indexAccess {us vs : List CelToken} {e i : CelNode δ} {l r : CelToken}
      (left : l.type = .leftBracket) (right : r.type = .rightBracket)
      (h : Parses doubleParse 8 us e) (hi : Parses doubleParse 1 vs i) :
      Parses doubleParse 8 (us ++ l :: (vs ++ [r])) (.indexAccess e i)
  | functionCall {us vs : List CelToken} {name : WString} {args : List (CelNode δ)}
      {l r : CelToken} (left : l.type = .leftParen) (right : r.type = .rightParen)
      (h : Parses doubleParse 8 us (.identifier name)) (hargs : ParsesArguments doubleParse vs args) :
      Parses doubleParse 8 (us ++ l :: (vs ++ [r])) (.functionCall name args)
  | unaryOperator {op : CelToken} {us : List CelToken} {e : CelNode δ}
      (type : op.type = .not ∨ op.type = .minus) (h : Parses doubleParse 7 us e) :
      Parses doubleParse 7 (op :: us) (.unaryOperator op.value e)
  | binaryOperator {ℓ : ℕ} {op : CelToken} {us vs : List CelToken} {l r : CelNode δ}
      (level : op.type.level = ℓ) (lower : 2 ≤ ℓ) (upper : ℓ ≤ 6) (hl : Parses doubleParse ℓ us l)
      (hr : Parses doubleParse (ℓ + 1) vs r) :
      Parses doubleParse ℓ (us ++ op :: vs) (.binaryOperator l op.value r)
  | ternary {q colon : CelToken} {us vs ws : List CelToken} {c t f : CelNode δ}
      (question : q.type = .question) (separator : colon.type = .colon)
      (hc : Parses doubleParse 2 us c) (ht : Parses doubleParse 2 vs t)
      (hf : Parses doubleParse 1 ws f) :
      Parses doubleParse 1 (us ++ q :: (vs ++ colon :: ws)) (.ternary c t f)

inductive ParsesArguments (doubleParse : WString → Option δ) :
    List CelToken → List (CelNode δ) → Prop
  | nil : ParsesArguments doubleParse [] []
  | cons {us vs : List CelToken} {e : CelNode δ} {es : List (CelNode δ)}
      (h : Parses doubleParse 1 us e) (hrest : ParsesRest doubleParse vs es) :
      ParsesArguments doubleParse (us ++ vs) (e :: es)

/-- The arguments after the first, each with its comma. -/
inductive ParsesRest (doubleParse : WString → Option δ) :
    List CelToken → List (CelNode δ) → Prop
  | nil : ParsesRest doubleParse [] []
  | cons {c : CelToken} {us vs : List CelToken} {e : CelNode δ} {es : List (CelNode δ)}
      (comma : c.type = .comma) (h : Parses doubleParse 1 us e)
      (hrest : ParsesRest doubleParse vs es) :
      ParsesRest doubleParse (c :: (us ++ vs)) (e :: es)

end

end AutoInstrumentation.Cel
