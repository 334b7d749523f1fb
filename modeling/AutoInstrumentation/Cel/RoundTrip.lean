import AutoInstrumentation.Cel.LexerSound
import Mathlib.Data.List.Chain

/-!
# AutoInstrumentation.Cel.RoundTrip

When a printed node is read back.

The lexer takes a printed text apart into the lexemes it was printed from, unless a `!`
stands before a negative number, since `Not` is missing from its list of operators
(`relex_eq_iff`). In that case the text has a token more than the node, parentheses aside,
and no parser that loses no token can give the node back (`Parses.weight`).
-/

namespace AutoInstrumentation.Cel

variable {δ : Type} {format : DoubleFormat δ} {unicode : Unicode}

/-! ### Printed lexemes -/

theorem isUnsigned_naturalText (n : ℕ) : IsUnsigned (naturalText n) := by
  have hdigits := List.all_eq_true.mp (naturalText_isAsciiDigit n)
  cases htext : naturalText n with
  | nil => exact (naturalText_ne_nil n htext).elim
  | cons c cs =>
      rw [htext] at hdigits
      exact ⟨c, cs, rfl, hdigits c List.mem_cons_self, fun d hd => by
        rw [hdigits d (List.mem_cons_of_mem c hd), Bool.true_or]⟩

theorem lexable_intText (value : BitVec 32) : Lexable unicode (.number, intText value) := by
  rw [intText]
  split
  · exact .negative (isUnsigned_naturalText _)
  · exact .unsigned (isUnsigned_naturalText _)

theorem lexable_decimal {text : WString} (h : IsDecimal text) :
    Lexable unicode (.number, text) := by
  obtain ⟨sign, digits, fraction, hsign, hne, hdigits, hfraction, rfl⟩ := h
  have hunsigned : IsUnsigned (digits ++ code '.' :: fraction) := by
    cases digits with
    | nil => exact (hne rfl).elim
    | cons c cs =>
        rw [List.all_cons, Bool.and_eq_true] at hdigits
        refine ⟨c, cs ++ code '.' :: fraction, rfl, hdigits.1, fun d hd => ?_⟩
        rw [Bool.or_eq_true]
        rcases List.mem_append.mp hd with hd | hd
        · exact Or.inl (List.all_eq_true.mp hdigits.2 d hd)
        rcases List.mem_cons.mp hd with rfl | hd
        · exact Or.inr (beq_self_eq_true _)
        · exact Or.inl (List.all_eq_true.mp hfraction d hd)
  rcases hsign with rfl | rfl
  · exact .unsigned hunsigned
  · exact .negative hunsigned

theorem lexable_name {name : WString} (h : IsName unicode name) :
    Lexable unicode (.identifier, name) := by
  obtain ⟨⟨c, cs, rfl, hc⟩, hall, hkeyword⟩ := h
  exact .name hc hall (by rw [hkeyword]; rfl)

theorem keywords_facts : ∀ x ∈ keywords, x.1 ≠ [] ∧ keywords.lookup x.1 = some x.2 ∧
    (x.1.all fun c => c < 0x80 && asciiCategory c == .letter) = true := by
  decide

theorem lexable_keyword {value : WString} {type : CelTokenType} (h : (value, type) ∈ keywords) :
    Lexable unicode (type, value) := by
  obtain ⟨hne, hlookup, hall⟩ := keywords_facts _ h
  have hletter : ∀ c ∈ value, unicode.isLetter c = true := by
    intro c hc
    have hascii := List.all_eq_true.mp hall c hc
    rw [Bool.and_eq_true, decide_eq_true_iff, beq_iff_eq] at hascii
    rw [Unicode.isLetter, unicode.ascii c hascii.1, hascii.2]
    rfl
  cases value with
  | nil => exact (hne rfl).elim
  | cons c cs =>
      refine .name ?_ (fun d hd => ?_) (by rw [hlookup]; rfl)
      · rw [hletter c List.mem_cons_self, Bool.true_or]
      · rw [Unicode.isLetterOrDigit, hletter d hd, Bool.true_or, Bool.true_or]

theorem lexable_literal (value : CelLiteral δ) : Lexable unicode (value.lexeme format) := by
  cases value with
  | string value => exact .string value
  | int value => exact lexable_intText value
  | double value => exact lexable_decimal (format.isDecimal value)
  | bool value => cases value <;> exact lexable_keyword (by decide)
  | null => exact lexable_keyword (by decide)

theorem lexable_mark : ∀ c ∈ ['.', '(', ')', '[', ']', ',', '?', ':'],
    Lexable unicode (mark c) := by
  intro c hc
  simp only [List.mem_cons, List.not_mem_nil, or_false] at hc
  rcases hc with rfl | rfl | rfl | rfl | rfl | rfl | rfl | rfl
  all_goals exact .operator (by decide)

theorem lexable_operator {operator : WString} (h : (operatorType operator).level ≠ 0 ∨
    operatorType operator = .not) : Lexable unicode (operatorLexeme operator) := by
  refine .operator ?_
  rw [operatorType] at h ⊢
  cases hlookup : (twoCharOperators ++ singleOperators).lookup operator with
  | none =>
      rw [hlookup] at h
      exact absurd h (by decide)
  | some type =>
      obtain ⟨before, after, heq, -⟩ := List.lookup_eq_some_iff.mp hlookup
      rw [heq]
      exact List.mem_append_right _ List.mem_cons_self

theorem lexable_atLevel {ℓ : ℕ} {e : CelNode δ} {xs : List Lexeme}
    (h : ∀ x ∈ xs, Lexable unicode x) : ∀ x ∈ atLevel ℓ e xs, Lexable unicode x := by
  have hleft : Lexable unicode (mark '(') := lexable_mark _ (by decide)
  have hright : Lexable unicode (mark ')') := lexable_mark _ (by decide)
  rw [atLevel]
  split
  · simpa [-Prod.forall, or_imp, forall_and, hleft, hright] using h
  · exact h

mutual

/-- Every lexeme of a well-formed node is a token by itself. -/
theorem lexemes_lexable : (e : CelNode δ) → e.WellFormed unicode →
    ∀ x ∈ e.lexemes format, Lexable unicode x
  | .literal value, _ => by
      intro x hx
      obtain rfl := List.mem_singleton.mp hx
      exact lexable_literal value
  | .identifier name, hwf => by
      intro x hx
      obtain rfl := List.mem_singleton.mp hx
      exact lexable_name hwf
  | .memberAccess target memberName, hwf => by
      have htarget := lexable_atLevel (ℓ := 8) (e := target) (lexemes_lexable target hwf.1)
      have hdot : Lexable unicode (mark '.') := lexable_mark _ (by decide)
      simpa [CelNode.lexemes, -Prod.forall, or_imp, forall_and, hdot, lexable_name hwf.2] using htarget
  | .indexAccess target index, hwf => by
      have htarget := lexable_atLevel (ℓ := 8) (e := target) (lexemes_lexable target hwf.1)
      have hindex := lexemes_lexable index hwf.2
      have hleft : Lexable unicode (mark '[') := lexable_mark _ (by decide)
      have hright : Lexable unicode (mark ']') := lexable_mark _ (by decide)
      simpa [CelNode.lexemes, -Prod.forall, or_imp, forall_and, hleft, hright] using ⟨htarget, hindex⟩
  | .functionCall functionName args, hwf => by
      have hargs := argumentLexemes_lexable args hwf.2
      have hleft : Lexable unicode (mark '(') := lexable_mark _ (by decide)
      have hright : Lexable unicode (mark ')') := lexable_mark _ (by decide)
      simpa [CelNode.lexemes, -Prod.forall, or_imp, forall_and, hleft, hright, lexable_name hwf.1] using hargs
  | .unaryOperator operator operand, hwf => by
      have hoperand := lexable_atLevel (ℓ := 7) (e := operand) (lexemes_lexable operand hwf.2)
      have hoperator : Lexable unicode (operatorLexeme operator) :=
        lexable_operator (by rcases hwf.1 with rfl | rfl <;> decide)
      simpa [CelNode.lexemes, -Prod.forall, or_imp, forall_and, hoperator] using hoperand
  | .binaryOperator left operator right, hwf => by
      have hleft := lexable_atLevel (ℓ := (operatorType operator).level) (e := left)
        (lexemes_lexable left hwf.2.1)
      have hright := lexable_atLevel (ℓ := (operatorType operator).level + 1) (e := right)
        (lexemes_lexable right hwf.2.2)
      have hoperator : Lexable unicode (operatorLexeme operator) :=
        lexable_operator (Or.inl (by have := hwf.1.1; omega))
      simpa [CelNode.lexemes, -Prod.forall, or_imp, forall_and, hoperator] using ⟨hleft, hright⟩
  | .ternary condition trueExpr falseExpr, hwf => by
      have hcondition := lexable_atLevel (ℓ := 2) (e := condition)
        (lexemes_lexable condition hwf.1)
      have htrue := lexable_atLevel (ℓ := 2) (e := trueExpr) (lexemes_lexable trueExpr hwf.2.1)
      have hfalse := lexemes_lexable falseExpr hwf.2.2
      have hquestion : Lexable unicode (mark '?') := lexable_mark _ (by decide)
      have hcolon : Lexable unicode (mark ':') := lexable_mark _ (by decide)
      simpa [CelNode.lexemes, -Prod.forall, or_imp, forall_and, hquestion, hcolon]
        using ⟨hcondition, htrue, hfalse⟩

theorem argumentLexemes_lexable : (es : List (CelNode δ)) → CelNode.WellFormedAll unicode es →
    ∀ x ∈ CelNode.argumentLexemes format es, Lexable unicode x
  | [], _ => fun x hx => nomatch hx
  | e :: es, hwf => by
      have he := lexemes_lexable e hwf.1
      have hes := restLexemes_lexable es hwf.2
      simpa [CelNode.argumentLexemes, -Prod.forall, or_imp, forall_and] using ⟨he, hes⟩

theorem restLexemes_lexable : (es : List (CelNode δ)) → CelNode.WellFormedAll unicode es →
    ∀ x ∈ CelNode.restLexemes format es, Lexable unicode x
  | [], _ => fun x hx => nomatch hx
  | e :: es, hwf => by
      have he := lexemes_lexable e hwf.1
      have hes := restLexemes_lexable es hwf.2
      have hcomma : Lexable unicode (mark ',') := lexable_mark _ (by decide)
      simpa [CelNode.restLexemes, -Prod.forall, or_imp, forall_and, hcomma] using ⟨he, hes⟩

end

/-! ### Where the lexer splits a number -/

/-- A negative number does not stand after the token. -/
def Separable (x y : Lexeme) : Prop := isNegative y = true → allowsNegative (some x.1) = true

/-- The number of tokens that a node consists of, which are those that are no parentheses. -/
def weight (xs : List Lexeme) : ℕ :=
  xs.countP fun x => x.1 != .leftParen && x.1 != .rightParen

theorem weight_append (xs ys : List Lexeme) : weight (xs ++ ys) = weight xs + weight ys :=
  List.countP_append

/-- A split adds a token. -/
theorem weight_relex (xs : List Lexeme) : ∀ lastToken,
    weight xs ≤ weight (relex lastToken xs) ∧
      (weight (relex lastToken xs) = weight xs →
        relex lastToken xs = xs ∧
          (∀ x ∈ xs.head?, isNegative x = true → allowsNegative lastToken = true) ∧
          xs.IsChain Separable) := by
  induction xs with
  | nil => intro lastToken; exact ⟨Nat.le_refl _, fun _ => ⟨rfl, by simp, .nil⟩⟩
  | cons x xs ih =>
      intro lastToken
      have hcons : ∀ ys : List Lexeme, weight (x :: ys) = weight [x] + weight ys :=
        fun ys => weight_append [x] ys
      rw [relex]
      split
      · next h =>
          have hnumber : x.1 = .number := by
            simp only [isNegative, Bool.and_eq_true, beq_iff_eq] at h
            exact h.1.1
          obtain ⟨hle, -⟩ := ih (some .number)
          have hx : weight [x] = 1 := by
            rw [weight, List.countP_singleton, hnumber]
            rfl
          have hsplit : weight (mark '-' :: (.number, x.2.tail) :: relex (some .number) xs)
              = 2 + weight (relex (some .number) xs) :=
            weight_append [mark '-', (.number, x.2.tail)] _
          rw [hsplit, hcons xs, hx]
          exact ⟨by omega, fun heq => by omega⟩
      · next h =>
          obtain ⟨hle, himp⟩ := ih (some x.1)
          rw [hcons (relex (some x.1) xs), hcons xs]
          refine ⟨by omega, fun heq => ?_⟩
          obtain ⟨hsame, hnext, hchain⟩ := himp (by omega)
          have hx : isNegative x = true → allowsNegative lastToken = true := by
            simpa using h
          exact ⟨by rw [hsame], by simpa using hx, List.isChain_cons.mpr ⟨hnext, hchain⟩⟩

theorem relex_of_isChain {xs : List Lexeme} : ∀ {lastToken},
    (∀ x ∈ xs.head?, isNegative x = true → allowsNegative lastToken = true) →
      xs.IsChain Separable → relex lastToken xs = xs := by
  induction xs with
  | nil => exact fun _ _ => rfl
  | cons x xs ih =>
      intro lastToken hhead hchain
      obtain ⟨hnext, hchain⟩ := List.isChain_cons.mp hchain
      have hx := hhead x rfl
      rw [relex, if_neg (by simpa using hx), ih hnext hchain]

/-! ### Where that happens in a node -/

/-- The node begins with a negative number, if it is printed as the operand of a unary
operator. -/
def CelNode.startsNegative (format : DoubleFormat δ) : CelNode δ → Bool
  | .literal value => isNegative (value.lexeme format)
  | .memberAccess target _ | .indexAccess target _ =>
      8 ≤ target.level && target.startsNegative format
  | _ => false

mutual

/-- A `!` of the node stands before a negative number. -/
def CelNode.negatesNegative (format : DoubleFormat δ) : CelNode δ → Bool
  | .literal _ | .identifier _ => false
  | .memberAccess target _ => target.negatesNegative format
  | .indexAccess target index => target.negatesNegative format || index.negatesNegative format
  | .functionCall _ args => CelNode.anyNegatesNegative format args
  | .unaryOperator operator operand =>
      operator == [code '!'] && operand.startsNegative format || operand.negatesNegative format
  | .binaryOperator left _ right => left.negatesNegative format || right.negatesNegative format
  | .ternary condition trueExpr falseExpr =>
      condition.negatesNegative format || trueExpr.negatesNegative format ||
        falseExpr.negatesNegative format

def CelNode.anyNegatesNegative (format : DoubleFormat δ) : List (CelNode δ) → Bool
  | [] => false
  | e :: es => e.negatesNegative format || CelNode.anyNegatesNegative format es

end

def headNegative (xs : List Lexeme) : Bool := xs.head?.any isNegative

theorem isChain_cons_iff {x : Lexeme} {xs : List Lexeme} : (x :: xs).IsChain Separable ↔
    (headNegative xs = true → allowsNegative (some x.1) = true) ∧ xs.IsChain Separable := by
  rw [List.isChain_cons]
  refine and_congr_left' ?_
  rw [headNegative]
  cases xs.head? with
  | none => simp
  | some y => simp [Separable]

theorem isChain_concat {xs : List Lexeme} {y : Lexeme} (hy : isNegative y = false) :
    (xs ++ [y]).IsChain Separable ↔ xs.IsChain Separable := by
  rw [List.isChain_append]
  refine ⟨And.left, fun h => ⟨h, List.isChain_singleton y, ?_⟩⟩
  intro x _ z hz hnegative
  obtain rfl : y = z := by simpa using hz
  rw [hy] at hnegative
  cases hnegative

/-- After an operator of the list any number may stand. -/
theorem isChain_operator {xs ys : List Lexeme} {y : Lexeme} (hy : isNegative y = false)
    (hallows : allowsNegative (some y.1) = true) : (xs ++ y :: ys).IsChain Separable ↔
      xs.IsChain Separable ∧ ys.IsChain Separable := by
  have hsplit : xs ++ y :: ys = (xs ++ [y]) ++ ys := by simp
  rw [hsplit, List.isChain_append, isChain_concat hy]
  refine ⟨fun h => ⟨h.1, h.2.1⟩, fun h => ⟨h.1, h.2, ?_⟩⟩
  intro x hx z _ _
  obtain rfl : y = x := by simpa using hx
  exact hallows

theorem isChain_atLevel {ℓ : ℕ} {e : CelNode δ} {xs : List Lexeme} :
    (atLevel ℓ e xs).IsChain Separable ↔ xs.IsChain Separable := by
  rw [atLevel]
  split
  · have hleft : allowsNegative (some (mark '(').1) = true := by decide
    have hright : isNegative (mark ')') = false := by decide
    rw [isChain_cons_iff, isChain_concat hright]
    exact and_iff_right fun _ => hleft
  · rfl

theorem lexemes_ne_nil (e : CelNode δ) : e.lexemes format ≠ [] := by
  cases e <;> simp [CelNode.lexemes]

theorem headNegative_append {xs ys : List Lexeme} (h : xs ≠ []) :
    headNegative (xs ++ ys) = headNegative xs := by
  cases xs with
  | nil => exact (h rfl).elim
  | cons x xs => rfl

theorem atLevel_ne_nil (ℓ : ℕ) (e : CelNode δ) : atLevel ℓ e (e.lexemes format) ≠ [] := by
  rw [atLevel]
  split
  · simp
  · exact lexemes_ne_nil e

theorem headNegative_atLevel {ℓ : ℕ} {e : CelNode δ} {xs : List Lexeme} :
    headNegative (atLevel ℓ e xs) = (decide (ℓ ≤ e.level) && headNegative xs) := by
  rw [atLevel]
  split
  · next h =>
      rw [decide_eq_false (Nat.not_le_of_lt h), Bool.false_and]
      rfl
  · next h => rw [decide_eq_true (Nat.le_of_not_lt h), Bool.true_and]

theorem headNegative_target {target : CelNode δ}
    (h : 7 ≤ target.level → headNegative (target.lexemes format) = target.startsNegative format)
    (xs : List Lexeme) : headNegative (atLevel 8 target (target.lexemes format) ++ xs)
      = (decide (8 ≤ target.level) && target.startsNegative format) := by
  rw [headNegative_append (atLevel_ne_nil 8 target), headNegative_atLevel]
  by_cases hlevel : 8 ≤ target.level
  · rw [h (Nat.le_of_succ_le hlevel)]
  · rw [decide_eq_false hlevel, Bool.false_and, Bool.false_and]

theorem headNegative_lexemes : (e : CelNode δ) → e.WellFormed unicode → 7 ≤ e.level →
    headNegative (e.lexemes format) = e.startsNegative format
  | .literal value, _, _ => by simp [CelNode.lexemes, headNegative, CelNode.startsNegative]
  | .identifier name, _, _ => rfl
  | .memberAccess target memberName, hwf, _ =>
      headNegative_target (headNegative_lexemes target hwf.1) _
  | .indexAccess target index, hwf, _ =>
      headNegative_target (headNegative_lexemes target hwf.1) _
  | .functionCall functionName args, _, _ => rfl
  | .unaryOperator operator operand, hwf, _ => by
      have hoperator : isNegative (operatorLexeme operator) = false := by
        rcases hwf.1 with rfl | rfl <;> decide
      exact hoperator
  | .binaryOperator left operator right, hwf, hlevel => by
      have hupper := hwf.1.2
      simp only [CelNode.level] at hlevel
      omega
  | .ternary condition trueExpr falseExpr, _, hlevel => by
      simp only [CelNode.level] at hlevel
      omega

/-- The arguments after the first begin with a comma. -/
theorem isChain_append_rest {xs : List Lexeme} {es : List (CelNode δ)} :
    (xs ++ CelNode.restLexemes format es).IsChain Separable ↔
      xs.IsChain Separable ∧ (CelNode.restLexemes format es).IsChain Separable := by
  cases es with
  | nil => simp [CelNode.restLexemes]
  | cons e es =>
      have hcomma : isNegative (mark ',') = false := by decide
      have hallows : allowsNegative (some (mark ',').1) = true := by decide
      rw [CelNode.restLexemes, isChain_operator hcomma hallows, isChain_cons_iff]
      exact and_congr_right' (and_iff_right fun _ => hallows).symm

/-- The binary operators are in the lexer's list. -/
theorem allowsNegative_of_level : ∀ type : CelTokenType, 2 ≤ type.level → type.level ≤ 6 →
    type ≠ .number ∧ allowsNegative (some type) = true := by
  intro type
  cases type <;> decide

mutual

/-- The lexer splits a number of a printed node exactly where a `!` stands before a negative
one. -/
theorem isChain_lexemes : (e : CelNode δ) → e.WellFormed unicode →
    ((e.lexemes format).IsChain Separable ↔ e.negatesNegative format = false)
  | .literal value, _ => by simp [CelNode.lexemes, CelNode.negatesNegative]
  | .identifier name, _ => by simp [CelNode.lexemes, CelNode.negatesNegative]
  | .memberAccess target memberName, hwf => by
      have hdot : isNegative (mark '.') = false := by decide
      have hname : isNegative (.identifier, memberName) = false := rfl
      have hsplit : (CelNode.memberAccess target memberName).lexemes format
          = (atLevel 8 target (target.lexemes format) ++ [mark '.']) ++
              [(.identifier, memberName)] := by
        simp [CelNode.lexemes]
      rw [hsplit, isChain_concat hname, isChain_concat hdot, isChain_atLevel,
        isChain_lexemes target hwf.1, CelNode.negatesNegative]
  | .indexAccess target index, hwf => by
      have hleft : isNegative (mark '[') = false := by decide
      have hright : isNegative (mark ']') = false := by decide
      rw [CelNode.lexemes, isChain_operator hleft (by decide), isChain_concat hright,
        isChain_atLevel, isChain_lexemes target hwf.1, isChain_lexemes index hwf.2,
        CelNode.negatesNegative, Bool.or_eq_false_iff]
  | .functionCall functionName args, hwf => by
      have hleft : isNegative (mark '(') = false := by decide
      have hright : isNegative (mark ')') = false := by decide
      have hsplit : (CelNode.functionCall functionName args).lexemes format
          = [(.identifier, functionName)] ++ mark '(' ::
              (CelNode.argumentLexemes format args ++ [mark ')']) := rfl
      rw [hsplit, isChain_operator hleft (by decide), isChain_concat hright,
        isChain_argumentLexemes args hwf.2, CelNode.negatesNegative]
      exact and_iff_right (List.isChain_singleton _)
  | .unaryOperator operator operand, hwf => by
      rw [CelNode.lexemes, isChain_cons_iff, isChain_atLevel, isChain_lexemes operand hwf.2,
        headNegative_atLevel, CelNode.negatesNegative, Bool.or_eq_false_iff]
      refine and_congr_left' ?_
      have hhead : (decide (7 ≤ operand.level) && headNegative (operand.lexemes format))
          = operand.startsNegative format := by
        by_cases hlevel : 7 ≤ operand.level
        · rw [headNegative_lexemes operand hwf.2 hlevel, decide_eq_true hlevel, Bool.true_and]
        · rw [decide_eq_false hlevel, Bool.false_and]
          cases operand with
          | binaryOperator | ternary => rfl
          | _ => exact absurd hlevel (by simp [CelNode.level])
      rw [hhead]
      rcases hwf.1 with rfl | rfl
      · have hnot : allowsNegative (some (operatorLexeme [code '!']).1) = false := by decide
        rw [hnot, beq_self_eq_true, Bool.true_and]
        simp
      · have hminus : allowsNegative (some (operatorLexeme [code '-']).1) = true := by decide
        have hne : ([code '-'] == [code '!']) = false := by decide
        rw [hminus, hne, Bool.false_and]
        simp
  | .binaryOperator left operator right, hwf => by
      obtain ⟨hnumber, hallows⟩ := allowsNegative_of_level _ hwf.1.1 hwf.1.2
      have hoperator : isNegative (operatorLexeme operator) = false := by
        rw [isNegative, operatorLexeme, beq_eq_false_iff_ne.mpr hnumber, Bool.false_and]
      rw [CelNode.lexemes, isChain_operator hoperator hallows, isChain_atLevel, isChain_atLevel,
        isChain_lexemes left hwf.2.1, isChain_lexemes right hwf.2.2, CelNode.negatesNegative,
        Bool.or_eq_false_iff]
  | .ternary condition trueExpr falseExpr, hwf => by
      have hquestion : isNegative (mark '?') = false := by decide
      have hcolon : isNegative (mark ':') = false := by decide
      rw [CelNode.lexemes, isChain_operator hquestion (by decide),
        isChain_operator hcolon (by decide), isChain_atLevel, isChain_atLevel,
        isChain_lexemes condition hwf.1, isChain_lexemes trueExpr hwf.2.1,
        isChain_lexemes falseExpr hwf.2.2, CelNode.negatesNegative, Bool.or_eq_false_iff,
        Bool.or_eq_false_iff, and_assoc]

theorem isChain_argumentLexemes : (es : List (CelNode δ)) → CelNode.WellFormedAll unicode es →
    ((CelNode.argumentLexemes format es).IsChain Separable ↔
      CelNode.anyNegatesNegative format es = false)
  | [], _ => by simp [CelNode.argumentLexemes, CelNode.anyNegatesNegative]
  | e :: es, hwf => by
      rw [CelNode.argumentLexemes, isChain_append_rest, isChain_lexemes e hwf.1,
        isChain_restLexemes es hwf.2, CelNode.anyNegatesNegative, Bool.or_eq_false_iff]

theorem isChain_restLexemes : (es : List (CelNode δ)) → CelNode.WellFormedAll unicode es →
    ((CelNode.restLexemes format es).IsChain Separable ↔
      CelNode.anyNegatesNegative format es = false)
  | [], _ => by simp [CelNode.restLexemes, CelNode.anyNegatesNegative]
  | e :: es, hwf => by
      have hcomma : isNegative (mark ',') = false := by decide
      have hsplit : CelNode.restLexemes format (e :: es)
          = [] ++ mark ',' :: (e.lexemes format ++ CelNode.restLexemes format es) := rfl
      rw [hsplit, isChain_operator hcomma (by decide), isChain_append_rest,
        isChain_lexemes e hwf.1, isChain_restLexemes es hwf.2, CelNode.anyNegatesNegative,
        Bool.or_eq_false_iff]
      exact and_iff_right List.isChain_nil

end

/-! ### No token is lost -/

mutual

/-- The number of tokens of a node, without parentheses. -/
def CelNode.tokenCount : CelNode δ → ℕ
  | .literal _ | .identifier _ => 1
  | .memberAccess target _ => target.tokenCount + 2
  | .indexAccess target index => target.tokenCount + index.tokenCount + 2
  | .functionCall _ args => 1 + CelNode.argumentCount args
  | .unaryOperator _ operand => 1 + operand.tokenCount
  | .binaryOperator left _ right => left.tokenCount + 1 + right.tokenCount
  | .ternary condition trueExpr falseExpr =>
      condition.tokenCount + trueExpr.tokenCount + falseExpr.tokenCount + 2

def CelNode.argumentCount : List (CelNode δ) → ℕ
  | [] => 0
  | e :: es => e.tokenCount + CelNode.restCount es

def CelNode.restCount : List (CelNode δ) → ℕ
  | [] => 0
  | e :: es => 1 + e.tokenCount + CelNode.restCount es

end

variable {doubleParse : WString → Option δ}

theorem weight_cons (t : CelToken) (ts : List CelToken) : weight ((t :: ts).map CelToken.lexeme)
    = weight [t.lexeme] + weight (ts.map CelToken.lexeme) :=
  weight_append [t.lexeme] _

theorem weight_map_append (us vs : List CelToken) : weight ((us ++ vs).map CelToken.lexeme)
    = weight (us.map CelToken.lexeme) + weight (vs.map CelToken.lexeme) := by
  rw [List.map_append, weight_append]

theorem weight_token {t : CelToken} {type : CelTokenType} (h : t.type = type) :
    weight [t.lexeme] = if type = .leftParen ∨ type = .rightParen then 0 else 1 := by
  subst h
  rw [weight, List.countP_singleton, CelToken.lexeme]
  cases t.type <;> rfl

theorem weight_operator {op : CelToken} {ℓ : ℕ} (level : op.type.level = ℓ) (lower : 2 ≤ ℓ)
    (upper : ℓ ≤ 6) : weight [op.lexeme] = 1 := by
  have hparen : ¬(op.type = .leftParen ∨ op.type = .rightParen) := by
    rintro (htype | htype) <;> rw [htype] at level <;> subst level
    · exact absurd upper (by decide)
    · exact absurd lower (by decide)
  rw [weight_token rfl, if_neg hparen]

@[simp] theorem weight_nil : weight [] = 0 := rfl

mutual

/-- An expression has the tokens of its node, and parentheses. -/
theorem Parses.weight : {ℓ : ℕ} → {us : List CelToken} → {e : CelNode δ} →
    Parses doubleParse ℓ us e → Cel.weight (us.map CelToken.lexeme) = e.tokenCount
  | _, _, _, .tighter _ h => h.weight
  | _, _, _, .primary (t := t) h => by
      rw [weight_cons, List.map_nil, weight_nil]
      rw [CelToken.node] at h
      split at h
      case h_7 => cases h
      case h_4 htype =>
        obtain ⟨value, -, rfl⟩ := Option.map_eq_some_iff.mp h
        rw [weight_token htype]
        rfl
      all_goals
        next htype =>
          obtain rfl := Option.some.inj h
          rw [weight_token htype]
          rfl
  | _, _, _, .paren left right h => by
      rw [weight_cons, weight_map_append, weight_cons, weight_token left, weight_token right,
        h.weight]
      simp
  | _, _, _, .memberAccess dot name h => by
      rw [weight_map_append, weight_cons, weight_cons, weight_token dot, weight_token name,
        h.weight]
      simp [CelNode.tokenCount]
  | _, _, _, .indexAccess left right h hi => by
      rw [weight_map_append, weight_cons, weight_map_append, weight_cons, weight_token left,
        weight_token right, h.weight, hi.weight]
      simp [CelNode.tokenCount]
      omega
  | _, _, _, .functionCall left right h hargs => by
      rw [weight_map_append, weight_cons, weight_map_append, weight_cons, weight_token left,
        weight_token right, h.weight, hargs.weight]
      simp [CelNode.tokenCount]
  | _, _, _, .unaryOperator type h => by
      rw [weight_cons, h.weight]
      rcases type with type | type <;> rw [weight_token type] <;> simp [CelNode.tokenCount]
  | _, _, _, .binaryOperator level lower upper hl hr => by
      rw [weight_map_append, weight_cons, weight_operator level lower upper, hl.weight, hr.weight,
        CelNode.tokenCount]
      omega
  | _, _, _, .ternary question separator hc ht hf => by
      rw [weight_map_append, weight_cons, weight_map_append, weight_cons, weight_token question,
        weight_token separator, hc.weight, ht.weight, hf.weight]
      simp [CelNode.tokenCount]
      omega

theorem ParsesArguments.weight : {us : List CelToken} → {es : List (CelNode δ)} →
    ParsesArguments doubleParse us es →
      Cel.weight (us.map CelToken.lexeme) = CelNode.argumentCount es
  | _, _, .nil => rfl
  | _, _, .cons h hrest => by
      rw [weight_map_append, h.weight, hrest.weight, CelNode.argumentCount]

theorem ParsesRest.weight : {us : List CelToken} → {es : List (CelNode δ)} →
    ParsesRest doubleParse us es → Cel.weight (us.map CelToken.lexeme) = CelNode.restCount es
  | _, _, .nil => rfl
  | _, _, .cons comma h hrest => by
      rw [weight_cons, weight_map_append, weight_token comma, h.weight, hrest.weight,
        CelNode.restCount]
      simp
      omega

end

/-! ### The round trip -/

/-- The text as a node: `CelLexer.Tokenize` and `CelParser.Parse`. -/
def readExpression (unicode : Unicode) (doubleParse : WString → Option δ) (text : WString) :
    Except CelError (CelNode δ) :=
  match tokenize unicode text with
  | .ok tokens => parse doubleParse tokens
  | .error e => .error e

/-- Lexemes are those of some tokens. -/
theorem exists_map_lexeme (xs : List Lexeme) :
    ∃ ts : List CelToken, ts.map CelToken.lexeme = xs :=
  ⟨xs.map fun x => ⟨x.1, x.2, 0⟩, by
    rw [List.map_map]
    exact List.map_id xs⟩

/-- **When a printed node is read back.** It is, exactly if no `!` of it stands before a
negative number. And whatever tokens the parser accepts are, to the last one, an expression
with the node it gives. -/
theorem readExpression_print_iff (unicode : Unicode) (format : DoubleFormat δ) {e : CelNode δ}
    (hwf : e.WellFormed unicode) :
    (readExpression unicode format.parse (e.print format) = .ok e ↔
        e.negatesNegative format = false) ∧
      ∀ (tokens : List CelToken) (last : CelToken) (result : CelNode δ),
        last.type = .endOfInput → (∀ t ∈ tokens, t.type ≠ .endOfInput) →
          (parse format.parse (tokens ++ [last]) = .ok result ↔
            Parses format.parse 1 tokens result) := by
  refine ⟨?_, fun tokens last result hlast htokens => parse_iff hlast htokens⟩
  have hlexable : ∀ x ∈ e.lexemes format, Lexable unicode x := lexemes_lexable e hwf
  have hchain_iff : (e.lexemes format).IsChain Separable ↔ e.negatesNegative format = false :=
    isChain_lexemes e hwf
  obtain ⟨ts, last, htokenize, hlast, hmap⟩ := tokenize_separated hlexable
  have htypes : ∀ t ∈ ts, t.type ≠ .endOfInput := by
    intro t ht
    have hmem : t.lexeme ∈ relex none (e.lexemes format) := hmap ▸ List.mem_map_of_mem ht
    exact relex_type_ne hlexable none _ hmem
  have hread : readExpression unicode format.parse (e.print format) = .ok e ↔
      Parses format.parse 1 ts e := by
    rw [readExpression, CelNode.print, htokenize]
    exact parse_iff hlast htypes
  rw [hread, ← hchain_iff]
  constructor
  · intro h
    obtain ⟨us, hus⟩ := exists_map_lexeme (e.lexemes format)
    have hprinted := (lexemes_parses e hwf us hus).weight
    have hweight := h.weight
    rw [hus] at hprinted
    rw [hmap, ← hprinted] at hweight
    exact ((weight_relex _ none).2 hweight).2.2
  · intro hchain
    rw [relex_of_isChain (by simp [allowsNegative]) hchain] at hmap
    exact (lexemes_parses e hwf ts hmap).atMost e.level_le hwf.level_pos

/-- A runtime with one decimal literal, `1.5`. -/
def threeHalves : DoubleFormat Unit where
  parse text := if text = ['1', '.', '5'].map code then some () else none
  text _ := ['1', '.', '5'].map code
  isDecimal _ := ⟨[], ['1'].map code, ['5'].map code, Or.inl rfl, by decide, by decide, by decide, rfl⟩
  parse_text _ := rfl

/-- `a . b - 1.5 < -5` is read back. -/
theorem readExpression_print_iff_relation :
    readExpression asciiUnicode threeHalves.parse (CelNode.print threeHalves
      (.binaryOperator (.binaryOperator (.memberAccess (.identifier [code 'a']) [code 'b'])
        [code '-'] (.literal (.double ()))) [code '<'] (.literal (.int (-5)))))
      = .ok (.binaryOperator (.binaryOperator (.memberAccess (.identifier [code 'a']) [code 'b'])
        [code '-'] (.literal (.double ()))) [code '<'] (.literal (.int (-5)))) := by
  have hname : ∀ c : WChar, asciiUnicode.isLetter c = true → keywords.lookup [c] = none →
      IsName asciiUnicode [c] := by
    intro c hletter hkeyword
    refine ⟨⟨c, [], rfl, by rw [hletter, Bool.true_or]⟩, fun d hd => ?_, hkeyword⟩
    obtain rfl := List.mem_singleton.mp hd
    rw [Unicode.isLetterOrDigit, hletter, Bool.true_or, Bool.true_or]
  have hwf : CelNode.WellFormed (δ := Unit) asciiUnicode
      (.binaryOperator (.binaryOperator (.memberAccess (.identifier [code 'a']) [code 'b'])
        [code '-'] (.literal (.double ()))) [code '<'] (.literal (.int (-5)))) :=
    ⟨by decide, ⟨by decide, ⟨hname _ (by decide) rfl, hname _ (by decide) rfl⟩, trivial⟩, trivial⟩
  exact (readExpression_print_iff asciiUnicode threeHalves hwf).1.mpr (by decide)

/-- `! -5` is read as `!` before the operator `-` and the number 5. -/
theorem readExpression_not_negative :
    readExpression asciiUnicode threeHalves.parse
        (CelNode.print threeHalves (.unaryOperator [code '!'] (.literal (.int (-5)))))
      = .ok (.unaryOperator [code '!'] (.unaryOperator [code '-'] (.literal (.int 5)))) ∧
    readExpression asciiUnicode threeHalves.parse
        (CelNode.print threeHalves (.unaryOperator [code '!'] (.literal (.int (-5)))))
      ≠ .ok (.unaryOperator [code '!'] (.literal (.int (-5)))) := by
  have htokenize : tokenize asciiUnicode
        (CelNode.print threeHalves (.unaryOperator [code '!'] (.literal (.int (-5)))))
      = .ok ([⟨.not, [code '!'], 0⟩, ⟨.minus, [code '-'], 2⟩, ⟨.number, [code '5'], 3⟩] ++
        [⟨.endOfInput, [], 4⟩]) := by decide
  have hnumber : Parses threeHalves.parse 7 [⟨.number, [code '5'], 3⟩] (.literal (.int 5)) :=
    (Parses.primary rfl).atMost (Nat.le_refl 9) (by omega)
  have hparses : Parses threeHalves.parse 7
      [⟨.not, [code '!'], 0⟩, ⟨.minus, [code '-'], 2⟩, ⟨.number, [code '5'], 3⟩]
      (.unaryOperator [code '!'] (.unaryOperator [code '-'] (.literal (.int 5)))) :=
    .unaryOperator (Or.inl rfl) (.unaryOperator (Or.inr rfl) hnumber)
  have hread : readExpression asciiUnicode threeHalves.parse
        (CelNode.print threeHalves (.unaryOperator [code '!'] (.literal (.int (-5)))))
      = .ok (.unaryOperator [code '!'] (.unaryOperator [code '-'] (.literal (.int 5)))) := by
    rw [readExpression, htokenize]
    exact (parse_iff rfl (by decide)).mpr (hparses.atMost (by omega) (by omega))
  refine ⟨hread, fun h => ?_⟩
  have hoperand := (CelNode.unaryOperator.inj (Except.ok.inj (hread.symm.trans h))).2
  cases hoperand

end AutoInstrumentation.Cel
