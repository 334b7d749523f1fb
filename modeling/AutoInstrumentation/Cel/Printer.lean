import AutoInstrumentation.Cel.ParserSound

/-!
# AutoInstrumentation.Cel.Printer

Nodes as text, and the grammar of what is printed (`lexemes_parses`).

A node is printed as a list of lexemes (the type and the value of a token) with the texts
of the lexemes separated by blanks. How the runtime reads and writes a `double` as a decimal
literal is the parameter `format`.
-/

namespace AutoInstrumentation.Cel

/-- A token without its position. -/
abbrev Lexeme := CelTokenType × WString

def CelToken.lexeme (t : CelToken) : Lexeme := (t.type, t.value)

/-! ### Literals -/

def intText (value : BitVec 32) : WString :=
  if value.toInt < 0 then code '-' :: naturalText value.toInt.natAbs
  else naturalText value.toInt.natAbs

/-- A decimal literal: an optional sign, digits, a point and more digits. -/
def IsDecimal (text : WString) : Prop :=
  ∃ sign digits fraction : WString, (sign = [] ∨ sign = [code '-']) ∧ digits ≠ [] ∧
    digits.all isAsciiDigit ∧ fraction.all isAsciiDigit ∧
    text = sign ++ digits ++ code '.' :: fraction

/-- The decimal literals for values of type `δ`, which `double.Parse` reads back. -/
structure DoubleFormat (δ : Type) where
  parse : WString → Option δ
  text : δ → WString
  isDecimal : ∀ d, IsDecimal (text d)
  parse_text : ∀ d, parse (text d) = some d

variable {δ : Type} (format : DoubleFormat δ)

def CelLiteral.lexeme : CelLiteral δ → Lexeme
  | .string value => (.string, value)
  | .int value => (.number, intText value)
  | .double value => (.number, format.text value)
  | .bool true => (.true, ['t', 'r', 'u', 'e'].map code)
  | .bool false => (.false, ['f', 'a', 'l', 's', 'e'].map code)
  | .null => (.null, ['n', 'u', 'l', 'l'].map code)

/-! ### Nodes -/

/-- The type of an operator's token. -/
def operatorType (operator : WString) : CelTokenType :=
  ((twoCharOperators ++ singleOperators).lookup operator).getD .endOfInput

def operatorLexeme (operator : WString) : Lexeme := (operatorType operator, operator)

/-- The lexeme of a punctuation character. -/
def mark (c : Char) : Lexeme := operatorLexeme [code c]

def CelNode.level : CelNode δ → ℕ
  | .literal _ | .identifier _ => 9
  | .memberAccess _ _ | .indexAccess _ _ | .functionCall _ _ => 8
  | .unaryOperator _ _ => 7
  | .binaryOperator _ operator _ => (operatorType operator).level
  | .ternary _ _ _ => 1

/-- Put parentheses around a node that is looser than its place. -/
def atLevel (ℓ : ℕ) (e : CelNode δ) (lexemes : List Lexeme) : List Lexeme :=
  if e.level < ℓ then mark '(' :: (lexemes ++ [mark ')']) else lexemes

mutual

def CelNode.lexemes : CelNode δ → List Lexeme
  | .literal value => [value.lexeme format]
  | .identifier name => [(.identifier, name)]
  | .memberAccess target memberName =>
      atLevel 8 target target.lexemes ++ [mark '.', (.identifier, memberName)]
  | .indexAccess target index =>
      atLevel 8 target target.lexemes ++ mark '[' :: (index.lexemes ++ [mark ']'])
  | .functionCall functionName args =>
      (.identifier, functionName) :: mark '(' :: (CelNode.argumentLexemes args ++ [mark ')'])
  | .unaryOperator operator operand =>
      operatorLexeme operator :: atLevel 7 operand operand.lexemes
  | .binaryOperator left operator right =>
      atLevel (operatorType operator).level left left.lexemes ++ operatorLexeme operator ::
        atLevel ((operatorType operator).level + 1) right right.lexemes
  | .ternary condition trueExpr falseExpr =>
      atLevel 2 condition condition.lexemes ++ mark '?' ::
        (atLevel 2 trueExpr trueExpr.lexemes ++ mark ':' :: falseExpr.lexemes)

def CelNode.argumentLexemes : List (CelNode δ) → List Lexeme
  | [] => []
  | e :: es => e.lexemes ++ CelNode.restLexemes es

def CelNode.restLexemes : List (CelNode δ) → List Lexeme
  | [] => []
  | e :: es => mark ',' :: (e.lexemes ++ CelNode.restLexemes es)

end

/-- The text between the quotes. -/
def escapeText (value : WString) : WString :=
  value.flatMap fun c => if c = code '"' ∨ c = code '\\' then [code '\\', c] else [c]

def lexemeText (x : Lexeme) : WString :=
  if x.1 = .string then code '"' :: (escapeText x.2 ++ [code '"']) else x.2

/-- The lexemes separated by blanks. -/
def separated (lexemes : List Lexeme) : WString :=
  [code ' '].intercalate (lexemes.map lexemeText)

def CelNode.print (e : CelNode δ) : WString := separated (e.lexemes format)

/-! ### Well-formed nodes -/

/-- An identifier that is no keyword. -/
def IsName (unicode : Unicode) (name : WString) : Prop :=
  (∃ c cs, name = c :: cs ∧ (unicode.isLetter c || c == code '_') = true) ∧
    (∀ c ∈ name, (unicode.isLetterOrDigit c || c == code '_') = true) ∧
    keywords.lookup name = none

mutual

/-- The names are identifiers and the operators are those of the language. -/
def CelNode.WellFormed (unicode : Unicode) : CelNode δ → Prop
  | .literal _ => True
  | .identifier name => IsName unicode name
  | .memberAccess target memberName => target.WellFormed unicode ∧ IsName unicode memberName
  | .indexAccess target index => target.WellFormed unicode ∧ index.WellFormed unicode
  | .functionCall functionName args =>
      IsName unicode functionName ∧ CelNode.WellFormedAll unicode args
  | .unaryOperator operator operand =>
      (operator = [code '!'] ∨ operator = [code '-']) ∧ operand.WellFormed unicode
  | .binaryOperator left operator right =>
      (2 ≤ (operatorType operator).level ∧ (operatorType operator).level ≤ 6) ∧
        left.WellFormed unicode ∧ right.WellFormed unicode
  | .ternary condition trueExpr falseExpr =>
      condition.WellFormed unicode ∧ trueExpr.WellFormed unicode ∧ falseExpr.WellFormed unicode

def CelNode.WellFormedAll (unicode : Unicode) : List (CelNode δ) → Prop
  | [] => True
  | e :: es => e.WellFormed unicode ∧ CelNode.WellFormedAll unicode es

end

/-! ### Numbers -/

theorem natAbs_toInt_lt (value : BitVec 32) : value.toInt.natAbs < 2 ^ 31 ∨
    value.toInt < 0 ∧ value.toInt.natAbs = 2 ^ 31 := by
  have hlower := BitVec.le_toInt value
  have hupper := BitVec.toInt_lt (x := value)
  omega

/-- `int.Parse` reads every integer literal back. -/
theorem intParse_intText (value : BitVec 32) : intParse (intText value) = .ok value := by
  have hdigits := naturalText_isAsciiDigit value.toInt.natAbs
  have hne := naturalText_ne_nil value.toInt.natAbs
  have hbound := natAbs_toInt_lt value
  rw [intText]
  by_cases hneg : value.toInt < 0
  · rw [if_pos hneg, intParse]
    simp only [List.head?_cons, List.tail_cons, if_true, hdigits, hne, not_true, or_self, if_false,
      digitsValue_naturalText, true_and]
    rw [if_pos (by omega)]
    have hvalue : value.toInt = -(value.toInt.natAbs : ℤ) := by omega
    have hneg : -BitVec.ofNat 32 value.toInt.natAbs = value :=
      calc -BitVec.ofNat 32 value.toInt.natAbs
          = BitVec.ofInt 32 (-(value.toInt.natAbs : ℤ)) := by
            rw [BitVec.ofInt_neg, BitVec.ofInt_natCast]
        _ = value := by rw [← hvalue, BitVec.ofInt_toInt]
    exact congrArg Except.ok hneg
  · rw [if_neg hneg, intParse]
    have hhead : (naturalText value.toInt.natAbs).head? ≠ some (code '-') := by
      intro hhead
      have hminus := List.all_eq_true.mp hdigits _ (List.mem_of_head? hhead)
      exact absurd hminus (by decide)
    simp only [hhead, if_false, hdigits, hne, not_true, or_self, digitsValue_naturalText, false_and,
      or_false]
    rw [if_pos (by omega)]
    have hvalue : value.toInt = (value.toInt.natAbs : ℤ) := by omega
    have hpos : BitVec.ofNat 32 value.toInt.natAbs = value :=
      calc BitVec.ofNat 32 value.toInt.natAbs
          = BitVec.ofInt 32 (value.toInt.natAbs : ℤ) := (BitVec.ofInt_natCast _ _).symm
        _ = value := by rw [← hvalue, BitVec.ofInt_toInt]
    exact congrArg Except.ok hpos

theorem not_mem_intText (value : BitVec 32) : code '.' ∉ intText value := by
  have hdigits : code '.' ∉ naturalText value.toInt.natAbs := by
    intro hmem
    have hpoint := List.all_eq_true.mp (naturalText_isAsciiDigit _) _ hmem
    exact absurd hpoint (by decide)
  have hminus : code '.' ≠ code '-' := by decide
  rw [intText]
  split
  · simp [hminus, hdigits]
  · exact hdigits

/-- The literal of a printed number. -/
theorem numberLiteral_int (value : BitVec 32) :
    numberLiteral format.parse (intText value) = .ok (.int value) := by
  rw [numberLiteral, if_neg (by simpa using not_mem_intText value), intParse_intText]
  rfl

theorem numberLiteral_double (value : δ) :
    numberLiteral format.parse (format.text value) = .ok (.double value) := by
  obtain ⟨sign, digits, fraction, -, -, -, -, htext⟩ := format.isDecimal value
  have hpoint : (format.text value).contains (code '.') = true := by
    rw [List.contains_iff_mem, htext]
    simp
  rw [numberLiteral, if_pos hpoint, format.parse_text]

/-! ### What is printed is an expression -/

section

variable {format}

theorem Parses.atMost {doubleParse : WString → Option δ} {us : List CelToken} {e : CelNode δ}
    {m : ℕ} (h : Parses doubleParse m us e) (hm : m ≤ 9) {ℓ : ℕ} (hℓ : ℓ ≤ m) :
    Parses doubleParse ℓ us e := by
  obtain ⟨k, rfl⟩ := Nat.exists_eq_add_of_le hℓ
  clear hℓ
  induction k generalizing ℓ with
  | zero => exact h
  | succ k ih =>
      have hshift : ℓ + (k + 1) = ℓ + 1 + k := by omega
      exact .tighter (by omega) (ih (hshift ▸ h) (by omega))

theorem lexeme_eq {t : CelToken} {x : Lexeme} (h : t.lexeme = x) : t.type = x.1 ∧ t.value = x.2 :=
  ⟨congrArg Prod.fst h, congrArg Prod.snd h⟩

theorem map_lexeme_concat {ts : List CelToken} {xs : List Lexeme} {x : Lexeme}
    (h : ts.map CelToken.lexeme = xs ++ [x]) :
    ∃ us t, ts = us ++ [t] ∧ us.map CelToken.lexeme = xs ∧ t.lexeme = x := by
  obtain ⟨us, vs, rfl, hus, hvs⟩ := List.map_eq_append_iff.mp h
  obtain ⟨t, rfl, ht⟩ := List.map_eq_singleton_iff.mp hvs
  exact ⟨us, t, rfl, hus, ht⟩

theorem node_of_literal {t : CelToken} {value : CelLiteral δ}
    (h : t.lexeme = value.lexeme format) : t.node format.parse = some (.literal value) := by
  obtain ⟨htype, hvalue⟩ := lexeme_eq h
  rw [CelToken.node]
  cases value with
  | string value =>
      simp only [CelLiteral.lexeme] at htype hvalue
      rw [htype, hvalue]
  | int value =>
      simp only [CelLiteral.lexeme] at htype hvalue
      rw [htype, hvalue]
      simp only [numberLiteral_int]
      rfl
  | double value =>
      simp only [CelLiteral.lexeme] at htype hvalue
      rw [htype, hvalue]
      simp only [numberLiteral_double]
      rfl
  | bool value =>
      cases value <;> simp only [CelLiteral.lexeme] at htype <;> rw [htype]
  | null =>
      simp only [CelLiteral.lexeme] at htype
      rw [htype]

theorem node_of_identifier {doubleParse : WString → Option δ} {t : CelToken} {name : WString}
    (h : t.lexeme = (.identifier, name)) : t.node doubleParse = some (.identifier name) := by
  obtain ⟨htype, hvalue⟩ := lexeme_eq h
  rw [CelToken.node, htype, hvalue]

/-- A node in its place. -/
theorem parses_atLevel {e : CelNode δ} {ℓ : ℕ} {xs : List Lexeme}
    (h : ∀ ts : List CelToken, ts.map CelToken.lexeme = xs → Parses format.parse e.level ts e)
    (lower : 1 ≤ e.level) (upper : e.level ≤ 9) (bound : ℓ ≤ 9) {ts : List CelToken}
    (hts : ts.map CelToken.lexeme = atLevel ℓ e xs) : Parses format.parse ℓ ts e := by
  rw [atLevel] at hts
  split at hts
  · obtain ⟨l, ts, rfl, hl, hts⟩ := List.map_eq_cons_iff.mp hts
    obtain ⟨us, r, rfl, hus, hr⟩ := map_lexeme_concat hts
    have hparen : Parses format.parse 9 (l :: (us ++ [r])) e :=
      .paren (lexeme_eq hl).1 (lexeme_eq hr).1 ((h us hus).atMost upper lower)
    exact hparen.atMost (Nat.le_refl 9) bound
  · next hlevel => exact (h ts hts).atMost upper (Nat.le_of_not_lt hlevel)

theorem CelNode.level_le (e : CelNode δ) : e.level ≤ 9 := by
  cases e with
  | binaryOperator left operator right =>
      exact Nat.le_succ_of_le (CelTokenType.level_le _)
  | _ => simp [CelNode.level]

theorem CelNode.WellFormed.level_pos {unicode : Unicode} {e : CelNode δ} (h : e.WellFormed unicode) :
    1 ≤ e.level := by
  cases e with
  | binaryOperator left operator right => exact Nat.le_of_succ_le h.1.1
  | _ => simp [CelNode.level]

mutual

/-- **What is printed is an expression.** The tokens with the lexemes of a node are an
expression of the node's level, with the node. -/
theorem lexemes_parses {unicode : Unicode} : (e : CelNode δ) → e.WellFormed unicode →
    (ts : List CelToken) → ts.map CelToken.lexeme = e.lexemes format →
      Parses format.parse e.level ts e
  | .literal value, _, ts, hts => by
      obtain ⟨t, rfl, ht⟩ := List.map_eq_singleton_iff.mp hts
      exact .primary (node_of_literal ht)
  | .identifier name, _, ts, hts => by
      obtain ⟨t, rfl, ht⟩ := List.map_eq_singleton_iff.mp hts
      exact .primary (node_of_identifier ht)
  | .memberAccess target memberName, hwf, ts, hts => by
      obtain ⟨us, vs, rfl, hus, hvs⟩ := List.map_eq_append_iff.mp hts
      obtain ⟨d, vs, rfl, hd, hvs⟩ := List.map_eq_cons_iff.mp hvs
      obtain ⟨n, rfl, hn⟩ := List.map_eq_singleton_iff.mp hvs
      have htarget := parses_atLevel (lexemes_parses target hwf.1) hwf.1.level_pos target.level_le
        (by omega) hus
      have hmember := Parses.memberAccess (lexeme_eq hd).1 (lexeme_eq hn).1 htarget
      rwa [(lexeme_eq hn).2] at hmember
  | .indexAccess target index, hwf, ts, hts => by
      obtain ⟨us, vs, rfl, hus, hvs⟩ := List.map_eq_append_iff.mp hts
      obtain ⟨l, vs, rfl, hl, hvs⟩ := List.map_eq_cons_iff.mp hvs
      obtain ⟨ws, r, rfl, hws, hr⟩ := map_lexeme_concat hvs
      have htarget := parses_atLevel (lexemes_parses target hwf.1) hwf.1.level_pos target.level_le
        (by omega) hus
      have hindex := (lexemes_parses index hwf.2 ws hws).atMost index.level_le hwf.2.level_pos
      exact .indexAccess (lexeme_eq hl).1 (lexeme_eq hr).1 htarget hindex
  | .functionCall functionName args, hwf, ts, hts => by
      obtain ⟨n, vs, rfl, hn, hvs⟩ := List.map_eq_cons_iff.mp hts
      obtain ⟨l, vs, rfl, hl, hvs⟩ := List.map_eq_cons_iff.mp hvs
      obtain ⟨ws, r, rfl, hws, hr⟩ := map_lexeme_concat hvs
      have hname : Parses format.parse 8 [n] (.identifier functionName) :=
        (Parses.primary (node_of_identifier hn)).atMost (Nat.le_refl 9) (by omega)
      exact .functionCall (lexeme_eq hl).1 (lexeme_eq hr).1 hname
        (argumentLexemes_parses args hwf.2 ws hws)
  | .unaryOperator operator operand, hwf, ts, hts => by
      obtain ⟨op, vs, rfl, hop, hvs⟩ := List.map_eq_cons_iff.mp hts
      have hoperand := parses_atLevel (lexemes_parses operand hwf.2) hwf.2.level_pos
        operand.level_le (by omega) hvs
      have htype : op.type = .not ∨ op.type = .minus := by
        rw [(lexeme_eq hop).1]
        rcases hwf.1 with rfl | rfl
        · exact Or.inl rfl
        · exact Or.inr rfl
      have hunary := Parses.unaryOperator htype hoperand
      rwa [(lexeme_eq hop).2] at hunary
  | .binaryOperator left operator right, hwf, ts, hts => by
      obtain ⟨us, vs, rfl, hus, hvs⟩ := List.map_eq_append_iff.mp hts
      obtain ⟨op, vs, rfl, hop, hvs⟩ := List.map_eq_cons_iff.mp hvs
      have hupper := hwf.1.2
      have hleft := parses_atLevel (lexemes_parses left hwf.2.1) hwf.2.1.level_pos left.level_le
        (by omega) hus
      have hright := parses_atLevel (lexemes_parses right hwf.2.2) hwf.2.2.level_pos right.level_le
        (by omega) hvs
      have hbinary := Parses.binaryOperator (congrArg _ (lexeme_eq hop).1) hwf.1.1 hupper hleft hright
      rwa [(lexeme_eq hop).2] at hbinary
  | .ternary condition trueExpr falseExpr, hwf, ts, hts => by
      obtain ⟨us, vs, rfl, hus, hvs⟩ := List.map_eq_append_iff.mp hts
      obtain ⟨q, vs, rfl, hq, hvs⟩ := List.map_eq_cons_iff.mp hvs
      obtain ⟨as, bs, rfl, has, hbs⟩ := List.map_eq_append_iff.mp hvs
      obtain ⟨colon, ws, rfl, hcolon, hws⟩ := List.map_eq_cons_iff.mp hbs
      have hcondition : Parses format.parse 2 us condition :=
        parses_atLevel (lexemes_parses condition hwf.1) hwf.1.level_pos condition.level_le
          (by omega) hus
      have htrue : Parses format.parse 2 as trueExpr :=
        parses_atLevel (lexemes_parses trueExpr hwf.2.1) hwf.2.1.level_pos trueExpr.level_le
          (by omega) has
      have hfalse := (lexemes_parses falseExpr hwf.2.2 ws hws).atMost falseExpr.level_le
        hwf.2.2.level_pos
      exact .ternary (lexeme_eq hq).1 (lexeme_eq hcolon).1 hcondition htrue hfalse

theorem argumentLexemes_parses {unicode : Unicode} : (es : List (CelNode δ)) →
    CelNode.WellFormedAll unicode es → (ts : List CelToken) →
      ts.map CelToken.lexeme = CelNode.argumentLexemes format es →
        ParsesArguments format.parse ts es
  | [], _, ts, hts => by
      obtain rfl := List.map_eq_nil_iff.mp hts
      exact .nil
  | e :: es, hwf, ts, hts => by
      obtain ⟨us, vs, rfl, hus, hvs⟩ := List.map_eq_append_iff.mp hts
      exact .cons ((lexemes_parses e hwf.1 us hus).atMost e.level_le hwf.1.level_pos)
        (restLexemes_parses es hwf.2 vs hvs)

theorem restLexemes_parses {unicode : Unicode} : (es : List (CelNode δ)) →
    CelNode.WellFormedAll unicode es → (ts : List CelToken) →
      ts.map CelToken.lexeme = CelNode.restLexemes format es → ParsesRest format.parse ts es
  | [], _, ts, hts => by
      obtain rfl := List.map_eq_nil_iff.mp hts
      exact .nil
  | e :: es, hwf, ts, hts => by
      obtain ⟨c, vs, rfl, hc, hvs⟩ := List.map_eq_cons_iff.mp hts
      obtain ⟨us, vs, rfl, hus, hvs⟩ := List.map_eq_append_iff.mp hvs
      exact .cons (lexeme_eq hc).1
        ((lexemes_parses e hwf.1 us hus).atMost e.level_le hwf.1.level_pos)
        (restLexemes_parses es hwf.2 vs hvs)

end

end

end AutoInstrumentation.Cel
