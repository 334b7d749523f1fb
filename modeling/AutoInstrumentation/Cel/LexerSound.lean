import AutoInstrumentation.Cel.Printer

/-!
# AutoInstrumentation.Cel.LexerSound

What the lexer makes of lexemes that are separated by blanks (`tokenize_separated`).

Each lexeme comes back as it is, but for one case: a negative number after a token that is
not in the lexer's list of operators is read as a `-` and a number. `relex` says so, for any
list of lexemes.
-/

namespace AutoInstrumentation.Cel

variable {unicode : Unicode}

/-! ### Characters -/

namespace Unicode

/-- The first character of a number without a sign. -/
theorem isDigit_ne {c : WChar} (h : unicode.isDigit c = true) :
    unicode.isWhiteSpace c = false ∧ c ≠ code '"' ∧ c ≠ code '\'' ∧ c ≠ code '-' := by
  have hcategory : unicode.category c = .decimalDigitNumber := by simpa [isDigit] using h
  have hne : ∀ d : WChar, d < 0x80 → asciiCategory d = .other → c ≠ d := by
    rintro d hascii hother rfl
    rw [unicode.ascii c hascii, hother] at hcategory
    cases hcategory
  refine ⟨isWhiteSpace_eq_false (Or.inr hcategory), ?_, ?_, ?_⟩
  · exact hne _ (by decide) (by decide)
  · exact hne _ (by decide) (by decide)
  · exact hne _ (by decide) (by decide)

/-- A character of ASCII that is neither a letter, a digit nor the blank. -/
theorem category_other {c : WChar} (hascii : c < 0x80) (h : asciiCategory c = .other) :
    unicode.isLetter c = false ∧ unicode.isDigit c = false := by
  have hcategory : unicode.category c = .other := (unicode.ascii c hascii).trans h
  constructor
  · rw [isLetter, hcategory]
    rfl
  · rw [isDigit, hcategory]
    rfl

/-- The first character of a name. -/
theorem isLetter_or {c : WChar} (h : (unicode.isLetter c || c == code '_') = true) :
    unicode.isWhiteSpace c = false ∧ unicode.isDigit c = false ∧
      (c ≠ code '"' ∧ c ≠ code '\'') ∧ c ≠ code '-' := by
  rcases Bool.or_eq_true _ _ ▸ h with hletter | hunderscore
  · have hcategory : unicode.category c = .letter := by simpa [isLetter] using hletter
    have hne : ∀ d : WChar, d < 0x80 → asciiCategory d = .other → c ≠ d := by
      rintro d hascii hother rfl
      rw [unicode.ascii c hascii, hother] at hcategory
      cases hcategory
    refine ⟨isWhiteSpace_eq_false (Or.inl hcategory), ?_, ⟨?_, ?_⟩, ?_⟩
    · rw [isDigit, hcategory]
      rfl
    · exact hne _ (by decide) (by decide)
    · exact hne _ (by decide) (by decide)
    · exact hne _ (by decide) (by decide)
  · obtain rfl := eq_of_beq hunderscore
    have hcategory : unicode.category (code '_') = .other := unicode.ascii _ (by decide)
    refine ⟨?_, (category_other (by decide) (by decide)).2, by decide, by decide⟩
    rw [isWhiteSpace, hcategory]
    decide

theorem isWhiteSpace_blank : unicode.isWhiteSpace (code ' ') = true := by
  have hcategory : unicode.category (code ' ') = .separator := unicode.ascii _ (by decide)
  rw [isWhiteSpace, hcategory]
  rfl

/-- White space is in no number and no name. -/
theorem isWhiteSpace_ne {c : WChar} (h : unicode.isWhiteSpace c = true) :
    unicode.isDigit c = false ∧ unicode.isLetter c = false := by
  constructor
  · by_contra hdigit
    have hcategory : unicode.category c = .decimalDigitNumber := by simpa [isDigit] using hdigit
    rw [isWhiteSpace_eq_false (Or.inr hcategory)] at h
    cases h
  · by_contra hletter
    have hcategory : unicode.category c = .letter := by simpa [isLetter] using hletter
    rw [isWhiteSpace_eq_false (Or.inl hcategory)] at h
    cases h

/-- No other character of ASCII is white space, but for the control characters. -/
theorem isWhiteSpace_other {c : WChar} (hascii : c < 0x80) (h : asciiCategory c = .other)
    (hcontrol : (0x09 ≤ c && c ≤ 0x0d) = false) (hnextLine : c ≠ 0x85) :
    unicode.isWhiteSpace c = false := by
  rw [isWhiteSpace, unicode.ascii c hascii, h, hcontrol]
  simpa using hnextLine

end Unicode

/-! ### Readers -/

/-- A text ends, or a blank follows. -/
def Stop (rest : WString) : Prop := rest = [] ∨ ∃ more, rest = code ' ' :: more

/-- A text ends, or white space follows. -/
def Ends (unicode : Unicode) (rest : WString) : Prop :=
  rest = [] ∨ ∃ c more, rest = c :: more ∧ unicode.isWhiteSpace c = true

theorem Stop.ends {rest : WString} (h : Stop rest) : Ends unicode rest := by
  rcases h with rfl | ⟨more, rfl⟩
  · exact Or.inl rfl
  · exact Or.inr ⟨code ' ', more, rfl, Unicode.isWhiteSpace_blank⟩

theorem takeWhile_ends {p : WChar → Bool} {xs rest : WString} (h : ∀ c ∈ xs, p c = true)
    (hspace : ∀ c, unicode.isWhiteSpace c = true → p c = false) (hrest : Ends unicode rest) :
    (xs ++ rest).takeWhile p = xs := by
  rw [List.takeWhile_append_of_pos h]
  rcases hrest with rfl | ⟨c, more, rfl, hc⟩
  · rw [List.takeWhile_nil, List.append_nil]
  · rw [List.takeWhile_cons_of_neg (by rw [hspace c hc]; decide), List.append_nil]

theorem lexed_append (type : CelTokenType) (value : WString) (position : ℕ) (rest : WString) :
    lexed type value position (value ++ rest)
      = (⟨type, value, position⟩, position + value.length, rest) := by
  rw [lexed, List.drop_left]

/-- The text begins with a token of the lexeme and ends with it. -/
def Lexes (unicode : Unicode) (lastToken : Option CelTokenType) (text : WString) (x : Lexeme)
    (rest : WString) : Prop :=
  ∃ c cs, text = c :: cs ∧ unicode.isWhiteSpace c = false ∧ rest.length ≤ cs.length ∧
    ∀ position, ∃ position', readToken unicode lastToken position c cs
      = .ok (⟨x.1, x.2, position⟩, position', rest)

/-- The text of a number without a sign. -/
def IsUnsigned (text : WString) : Prop :=
  ∃ c cs, text = c :: cs ∧ isAsciiDigit c = true ∧
    ∀ d ∈ cs, (isAsciiDigit d || d == code '.') = true

/-- The text of a number without a sign, in the digits of the runtime. -/
def IsNumber (unicode : Unicode) (text : WString) : Prop :=
  ∃ c cs, text = c :: cs ∧ unicode.isDigit c = true ∧
    ∀ d ∈ cs, (unicode.isDigit d || d == code '.') = true

theorem IsUnsigned.isNumber {text : WString} (h : IsUnsigned text) : IsNumber unicode text := by
  obtain ⟨c, cs, rfl, hc, hcs⟩ := h
  refine ⟨c, cs, rfl, Unicode.isDigit_ascii hc, ?_⟩
  intro d hd
  rw [Bool.or_eq_true]
  exact (Bool.or_eq_true _ _ ▸ hcs d hd).imp_left Unicode.isDigit_ascii

theorem numberDigits_append {text rest : WString} (h : IsNumber unicode text)
    (hrest : Ends unicode rest) : numberDigits unicode (text ++ rest) = text := by
  obtain ⟨c, cs, rfl, hc, hcs⟩ := h
  refine takeWhile_ends (fun d hd => ?_) ?_ hrest
  · rcases List.mem_cons.mp hd with rfl | hd
    · rw [hc, Bool.true_or]
    · exact hcs d hd
  · intro d hd
    have hpoint : d ≠ code '.' := by
      rintro rfl
      rw [Unicode.isWhiteSpace_other (by decide) (by decide) (by decide) (by decide)] at hd
      cases hd
    rw [(Unicode.isWhiteSpace_ne hd).1, Bool.false_or]
    exact beq_eq_false_iff_ne.mpr hpoint

theorem readNumber_unsigned {text rest : WString} (h : IsNumber unicode text)
    (hrest : Ends unicode rest) (position : ℕ) : readNumber unicode position (text ++ rest)
      = (⟨.number, text, position⟩, position + text.length, rest) := by
  have hhead : (text ++ rest).head? ≠ some (code '-') := by
    obtain ⟨c, cs, rfl, hc, -⟩ := h
    exact fun heq => (Unicode.isDigit_ne hc).2.2.2 (Option.some.inj heq)
  rw [readNumber, if_neg hhead, numberDigits_append h hrest]
  exact lexed_append _ _ _ _

theorem readNumber_negative {text rest : WString} (h : IsNumber unicode text)
    (hrest : Ends unicode rest) (position : ℕ) : readNumber unicode position (code '-' :: text ++ rest)
      = (⟨.number, code '-' :: text, position⟩, position + (code '-' :: text).length, rest) := by
  rw [readNumber, if_pos (by simp), List.cons_append, List.tail_cons, numberDigits_append h hrest]
  exact lexed_append .number (code '-' :: text) position rest

/-- A number without a sign. -/
theorem lexes_unsigned {text rest : WString} (h : IsNumber unicode text)
    (hrest : Ends unicode rest) (lastToken : Option CelTokenType) :
    Lexes unicode lastToken (text ++ rest) (.number, text) rest := by
  have hread : ∀ position, readNumber unicode position _ = _ := readNumber_unsigned h hrest
  obtain ⟨c, cs, rfl, hc, hcs⟩ := h
  obtain ⟨hspace, hdouble, hsingle, -⟩ := Unicode.isDigit_ne hc
  refine ⟨c, cs ++ rest, rfl, hspace, by simp,
    fun position => ⟨position + (c :: cs).length, ?_⟩⟩
  rw [readToken, if_neg (by simp [hdouble, hsingle]), if_pos (by rw [hc, Bool.true_or])]
  exact congrArg Except.ok (hread position)

theorem canBeNegativeNumber_iff {lastToken : Option CelTokenType} {text rest : WString}
    (h : IsNumber unicode text) :
    canBeNegativeNumber unicode lastToken (code '-') (text ++ rest) = true ↔
      lastToken.all (beforeNegative.contains ·) = true := by
  obtain ⟨c, cs, rfl, hc, -⟩ := h
  simp [canBeNegativeNumber, hc]

theorem minus_facts : unicode.isWhiteSpace (code '-') = false ∧
    unicode.isDigit (code '-') = false ∧ unicode.isLetter (code '-') = false := by
  have hcategory : unicode.category (code '-') = .other := unicode.ascii _ (by decide)
  refine ⟨?_, (Unicode.category_other (by decide) (by decide)).2,
    (Unicode.category_other (by decide) (by decide)).1⟩
  rw [Unicode.isWhiteSpace, hcategory]
  decide

/-- A negative number, where one may stand. -/
theorem lexes_negative {text rest : WString} (h : IsNumber unicode text)
    (hrest : Ends unicode rest) {lastToken : Option CelTokenType}
    (hlast : lastToken.all (beforeNegative.contains ·) = true) :
    Lexes unicode lastToken (code '-' :: text ++ rest) (.number, code '-' :: text) rest := by
  refine ⟨code '-', text ++ rest, rfl, minus_facts.1, by simp, fun position =>
    ⟨position + (code '-' :: text).length, ?_⟩⟩
  rw [readToken, if_neg (by decide),
    if_pos (by rw [(canBeNegativeNumber_iff h).mpr hlast, Bool.or_true])]
  exact congrArg Except.ok (readNumber_negative h hrest position)

/-- The `-` of a negative number elsewhere. -/
theorem lexes_minus {text rest : WString} (h : IsNumber unicode text)
    {lastToken : Option CelTokenType}
    (hlast : lastToken.all (beforeNegative.contains ·) = false) :
    Lexes unicode lastToken (code '-' :: text ++ rest) (mark '-') (text ++ rest) := by
  refine ⟨code '-', text ++ rest, rfl, minus_facts.1, Nat.le_refl _, fun position =>
    ⟨position + 1, ?_⟩⟩
  have hnegative : canBeNegativeNumber unicode lastToken (code '-') (text ++ rest) = false := by
    rw [Bool.eq_false_iff, Ne, canBeNegativeNumber_iff h, hlast]
    decide
  have hoperator : readOperator position (code '-' :: (text ++ rest))
      = some (⟨.minus, [code '-'], position⟩, position + 1, text ++ rest) := by
    obtain ⟨c, cs, rfl, hc, -⟩ := h
    have htwo : twoCharOperators.lookup [code '-', c] = none := rfl
    rw [readOperator]
    simp only [List.cons_append, List.take_succ_cons, List.take_zero, htwo]
    rfl
  rw [readToken, if_neg (by decide), if_neg (by rw [minus_facts.2.1, hnegative]; decide),
    if_neg (by rw [minus_facts.2.2]; decide), hoperator]
  rfl

/-- Names and keywords. -/
theorem lexes_name {c : WChar} {cs rest : WString} {type : CelTokenType}
    (hc : (unicode.isLetter c || c == code '_') = true)
    (hcs : ∀ d ∈ c :: cs, (unicode.isLetterOrDigit d || d == code '_') = true)
    (htype : (keywords.lookup (c :: cs)).getD .identifier = type) (hrest : Ends unicode rest)
    (lastToken : Option CelTokenType) :
    Lexes unicode lastToken (c :: cs ++ rest) (type, c :: cs) rest := by
  obtain ⟨hspace, hdigit, hquotes, hminus⟩ := Unicode.isLetter_or hc
  refine ⟨c, cs ++ rest, rfl, hspace, by simp, fun position => ⟨position + (c :: cs).length, ?_⟩⟩
  have hnegative : canBeNegativeNumber unicode lastToken c (cs ++ rest) = false := by
    simp [canBeNegativeNumber, hminus]
  have hend : ∀ d, unicode.isWhiteSpace d = true →
      (unicode.isLetterOrDigit d || d == code '_') = false := by
    intro d hd
    have hunderscore : d ≠ code '_' := by
      rintro rfl
      rw [Unicode.isWhiteSpace_other (by decide) (by decide) (by decide) (by decide)] at hd
      cases hd
    obtain ⟨hdigit, hletter⟩ := Unicode.isWhiteSpace_ne hd
    rw [Unicode.isLetterOrDigit, hdigit, hletter, Bool.false_or, Bool.false_or]
    exact beq_eq_false_iff_ne.mpr hunderscore
  have hvalue : (c :: (cs ++ rest)).takeWhile
      (fun c => unicode.isLetterOrDigit c || c == code '_') = c :: cs :=
    takeWhile_ends hcs hend hrest
  rw [readToken, if_neg (by simp [hquotes.1, hquotes.2]), if_neg (by rw [hdigit, hnegative]; decide),
    if_pos hc, readIdentifierOrKeyword, hvalue, htype]
  exact congrArg Except.ok (lexed_append type (c :: cs) position rest)

theorem readStringBody_quote (quote : WChar) (startPos position : ℕ) (sb rest : WString) :
    readStringBody quote startPos position sb (quote :: rest)
      = .ok (⟨.string, sb, startPos⟩, position + 1, rest) := by
  rw [readStringBody.eq_def]
  exact if_pos rfl

theorem readStringBody_escape {quote next escaped : WChar} (hquote : code '\\' ≠ quote)
    (h : escapes.lookup next = some escaped) (startPos position : ℕ) (sb rest : WString) :
    readStringBody quote startPos position sb (code '\\' :: next :: rest)
      = readStringBody quote startPos (position + 2) (sb ++ [escaped]) rest := by
  rw [readStringBody.eq_def]
  simp only [hquote, if_false, if_true, h]

theorem readStringBody_char {quote c : WChar} (hquote : c ≠ quote) (hbackslash : c ≠ code '\\')
    (startPos position : ℕ) (sb rest : WString) :
    readStringBody quote startPos position sb (c :: rest)
      = readStringBody quote startPos (position + 1) (sb ++ [c]) rest := by
  rw [readStringBody.eq_def]
  simp only [hquote, hbackslash, if_false]

/-- The body of a string literal. -/
theorem readStringBody_escapeText (value rest : WString) (startPos : ℕ) :
    ∀ (position : ℕ) (sb : WString), ∃ position',
      readStringBody (code '"') startPos position sb (escapeText value ++ code '"' :: rest)
        = .ok (⟨.string, sb ++ value, startPos⟩, position', rest) := by
  induction value with
  | nil =>
      intro position sb
      refine ⟨position + 1, ?_⟩
      rw [escapeText, List.flatMap_nil, List.nil_append, readStringBody_quote, List.append_nil]
  | cons c value ih =>
      intro position sb
      rw [escapeText, List.flatMap_cons]
      split
      · next hc =>
          obtain ⟨position', hread⟩ := ih (position + 2) (sb ++ [c])
          refine ⟨position', ?_⟩
          have hescape : escapes.lookup c = some c := by
            rcases hc with rfl | rfl <;> decide
          have hne : code '\\' ≠ code '"' := by decide
          simp only [List.cons_append, List.nil_append]
          rw [readStringBody_escape hne hescape]
          rw [List.append_assoc, List.singleton_append] at hread
          exact hread
      · next hc =>
          obtain ⟨hquote, hbackslash⟩ := not_or.mp hc
          obtain ⟨position', hread⟩ := ih (position + 1) (sb ++ [c])
          refine ⟨position', ?_⟩
          simp only [List.cons_append, List.nil_append]
          rw [readStringBody_char hquote hbackslash]
          rw [List.append_assoc, List.singleton_append] at hread
          exact hread

theorem lexes_string (value rest : WString) (lastToken : Option CelTokenType) :
    Lexes unicode lastToken (lexemeText (.string, value) ++ rest) (.string, value) rest := by
  have hcategory : unicode.category (code '"') = .other := unicode.ascii _ (by decide)
  have hspace : unicode.isWhiteSpace (code '"') = false := by
    rw [Unicode.isWhiteSpace, hcategory]
    decide
  refine ⟨code '"', escapeText value ++ code '"' :: rest, by simp [lexemeText], hspace, by simp; omega,
    fun position => ?_⟩
  obtain ⟨position', hread⟩ := readStringBody_escapeText value rest position (position + 1) []
  refine ⟨position', ?_⟩
  rw [readToken, if_pos (Or.inl rfl), readStringLiteral, hread, List.nil_append]

/-! ### Operators -/

/-- A character that only the operators begin with. -/
def isOperatorChar (c : WChar) : Bool :=
  c < 0x80 && asciiCategory c == .other && c != code '"' && c != code '\'' && c != code '_' &&
    !(0x09 ≤ c && c ≤ 0x0d) && c != 0x85

theorem twoCharOperators_facts : ∀ x ∈ twoCharOperators, x.1.length = 2 ∧
    twoCharOperators.lookup x.1 = some x.2 ∧
      (x.1.head?.all fun c => isOperatorChar c && c != code '-') = true := by
  decide

theorem singleOperators_facts : ∀ x ∈ singleOperators, x.1.length = 1 ∧
    singleOperators.lookup x.1 = some x.2 ∧ twoCharOperators.lookup x.1 = none ∧
      x.1.head?.all isOperatorChar = true := by
  decide

theorem isWhiteSpace_operatorChar {c : WChar} (h : isOperatorChar c = true) :
    unicode.isWhiteSpace c = false := by
  obtain ⟨⟨⟨⟨⟨⟨hascii, hother⟩, -⟩, -⟩, -⟩, hcontrol⟩, hnextLine⟩ :
      ((((((c < 0x80 ∧ asciiCategory c = .other) ∧ c ≠ code '"') ∧ c ≠ code '\'') ∧ c ≠ code '_') ∧
        (0x09 ≤ c && c ≤ 0x0d) = false) ∧ c ≠ 0x85) := by
    simpa only [isOperatorChar, Bool.and_eq_true, decide_eq_true_iff, beq_iff_eq, bne_iff_ne,
      Bool.not_eq_true'] using h
  exact Unicode.isWhiteSpace_other hascii hother hcontrol hnextLine

/-- An operator of two characters ends in one that only the operators have. -/
theorem lookup_space {value : WString} {c : WChar} (h : unicode.isWhiteSpace c = true) :
    twoCharOperators.lookup (value ++ [c]) = none := by
  have hends : ∀ x ∈ twoCharOperators, (x.1.getLast?.all isOperatorChar) = true := by decide
  refine List.lookup_eq_none_iff.mpr fun x hx => bne_iff_ne.mpr ?_
  intro heq
  have hchar := hends x hx
  rw [← heq, List.getLast?_concat, Option.all_some] at hchar
  rw [isWhiteSpace_operatorChar hchar] at h
  cases h

theorem readOperator_two {value rest : WString} {type : CelTokenType} (hlength : value.length = 2)
    (h : twoCharOperators.lookup value = some type) (position : ℕ) :
    readOperator position (value ++ rest)
      = some (⟨type, value, position⟩, position + value.length, rest) := by
  have htake : (value ++ rest).take 2 = value := by rw [← hlength, List.take_left]
  rw [readOperator, htake, h]
  exact congrArg some (lexed_append type value position rest)

theorem readOperator_single {value rest : WString} {type : CelTokenType}
    (hlength : value.length = 1) (h : singleOperators.lookup value = some type)
    (hend : twoCharOperators.lookup value = none) (hrest : Ends unicode rest)
    (position : ℕ) : readOperator position (value ++ rest)
      = some (⟨type, value, position⟩, position + value.length, rest) := by
  have htake : (value ++ rest).take 1 = value := by rw [← hlength, List.take_left]
  have hnone : twoCharOperators.lookup ((value ++ rest).take 2) = none := by
    rw [show 2 = value.length + 1 by rw [hlength], List.take_length_add_append]
    rcases hrest with rfl | ⟨c, more, rfl, hc⟩
    · rwa [List.take_nil, List.append_nil]
    · rw [List.take_succ_cons, List.take_zero]
      exact lookup_space hc
  rw [readOperator, hnone]
  simp only [htake, h, Option.map_some]
  exact congrArg some (lexed_append type value position rest)

theorem lexes_operator {c : WChar} {cs rest : WString} {type : CelTokenType}
    {lastToken : Option CelTokenType} (hc : isOperatorChar c = true)
    (hnegative : canBeNegativeNumber unicode lastToken c (cs ++ rest) = false)
    (hread : ∀ position, readOperator position (c :: cs ++ rest)
      = some (⟨type, c :: cs, position⟩, position + (c :: cs).length, rest)) :
    Lexes unicode lastToken (c :: cs ++ rest) (type, c :: cs) rest := by
  obtain ⟨⟨⟨⟨⟨⟨hascii, hother⟩, hdouble⟩, hsingle⟩, hunderscore⟩, hcontrol⟩, hnextLine⟩ :
      ((((((c < 0x80 ∧ asciiCategory c = .other) ∧ c ≠ code '"') ∧ c ≠ code '\'') ∧ c ≠ code '_') ∧
        (0x09 ≤ c && c ≤ 0x0d) = false) ∧ c ≠ 0x85) := by
    simpa only [isOperatorChar, Bool.and_eq_true, decide_eq_true_iff, beq_iff_eq, bne_iff_ne,
      Bool.not_eq_true'] using hc
  obtain ⟨hletter, hdigit⟩ : unicode.isLetter c = false ∧ unicode.isDigit c = false :=
    Unicode.category_other hascii hother
  have hseparator : unicode.isWhiteSpace c = false :=
    Unicode.isWhiteSpace_other hascii hother hcontrol hnextLine
  refine ⟨c, cs ++ rest, rfl, hseparator, by simp, fun position =>
    ⟨position + (c :: cs).length, ?_⟩⟩
  rw [readToken, if_neg (by simp [hdouble, hsingle]),
    if_neg (by rw [hdigit, hnegative]; decide), if_neg (by simp [hletter, hunderscore])]
  rw [List.cons_append] at hread
  rw [hread]

theorem lexes_of_mem_operators {value rest : WString} {type : CelTokenType}
    (h : (value, type) ∈ twoCharOperators ++ singleOperators) (hrest : Ends unicode rest)
    (lastToken : Option CelTokenType) :
    Lexes unicode lastToken (value ++ rest) (type, value) rest := by
  rcases List.mem_append.mp h with h | h
  · obtain ⟨hlength, hlookup, hhead⟩ := twoCharOperators_facts _ h
    have hread : ∀ position, readOperator position (value ++ rest) = _ :=
      readOperator_two hlength hlookup
    cases value with
    | nil => cases hlength
    | cons c cs =>
        obtain ⟨hc, hminus⟩ := Bool.and_eq_true_iff.mp hhead
        have hnegative : canBeNegativeNumber unicode lastToken c (cs ++ rest) = false := by
          simp [canBeNegativeNumber, bne_iff_ne.mp hminus]
        exact lexes_operator hc hnegative hread
  · obtain ⟨hlength, hlookup, hend, hhead⟩ := singleOperators_facts _ h
    have hread := readOperator_single hlength hlookup hend hrest
    cases value with
    | nil => cases hlength
    | cons c cs =>
        obtain rfl : cs = [] := List.length_eq_zero_iff.mp (Nat.succ.inj hlength)
        have hdigit : rest.head?.any unicode.isDigit = false := by
          rcases hrest with rfl | ⟨d, more, rfl, hd⟩
          · rfl
          · exact (Unicode.isWhiteSpace_ne hd).1
        exact lexes_operator hhead (by simp [canBeNegativeNumber, hdigit]) hread

/-- No operator has the type of another kind of token. -/
theorem operators_type : ∀ x ∈ twoCharOperators ++ singleOperators,
    x.2 ≠ .number ∧ x.2 ≠ .string ∧ x.2 ≠ .endOfInput := by
  decide

theorem keywords_type {value : WString} {type : CelTokenType}
    (h : (keywords.lookup value).getD .identifier = type) :
    type ≠ .number ∧ type ≠ .string ∧ type ≠ .endOfInput := by
  have hkeywords : ∀ x ∈ keywords, x.2 ≠ .number ∧ x.2 ≠ .string ∧ x.2 ≠ .endOfInput := by
    decide
  cases hlookup : keywords.lookup value with
  | none =>
      rw [hlookup] at h
      obtain rfl := h
      decide
  | some found =>
      rw [hlookup] at h
      obtain rfl : found = type := h
      obtain ⟨before, after, heq, -⟩ := List.lookup_eq_some_iff.mp hlookup
      exact hkeywords (value, found) (heq ▸ List.mem_append_right _ List.mem_cons_self)

/-! ### Lists of lexemes -/

/-- A lexeme whose text is a token by itself. -/
inductive Lexable (unicode : Unicode) : Lexeme → Prop
  | string (value : WString) : Lexable unicode (.string, value)
  | unsigned {value : WString} (h : IsUnsigned value) : Lexable unicode (.number, value)
  | negative {value : WString} (h : IsUnsigned value) :
      Lexable unicode (.number, code '-' :: value)
  | name {c : WChar} {cs : WString} {type : CelTokenType}
      (first : (unicode.isLetter c || c == code '_') = true)
      (rest : ∀ d ∈ c :: cs, (unicode.isLetterOrDigit d || d == code '_') = true)
      (keyword : (keywords.lookup (c :: cs)).getD .identifier = type) : Lexable unicode (type, c :: cs)
  | operator {value : WString} {type : CelTokenType}
      (h : (value, type) ∈ twoCharOperators ++ singleOperators) : Lexable unicode (type, value)

/-- A number with a sign. -/
def isNegative (x : Lexeme) : Bool := x.1 == .number && x.2.head? == some (code '-')

/-- The lexer's list allows a negative number here. -/
def allowsNegative (lastToken : Option CelTokenType) : Bool :=
  lastToken.all (beforeNegative.contains ·)

/-- What the lexer makes of the lexemes. -/
def relex : Option CelTokenType → List Lexeme → List Lexeme
  | _, [] => []
  | lastToken, x :: xs =>
      if isNegative x && !allowsNegative lastToken then
        mark '-' :: (.number, x.2.tail) :: relex (some .number) xs
      else x :: relex (some x.1) xs

/-- The input is read to its end, as tokens of the lexemes. -/
def Tokenizes (unicode : Unicode) (lastToken : Option CelTokenType) (input : WString)
    (xs : List Lexeme) : Prop :=
  ∀ fuel position, input.length < fuel → ∃ ts last,
    tokenizeFrom unicode fuel lastToken position input = .ok (ts ++ [last]) ∧
      last.type = .endOfInput ∧ ts.map CelToken.lexeme = xs

theorem tokenizes_nil (lastToken : Option CelTokenType) : Tokenizes unicode lastToken [] [] := by
  intro fuel position hfuel
  obtain ⟨fuel, rfl⟩ := Nat.exists_eq_succ_of_ne_zero (Nat.ne_of_gt hfuel)
  exact ⟨[], ⟨.endOfInput, [], position⟩, rfl, rfl, rfl⟩

theorem Tokenizes.blank {lastToken : Option CelTokenType} {input : WString} {xs : List Lexeme}
    (h : Tokenizes unicode lastToken input xs) :
    Tokenizes unicode lastToken (code ' ' :: input) xs := by
  intro fuel position hfuel
  obtain ⟨fuel, rfl⟩ := Nat.exists_eq_succ_of_ne_zero (Nat.ne_of_gt (Nat.zero_lt_of_lt hfuel))
  rw [tokenizeFrom, if_pos Unicode.isWhiteSpace_blank]
  exact h fuel (position + 1) (Nat.lt_of_succ_lt_succ hfuel)

theorem Tokenizes.token {lastToken : Option CelTokenType} {text rest : WString} {x : Lexeme}
    {xs : List Lexeme} (hx : Lexes unicode lastToken text x rest)
    (h : Tokenizes unicode (some x.1) rest xs) : Tokenizes unicode lastToken text (x :: xs) := by
  intro fuel position hfuel
  obtain ⟨c, cs, rfl, hspace, hlength, hread⟩ := hx
  obtain ⟨fuel, rfl⟩ := Nat.exists_eq_succ_of_ne_zero (Nat.ne_of_gt (Nat.zero_lt_of_lt hfuel))
  obtain ⟨position', hread⟩ := hread position
  have hfuel' : rest.length < fuel :=
    Nat.lt_of_le_of_lt hlength (Nat.lt_of_succ_lt_succ hfuel)
  obtain ⟨ts, last, htokens, hlast, hmap⟩ := h fuel position' hfuel'
  refine ⟨⟨x.1, x.2, position⟩ :: ts, last, ?_, hlast, congrArg (x :: ·) hmap⟩
  rw [tokenizeFrom, if_neg (by rw [hspace]; decide), hread]
  simp only [htokens]
  rfl

/-- One lexeme before a blank or the end. -/
theorem Lexable.tokenizes {x : Lexeme} (hx : Lexable unicode x) {rest : WString}
    (hrest : Stop rest) {xs : List Lexeme} (lastToken : Option CelTokenType)
    (h : Tokenizes unicode (some x.1) rest xs) :
    Tokenizes unicode lastToken (lexemeText x ++ rest)
      (if isNegative x && !allowsNegative lastToken then mark '-' :: (.number, x.2.tail) :: xs
      else x :: xs) := by
  cases hx with
  | string value => exact h.token (lexes_string value rest lastToken)
  | @unsigned value hvalue =>
      have hpositive : isNegative (.number, value) = false := by
        obtain ⟨c, cs, rfl, hc, -⟩ := hvalue
        have hdigit : asciiUnicode.isDigit c = true := Unicode.isDigit_ascii hc
        simpa [isNegative] using (Unicode.isDigit_ne hdigit).2.2.2
      rw [hpositive]
      exact h.token (lexes_unsigned hvalue.isNumber hrest.ends lastToken)
  | @negative value hvalue =>
      have hnegative : isNegative (.number, code '-' :: value) = true := by simp [isNegative]
      rw [hnegative, Bool.true_and]
      cases hallows : allowsNegative lastToken with
      | true => exact h.token (lexes_negative hvalue.isNumber hrest.ends hallows)
      | false =>
          exact (h.token (lexes_unsigned hvalue.isNumber hrest.ends _)).token
            (lexes_minus hvalue.isNumber hallows)
  | @name c cs type first hcs keyword =>
      have hpositive : isNegative (type, c :: cs) = false := by
        simp [isNegative, (Unicode.isLetter_or first).2.2.2]
      have htext : lexemeText (type, c :: cs) = c :: cs := if_neg (keywords_type keyword).2.1
      rw [hpositive, htext]
      exact h.token (lexes_name first hcs keyword hrest.ends lastToken)
  | @operator value type hmem =>
      obtain ⟨hnumber, hstring, -⟩ := operators_type _ hmem
      have hpositive : isNegative (type, value) = false := by
        rw [isNegative, beq_eq_false_iff_ne.mpr hnumber, Bool.false_and]
      have htext : lexemeText (type, value) = value := if_neg hstring
      rw [hpositive, htext]
      exact h.token (lexes_of_mem_operators hmem hrest.ends lastToken)

/-- **Lexemes between blanks are read one by one.** -/
theorem separated_tokenizes {xs : List Lexeme} (hxs : ∀ x ∈ xs, Lexable unicode x) :
    ∀ lastToken, Tokenizes unicode lastToken (separated xs) (relex lastToken xs) := by
  induction xs with
  | nil => exact tokenizes_nil
  | cons x xs ih =>
      intro lastToken
      have hx := hxs x List.mem_cons_self
      have hrest := ih fun y hy => hxs y (List.mem_cons_of_mem x hy)
      -- both ways to read a number end in a token of its type
      have hrelex : relex lastToken (x :: xs)
          = if isNegative x && !allowsNegative lastToken then
              mark '-' :: (.number, x.2.tail) :: relex (some x.1) xs
            else x :: relex (some x.1) xs := by
        rw [relex]
        split
        · next h =>
            have hnumber : x.1 = .number := by
              simp only [isNegative, Bool.and_eq_true, beq_iff_eq] at h
              exact h.1.1
            rw [hnumber]
        · rfl
      rw [hrelex]
      cases xs with
      | nil =>
          have hend := hx.tokenizes (Or.inl rfl) lastToken (hrest (some x.1))
          rw [List.append_nil] at hend
          simpa [separated] using hend
      | cons y ys =>
          have hblank := hx.tokenizes (Or.inr ⟨separated (y :: ys), rfl⟩) lastToken
            (hrest (some x.1)).blank
          have htext : separated (x :: y :: ys)
              = lexemeText x ++ code ' ' :: separated (y :: ys) := by
            rw [separated, List.map_cons, List.map_cons, List.intercalate_cons_cons]
            simp [separated]
          rw [htext]
          exact hblank

theorem tokenize_separated {xs : List Lexeme} (hxs : ∀ x ∈ xs, Lexable unicode x) :
    ∃ ts last, tokenize unicode (separated xs) = .ok (ts ++ [last]) ∧
      last.type = .endOfInput ∧ ts.map CelToken.lexeme = relex none xs :=
  separated_tokenizes hxs none _ 0 (Nat.lt_succ_self _)

theorem Lexable.type_ne {x : Lexeme} (hx : Lexable unicode x) : x.1 ≠ .endOfInput := by
  cases hx with
  | string | unsigned | negative => exact fun h => nomatch h
  | name _ _ keyword => exact (keywords_type keyword).2.2
  | operator h => exact (operators_type _ h).2.2

theorem relex_type_ne {xs : List Lexeme} (hxs : ∀ x ∈ xs, Lexable unicode x) :
    ∀ lastToken, ∀ x ∈ relex lastToken xs, x.1 ≠ .endOfInput := by
  induction xs with
  | nil => exact fun _ x hx => nomatch hx
  | cons x xs ih =>
      intro lastToken y hy
      have hrest := ih fun z hz => hxs z (List.mem_cons_of_mem x hz)
      rw [relex] at hy
      split at hy
      · rcases List.mem_cons.mp hy with rfl | hy
        · decide
        rcases List.mem_cons.mp hy with rfl | hy
        · exact fun h => nomatch h
        · exact hrest _ y hy
      · rcases List.mem_cons.mp hy with rfl | hy
        · exact (hxs y List.mem_cons_self).type_ne
        · exact hrest _ y hy

end AutoInstrumentation.Cel
