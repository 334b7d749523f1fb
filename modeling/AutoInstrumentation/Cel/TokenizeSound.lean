import AutoInstrumentation.Cel.Lexemes
import Mathlib.Data.List.Chain

/-!
# AutoInstrumentation.Cel.TokenizeSound

What `Tokenize` makes of written lexemes, and that it makes something of every input.

Every turn of the loop takes a part of the input that is not empty and moves the position
behind it (`turn_advances`), so the position of a token is that of its text. Written lexemes
come back as their tokens, with one exception: a number with a sign behind a `!` comes back
as two.
-/

namespace AutoInstrumentation.Cel

variable {unicode : Unicode}

/-! ### Turns -/

/-- A part of the input is taken and the position moves behind it. -/
def Advances (position : ℕ) (input : WString) (position' : ℕ) (rest : WString) : Prop :=
  ∃ taken, taken ≠ [] ∧ input = taken ++ rest ∧ position' = position + taken.length

theorem advances_cons (position : ℕ) (c : WChar) (rest : WString) :
    Advances position (c :: rest) (position + 1) rest :=
  ⟨[c], List.cons_ne_nil _ _, rfl, rfl⟩

theorem Advances.trans {position position' position'' : ℕ} {input rest rest' : WString}
    (h : Advances position input position' rest) (h' : Advances position' rest position'' rest') :
    Advances position input position'' rest' := by
  obtain ⟨taken, hne, rfl, rfl⟩ := h
  obtain ⟨taken', -, rfl, rfl⟩ := h'
  refine ⟨taken ++ taken', ?_, ?_, ?_⟩
  · intro hnil
    exact hne (List.append_eq_nil_iff.mp hnil).1
  · rw [List.append_assoc]
  · rw [List.length_append, Nat.add_assoc]

theorem advances_lexed (type : CelTokenType) {value input : WString} (position : ℕ)
    (hvalue : value ≠ []) (hbegins : value <+: input) :
    Advances position input (lexed type value position input).2.1
      (lexed type value position input).2.2 := by
  obtain ⟨rest, rfl⟩ := hbegins
  rw [lexed_append]
  exact ⟨value, hvalue, rfl, rfl⟩

theorem advances_readStringBody {quote : WChar} {startPos : ℕ} {token : CelToken}
    {position' : ℕ} {rest' : WString} (position : ℕ) (sb input : WString)
    (h : readStringBody quote startPos position sb input = .ok (token, position', rest')) :
    Advances position input position' rest' := by
  induction position, sb, input using readStringBody.induct quote with
  | case1 position sb =>
      rw [readStringBody] at h
      cases h
  | case2 position sb rest =>
      rw [readStringBody_quote] at h
      obtain ⟨-, hrest⟩ := Prod.mk.inj (Except.ok.inj h)
      obtain ⟨rfl, rfl⟩ := Prod.mk.inj hrest
      exact advances_cons position quote rest
  | case3 position sb hquote =>
      simp [readStringBody, hquote] at h
  | case4 position sb next rest hnone hquote =>
      simp [readStringBody, hquote, hnone] at h
  | case5 position sb next rest escaped hescaped hquote ih =>
      rw [readStringBody_escape hquote hescaped] at h
      exact ((advances_cons position _ _).trans (advances_cons (position + 1) _ _)).trans (ih h)
  | case6 position sb c rest hquote hbackslash ih =>
      rw [readStringBody_char hquote hbackslash] at h
      exact (advances_cons position c rest).trans (ih h)

theorem advances_readNumber {lastToken : Option CelTokenType} {c : WChar} {rest : WString}
    (h : (unicode.isDigit c || canBeNegativeNumber unicode lastToken c rest) = true)
    (position : ℕ) :
    Advances position (c :: rest) (readNumber unicode position (c :: rest)).2.1
      (readNumber unicode position (c :: rest)).2.2 := by
  rw [readNumber]
  by_cases hminus : c = code '-'
  · subst hminus
    rw [if_pos (by rfl)]
    refine advances_lexed _ position (List.cons_ne_nil _ _) ?_
    exact (List.prefix_cons_inj _).mpr (List.takeWhile_prefix _)
  · have hdigit : unicode.isDigit c = true := by
      simpa [canBeNegativeNumber, hminus] using h
    rw [if_neg (by simpa using hminus)]
    refine advances_lexed _ position ?_ (List.takeWhile_prefix _)
    rw [numberDigits, List.takeWhile_cons_of_pos (by rw [hdigit, Bool.true_or])]
    exact List.cons_ne_nil _ _

theorem advances_readIdentifierOrKeyword {c : WChar}
    (h : (unicode.isLetter c || c == code '_') = true) (position : ℕ) (rest : WString) :
    Advances position (c :: rest) (readIdentifierOrKeyword unicode position (c :: rest)).2.1
      (readIdentifierOrKeyword unicode position (c :: rest)).2.2 := by
  have hfirst : (unicode.isLetterOrDigit c || c == code '_') = true := by
    rw [Unicode.isLetterOrDigit, Bool.or_right_comm, h, Bool.true_or]
  refine advances_lexed _ position ?_ (List.takeWhile_prefix _)
  simp [hfirst]

theorem advances_readOperator {position position' : ℕ} {c : WChar} {rest rest' : WString}
    {token : CelToken} (h : readOperator position (c :: rest) = some (token, position', rest')) :
    Advances position (c :: rest) position' rest' := by
  rw [readOperator] at h
  split at h
  · next type htype =>
      have htake : (c :: rest).take 2 ≠ [] := by simp
      have hadvances := advances_lexed type position htake (List.take_prefix 2 (c :: rest))
      rw [Option.some.inj h] at hadvances
      exact hadvances
  · obtain ⟨type, -, hlexed⟩ := Option.map_eq_some_iff.mp h
    have htake : (c :: rest).take 1 ≠ [] := by simp
    have hadvances := advances_lexed type position htake (List.take_prefix 1 (c :: rest))
    rw [hlexed] at hadvances
    exact hadvances

theorem advances_readToken {lastToken : Option CelTokenType} {position position' : ℕ} {c : WChar}
    {rest rest' : WString} {token : CelToken}
    (h : readToken unicode lastToken position c rest = .ok (token, position', rest')) :
    Advances position (c :: rest) position' rest' := by
  rw [readToken] at h
  split at h
  · exact (advances_cons position c rest).trans (advances_readStringBody _ _ _ h)
  · split at h
    · next hnumber =>
        have hadvances := advances_readNumber hnumber position
        rw [Except.ok.inj h] at hadvances
        exact hadvances
    · split at h
      · next hname =>
          have hadvances := advances_readIdentifierOrKeyword hname position rest
          rw [Except.ok.inj h] at hadvances
          exact hadvances
      · split at h
        · next hoperator =>
            rw [Except.ok.inj h] at hoperator
            exact advances_readOperator hoperator
        · cases h

/-- **Every turn moves the position forward**, behind what it took. -/
theorem turn_advances {lastToken : Option CelTokenType} {position position' : ℕ} {c : WChar}
    {rest rest' : WString} {token : Option CelToken}
    (h : turn unicode lastToken position c rest = .ok (token, position', rest')) :
    Advances position (c :: rest) position' rest' := by
  rw [turn] at h
  split at h
  · obtain ⟨-, hrest⟩ := Prod.mk.inj (Except.ok.inj h)
    obtain ⟨rfl, rfl⟩ := Prod.mk.inj hrest
    exact advances_cons position c rest
  · cases hread : readToken unicode lastToken position c rest with
    | error e =>
        rw [hread] at h
        cases h
    | ok lexed =>
        rw [hread] at h
        obtain ⟨-, hrest⟩ := Prod.mk.inj (Except.ok.inj h)
        obtain ⟨rfl, rfl⟩ := Prod.mk.inj hrest
        exact advances_readToken hread

/-! ### Every input -/

theorem isLexical_readStringBody {quote : WChar} {startPos : ℕ} {e : CelError} (position : ℕ)
    (sb input : WString) (h : readStringBody quote startPos position sb input = .error e) :
    e.isLexical = true := by
  induction position, sb, input using readStringBody.induct quote with
  | case1 position sb =>
      rw [readStringBody] at h
      obtain rfl := Except.error.inj h
      rfl
  | case2 position sb rest =>
      rw [readStringBody_quote] at h
      cases h
  | case3 position sb hquote =>
      simp only [readStringBody, hquote, if_false, if_true] at h
      obtain rfl := Except.error.inj h
      rfl
  | case4 position sb next rest hnone hquote =>
      simp only [readStringBody, hquote, hnone, if_false, if_true] at h
      obtain rfl := Except.error.inj h
      rfl
  | case5 position sb next rest escaped hescaped hquote ih =>
      rw [readStringBody_escape hquote hescaped] at h
      exact ih h
  | case6 position sb c rest hquote hbackslash ih =>
      rw [readStringBody_char hquote hbackslash] at h
      exact ih h

theorem isLexical_readToken {lastToken : Option CelTokenType} {position : ℕ} {c : WChar}
    {rest : WString} {e : CelError}
    (h : readToken unicode lastToken position c rest = .error e) : e.isLexical = true := by
  rw [readToken] at h
  split at h
  · exact isLexical_readStringBody _ _ _ h
  · split at h
    · cases h
    · split at h
      · cases h
      · split at h
        · cases h
        · obtain rfl := Except.error.inj h
          rfl

/-- The loop takes turns. -/
theorem tokenizeFrom_cons (fuel : ℕ) (lastToken : Option CelTokenType) (position : ℕ) (c : WChar)
    (rest : WString) :
    tokenizeFrom unicode (fuel + 1) lastToken position (c :: rest)
      = (turn unicode lastToken position c rest).bind fun next =>
          (tokenizeFrom unicode fuel (next.1.elim lastToken fun token => some token.type) next.2.1
            next.2.2).map (next.1.toList ++ ·) := by
  rw [tokenizeFrom, turn]
  split
  · simp only [Except.bind, Option.elim, Option.toList]
    cases tokenizeFrom unicode fuel lastToken (position + 1) rest with
    | error e => rfl
    | ok tokens => rfl
  · cases readToken unicode lastToken position c rest with
    | error e => rfl
    | ok lexed =>
        obtain ⟨token, position', rest'⟩ := lexed
        simp only [Except.map, Except.bind, Option.elim, Option.toList]
        cases tokenizeFrom unicode fuel (some token.type) position' rest' with
        | error e => rfl
        | ok tokens => rfl

/-- The loop ends: its input gets shorter. -/
theorem tokenizeFrom_ends (fuel : ℕ) (lastToken : Option CelTokenType) (position : ℕ)
    (input : WString) (hfuel : input.length < fuel) :
    (∃ tokens, tokenizeFrom unicode fuel lastToken position input = .ok tokens)
      ∨ ∃ e, tokenizeFrom unicode fuel lastToken position input = .error e
        ∧ e.isLexical = true := by
  induction fuel generalizing lastToken position input with
  | zero => exact absurd hfuel (Nat.not_lt_zero _)
  | succ fuel ih =>
      cases input with
      | nil => exact .inl ⟨_, rfl⟩
      | cons c rest =>
          rw [tokenizeFrom_cons]
          cases hturn : turn unicode lastToken position c rest with
          | error e =>
              refine .inr ⟨e, rfl, ?_⟩
              rw [turn] at hturn
              split at hturn
              · cases hturn
              · cases hread : readToken unicode lastToken position c rest with
                | error e' =>
                    rw [hread] at hturn
                    obtain rfl := Except.error.inj hturn
                    exact isLexical_readToken hread
                | ok lexed =>
                    rw [hread] at hturn
                    cases hturn
          | ok next =>
              obtain ⟨token, position', rest'⟩ := next
              obtain ⟨taken, hne, htaken, -⟩ := turn_advances hturn
              have hlength := congrArg List.length htaken
              have hpos := List.length_pos_of_ne_nil hne
              rw [List.length_append] at hlength
              simp only [Except.bind]
              rcases ih (token.elim lastToken fun token => some token.type) position' rest'
                (by omega) with ⟨tokens, htokens⟩ | ⟨e, he, hlexical⟩
              · left
                rw [htokens]
                exact ⟨_, rfl⟩
              · right
                rw [he]
                exact ⟨e, rfl, hlexical⟩

/-! ### Lexemes -/

/-- The loop returns these tokens, given a turn for each character. -/
def Yields (unicode : Unicode) (lastToken : Option CelTokenType) (position : ℕ)
    (input : WString) (tokens : List CelToken) : Prop :=
  ∀ fuel, input.length < fuel → tokenizeFrom unicode fuel lastToken position input = .ok tokens

theorem Yields.nil (lastToken : Option CelTokenType) (position : ℕ) :
    Yields unicode lastToken position [] [⟨.endOfInput, [], position⟩] := by
  intro fuel hfuel
  obtain ⟨fuel, rfl⟩ := Nat.exists_eq_succ_of_ne_zero (Nat.ne_of_gt hfuel)
  rfl

theorem Yields.white {lastToken : Option CelTokenType} {rest : WString} {tokens : List CelToken}
    {blanks : WString} (hblanks : White unicode blanks) (position : ℕ)
    (h : Yields unicode lastToken (position + blanks.length) rest tokens) :
    Yields unicode lastToken position (blanks ++ rest) tokens := by
  induction blanks generalizing position with
  | nil => exact h
  | cons c blanks ih =>
      intro fuel hfuel
      obtain ⟨fuel, rfl⟩ := Nat.exists_eq_succ_of_ne_zero (Nat.ne_of_gt (Nat.zero_lt_of_lt hfuel))
      have hc := hblanks c (List.mem_cons_self ..)
      have hrest : White unicode blanks := fun d hd => hblanks d (List.mem_cons_of_mem c hd)
      rw [List.cons_append, tokenizeFrom, if_pos hc]
      refine ih hrest _ ?_ fuel (Nat.lt_of_succ_lt_succ hfuel)
      rw [List.length_cons] at h
      rwa [Nat.add_assoc, Nat.add_comm 1]

/-- A token is read where its text begins. -/
theorem Yields.token {lastToken : Option CelTokenType} {value rest : WString} {x : Lexeme}
    {tokens : List CelToken} {position : ℕ}
    (hx : Lexes unicode lastToken (value ++ rest) x rest)
    (h : Yields unicode (some x.1) (position + value.length) rest tokens) :
    Yields unicode lastToken position (value ++ rest) (⟨x.1, x.2, position⟩ :: tokens) := by
  intro fuel hfuel
  obtain ⟨fuel, rfl⟩ := Nat.exists_eq_succ_of_ne_zero (Nat.ne_of_gt (Nat.zero_lt_of_lt hfuel))
  obtain ⟨c, cs, htext, hspace, hlength, hread⟩ := hx
  obtain ⟨position', hread⟩ := hread position
  obtain ⟨taken, -, htaken, rfl⟩ := advances_readToken hread
  -- what the turn took is the text of the lexeme
  obtain rfl : value = taken := by
    rw [← htext] at htaken
    exact List.append_cancel_right htaken
  have hfuel' : rest.length < fuel := by
    rw [htext] at hfuel
    exact Nat.lt_of_le_of_lt hlength (Nat.lt_of_succ_lt_succ hfuel)
  rw [htext, tokenizeFrom, if_neg (by rw [hspace]; decide), hread]
  simp only [h fuel hfuel']

/-- The pieces of a literal are read as what they stand for. -/
theorem readStringBody_pieces {quote : WChar} (hquote : code '\\' ≠ quote) (startPos : ℕ)
    (rest : WString) {pieces : List Piece} (hpieces : ∀ piece ∈ pieces, piece.Allowed quote) :
    ∀ (position : ℕ) (sb : WString), ∃ position',
      readStringBody quote startPos position sb (pieces.flatMap Piece.text ++ quote :: rest)
        = .ok (⟨.string, sb ++ pieces.flatMap Piece.value, startPos⟩, position', rest) := by
  induction pieces with
  | nil =>
      intro position sb
      refine ⟨position + 1, ?_⟩
      rw [List.flatMap_nil, List.flatMap_nil, List.nil_append, List.append_nil]
      exact readStringBody_quote quote startPos position sb rest
  | cons piece pieces ih =>
      intro position sb
      have hpiece := hpieces piece (List.mem_cons_self ..)
      have hrest := ih fun p hp => hpieces p (List.mem_cons_of_mem piece hp)
      rw [List.flatMap_cons, List.flatMap_cons]
      cases piece with
      | plain c =>
          obtain ⟨position', hread⟩ := hrest (position + 1) (sb ++ [c])
          refine ⟨position', ?_⟩
          simp only [Piece.text, Piece.value, List.cons_append, List.nil_append]
          rw [readStringBody_char hpiece.1 hpiece.2, hread, List.append_assoc]
          rfl
      | escape next =>
          obtain ⟨escaped, hescaped⟩ := Option.isSome_iff_exists.mp hpiece
          obtain ⟨position', hread⟩ := hrest (position + 2) (sb ++ [escaped])
          refine ⟨position', ?_⟩
          simp only [Piece.text, Piece.value, List.cons_append, List.nil_append, hescaped,
            Option.toList]
          rw [readStringBody_escape hquote hescaped, hread, List.append_assoc]
          rfl

theorem lexes_written_string {quote : WChar} {pieces : List Piece}
    (h : (Written.string quote pieces).WellWritten unicode) (rest : WString)
    (lastToken : Option CelTokenType) :
    Lexes unicode lastToken ((Written.string quote pieces).text ++ rest)
      (.string, pieces.flatMap Piece.value) rest := by
  obtain ⟨hquote, hpieces⟩ := h
  have hbackslash : code '\\' ≠ quote := by
    rcases hquote with rfl | rfl
    · decide
    · decide
  have hspace : unicode.isWhiteSpace quote = false := by
    rcases hquote with rfl | rfl
    · exact Unicode.isWhiteSpace_other (by decide) (by decide) (by decide) (by decide)
    · exact Unicode.isWhiteSpace_other (by decide) (by decide) (by decide) (by decide)
  refine ⟨quote, pieces.flatMap Piece.text ++ quote :: rest, by simp [Written.text], hspace,
    by simp; omega, ?_⟩
  intro position
  obtain ⟨position', hread⟩ :=
    readStringBody_pieces hbackslash position rest hpieces (position + 1) []
  refine ⟨position', ?_⟩
  rw [readToken, if_pos hquote, readStringLiteral, hread, List.nil_append]

/-- Every string has a literal between either quotes. -/
theorem exists_pieces {quote : WChar} (hquote : quote = code '"' ∨ quote = code '\'')
    (value : WString) :
    ∃ pieces, (Written.string quote pieces).WellWritten unicode
      ∧ pieces.flatMap Piece.value = value := by
  induction value with
  | nil => exact ⟨[], ⟨hquote, fun _ hpiece => absurd hpiece List.not_mem_nil⟩, rfl⟩
  | cons c value ih =>
      obtain ⟨pieces, ⟨-, hpieces⟩, rfl⟩ := ih
      by_cases hc : c = quote ∨ c = code '\\'
      · have hescape : escapes.lookup c = some c := by
          rcases hc with rfl | rfl
          · rcases hquote with rfl | rfl
            · decide
            · decide
          · decide
        refine ⟨.escape c :: pieces, ⟨hquote, ?_⟩, ?_⟩
        · intro piece hpiece
          rcases List.mem_cons.mp hpiece with rfl | hpiece
          · exact Option.isSome_iff_exists.mpr ⟨c, hescape⟩
          · exact hpieces piece hpiece
        · simp [Piece.value, hescape]
      · refine ⟨.plain c :: pieces, ⟨hquote, ?_⟩, ?_⟩
        · intro piece hpiece
          rcases List.mem_cons.mp hpiece with rfl | hpiece
          · exact not_or.mp hc
          · exact hpieces piece hpiece
        · simp [Piece.value]

theorem mem_operatorType {operator : WString}
    (h : operator ∈ (twoCharOperators ++ singleOperators).map Prod.fst) :
    (operator, operatorType operator) ∈ twoCharOperators ++ singleOperators := by
  have htype : ∀ x ∈ twoCharOperators ++ singleOperators, operatorType x.1 = x.2 := by decide
  obtain ⟨x, hx, rfl⟩ := List.mem_map.mp h
  rw [htype x hx]
  exact hx

/-- **A written lexeme** is read as its tokens. -/
theorem Yields.written {written : Written} (hwritten : written.WellWritten unicode)
    {lastToken : Option CelTokenType} {rest : WString} {tokens : List CelToken} {position : ℕ}
    (hrest : Ends unicode rest)
    (h : Yields unicode (some written.type) (position + written.text.length) rest tokens) :
    Yields unicode lastToken position (written.text ++ rest)
      (written.tokens (allowsNegative lastToken) position ++ tokens) := by
  cases written with
  | string quote pieces => exact h.token (lexes_written_string hwritten rest lastToken)
  | number digits => exact h.token (lexes_unsigned hwritten hrest lastToken)
  | signed digits =>
      cases hallows : allowsNegative lastToken with
      | true => exact h.token (lexes_negative hwritten hrest hallows)
      | false =>
          have hminus : Lexes unicode lastToken ([code '-'] ++ (digits ++ rest)) (mark '-')
              (digits ++ rest) := lexes_minus hwritten hallows
          have hnumber : Yields unicode (some (mark '-').1) (position + 1) (digits ++ rest)
              (⟨.number, digits, position + 1⟩ :: tokens) := by
            refine Yields.token (x := (.number, digits)) (lexes_unsigned hwritten hrest _) ?_
            have hlength : position + 1 + digits.length
                = position + (Written.signed digits).text.length := by
              simp [Written.text, Nat.add_assoc, Nat.add_comm]
            rw [hlength]
            exact h
          exact hnumber.token hminus
  | name text =>
      obtain ⟨⟨c, cs, rfl, hc⟩, hcs⟩ := hwritten
      exact h.token (lexes_name hc hcs rfl hrest lastToken)
  | operator text =>
      exact h.token (lexes_of_mem_operators (mem_operatorType hwritten) hrest lastToken)

/-! ### Texts -/

theorem separated_ends {items : List (Written × WString)} {blanks : WString}
    (hblanks : White unicode blanks) (hseparated : items ≠ [] → blanks ≠ []) :
    Ends unicode (blanks ++ source items) := by
  cases blanks with
  | nil =>
      have hitems : items = [] := by
        by_contra hne
        exact hseparated hne rfl
      subst hitems
      exact .inl rfl
  | cons c blanks => exact .inr ⟨c, _, rfl, hblanks c (List.mem_cons_self ..)⟩

/-- **Separated lexemes are read one by one**, with signs where the lexer's list has the token
before. -/
theorem yields_source {items : List (Written × WString)} (hitems : Separated unicode items)
    (lastToken : Option CelTokenType) (position : ℕ) :
    Yields unicode lastToken position (source items)
      (correspondingTokens allowsNegative lastToken position items) := by
  induction items generalizing lastToken position with
  | nil => exact Yields.nil lastToken position
  | cons item items ih =>
      obtain ⟨written, blanks⟩ := item
      obtain ⟨hwritten, hblanks, hseparated, hrest⟩ := hitems
      have hsource : source ((written, blanks) :: items)
          = written.text ++ (blanks ++ source items) := by
        simp [source]
      rw [hsource]
      refine Yields.written hwritten (separated_ends hblanks hseparated) ?_
      exact Yields.white hblanks _ (ih hrest (some written.type) _)

theorem tokenize_source {first : WString} {items : List (Written × WString)}
    (hfirst : White unicode first) (hitems : Separated unicode items) :
    tokenize unicode (first ++ source items)
      = .ok (correspondingTokens allowsNegative none first.length items) := by
  have hinput := Yields.white hfirst 0 (yields_source hitems none _)
  rw [Nat.zero_add] at hinput
  exact hinput _ (Nat.lt_succ_self _)

/-! ### Signs -/

/-- The lexer's list has every token that an operand may follow, but for the `!`. -/
theorem operandMayStart_eq (lastToken : Option CelTokenType) :
    operandMayStart lastToken = (allowsNegative lastToken || lastToken == some .not) := by
  cases lastToken with
  | none => rfl
  | some type => cases type <;> rfl

/-- A `!` before a number with a sign. -/
def NegatesSigned (x y : Written) : Prop := x.type = .not ∧ y.isSigned = true

theorem tokens_eq_iff (written : Written) (lastToken : Option CelTokenType) (position : ℕ)
    (tokens tokens' : List CelToken) :
    written.tokens (allowsNegative lastToken) position ++ tokens
        = written.tokens (operandMayStart lastToken) position ++ tokens'
      ↔ ¬ (lastToken = some .not ∧ written.isSigned = true) ∧ tokens = tokens' := by
  rw [operandMayStart_eq]
  by_cases hnot : lastToken = some .not
  · subst hnot
    cases written with
    | signed digits => simp [Written.tokens, Written.isSigned, allowsNegative, beforeNegative]
    | string | number | name | operator => simp [Written.tokens, Written.isSigned]
  · have hother : (lastToken == some .not) = false := beq_eq_false_iff_ne.mpr hnot
    simp [hother, hnot]

/-- The lexer's tokens are the corresponding ones, unless a `!` is before a number with a
sign. -/
theorem correspondingTokens_eq_iff (items : List (Written × WString))
    (lastToken : Option CelTokenType) (position : ℕ) :
    correspondingTokens allowsNegative lastToken position items
        = correspondingTokens operandMayStart lastToken position items
      ↔ (∀ y ∈ (items.map Prod.fst).head?, ¬ (lastToken = some .not ∧ y.isSigned = true))
        ∧ (items.map Prod.fst).IsChain fun x y => ¬ NegatesSigned x y := by
  induction items generalizing lastToken position with
  | nil => simp [correspondingTokens]
  | cons item items ih =>
      obtain ⟨written, blanks⟩ := item
      rw [correspondingTokens, correspondingTokens, tokens_eq_iff, ih, List.map_cons,
        List.isChain_cons]
      simp [NegatesSigned]

/-- **Separated lexemes come back as their tokens** exactly if no `!` is directly before a
number with a sign: the lexer's list of operators lacks it. On every input each turn moves
the position forward, and the tokens or an exception of the lexer come out. -/
theorem tokenize_source_iff (unicode : Unicode) :
    (∀ first items, White unicode first → Separated unicode items →
      (tokenize unicode (first ++ source items)
          = .ok (correspondingTokens operandMayStart none first.length items)
        ↔ (items.map Prod.fst).IsChain fun x y => ¬ NegatesSigned x y))
    ∧ (∀ lastToken position c rest token position' rest',
      turn unicode lastToken position c rest = .ok (token, position', rest') →
        position < position' ∧ position' + rest'.length = position + (c :: rest).length)
    ∧ ∀ input, (∃ tokens, tokenize unicode input = .ok tokens)
      ∨ ∃ e, tokenize unicode input = .error e ∧ e.isLexical = true := by
  refine ⟨?_, ?_, ?_⟩
  · intro first items hfirst hitems
    rw [tokenize_source hfirst hitems, Except.ok.injEq, correspondingTokens_eq_iff]
    simp
  · intro lastToken position c rest token position' rest' hturn
    obtain ⟨taken, hne, htaken, rfl⟩ := turn_advances hturn
    have hpos := List.length_pos_of_ne_nil hne
    rw [htaken, List.length_append]
    omega
  · intro input
    exact tokenizeFrom_ends _ none 0 input (Nat.lt_succ_self _)

/-- `! -5`. -/
def negatedFive : List (Written × WString) :=
  [(.operator [code '!'], [code ' ']), (.signed [code '5'], [])]

theorem negatedFive_separated : Separated asciiUnicode negatedFive := by
  refine ⟨?_, ?_, fun _ => List.cons_ne_nil _ _, ?_, ?_, fun h => absurd rfl h, trivial⟩
  · show [code '!'] ∈ (twoCharOperators ++ singleOperators).map Prod.fst
    decide
  · intro c hc
    obtain rfl := List.mem_singleton.mp hc
    decide
  · exact ⟨code '5', [], rfl, by decide, fun d hd => absurd hd List.not_mem_nil⟩
  · intro c hc
    cases hc

theorem tokenize_source_iff_negatedFive :
    tokenize asciiUnicode ([] ++ source negatedFive)
        = .ok (correspondingTokens operandMayStart none 0 negatedFive)
      ↔ (negatedFive.map Prod.fst).IsChain fun x y => ¬ NegatesSigned x y :=
  (tokenize_source_iff asciiUnicode).1 [] negatedFive (fun _ hc => absurd hc List.not_mem_nil)
    negatedFive_separated

/-- The sign of `! -5` is read as a token of its own. -/
theorem tokenize_not_corresponding :
    ¬ ∀ first items, White asciiUnicode first → Separated asciiUnicode items →
      tokenize asciiUnicode (first ++ source items)
        = .ok (correspondingTokens operandMayStart none first.length items) := by
  intro hall
  have htokens := hall [] negatedFive (fun _ hc => absurd hc List.not_mem_nil)
    negatedFive_separated
  revert htokens
  decide

end AutoInstrumentation.Cel
