import AutoInstrumentation.Cel.Grammar

/-!
# AutoInstrumentation.Cel.ParserSound

The parser accepts exactly the grammar (`parse_iff`).

Soundness follows the parser's text: each function that succeeds has taken an expression of
its level off the tokens (`Sound`). Completeness says that a function takes all of the
expression that is ahead, if what follows cannot continue it (`Complete`); for the loops of
the left-associative operators the statement is about the loop that goes on after the
expression (`parseOperators_continues`).
-/

namespace AutoInstrumentation.Cel

variable {δ : Type} {doubleParse : WString → Option δ} {last : CelToken}

/-! ### The monad -/

namespace ParserM

variable {α β : Type}

theorem bind_ok {p : ParserM α} {f : α → ParserM β} {ts rest : List CelToken} {b : β} :
    (p >>= f) ts = .ok (b, rest) ↔ ∃ a mid, p ts = .ok (a, mid) ∧ f a mid = .ok (b, rest) := by
  change (p ts >>= fun r => f r.1 r.2) = _ ↔ _
  cases p ts with
  | error e => simp [bind, Except.bind]
  | ok r =>
      constructor
      · exact fun h => ⟨r.1, r.2, rfl, h⟩
      · rintro ⟨a, mid, heq, h⟩
        obtain rfl := Except.ok.inj heq
        exact h

theorem bind_of_ok {p : ParserM α} {ts mid : List CelToken} {a : α} (h : p ts = .ok (a, mid))
    (f : α → ParserM β) : (p >>= f) ts = f a mid := by
  change (p ts >>= fun r => f r.1 r.2) = _
  rw [h]
  rfl

theorem pure_ok {a b : α} {ts rest : List CelToken} :
    (pure a : ParserM α) ts = .ok (b, rest) ↔ a = b ∧ ts = rest := by
  change Except.ok (a, ts) = _ ↔ _
  simp

theorem throw_ok {e : CelError} {ts : List CelToken} {r : α × List CelToken} :
    (throw e : ParserM α) ts ≠ .ok r := fun h => nomatch h

end ParserM

theorem unexpectedToken_ok {α : Type} {ts : List CelToken} {r : α × List CelToken} :
    unexpectedToken last ts ≠ .ok r := fun h => nomatch h

open ParserM

/-- A test of the next token. -/
theorem matchTypes_apply {α : Type} (types : List CelTokenType) (p q : ParserM α)
    (ts : List CelToken) : (matchTypes last types >>= fun b => if b = true then p else q) ts
      = if types.contains (ts.headD last).type then p ts else q ts := by
  change (if types.contains (ts.headD last).type = true then p else q : ParserM α) ts = _
  split <;> rfl

theorem matchTypes_cons {α : Type} {types : List CelTokenType} {t : CelToken}
    (h : t.type ∈ types) (p q : ParserM α) (ts : List CelToken) :
    (matchTypes last types >>= fun b => if b = true then p else q) (t :: ts) = p (t :: ts) := by
  exact (matchTypes_apply types p q _).trans (if_pos (List.contains_iff_mem.mpr h))

theorem matchTypes_skip {α : Type} {types : List CelTokenType} {ts : List CelToken}
    (h : (ts.headD last).type ∉ types) (p q : ParserM α) :
    (matchTypes last types >>= fun b => if b = true then p else q) ts = q ts := by
  rw [matchTypes_apply, if_neg fun hc => h (List.contains_iff_mem.mp hc)]

/-- At the end of the input there is nothing to consume. -/
theorem eq_cons_of_type (hlast : last.type = .endOfInput) {ts : List CelToken}
    (h : (ts.headD last).type ≠ .endOfInput) : ∃ t rest, ts = t :: rest := by
  cases ts with
  | nil => exact (h hlast).elim
  | cons t rest => exact ⟨t, rest, rfl⟩

theorem consumeType_ok (hlast : last.type = .endOfInput) {type : CelTokenType}
    (htype : type ≠ .endOfInput) {ts rest : List CelToken} {t : CelToken} :
    consumeType last type ts = .ok (t, rest) ↔ ts = t :: rest ∧ t.type = type := by
  change (if (ts.headD last).type ≠ type then throw _ else consume last : ParserM CelToken) ts = _ ↔ _
  by_cases h : (ts.headD last).type = type
  · obtain ⟨u, us, rfl⟩ := eq_cons_of_type hlast (h.trans_ne htype)
    rw [if_neg (not_not.mpr h)]
    change Except.ok (u, us) = _ ↔ _
    constructor
    · intro heq
      obtain ⟨rfl, rfl⟩ := Prod.mk.inj (Except.ok.inj heq)
      exact ⟨rfl, h⟩
    · rintro ⟨heq, -⟩
      obtain ⟨rfl, rfl⟩ := List.cons.inj heq
      rfl
  · rw [if_pos h]
    constructor
    · intro heq
      cases heq
    · rintro ⟨rfl, heq⟩
      exact (h heq).elim

/-- A token of some types, consumed if it is next. -/
theorem match_consume_ok (hlast : last.type = .endOfInput) {α : Type} {types : List CelTokenType}
    (htypes : .endOfInput ∉ types) {f : CelToken → ParserM α} {q : ParserM α} {ts : List CelToken}
    {r : α × List CelToken} (h : (matchTypes last types >>= fun b =>
      if b = true then consume last >>= f else q) ts = .ok r) :
    (∃ t rest, ts = t :: rest ∧ t.type ∈ types ∧ f t rest = .ok r) ∨
      (ts.headD last).type ∉ types ∧ q ts = .ok r := by
  rw [matchTypes_apply] at h
  split at h
  · next hmatch =>
      have hmem := List.contains_iff_mem.mp hmatch
      obtain ⟨t, rest, rfl⟩ := eq_cons_of_type hlast fun heq => htypes (heq ▸ hmem)
      exact Or.inl ⟨t, rest, rfl, hmem, h⟩
  · next hmatch => exact Or.inr ⟨fun hmem => hmatch (List.contains_iff_mem.mpr hmem), h⟩

theorem match_consume {α : Type} {types : List CelTokenType} {t : CelToken} (h : t.type ∈ types)
    (f : CelToken → ParserM α) (q : ParserM α) (ts : List CelToken) :
    (matchTypes last types >>= fun b => if b = true then consume last >>= f else q) (t :: ts)
      = f t ts :=
  matchTypes_cons h _ _ ts

/-! ### Soundness -/

/-- What `p` takes is an expression of the level. -/
def Sound (doubleParse : WString → Option δ) (ℓ : ℕ) (p : ParserM (CelNode δ)) : Prop :=
  ∀ ts e rest, p ts = .ok (e, rest) → ∃ us, ts = us ++ rest ∧ Parses doubleParse ℓ us e

section

variable {parseTernary : ParserM (CelNode δ)}

theorem consumeNumber_sound {t : CelToken} {ts rest : List CelToken} {e : CelNode δ}
    (ht : t.type = .number) (h : consumeNumber last doubleParse (t :: ts) = .ok (e, rest)) :
    ts = rest ∧ t.node doubleParse = some e := by
  rw [consumeNumber, bind_of_ok (show consume last (t :: ts) = .ok (t, ts) from rfl)] at h
  rw [CelToken.node, ht]
  cases hnumber : numberLiteral doubleParse t.value with
  | ok value =>
      rw [hnumber] at h
      obtain ⟨rfl, rfl⟩ := pure_ok.mp h
      exact ⟨rfl, rfl⟩
  | error e =>
      rw [hnumber] at h
      exact (throw_ok h).elim

theorem parsePrimary_sound (hlast : last.type = .endOfInput)
    (hternary : Sound doubleParse 1 parseTernary) :
    Sound doubleParse 9 (parsePrimary last doubleParse parseTernary) := by
  intro ts e rest h
  have hprimary : ∀ t : CelToken, ts = t :: rest → t.node doubleParse = some e →
      ∃ us, ts = us ++ rest ∧ Parses doubleParse 9 us e := by
    intro t heq hnode
    exact ⟨[t], heq, .primary hnode⟩
  rw [parsePrimary] at h
  rcases match_consume_ok hlast (by decide) h with ⟨t, mid, rfl, ht, h⟩ | ⟨-, h⟩
  · obtain ⟨rfl, rfl⟩ := pure_ok.mp h
    exact hprimary t rfl (by rw [CelToken.node, List.mem_singleton.mp ht])
  rcases match_consume_ok hlast (by decide) h with ⟨t, mid, rfl, ht, h⟩ | ⟨-, h⟩
  · obtain ⟨rfl, rfl⟩ := pure_ok.mp h
    exact hprimary t rfl (by rw [CelToken.node, List.mem_singleton.mp ht])
  rcases match_consume_ok hlast (by decide) h with ⟨t, mid, rfl, ht, h⟩ | ⟨-, h⟩
  · obtain ⟨rfl, rfl⟩ := pure_ok.mp h
    exact hprimary t rfl (by rw [CelToken.node, List.mem_singleton.mp ht])
  rw [matchTypes_apply] at h
  split at h
  · next hmatch =>
      have hnumber := List.mem_singleton.mp (List.contains_iff_mem.mp hmatch)
      obtain ⟨t, mid, rfl⟩ := eq_cons_of_type hlast (by rw [hnumber]; decide)
      obtain ⟨rfl, hnode⟩ := consumeNumber_sound hnumber h
      exact hprimary t rfl hnode
  rcases match_consume_ok hlast (by decide) h with ⟨t, mid, rfl, ht, h⟩ | ⟨-, h⟩
  · obtain ⟨rfl, rfl⟩ := pure_ok.mp h
    exact hprimary t rfl (by rw [CelToken.node, List.mem_singleton.mp ht])
  rcases match_consume_ok hlast (by decide) h with ⟨t, mid, rfl, ht, h⟩ | ⟨-, h⟩
  · obtain ⟨rfl, rfl⟩ := pure_ok.mp h
    exact hprimary t rfl (by rw [CelToken.node, List.mem_singleton.mp ht])
  rcases match_consume_ok hlast (by decide) h with ⟨l, mid, rfl, hl, h⟩ | ⟨-, h⟩
  · obtain ⟨expr, mid, hexpr, h⟩ := bind_ok.mp h
    obtain ⟨r, mid, hr, h⟩ := bind_ok.mp h
    obtain ⟨rfl, rfl⟩ := pure_ok.mp h
    obtain ⟨us, rfl, hparses⟩ := hternary _ _ _ hexpr
    obtain ⟨rfl, hright⟩ := (consumeType_ok hlast (by decide)).mp hr
    exact ⟨l :: (us ++ [r]), by simp, .paren (List.mem_singleton.mp hl) hright hparses⟩
  · exact (unexpectedToken_ok h).elim

theorem argumentsLoop_sound (hlast : last.type = .endOfInput)
    (hternary : Sound doubleParse 1 parseTernary) (n : ℕ) :
    ∀ {args es : List (CelNode δ)} {ts rest : List CelToken},
      argumentsLoop last parseTernary n args ts = .ok (es, rest) →
        ∃ us fs, ts = us ++ rest ∧ es = args ++ fs ∧ ParsesRest doubleParse us fs := by
  induction n with
  | zero => exact fun h => (throw_ok h).elim
  | succ n ih =>
      intro args es ts rest h
      rw [argumentsLoop] at h
      rcases match_consume_ok hlast (by decide) h with ⟨c, mid, rfl, hc, h⟩ | ⟨-, h⟩
      · obtain ⟨arg, mid, harg, hloop⟩ := bind_ok.mp h
        obtain ⟨us, rfl, hus⟩ := hternary _ _ _ harg
        obtain ⟨vs, fs, rfl, rfl, hvs⟩ := ih hloop
        exact ⟨c :: (us ++ vs), arg :: fs, by simp, by simp,
          .cons (List.mem_singleton.mp hc) hus hvs⟩
      · obtain ⟨rfl, rfl⟩ := pure_ok.mp h
        exact ⟨[], [], rfl, by simp, .nil⟩

theorem parseArguments_sound (hlast : last.type = .endOfInput)
    (hternary : Sound doubleParse 1 parseTernary) {n : ℕ} {es : List (CelNode δ)}
    {ts rest : List CelToken} (h : parseArguments last parseTernary n ts = .ok (es, rest)) :
    ∃ us, ts = us ++ rest ∧ ParsesArguments doubleParse us es := by
  rw [parseArguments, matchTypes_apply] at h
  split at h
  · obtain ⟨rfl, rfl⟩ := pure_ok.mp h
    exact ⟨[], rfl, .nil⟩
  · obtain ⟨arg, mid, harg, hloop⟩ := bind_ok.mp h
    obtain ⟨us, rfl, hus⟩ := hternary _ _ _ harg
    obtain ⟨vs, fs, rfl, rfl, hvs⟩ := argumentsLoop_sound hlast hternary n hloop
    exact ⟨us ++ vs, by simp, .cons hus hvs⟩

theorem postfixLoop_sound (hlast : last.type = .endOfInput)
    (hternary : Sound doubleParse 1 parseTernary) (n : ℕ) :
    ∀ {expr e : CelNode δ} {us ts rest : List CelToken}, Parses doubleParse 8 us expr →
      postfixLoop last parseTernary n expr ts = .ok (e, rest) →
        ∃ vs, ts = vs ++ rest ∧ Parses doubleParse 8 (us ++ vs) e := by
  induction n with
  | zero => exact fun _ h => (throw_ok h).elim
  | succ n ih =>
      intro expr e us ts rest hus h
      rw [postfixLoop] at h
      rcases match_consume_ok hlast (by decide) h with ⟨d, mid, rfl, hd, h⟩ | ⟨-, h⟩
      · obtain ⟨m, mid, hm, hloop⟩ := bind_ok.mp h
        obtain ⟨rfl, hname⟩ := (consumeType_ok hlast (by decide)).mp hm
        obtain ⟨vs, rfl, hvs⟩ := ih (.memberAccess (List.mem_singleton.mp hd) hname hus) hloop
        exact ⟨d :: m :: vs, rfl, by simpa using hvs⟩
      rcases match_consume_ok hlast (by decide) h with ⟨l, mid, rfl, hl, h⟩ | ⟨-, h⟩
      · obtain ⟨index, mid, hindex, h⟩ := bind_ok.mp h
        obtain ⟨r, mid, hr, hloop⟩ := bind_ok.mp h
        obtain ⟨ws, rfl, hws⟩ := hternary _ _ _ hindex
        obtain ⟨rfl, hright⟩ := (consumeType_ok hlast (by decide)).mp hr
        obtain ⟨vs, rfl, hvs⟩ := ih (.indexAccess (List.mem_singleton.mp hl) hright hus hws) hloop
        exact ⟨l :: (ws ++ r :: vs), by simp, by simpa using hvs⟩
      rw [matchTypes_apply] at h
      split at h
      · next hmatch =>
          have hleft := List.mem_singleton.mp (List.contains_iff_mem.mp hmatch)
          obtain ⟨l, mid, rfl⟩ := eq_cons_of_type hlast (by rw [hleft]; decide)
          cases expr with
          | identifier name =>
              obtain ⟨_, _, hconsume, hcall⟩ := bind_ok.mp h
              cases hconsume
              obtain ⟨args, mid, hargs, h⟩ := bind_ok.mp hcall
              obtain ⟨r, mid, hr, hloop⟩ := bind_ok.mp h
              obtain ⟨ws, rfl, hws⟩ := parseArguments_sound hlast hternary hargs
              obtain ⟨rfl, hright⟩ := (consumeType_ok hlast (by decide)).mp hr
              obtain ⟨vs, rfl, hvs⟩ := ih (.functionCall hleft hright hus hws) hloop
              exact ⟨l :: (ws ++ r :: vs), by simp, by simpa using hvs⟩
          | _ =>
              obtain ⟨rfl, rfl⟩ := pure_ok.mp h
              exact ⟨[], rfl, by simpa using hus⟩
      · obtain ⟨rfl, rfl⟩ := pure_ok.mp h
        exact ⟨[], rfl, by simpa using hus⟩

theorem parsePostfix_sound (hlast : last.type = .endOfInput)
    (hternary : Sound doubleParse 1 parseTernary) (n : ℕ) :
    Sound doubleParse 8 (parsePostfix last doubleParse parseTernary n) := by
  intro ts e rest h
  obtain ⟨expr, mid, hexpr, hloop⟩ := bind_ok.mp h
  obtain ⟨us, rfl, hus⟩ := parsePrimary_sound hlast hternary _ _ _ hexpr
  obtain ⟨vs, rfl, hvs⟩ := postfixLoop_sound hlast hternary n (.tighter (by omega) hus) hloop
  exact ⟨us ++ vs, by simp, hvs⟩

theorem unaryLoop_sound (hlast : last.type = .endOfInput) {p : ParserM (CelNode δ)}
    (hp : Sound doubleParse 8 p) (n : ℕ) : Sound doubleParse 7 (unaryLoop last p n) := by
  induction n with
  | zero => exact fun _ _ _ h => (throw_ok h).elim
  | succ n ih =>
      intro ts e rest h
      rw [unaryLoop] at h
      rcases match_consume_ok hlast (by decide) h with ⟨op, mid, rfl, hop, h⟩ | ⟨-, h⟩
      · obtain ⟨operand, mid, hoperand, h⟩ := bind_ok.mp h
        obtain ⟨rfl, rfl⟩ := pure_ok.mp h
        obtain ⟨us, rfl, hus⟩ := ih _ _ _ hoperand
        exact ⟨op :: us, rfl, .unaryOperator (by simpa using hop) hus⟩
      · obtain ⟨us, rfl, hus⟩ := hp _ _ _ h
        exact ⟨us, rfl, .tighter (by omega) hus⟩

theorem operatorLoop_sound (hlast : last.type = .endOfInput) {types : List CelTokenType} {ℓ : ℕ}
    (htypes : ∀ type ∈ types, type.level = ℓ) (lower : 2 ≤ ℓ) (upper : ℓ ≤ 6)
    {p : ParserM (CelNode δ)} (hp : Sound doubleParse (ℓ + 1) p) (n : ℕ) :
    ∀ {left e : CelNode δ} {us ts rest : List CelToken}, Parses doubleParse ℓ us left →
      operatorLoop last types p n left ts = .ok (e, rest) →
        ∃ vs, ts = vs ++ rest ∧ Parses doubleParse ℓ (us ++ vs) e := by
  have heoi : CelTokenType.endOfInput ∉ types := by
    intro hmem
    have hlevel : 0 = ℓ := htypes _ hmem
    omega
  induction n with
  | zero => exact fun _ h => (throw_ok h).elim
  | succ n ih =>
      intro left e us ts rest hus h
      rw [operatorLoop] at h
      rcases match_consume_ok hlast heoi h with ⟨op, mid, rfl, hop, h⟩ | ⟨-, h⟩
      · obtain ⟨right, mid, hright, hloop⟩ := bind_ok.mp h
        obtain ⟨ws, rfl, hws⟩ := hp _ _ _ hright
        obtain ⟨vs, rfl, hvs⟩ := ih (.binaryOperator (htypes _ hop) lower upper hus hws) hloop
        exact ⟨op :: (ws ++ vs), by simp, by simpa using hvs⟩
      · obtain ⟨rfl, rfl⟩ := pure_ok.mp h
        exact ⟨[], rfl, by simpa using hus⟩

theorem parseOperators_sound (hlast : last.type = .endOfInput) {types : List CelTokenType} {ℓ : ℕ}
    (htypes : ∀ type ∈ types, type.level = ℓ) (lower : 2 ≤ ℓ) (upper : ℓ ≤ 6)
    {p : ParserM (CelNode δ)} (hp : Sound doubleParse (ℓ + 1) p) (n : ℕ) :
    Sound doubleParse ℓ (parseOperators last types p n) := by
  intro ts e rest h
  obtain ⟨left, mid, hleft, hloop⟩ := bind_ok.mp h
  obtain ⟨us, rfl, hus⟩ := hp _ _ _ hleft
  obtain ⟨vs, rfl, hvs⟩ :=
    operatorLoop_sound hlast htypes lower upper hp n (.tighter (by omega) hus) hloop
  exact ⟨us ++ vs, by simp, hvs⟩

theorem parseLogicalOr_sound (hlast : last.type = .endOfInput)
    (hternary : Sound doubleParse 1 parseTernary) (n : ℕ) :
    Sound doubleParse 2 (parseLogicalOr last doubleParse parseTernary n) := by
  have hunary : Sound doubleParse 7 (parseUnary last doubleParse parseTernary n) :=
    unaryLoop_sound hlast (parsePostfix_sound hlast hternary n) n
  have hmultiplicative : Sound doubleParse 6 (parseMultiplicative last doubleParse parseTernary n) :=
    parseOperators_sound hlast (by decide) (by omega) (by omega) hunary n
  have hadditive : Sound doubleParse 5 (parseAdditive last doubleParse parseTernary n) :=
    parseOperators_sound hlast (by decide) (by omega) (by omega) hmultiplicative n
  have hrelation : Sound doubleParse 4 (parseRelation last doubleParse parseTernary n) :=
    parseOperators_sound hlast (by decide) (by omega) (by omega) hadditive n
  have hand : Sound doubleParse 3 (parseLogicalAnd last doubleParse parseTernary n) :=
    parseOperators_sound hlast (by decide) (by omega) (by omega) hrelation n
  exact parseOperators_sound hlast (by decide) (by omega) (by omega) hand n

end

theorem parseTernary_sound (hlast : last.type = .endOfInput) (n : ℕ) :
    Sound doubleParse 1 (parseTernary last doubleParse n) := by
  induction n with
  | zero => exact fun _ _ _ h => (throw_ok h).elim
  | succ n ih =>
      intro ts e rest h
      obtain ⟨expr, mid, hexpr, hrest⟩ := bind_ok.mp h
      obtain ⟨us, rfl, hus⟩ := parseLogicalOr_sound hlast ih n _ _ _ hexpr
      rcases match_consume_ok hlast (by decide) hrest with ⟨q, mid, rfl, hq, h⟩ | ⟨-, h⟩
      · obtain ⟨trueExpr, mid, htrue, h⟩ := bind_ok.mp h
        obtain ⟨colon, mid, hcolon, h⟩ := bind_ok.mp h
        obtain ⟨falseExpr, mid, hfalse, h⟩ := bind_ok.mp h
        obtain ⟨rfl, rfl⟩ := pure_ok.mp h
        obtain ⟨vs, rfl, hvs⟩ := parseLogicalOr_sound hlast ih n _ _ _ htrue
        obtain ⟨rfl, hseparator⟩ := (consumeType_ok hlast (by decide)).mp hcolon
        obtain ⟨ws, rfl, hws⟩ := ih _ _ _ hfalse
        exact ⟨us ++ q :: (vs ++ colon :: ws), by simp,
          .ternary (List.mem_singleton.mp hq) hseparator hus hvs hws⟩
      · obtain ⟨rfl, rfl⟩ := pure_ok.mp h
        exact ⟨us, rfl, .tighter (by omega) hus⟩

/-! ### Completeness -/

/-- `p` takes all of an expression of at most `n` tokens that is ahead, unless what follows
continues it. -/
def Complete (doubleParse : WString → Option δ) (last : CelToken) (ℓ n : ℕ)
    (p : ParserM (CelNode δ)) : Prop :=
  ∀ us e rest, Parses doubleParse ℓ us e → us.length ≤ n → (rest.headD last).type.level < ℓ →
    p (us ++ rest) = .ok (e, rest)

theorem consume_cons (t : CelToken) (ts : List CelToken) :
    consume last (t :: ts) = .ok (t, ts) := rfl

theorem consumeType_cons {type : CelTokenType} {t : CelToken} (h : t.type = type)
    (ts : List CelToken) : consumeType last type (t :: ts) = .ok (t, ts) := by
  change (if t.type ≠ type then throw _ else consume last : ParserM CelToken) (t :: ts) = _
  rw [if_neg (not_not.mpr h)]
  rfl

theorem Parses.length_pos : {ℓ : ℕ} → {us : List CelToken} → {e : CelNode δ} →
    Parses doubleParse ℓ us e → 0 < us.length
  | _, _, _, .tighter _ h => h.length_pos
  | _, _, _, .primary _ => Nat.succ_pos _
  | _, _, _, .paren _ _ _ => Nat.succ_pos _
  | _, _, _, .memberAccess _ _ _ => List.length_pos_of_ne_nil (by simp)
  | _, _, _, .indexAccess _ _ _ _ => List.length_pos_of_ne_nil (by simp)
  | _, _, _, .functionCall _ _ _ _ => List.length_pos_of_ne_nil (by simp)
  | _, _, _, .unaryOperator _ _ => Nat.succ_pos _
  | _, _, _, .binaryOperator _ _ _ _ _ => List.length_pos_of_ne_nil (by simp)
  | _, _, _, .ternary _ _ _ _ _ => List.length_pos_of_ne_nil (by simp)

theorem CelTokenType.level_le (type : CelTokenType) : type.level ≤ 8 := by
  cases type <;> decide

theorem Parses.head_of_primary {us : List CelToken} {e : CelNode δ}
    (h : Parses doubleParse 9 us e) :
    ∃ t ts, us = t :: ts ∧ t.type ∉ [CelTokenType.not, .minus] := by
  cases h with
  | tighter bound _ => exact (Nat.lt_irrefl 9 bound).elim
  | @primary t _ h =>
      refine ⟨t, [], rfl, fun hmem => ?_⟩
      rw [CelToken.node] at h
      rcases List.mem_pair.mp hmem with htype | htype <;> rw [htype] at h <;> cases h
  | paren left _ _ => exact ⟨_, _, rfl, by rw [left]; decide⟩
  | binaryOperator _ _ upper _ _ => omega

/-- A postfix expression does not begin with an operator. -/
theorem Parses.head_of_postfix {us : List CelToken} {e : CelNode δ}
    (h : Parses doubleParse 8 us e) :
    ∃ t ts, us = t :: ts ∧ t.type ∉ [CelTokenType.not, .minus] := by
  cases h with
  | tighter _ h => exact h.head_of_primary
  | memberAccess _ _ h | indexAccess _ _ h | functionCall _ _ h =>
      obtain ⟨t, ts, rfl, ht⟩ := h.head_of_postfix
      exact ⟨t, _, rfl, ht⟩
  | binaryOperator _ _ upper _ _ => omega
  termination_by us.length

/-- No expression begins with a closing parenthesis. -/
theorem Parses.head_ne_rightParen : {ℓ : ℕ} → {us : List CelToken} → {e : CelNode δ} →
    Parses doubleParse ℓ us e → ∃ t ts, us = t :: ts ∧ t.type ≠ .rightParen
  | _, _, _, .tighter _ h => h.head_ne_rightParen
  | _, _, _, .primary (t := t) h => by
      refine ⟨t, [], rfl, fun htype => ?_⟩
      rw [CelToken.node, htype] at h
      cases h
  | _, _, _, .paren left _ _ => ⟨_, _, rfl, by rw [left]; decide⟩
  | _, _, _, .unaryOperator type _ => ⟨_, _, rfl, by rcases type with h | h <;> rw [h] <;> decide⟩
  | _, _, _, .memberAccess _ _ h => by
      obtain ⟨t, ts, rfl, ht⟩ := h.head_ne_rightParen
      exact ⟨t, _, rfl, ht⟩
  | _, _, _, .indexAccess _ _ h _ => by
      obtain ⟨t, ts, rfl, ht⟩ := h.head_ne_rightParen
      exact ⟨t, _, rfl, ht⟩
  | _, _, _, .functionCall _ _ h _ => by
      obtain ⟨t, ts, rfl, ht⟩ := h.head_ne_rightParen
      exact ⟨t, _, rfl, ht⟩
  | _, _, _, .binaryOperator _ _ _ h _ => by
      obtain ⟨t, ts, rfl, ht⟩ := h.head_ne_rightParen
      exact ⟨t, _, rfl, ht⟩
  | _, _, _, .ternary _ _ h _ _ => by
      obtain ⟨t, ts, rfl, ht⟩ := h.head_ne_rightParen
      exact ⟨t, _, rfl, ht⟩

section

variable {parseTernary : ParserM (CelNode δ)} {n : ℕ}

theorem consumeNumber_ok {t : CelToken} {v : CelLiteral δ}
    (h : numberLiteral doubleParse t.value = .ok v) (rest : List CelToken) :
    consumeNumber last doubleParse (t :: rest) = .ok (.literal v, rest) := by
  have hconsume : consume last (t :: rest) = .ok (t, rest) := rfl
  simp only [consumeNumber, bind, StateT.bind, hconsume, Except.bind, h]
  rfl

theorem parsePrimary_token {t : CelToken} {e : CelNode δ} (h : t.node doubleParse = some e)
    (rest : List CelToken) :
    parsePrimary last doubleParse parseTernary (t :: rest) = .ok (e, rest) := by
  obtain ⟨type, value, position⟩ := t
  cases type with
  | number =>
      simp only [CelToken.node, Option.map_eq_some_iff] at h
      obtain ⟨v, hv, rfl⟩ := h
      cases hnumber : numberLiteral doubleParse value with
      | ok w =>
          rw [hnumber] at hv
          obtain rfl := Option.some.inj hv
          exact consumeNumber_ok hnumber rest
      | error e =>
          rw [hnumber] at hv
          cases hv
  | true | false | null | string | identifier =>
      obtain rfl := Option.some.inj h
      rfl
  | _ => cases h

theorem parsePrimary_paren {l : CelToken} (left : l.type = .leftParen) (ts : List CelToken) :
    parsePrimary last doubleParse parseTernary (l :: ts)
      = (parseTernary >>= fun expr => consumeType last .rightParen >>= fun _ => pure expr) ts := by
  obtain ⟨type, value, position⟩ := l
  obtain rfl : type = .leftParen := left
  rfl

theorem parsePrimary_complete (hternary : Complete doubleParse last 1 n parseTernary) :
    Complete doubleParse last 9 (n + 1) (parsePrimary last doubleParse parseTernary) := by
  intro us e rest h hlength _
  cases h with
  | tighter bound _ => exact (Nat.lt_irrefl 9 bound).elim
  | primary h => exact parsePrimary_token h rest
  | @paren l r us _ left right h =>
      have hexpr : parseTernary (us ++ r :: rest) = .ok (e, r :: rest) := by
        refine hternary us e (r :: rest) h ?_ ?_
        · simp only [List.length_cons, List.length_append] at hlength
          omega
        · rw [List.headD_cons, right]
          decide
      simp only [List.cons_append, List.append_assoc, List.nil_append]
      rw [parsePrimary_paren left, bind_of_ok hexpr, bind_of_ok (consumeType_cons right rest)]
      rfl
  | binaryOperator _ _ upper _ _ => omega

theorem argumentsLoop_complete (hternary : Complete doubleParse last 1 n parseTernary)
    {rest : List CelToken} (hrest : (rest.headD last).type = .rightParen) (m : ℕ) :
    ∀ {us : List CelToken} {fs args : List (CelNode δ)}, ParsesRest doubleParse us fs →
      us.length ≤ n → us.length < m →
        argumentsLoop last parseTernary m args (us ++ rest) = .ok (args ++ fs, rest) := by
  induction m with
  | zero => exact fun _ _ h => (Nat.not_lt_zero _ h).elim
  | succ m ih =>
      intro us fs args h hlength hm
      rw [argumentsLoop]
      cases h with
      | nil =>
          rw [List.nil_append, matchTypes_skip (by rw [hrest]; decide), List.append_nil]
          rfl
      | @cons c us vs e es comma h hvs =>
          rw [List.length_cons, List.length_append] at hlength hm
          have hfollow : ((vs ++ rest).headD last).type.level < 1 := by
            cases hvs with
            | nil =>
                rw [List.nil_append, hrest]
                decide
            | cons comma _ _ =>
                rw [List.cons_append, List.headD_cons, comma]
                decide
          rw [List.cons_append, List.append_assoc,
            match_consume (by rw [comma]; exact List.mem_singleton_self _),
            bind_of_ok (hternary us e (vs ++ rest) h (by omega) hfollow),
            ih hvs (by omega) (by omega), List.append_assoc, List.singleton_append]

theorem parseArguments_complete (hternary : Complete doubleParse last 1 n parseTernary)
    {us rest : List CelToken} {args : List (CelNode δ)} {m : ℕ}
    (hrest : (rest.headD last).type = .rightParen) (h : ParsesArguments doubleParse us args)
    (hlength : us.length ≤ n) (hm : us.length ≤ m) :
    parseArguments last parseTernary m (us ++ rest) = .ok (args, rest) := by
  rw [parseArguments]
  cases h with
  | nil => exact (matchTypes_apply _ _ _ _).trans (if_pos (by rw [List.nil_append, hrest]; decide))
  | @cons us vs e es h hvs =>
      have hpos := h.length_pos
      rw [List.length_append] at hlength hm
      have hskip : ((us ++ vs ++ rest).headD last).type ∉ [CelTokenType.rightParen] := by
        obtain ⟨t, ts, rfl, ht⟩ := h.head_ne_rightParen
        exact fun hmem => ht (List.mem_singleton.mp hmem)
      have hfollow : ((vs ++ rest).headD last).type.level < 1 := by
        cases hvs with
        | nil =>
            rw [List.nil_append, hrest]
            decide
        | cons comma _ _ =>
            rw [List.cons_append, List.headD_cons, comma]
            decide
      rw [matchTypes_skip hskip, List.append_assoc,
        bind_of_ok (hternary us e (vs ++ rest) h (by omega) hfollow),
        argumentsLoop_complete hternary hrest m hvs (by omega) (by omega)]
      rfl

/-- A postfix expression is taken, and the loop goes on after it. -/
theorem parsePostfix_continues (hternary : Complete doubleParse last 1 n parseTernary) {m : ℕ}
    {us : List CelToken} {e : CelNode δ} (h : Parses doubleParse 8 us e)
    (hlength : us.length ≤ n + 1) (hm : us.length ≤ m) :
    ∃ k < us.length, ∀ rest, parsePostfix last doubleParse parseTernary m (us ++ rest)
      = postfixLoop last parseTernary (m - k) e rest := by
  cases h with
  | tighter _ h =>
      refine ⟨0, h.length_pos, fun rest => ?_⟩
      have hprimary := parsePrimary_complete hternary us e rest h hlength
        (Nat.lt_succ_of_le (CelTokenType.level_le _))
      rw [parsePostfix, bind_of_ok hprimary, Nat.sub_zero]
  | @memberAccess us e d nm dot name h =>
      rw [List.length_append, List.length_cons, List.length_cons, List.length_nil] at *
      obtain ⟨k, hk, hloop⟩ := parsePostfix_continues hternary (m := m) h (by omega) (by omega)
      refine ⟨k + 1, by omega, fun rest => ?_⟩
      obtain ⟨j, hj⟩ : ∃ j, m - k = j + 1 := ⟨m - k - 1, by omega⟩
      have hj' : m - (k + 1) = j := by omega
      rw [List.append_assoc, hloop, hj, hj', postfixLoop]
      rw [List.cons_append, match_consume (by rw [dot]; exact List.mem_singleton_self _)]
      rw [List.cons_append, bind_of_ok (consumeType_cons name _)]
      rfl
  | @indexAccess us vs e i l r left right h hi =>
      rw [List.length_append, List.length_cons, List.length_append, List.length_cons,
        List.length_nil] at *
      obtain ⟨k, hk, hloop⟩ := parsePostfix_continues hternary (m := m) h (by omega) (by omega)
      refine ⟨k + 1, by omega, fun rest => ?_⟩
      obtain ⟨j, hj⟩ : ∃ j, m - k = j + 1 := ⟨m - k - 1, by omega⟩
      have hj' : m - (k + 1) = j := by omega
      have hindex : parseTernary (vs ++ r :: rest) = .ok (i, r :: rest) :=
        hternary vs i (r :: rest) hi (by omega) (by rw [List.headD_cons, right]; decide)
      rw [List.append_assoc, hloop, hj, hj', postfixLoop, List.cons_append,
        matchTypes_skip (by rw [List.headD_cons, left]; decide),
        match_consume (by rw [left]; exact List.mem_singleton_self _), List.append_assoc,
        List.singleton_append, bind_of_ok hindex, bind_of_ok (consumeType_cons right _)]
  | @functionCall us vs name args l r left right h hargs =>
      rw [List.length_append, List.length_cons, List.length_append, List.length_cons,
        List.length_nil] at *
      obtain ⟨k, hk, hloop⟩ := parsePostfix_continues hternary (m := m) h (by omega) (by omega)
      refine ⟨k + 1, by omega, fun rest => ?_⟩
      obtain ⟨j, hj⟩ : ∃ j, m - k = j + 1 := ⟨m - k - 1, by omega⟩
      have hj' : m - (k + 1) = j := by omega
      have hcall : parseArguments last parseTernary j (vs ++ r :: rest) = .ok (args, r :: rest) :=
        parseArguments_complete hternary (by rw [List.headD_cons, right]) hargs (by omega) (by omega)
      rw [List.append_assoc, hloop, hj, hj', postfixLoop, List.cons_append,
        matchTypes_skip (by rw [List.headD_cons, left]; decide),
        matchTypes_skip (by rw [List.headD_cons, left]; decide),
        matchTypes_cons (by rw [left]; exact List.mem_singleton_self _), List.append_assoc,
        List.singleton_append]
      simp only [CelNode.rawExpression]
      rw [bind_of_ok (consume_cons l _), bind_of_ok hcall, bind_of_ok (consumeType_cons right _)]
  | binaryOperator _ _ upper _ _ => omega
  termination_by us.length

theorem parsePostfix_complete (hternary : Complete doubleParse last 1 n parseTernary) :
    Complete doubleParse last 8 (n + 1) (parsePostfix last doubleParse parseTernary (n + 1)) := by
  intro us e rest h hlength hrest
  obtain ⟨k, hk, hloop⟩ := parsePostfix_continues hternary h hlength hlength
  obtain ⟨j, hj⟩ : ∃ j, n + 1 - k = j + 1 := ⟨n - k, by omega⟩
  have hskip : ∀ type : CelTokenType, type.level = 8 → (rest.headD last).type ∉ [type] := by
    intro type htype hmem
    rw [List.mem_singleton.mp hmem, htype] at hrest
    exact Nat.lt_irrefl 8 hrest
  rw [hloop, hj, postfixLoop, matchTypes_skip (hskip _ rfl), matchTypes_skip (hskip _ rfl),
    matchTypes_skip (hskip _ rfl)]
  rfl

theorem unaryLoop_complete {p : ParserM (CelNode δ)} (hp : Complete doubleParse last 8 n p)
    (m : ℕ) : ∀ {us : List CelToken} {e : CelNode δ} {rest : List CelToken},
      Parses doubleParse 7 us e → us.length ≤ n → us.length ≤ m →
        (rest.headD last).type.level < 7 → unaryLoop last p m (us ++ rest) = .ok (e, rest) := by
  induction m with
  | zero => exact fun h _ hm _ => (Nat.not_lt.mpr hm h.length_pos).elim
  | succ m ih =>
      intro us e rest h hlength hm hrest
      rw [unaryLoop]
      cases h with
      | tighter _ h =>
          have hresult := hp us e rest h hlength (Nat.lt_succ_of_lt hrest)
          obtain ⟨t, ts, rfl, ht⟩ := h.head_of_postfix
          exact (matchTypes_skip ht _ _).trans hresult
      | @unaryOperator op us e type h =>
          rw [List.length_cons] at hlength hm
          rw [List.cons_append, match_consume (by simpa using type),
            bind_of_ok (ih h (by omega) (by omega) hrest)]
          rfl
      | binaryOperator _ _ upper _ _ => omega

/-- The operands of one level are taken, and the loop goes on after them. -/
theorem parseOperators_continues {types : List CelTokenType} {ℓ : ℕ}
    (htypes : ∀ type : CelTokenType, type ∈ types ↔ type.level = ℓ) (lower : 2 ≤ ℓ)
    (upper : ℓ ≤ 6) {p : ParserM (CelNode δ)} (hp : Complete doubleParse last (ℓ + 1) n p)
    {us : List CelToken} {e : CelNode δ} (h : Parses doubleParse ℓ us e) (hlength : us.length ≤ n) :
    ∃ k < us.length, ∀ rest : List CelToken, (rest.headD last).type.level < ℓ + 1 →
      parseOperators last types p n (us ++ rest) = operatorLoop last types p (n - k) e rest := by
  cases h with
  | tighter _ h =>
      refine ⟨0, h.length_pos, fun rest hrest => ?_⟩
      rw [parseOperators, bind_of_ok (hp us e rest h hlength hrest), Nat.sub_zero]
  | @binaryOperator _ op us vs l r level _ _ hl hr =>
      have hpos := hr.length_pos
      rw [List.length_append, List.length_cons] at *
      obtain ⟨k, hk, hloop⟩ := parseOperators_continues htypes lower upper hp hl (by omega)
      refine ⟨k + 1, by omega, fun rest hrest => ?_⟩
      obtain ⟨j, hj⟩ : ∃ j, n - k = j + 1 := ⟨n - k - 1, by omega⟩
      have hj' : n - (k + 1) = j := by omega
      have hop : op.type ∈ types := (htypes op.type).mpr level
      rw [List.append_assoc, List.cons_append,
        hloop _ (by rw [List.headD_cons, level]; exact Nat.lt_succ_self ℓ), hj, hj', operatorLoop,
        match_consume hop, bind_of_ok (hp vs r rest hr (by omega) hrest)]
  | primary | paren | memberAccess | indexAccess | functionCall | unaryOperator | ternary => omega
  termination_by us.length

theorem parseOperators_complete {types : List CelTokenType} {ℓ : ℕ}
    (htypes : ∀ type : CelTokenType, type ∈ types ↔ type.level = ℓ) (lower : 2 ≤ ℓ)
    (upper : ℓ ≤ 6) {p : ParserM (CelNode δ)} (hp : Complete doubleParse last (ℓ + 1) n p) :
    Complete doubleParse last ℓ n (parseOperators last types p n) := by
  intro us e rest h hlength hrest
  obtain ⟨k, hk, hloop⟩ := parseOperators_continues htypes lower upper hp h hlength
  obtain ⟨j, hj⟩ : ∃ j, n - k = j + 1 := ⟨n - k - 1, by omega⟩
  have hskip : (rest.headD last).type ∉ types := by
    intro hmem
    rw [(htypes _).mp hmem] at hrest
    exact Nat.lt_irrefl ℓ hrest
  rw [hloop rest (Nat.lt_succ_of_lt hrest), hj, operatorLoop, matchTypes_skip hskip]
  rfl

theorem parseLogicalOr_complete (hternary : Complete doubleParse last 1 n parseTernary) :
    Complete doubleParse last 2 (n + 1)
      (parseLogicalOr last doubleParse parseTernary (n + 1)) := by
  have hunary : Complete doubleParse last 7 (n + 1)
      (parseUnary last doubleParse parseTernary (n + 1)) := fun us e rest h hlength hrest =>
    unaryLoop_complete (parsePostfix_complete hternary) (n + 1) h hlength hlength hrest
  have hmultiplicative : Complete doubleParse last 6 (n + 1)
      (parseMultiplicative last doubleParse parseTernary (n + 1)) :=
    parseOperators_complete (by rintro (_ | _) <;> decide) (by omega) (by omega) hunary
  have hadditive : Complete doubleParse last 5 (n + 1)
      (parseAdditive last doubleParse parseTernary (n + 1)) :=
    parseOperators_complete (by rintro (_ | _) <;> decide) (by omega) (by omega) hmultiplicative
  have hrelation : Complete doubleParse last 4 (n + 1)
      (parseRelation last doubleParse parseTernary (n + 1)) :=
    parseOperators_complete (by rintro (_ | _) <;> decide) (by omega) (by omega) hadditive
  have hand : Complete doubleParse last 3 (n + 1)
      (parseLogicalAnd last doubleParse parseTernary (n + 1)) :=
    parseOperators_complete (by rintro (_ | _) <;> decide) (by omega) (by omega) hrelation
  exact parseOperators_complete (by rintro (_ | _) <;> decide) (by omega) (by omega) hand

end

theorem parseTernary_complete (n : ℕ) :
    Complete doubleParse last 1 n (parseTernary last doubleParse (n + 1)) := by
  induction n with
  | zero => exact fun _ _ _ h hlength _ => (Nat.not_lt.mpr hlength h.length_pos).elim
  | succ n ih =>
      intro us e rest h hlength hrest
      have hor := parseLogicalOr_complete ih
      rw [parseTernary, parseTernaryBody]
      cases h with
      | tighter _ h =>
          have hskip : (rest.headD last).type ∉ [CelTokenType.question] := by
            intro hmem
            rw [List.mem_singleton.mp hmem] at hrest
            exact absurd hrest (by decide)
          rw [bind_of_ok (hor us e rest h hlength (Nat.lt_succ_of_lt hrest)),
            matchTypes_skip hskip]
          rfl
      | @ternary q colon us vs ws c t f question separator hc ht hf =>
          have hpos := hc.length_pos
          simp only [List.length_append, List.length_cons] at hlength
          have hcondition := hor us c (q :: (vs ++ colon :: ws) ++ rest) hc (by omega)
            (by rw [List.cons_append, List.headD_cons, question]; decide)
          have htrue := hor vs t (colon :: ws ++ rest) ht (by omega)
            (by rw [List.cons_append, List.headD_cons, separator]; decide)
          have hfalse := ih ws f rest hf (by omega) hrest
          rw [List.append_assoc, bind_of_ok hcondition, List.cons_append,
            match_consume (by rw [question]; exact List.mem_singleton_self _), List.append_assoc,
            bind_of_ok htrue, List.cons_append, bind_of_ok (consumeType_cons separator _),
            bind_of_ok hfalse]
          rfl
      | binaryOperator _ lower _ _ _ => omega

/-! ### The parser -/

mutual

/-- The end of the input is part of no expression. -/
theorem Parses.type_ne : {ℓ : ℕ} → {us : List CelToken} → {e : CelNode δ} →
    Parses doubleParse ℓ us e → ∀ t ∈ us, t.type ≠ .endOfInput
  | _, _, _, .tighter _ h => h.type_ne
  | _, _, _, .primary (t := t) h => by
      intro u hu htype
      obtain rfl := List.mem_singleton.mp hu
      rw [CelToken.node, htype] at h
      cases h
  | _, _, _, .paren left right h => by
      have ih := h.type_ne
      simpa [or_imp, forall_and, left, right] using ih
  | _, _, _, .memberAccess dot name h => by
      have ih := h.type_ne
      simpa [or_imp, forall_and, dot, name] using ih
  | _, _, _, .indexAccess left right h hi => by
      have ih := h.type_ne
      have ihi := hi.type_ne
      simpa [or_imp, forall_and, left, right] using ⟨ih, ihi⟩
  | _, _, _, .functionCall left right h hargs => by
      have ih := h.type_ne
      have ihargs := hargs.type_ne
      simpa [or_imp, forall_and, left, right] using ⟨ih, ihargs⟩
  | _, _, _, .unaryOperator type h => by
      have ih := h.type_ne
      rcases type with type | type <;> simpa [type] using ih
  | _, _, _, .binaryOperator level lower _ hl hr => by
      have ihl := hl.type_ne
      have ihr := hr.type_ne
      have hop : ∀ op : CelToken, 2 ≤ op.type.level → op.type ≠ .endOfInput := by
        intro op hlevel htype
        rw [htype] at hlevel
        exact absurd hlevel (by decide)
      simpa [or_imp, forall_and] using ⟨ihl, hop _ (level ▸ lower), ihr⟩
  | _, _, _, .ternary question separator hc ht hf => by
      have ihc := hc.type_ne
      have iht := ht.type_ne
      have ihf := hf.type_ne
      simpa [or_imp, forall_and, question, separator] using ⟨ihc, iht, ihf⟩

theorem ParsesArguments.type_ne : {us : List CelToken} → {es : List (CelNode δ)} →
    ParsesArguments doubleParse us es → ∀ t ∈ us, t.type ≠ .endOfInput
  | _, _, .nil => by simp
  | _, _, .cons h hrest => by
      have ih := h.type_ne
      have ihrest := hrest.type_ne
      simpa [or_imp, forall_and] using ⟨ih, ihrest⟩

theorem ParsesRest.type_ne : {us : List CelToken} → {es : List (CelNode δ)} →
    ParsesRest doubleParse us es → ∀ t ∈ us, t.type ≠ .endOfInput
  | _, _, .nil => by simp
  | _, _, .cons comma h hrest => by
      have ih := h.type_ne
      have ihrest := hrest.type_ne
      simpa [or_imp, forall_and, comma] using ⟨ih, ihrest⟩

end

theorem parse_eq {tokens : List CelToken} {e : CelNode δ} :
    parse doubleParse (tokens ++ [last]) = .ok e ↔
      ∃ rest, parseToEnd last doubleParse (tokens.length + 2) (tokens ++ [last])
        = .ok (e, rest) := by
  have hgetLast : (tokens ++ [last]).getLast? = some last := List.getLast?_concat
  have hlength : (tokens ++ [last]).length + 1 = tokens.length + 2 := by
    rw [List.length_append, List.length_singleton]
  rw [parse, hgetLast]
  simp only [hlength]
  cases parseToEnd last doubleParse (tokens.length + 2) (tokens ++ [last]) with
  | ok r =>
      constructor
      · intro h
        obtain rfl := Except.ok.inj h
        exact ⟨r.2, rfl⟩
      · rintro ⟨rest, h⟩
        obtain rfl := Except.ok.inj h
        rfl
  | error e => simp

/-- **The parser accepts the grammar.** On tokens that only the last of ends, it gives a node
exactly if all of them before that one are an expression with this node. -/
theorem parse_iff {tokens : List CelToken} (hlast : last.type = .endOfInput)
    (htokens : ∀ t ∈ tokens, t.type ≠ .endOfInput) {e : CelNode δ} :
    parse doubleParse (tokens ++ [last]) = .ok e ↔ Parses doubleParse 1 tokens e := by
  rw [parse_eq]
  constructor
  · rintro ⟨rest, h⟩
    obtain ⟨expr, mid, hexpr, h⟩ := bind_ok.mp h
    obtain ⟨us, heq, hus⟩ := parseTernary_sound hlast _ _ _ _ hexpr
    change (if (mid.headD last).type ≠ .endOfInput then unexpectedToken last
      else pure expr : ParserM (CelNode δ)) mid = _ at h
    split at h
    · exact (unexpectedToken_ok h).elim
    · next hend =>
        obtain ⟨rfl, rfl⟩ := pure_ok.mp h
        -- the first end of input is the last token, so `us` is all that stands before it
        cases mid with
        | nil =>
            rw [List.append_nil] at heq
            exact (hus.type_ne last (heq ▸ List.mem_append_right _ (List.mem_singleton_self _))
              hlast).elim
        | cons t mid =>
            have htype : t.type = .endOfInput := not_not.mp hend
            rcases List.append_eq_append_iff.mp heq with ⟨vs, rfl, hvs⟩ | ⟨vs, rfl, hvs⟩
            · cases vs with
              | nil => simpa using hus
              | cons v vs =>
                  rw [List.cons_append] at hvs
                  obtain ⟨rfl, -⟩ := List.cons.inj hvs
                  exact (hus.type_ne last (by simp) hlast).elim
            · cases vs with
              | nil => simpa using hus
              | cons v vs =>
                  rw [List.cons_append] at hvs
                  obtain ⟨rfl, -⟩ := List.cons.inj hvs
                  exact (htokens t (by simp) htype).elim
  · intro h
    have hfollow : ([last].headD last).type.level < 1 := by
      rw [List.headD_cons, hlast]
      decide
    refine ⟨[last], ?_⟩
    rw [parseToEnd, bind_of_ok (parseTernary_complete _ tokens e [last] h (by omega) hfollow)]
    change (if last.type ≠ .endOfInput then unexpectedToken last
      else pure e : ParserM (CelNode δ)) [last] = _
    rw [if_neg (not_not.mpr hlast)]
    rfl

end AutoInstrumentation.Cel
