import AutoInstrumentation.ReflectionName.Qualification

/-!
# AutoInstrumentation.ReflectionName.ParserSound

The parser on the type names of the grammar.

`collectType_text` says what the collector does with the text of a syntax tree: it
appends the references of the tree, in order and at their places, or it fails, and it
fails exactly when a bracket opens below the maximum depth or a bare simple name has an
escaped quote. The identifiers must not contain quotes of their own: the searches take
any quote that is not escaped for the start of a quotation.
-/

namespace AutoInstrumentation.ReflectionName

open Lib

/-! ### The texts are closed -/

theorem closed_blank {text : List Byte} (h : isBlank text = true) : Closed false text := by
  induction text with
  | nil => exact .nil
  | cons c text ih =>
      obtain ⟨hc, htext⟩ := Bool.and_eq_true_iff.mp h
      obtain ⟨hord, hcomma, -⟩ := isAsciiSpace_ordinary hc
      exact .plain hord (fun h => absurd h hcomma) (ih htext)

theorem Closed.single {commas : Bool} {c : Byte} (h : isOrdinary c = true)
    (hc : c = comma → commas = true) : Closed commas [c] :=
  .plain h hc .nil

theorem closed_entry {e : Entry} (h : e.wellFormed = true) : Closed false e.text := by
  rw [Entry.wellFormed] at h
  rw [Entry.text]
  cases hq : e.quote with
  | some q =>
      rw [hq] at h
      obtain ⟨hquote, hitems⟩ := Bool.and_eq_true_iff.mp h
      exact .quoted hquote (quoted_items hitems) .nil
  | none =>
      rw [hq] at h
      refine .flatMap fun item hitem => ?_
      have hwf := List.all_eq_true.mp (Bool.and_eq_true_iff.mp h).2 item hitem
      cases item with
      | escaped c => exact .escaped .nil
      | plain c =>
          obtain ⟨hord, hcomma⟩ := bareOk_ordinary hwf
          exact .single hord fun h => absurd h hcomma

theorem closed_property {p : Property} (h : p.wellFormed = true) : Closed true p.text := by
  simp only [Property.wellFormed, Bool.and_eq_true] at h
  obtain ⟨⟨⟨⟨⟨⟨⟨hcomma, hbefore⟩, hequals⟩, hvalue⟩, hkey⟩, -⟩, hentry⟩, -⟩ := h
  have hhead : Closed false p.head :=
    ((((closed_blank hbefore).append (closed_entry hkey)).append (closed_blank hequals)).append
      (.single (by decide) (by decide))).append (closed_blank hvalue)
  exact (closed_blank hcomma).mono.append
    (.plain (by decide) (fun _ => rfl) (hhead.append (closed_entry hentry)).mono)

theorem closed_qualification {q : Qualification} (h : q.wellFormed = true) :
    Closed true q.text := by
  simp only [Qualification.wellFormed, Bool.and_eq_true] at h
  obtain ⟨⟨⟨⟨hcomma, hbefore⟩, hname⟩, -⟩, hprops⟩ := h
  have hhead := ((closed_blank hbefore).append (closed_entry hname)).mono
  refine (closed_blank hcomma).mono.append (.plain (by decide) (fun _ => rfl) ?_)
  exact hhead.append (.flatMap fun p hp => closed_property (List.all_eq_true.mp hprops p hp))

theorem identifierOk_ordinary {c : Byte} (h : identifierOk c = true) (hq : isQuote c = false) :
    isOrdinary c = true ∧ c ≠ comma := by
  simp only [identifierOk, Bool.not_eq_true', Bool.or_eq_false_iff, beq_eq_false_iff_ne] at h
  obtain ⟨⟨⟨⟨⟨⟨hb, hcomma⟩, -⟩, -⟩, -⟩, ho⟩, hc⟩ := h
  exact ⟨isOrdinary_iff.mpr ⟨hb, hq, ho, hc⟩, hcomma⟩

/-- The characters of identifiers, one by one. -/
theorem names_cases {n : Names} (h : n.wellFormed = true) (hq : n.quoteFree = true) :
    ∀ items ∈ n.outer :: n.nested, isSolid items = true ∧ ∀ item ∈ items,
      item.wellFormed identifierOk = true
        ∧ ∀ c, item = .plain c → isOrdinary c = true ∧ c ≠ comma := by
  intro items hitems
  obtain ⟨hsolid, hall⟩ := Bool.and_eq_true_iff.mp (List.all_eq_true.mp h items hitems)
  refine ⟨hsolid, fun item hitem => ⟨List.all_eq_true.mp hall item hitem, ?_⟩⟩
  rintro c rfl
  have hwf := List.all_eq_true.mp hall _ hitem
  have hfree := List.all_eq_true.mp (List.all_eq_true.mp hq items hitems) _ hitem
  exact identifierOk_ordinary hwf ((Bool.not_eq_true' _).mp hfree)

theorem closed_identifier {items : List Item}
    (h : ∀ item ∈ items, ∀ c, item = .plain c → isOrdinary c = true ∧ c ≠ comma) :
    Closed false (itemsText items) := by
  refine .flatMap fun item hitem => ?_
  cases item with
  | escaped c => exact .escaped .nil
  | plain c =>
      obtain ⟨hord, hcomma⟩ := h _ hitem c rfl
      exact .single hord fun h => absurd h hcomma

theorem closed_names {n : Names} (h : n.wellFormed = true) (hq : n.quoteFree = true) :
    Closed false n.text := by
  have hcases := names_cases h hq
  refine (closed_identifier fun item hitem => ((hcases _ List.mem_cons_self).2 item hitem).2).append
    (.flatMap fun items hitems => .plain (by decide) (by decide) (closed_identifier ?_))
  exact fun item hitem => ((hcases _ (List.mem_cons_of_mem _ hitems)).2 item hitem).2

theorem closed_dimensions (dimension : Bool) (dimensions : List Bool) :
    Closed true (Suffix.dimensionsText dimension dimensions) := by
  have hone : ∀ d, Closed true (Suffix.dimensionText d) := fun d => by
    cases d with
    | false => exact .nil
    | true => exact .single (by decide) fun _ => rfl
  exact (hone dimension).append
    (.flatMap fun d _ => .plain (by decide) (fun _ => rfl) (hone d))

theorem closed_suffixes (suffixes : List Suffix) : Closed false (suffixesText suffixes) := by
  refine .flatMap fun suffix _ => ?_
  cases suffix with
  | pointer => exact .single (by decide) (by decide)
  | byRef => exact .single (by decide) (by decide)
  | array dimension dimensions => exact .group (closed_dimensions dimension dimensions) .nil

mutual

theorem closed_type : (t : TypeName) → t.wellFormed = true → t.quoteFree = true →
    Closed true t.text
  | .mk before names arguments suffixes assembly behind, h, hq => by
      simp only [TypeName.wellFormed, Bool.and_eq_true] at h
      obtain ⟨⟨⟨⟨hbefore, hnames⟩, harguments⟩, hassembly⟩, hbehind⟩ := h
      obtain ⟨hqnames, hqarguments⟩ := Bool.and_eq_true_iff.mp hq
      have hlist := closed_list arguments harguments hqarguments
      have hqual : Closed true (assemblyText assembly) := by
        cases assembly with
        | none => exact .nil
        | some q => exact closed_qualification hassembly
      rw [TypeName.text]
      refine ((closed_blank hbefore).mono.append (.append ?_ hqual)).append
        (closed_blank hbehind).mono
      exact (((closed_names hnames hqnames).append hlist).append (closed_suffixes suffixes)).mono

theorem closed_argument : (a : Argument) → a.wellFormed = true → a.quoteFree = true →
    Closed false a.text
  | .bare (.mk before names arguments suffixes assembly behind), h, hq => by
      obtain ⟨hnone, h⟩ := Bool.and_eq_true_iff.mp h
      obtain rfl := Option.isNone_iff_eq_none.mp hnone
      simp only [TypeName.wellFormed, Bool.and_eq_true] at h
      obtain ⟨⟨⟨⟨hbefore, hnames⟩, harguments⟩, -⟩, hbehind⟩ := h
      obtain ⟨hqnames, hqarguments⟩ := Bool.and_eq_true_iff.mp hq
      have hlist := closed_list arguments harguments hqarguments
      rw [Argument.text, TypeName.text]
      refine ((closed_blank hbefore).append (.append ?_ .nil)).append (closed_blank hbehind)
      exact ((closed_names hnames hqnames).append hlist).append (closed_suffixes suffixes)
  | .bracketed before type behind, h, hq => by
      simp only [Argument.wellFormed, Bool.and_eq_true] at h
      obtain ⟨⟨hbefore, htype⟩, hbehind⟩ := h
      rw [Argument.text]
      exact ((closed_blank hbefore).append (.group (closed_type type htype hq) .nil)).append
        (closed_blank hbehind)

theorem closed_list : (arguments : List Argument) → argumentsWellFormed arguments = true →
    argumentsQuoteFree arguments = true → Closed false (listText arguments)
  | [], _, _ => by
      rw [listText]
      exact .nil
  | argument :: arguments, h, hq => by
      obtain ⟨hargument, harguments⟩ := Bool.and_eq_true_iff.mp h
      obtain ⟨hqargument, hqarguments⟩ := Bool.and_eq_true_iff.mp hq
      rw [listText]
      exact .group ((closed_argument argument hargument hqargument).mono.append
        (closed_more arguments harguments hqarguments)) .nil

theorem closed_more : (arguments : List Argument) → argumentsWellFormed arguments = true →
    argumentsQuoteFree arguments = true → Closed true (moreText arguments)
  | [], _, _ => by
      rw [moreText]
      exact .nil
  | argument :: arguments, h, hq => by
      obtain ⟨hargument, harguments⟩ := Bool.and_eq_true_iff.mp h
      obtain ⟨hqargument, hqarguments⟩ := Bool.and_eq_true_iff.mp hq
      rw [moreText]
      exact .plain (by decide) (fun _ => rfl)
        ((closed_argument argument hargument hqargument).mono.append
          (closed_more arguments harguments hqarguments))

end

/-! ### Collectors -/

/-- If `ok`, the collector succeeds and appends `found`; otherwise it fails. -/
def Collects (c : Collector) (ok : Bool) (found : List ParsedAssemblyReference) : Prop :=
  ∀ references, if ok then c references = (true, references ++ found)
    else (c references).1 = false

namespace Collects

theorem succeed : Collects .succeed true [] := fun references => by
  rw [if_pos rfl, Collector.succeed, List.append_nil]

theorem fail (found : List ParsedAssemblyReference) : Collects .fail false found := fun _ => rfl

theorem push (reference : ParsedAssemblyReference) :
    Collects (.push reference) true [reference] := fun _ => rfl

theorem andThen {c d : Collector} {ok ok' : Bool} {found found' : List ParsedAssemblyReference}
    (hc : Collects c ok found) (hd : Collects d ok' found') :
    Collects (c.andThen d) (ok && ok') (found ++ found') := by
  intro references
  have h := hc references
  rw [Collector.andThen]
  cases ok with
  | false =>
      rw [if_neg Bool.false_ne_true] at h
      rw [Bool.false_and, if_neg Bool.false_ne_true]
      cases hr : c references with
      | mk success left =>
          rw [hr] at h
          obtain rfl : success = false := h
          rfl
  | true =>
      rw [if_pos rfl] at h
      rw [h, Bool.true_and, ← List.append_assoc]
      exact hd (references ++ found)

theorem cast {c : Collector} {ok ok' : Bool} {found : List ParsedAssemblyReference}
    (h : Collects c ok found) (hok : ok = ok') : Collects c ok' found := hok ▸ h

end Collects

/-! ### Fuel -/

theorem length_after (s : Span) (n : ℕ) : (s.after n).text.length = s.text.length - n :=
  List.length_drop

/-- A turn of the loop leaves less text, so the length of the text is enough fuel. -/
theorem collectTypeLoop_fuel (nested : Option (Span → Collector)) {fuel fuel' : ℕ} {s : Span}
    (h : s.text.length < fuel) (h' : s.text.length < fuel') :
    collectTypeLoop nested fuel s = collectTypeLoop nested fuel' s := by
  induction fuel generalizing fuel' s with
  | zero => omega
  | succ fuel ih =>
      obtain ⟨fuel', rfl⟩ : ∃ n, fuel' = n + 1 := ⟨fuel' - 1, by omega⟩
      rw [collectTypeLoop, collectTypeLoop]
      have hafter : ∀ n, 0 < n → s.text ≠ [] →
          collectTypeLoop nested fuel (s.after n) = collectTypeLoop nested fuel' (s.after n) := by
        intro n hn hne
        have hpos := List.length_pos_of_ne_nil hne
        exact ih (by rw [length_after]; omega) (by rw [length_after]; omega)
      cases htext : s.text with
      | nil => rfl
      | cons c text =>
          have hne : s.text ≠ [] := by rw [htext]; exact List.cons_ne_nil c text
          simp only [hafter 1 Nat.one_pos hne, hafter 2 (by decide) hne,
            fun n => hafter (n + 1) (Nat.succ_pos n) hne]

theorem collectGenericLoop_fuel (collect : Span → Collector) {fuel fuel' : ℕ} {s : Span}
    (h : s.text.length < fuel) (h' : s.text.length < fuel') :
    collectGenericLoop collect fuel s = collectGenericLoop collect fuel' s := by
  induction fuel generalizing fuel' s with
  | zero => omega
  | succ fuel ih =>
      obtain ⟨fuel', rfl⟩ : ∃ n, fuel' = n + 1 := ⟨fuel' - 1, by omega⟩
      rw [collectGenericLoop, collectGenericLoop]
      by_cases hne : s.text = []
      · rw [if_pos hne, if_pos hne]
      · have hpos := List.length_pos_of_ne_nil hne
        have hafter : ∀ n, collectGenericLoop collect fuel (s.after (n + 1))
            = collectGenericLoop collect fuel' (s.after (n + 1)) := fun n =>
          ih (by rw [length_after]; omega) (by rw [length_after]; omega)
        rw [if_neg hne, if_neg hne]
        simp only [hafter]

theorem tryGetNextQualifierPart_length {s part rest : Span} (hne : s.text ≠ [])
    (h : tryGetNextQualifierPart s = some (part, rest)) : rest.text.length < s.text.length := by
  have hpos := List.length_pos_of_ne_nil hne
  rw [tryGetNextQualifierPart] at h
  cases hfind : findUnescaped comma none s.text with
  | none => rw [hfind] at h; cases h
  | some position =>
      rw [hfind] at h
      cases position with
      | none =>
          obtain ⟨-, rfl⟩ := Prod.mk.inj (Option.some.inj h)
          rw [length_after]
          omega
      | some position =>
          obtain ⟨-, rfl⟩ := Prod.mk.inj (Option.some.inj h)
          rw [length_after]
          omega

theorem qualifierLoop_fuel {fuel fuel' : ℕ} {s : Span} (h : s.text.length < fuel)
    (h' : s.text.length < fuel') (reference : ParsedAssemblyReference) :
    qualifierLoop fuel s reference = qualifierLoop fuel' s reference := by
  induction fuel generalizing fuel' s reference with
  | zero => omega
  | succ fuel ih =>
      obtain ⟨fuel', rfl⟩ : ∃ n, fuel' = n + 1 := ⟨fuel' - 1, by omega⟩
      rw [qualifierLoop, qualifierLoop]
      by_cases hne : s.text = []
      · rw [if_pos hne, if_pos hne]
      · rw [if_neg hne, if_neg hne]
        cases hpart : tryGetNextQualifierPart s with
        | none => rfl
        | some r =>
            obtain ⟨part, rest⟩ := r
            have hless := tryGetNextQualifierPart_length hne hpart
            cases hread : readQualifier part reference with
            | none => simp only [hread]
            | some reference =>
                have hrest : qualifierLoop fuel rest reference = qualifierLoop fuel' rest reference :=
                  ih (by omega) (by omega) reference
                simp only [hread, hrest]

/-! ### The loop over the type name -/

/-- The loop with enough fuel. -/
def collectRest (nested : Option (Span → Collector)) (s : Span) : Collector :=
  collectTypeLoop nested (s.text.length + 1) s

theorem collectRest_nil (nested : Option (Span → Collector)) (start : ℕ) :
    collectRest nested ⟨start, []⟩ = .succeed := rfl

theorem collectRest_escape (nested : Option (Span → Collector)) (start : ℕ) (c : Byte)
    (rest : List Byte) :
    collectRest nested ⟨start, backslash :: c :: rest⟩ = collectRest nested ⟨start + 2, rest⟩ := by
  rw [collectRest, collectTypeLoop]
  simp only [if_pos, List.cons_ne_nil, if_false]
  exact collectTypeLoop_fuel nested (Nat.lt_succ_of_le (Nat.le_succ _)) (Nat.lt_succ_self _)

theorem collectRest_plain (nested : Option (Span → Collector)) (start : ℕ) {c : Byte}
    (hb : c ≠ backslash) (ho : c ≠ openBracket) (rest : List Byte) :
    collectRest nested ⟨start, c :: rest⟩ = collectRest nested ⟨start + 1, rest⟩ := by
  rw [collectRest, collectTypeLoop]
  simp only [if_neg hb, if_neg ho]
  rfl

theorem collectRest_group (nested : Option (Span → Collector)) (start : ℕ) {inner : List Byte}
    (h : Closed true inner) (rest : List Byte) :
    collectRest nested ⟨start, openBracket :: (inner ++ closeBracket :: rest)⟩
      = match nested with
        | none => .fail
        | some collect => (collect ⟨start + 1, inner⟩).andThen
            (collectRest nested ⟨start + 1 + inner.length + 1, rest⟩) := by
  rw [collectRest, collectTypeLoop]
  simp only [findClosingBracket_group h, if_neg (show openBracket ≠ backslash by decide),
    if_pos]
  cases nested with
  | none => rfl
  | some collect =>
      have hafter : (Span.mk start (openBracket :: (inner ++ closeBracket :: rest))).after
          (inner.length + 1 + 1) = ⟨start + 1 + inner.length + 1, rest⟩ := by
        rw [Span.after, List.drop_succ_cons, List.drop_append, List.drop_of_length_le (Nat.le_succ _),
          Nat.add_sub_cancel_left]
        simp only [List.nil_append, List.drop_succ_cons, List.drop_zero]
        congr 1
        omega
      have htake : (inner ++ closeBracket :: rest).take (inner.length + 1 - 1) = inner := by
        rw [Nat.add_sub_cancel, List.take_left]
      simp only [hafter, htake]
      congr 1
      refine collectTypeLoop_fuel _ ?_ (Nat.lt_succ_self _)
      simp only [List.length_cons, List.length_append]
      omega

theorem collectRest_items (nested : Option (Span → Collector)) {items : List Item}
    (h : ∀ item ∈ items, ∀ c, item = .plain c → isOrdinary c = true ∧ c ≠ comma) (start : ℕ)
    (rest : List Byte) :
    collectRest nested ⟨start, itemsText items ++ rest⟩
      = collectRest nested ⟨start + (itemsText items).length, rest⟩ := by
  induction items generalizing start with
  | nil => rfl
  | cons item items ih =>
      have ih := ih fun item hitem => h item (List.mem_cons_of_mem _ hitem)
      have htext : itemsText (item :: items) = item.text ++ itemsText items := List.flatMap_cons
      rw [htext, List.append_assoc, List.length_append, ← Nat.add_assoc]
      cases item with
      | escaped c =>
          rw [Item.text, List.cons_append, List.singleton_append, collectRest_escape, ih]
          rfl
      | plain c =>
          obtain ⟨hord, -⟩ := h _ List.mem_cons_self c rfl
          obtain ⟨hb, -, ho, -⟩ := isOrdinary_iff.mp hord
          rw [Item.text, List.singleton_append, collectRest_plain nested start hb ho, ih]
          rfl

theorem collectRest_names (nested : Option (Span → Collector)) {n : Names}
    (h : n.wellFormed = true) (hq : n.quoteFree = true) (start : ℕ) (rest : List Byte) :
    collectRest nested ⟨start, n.text ++ rest⟩
      = collectRest nested ⟨start + n.text.length, rest⟩ := by
  have hcases := names_cases h hq
  have hplus : ∀ nestedNames : List (List Item), (∀ items ∈ nestedNames, items ∈ n.nested) →
      ∀ start, collectRest nested ⟨start,
          (nestedNames.flatMap fun items => plus :: itemsText items) ++ rest⟩
        = collectRest nested
          ⟨start + (nestedNames.flatMap fun items => plus :: itemsText items).length, rest⟩ := by
    intro nestedNames hsub
    induction nestedNames with
    | nil => exact fun start => rfl
    | cons items more ih =>
        intro start
        have hitems := hsub items List.mem_cons_self
        rw [List.flatMap_cons, List.append_assoc, List.cons_append,
          collectRest_plain nested start (by decide) (by decide), collectRest_items nested
            (fun item hitem => ((hcases _ (List.mem_cons_of_mem _ hitems)).2 item hitem).2),
          ih fun items hitems => hsub items (List.mem_cons_of_mem _ hitems)]
        congr 2
        simp only [List.length_append, List.length_cons]
        omega
  rw [Names.text, List.append_assoc, collectRest_items nested
    (fun item hitem => ((hcases _ List.mem_cons_self).2 item hitem).2), hplus _ fun _ h => h,
    List.length_append, Nat.add_assoc]

/-! ### Argument lists -/

/-- The arguments of a list without its brackets. -/
def joinedText : List Argument → List Byte
  | [] => []
  | argument :: arguments => argument.text ++ moreText arguments

theorem collectArguments_nil (collect : Span → Collector) (start : ℕ) :
    collectGenericTypeArguments collect ⟨start, []⟩ = .succeed := rfl

/-- What the loop does with an argument and the comma behind it. -/
theorem collectArguments_step (collect : Span → Collector) {text tail : List Byte}
    (h : Closed false text) (htail : tail = [] ∨ ∃ more, tail = comma :: more) (start : ℕ) :
    collectGenericTypeArguments collect ⟨start, text ++ tail⟩
      = if (Span.mk start text).trimmed.text = [] then
          collectGenericTypeArguments collect ⟨start + text.length + 1, tail.tail⟩
        else
          match unbracketed (Span.mk start text).trimmed with
          | none => .fail
          | some argument => (collect argument).andThen
              (collectGenericTypeArguments collect ⟨start + text.length + 1, tail.tail⟩) := by
  have hsep := findTopLevelSeparator_closed h (show false = true → 0 < 0 from fun h => by cases h) tail
  by_cases hne : text ++ tail = []
  · obtain ⟨rfl, rfl⟩ := List.append_eq_nil_iff.mp hne
    rfl
  · have hpos := List.length_pos_of_ne_nil hne
    -- the separator is the comma behind the argument, or there is none
    obtain ⟨separator, hfind, hlength, hafter⟩ : ∃ separator,
        findTopLevelSeparator comma none 0 (text ++ tail) = some separator
          ∧ (Span.mk start (text ++ tail)).upTo (separator.getD (text ++ tail).length)
            = ⟨start, text⟩
          ∧ (Span.mk start (text ++ tail)).after (separator.getD (text ++ tail).length + 1)
            = ⟨start + text.length + 1, tail.tail⟩ := by
      rcases htail with rfl | ⟨more, rfl⟩
      · refine ⟨none, hsep, ?_, ?_⟩
        · simp only [List.append_nil, Option.getD_none, Span.upTo, List.take_length]
        · simp only [List.append_nil, Option.getD_none, Span.after, List.tail_nil,
            List.drop_of_length_le (Nat.le_succ _), Nat.add_assoc]
      · refine ⟨some text.length, ?_, ?_, ?_⟩
        · rw [hsep, findTopLevelSeparator_plain (by decide) (by decide), if_neg (by decide),
            if_neg (by decide), if_pos ⟨rfl, rfl, rfl⟩]
          show some (some (0 + text.length)) = _
          rw [Nat.zero_add]
        · simp only [Option.getD_some, Span.upTo, List.take_left]
        · simp only [Option.getD_some, Span.after, List.drop_append,
            List.drop_of_length_le (Nat.le_succ _), Nat.add_sub_cancel_left, List.nil_append,
            List.drop_succ_cons, List.drop_zero, List.tail_cons, Nat.add_assoc]
    have hshort : tail.tail.length < (text ++ tail).length := by
      rw [List.length_tail, List.length_append] at *
      omega
    have hrest : collectGenericLoop collect (text ++ tail).length
        ⟨start + text.length + 1, tail.tail⟩
        = collectGenericTypeArguments collect ⟨start + text.length + 1, tail.tail⟩ :=
      collectGenericLoop_fuel collect hshort (Nat.lt_succ_self _)
    rw [collectGenericTypeArguments, collectGenericLoop, if_neg hne]
    simp only [hfind, hlength, hafter, hrest]
    all_goals rfl

theorem andThen_succeed (c : Collector) : Collector.andThen .succeed c = c := rfl

theorem collectType_star (levels start : ℕ) : collectType levels ⟨start, [star]⟩ = .succeed := by
  cases levels <;> rfl

/-- The dimensions of an array are collected as arguments, and are without references. -/
theorem collectArguments_dimensions (levels : ℕ) (dimension : Bool) (dimensions : List Bool)
    (start : ℕ) :
    collectGenericTypeArguments (collectType levels)
      ⟨start, Suffix.dimensionsText dimension dimensions⟩ = .succeed := by
  have hone : ∀ (d : Bool) (tail : List Byte) (start : ℕ),
      (tail = [] ∨ ∃ more, tail = comma :: more) →
      collectGenericTypeArguments (collectType levels) ⟨start, Suffix.dimensionText d ++ tail⟩
        = collectGenericTypeArguments (collectType levels)
          ⟨start + (Suffix.dimensionText d).length + 1, tail.tail⟩ := by
    intro d tail start htail
    cases d with
    | false => exact collectArguments_step _ .nil htail start
    | true =>
        refine (collectArguments_step _ (.single (by decide) (by decide)) htail start).trans ?_
        show Collector.andThen (collectType levels ⟨start, [star]⟩) _ = _
        rw [collectType_star, andThen_succeed]
        rfl
  rw [Suffix.dimensionsText]
  induction dimensions generalizing dimension start with
  | nil =>
      rw [List.flatMap_nil, hone dimension _ start (.inl rfl)]
      rfl
  | cons d dimensions ih =>
      rw [List.flatMap_cons, List.cons_append, hone dimension _ start (.inr ⟨_, rfl⟩)]
      exact ih d _

/-- What is left of `max_generic_nesting_depth` allows brackets, or does not. -/
def nestedAt : ℕ → Option (Span → Collector)
  | 0 => none
  | levels + 1 => some (collectGenericTypeArguments (collectType levels))

theorem collectType_eq (levels : ℕ) : collectType levels = collectTypeBody (nestedAt levels) := by
  cases levels <;> rfl

theorem collectRest_blank (nested : Option (Span → Collector)) {text : List Byte}
    (h : isBlank text = true) (start : ℕ) : collectRest nested ⟨start, text⟩ = .succeed := by
  induction text generalizing start with
  | nil => rfl
  | cons c text ih =>
      obtain ⟨hc, htext⟩ := Bool.and_eq_true_iff.mp h
      obtain ⟨hb, -, ho, -⟩ := isOrdinary_iff.mp (isAsciiSpace_ordinary hc).1
      rw [collectRest_plain nested start hb ho]
      exact ih htext (start + 1)

theorem collectRest_suffixes (levels : ℕ) (suffixes : List Suffix) {tail : List Byte}
    (htail : isBlank tail = true) (start : ℕ) :
    Collects (collectRest (nestedAt levels) ⟨start, suffixesText suffixes ++ tail⟩)
      (!suffixes.any Suffix.isArray || 0 < levels) [] := by
  induction suffixes generalizing start with
  | nil =>
      rw [suffixesText, List.flatMap_nil, List.nil_append, collectRest_blank _ htail]
      exact .succeed
  | cons suffix suffixes ih =>
      rw [suffixesText, List.flatMap_cons, List.any_cons, List.append_assoc]
      cases suffix with
      | pointer =>
          rw [Suffix.text, List.singleton_append, collectRest_plain _ _ (by decide) (by decide)]
          exact ih (start + 1)
      | byRef =>
          rw [Suffix.text, List.singleton_append, collectRest_plain _ _ (by decide) (by decide)]
          exact ih (start + 1)
      | array dimension dimensions =>
          rw [Suffix.text, List.cons_append, List.append_assoc, List.singleton_append,
            collectRest_group _ _ (closed_dimensions dimension dimensions)]
          cases levels with
          | zero => exact .fail []
          | succ levels =>
              have hrest := ih (start + 1 + (Suffix.dimensionsText dimension dimensions).length + 1)
              simp only [nestedAt, collectArguments_dimensions, andThen_succeed]
              refine hrest.cast ?_
              simp only [Nat.succ_pos, decide_true, Bool.or_true]

/-! ### Type names -/

theorem solid_suffix (suffix : Suffix) : Solid suffix.text := by
  cases suffix with
  | pointer => exact ⟨⟨star, [], rfl, rfl⟩, [], star, rfl, rfl⟩
  | byRef => exact ⟨⟨ampersand, [], rfl, rfl⟩, [], ampersand, rfl, rfl⟩
  | array dimension dimensions => exact ⟨⟨openBracket, _, rfl, rfl⟩, openBracket ::
      Suffix.dimensionsText dimension dimensions, closeBracket, rfl, rfl⟩

/-- Behind solid text, only the last character counts. -/
theorem solid_append_flatMap {α : Type} {text : List Byte} (h : Solid text) {f : α → List Byte}
    {xs : List α} (hf : ∀ x ∈ xs, ∃ front c, f x = front ++ [c] ∧ isAsciiSpace c = false) :
    Solid (text ++ xs.flatMap f) := by
  induction xs generalizing text with
  | nil => rwa [List.flatMap_nil, List.append_nil]
  | cons x xs ih =>
      rw [List.flatMap_cons, ← List.append_assoc]
      refine ih ?_ fun y hy => hf y (List.mem_cons_of_mem x hy)
      obtain ⟨front, c, hx, hc⟩ := hf x List.mem_cons_self
      rw [hx]
      exact h.append ⟨⟨c, [], rfl, hc⟩, [], c, rfl, hc⟩ front

theorem solid_names {n : Names} (h : n.wellFormed = true) : Solid n.text := by
  have hall : ∀ items ∈ n.outer :: n.nested, Solid (itemsText items) := fun items hitems => by
    obtain ⟨hsolid, hwf⟩ := Bool.and_eq_true_iff.mp (List.all_eq_true.mp h items hitems)
    exact solid_items hsolid hwf
  refine solid_append_flatMap (hall _ List.mem_cons_self) fun items hitems => ?_
  obtain ⟨front, c, htext, hc⟩ := (hall items (List.mem_cons_of_mem _ hitems)).last
  exact ⟨plus :: front, c, by rw [htext]; rfl, hc⟩

/-- The type proper, without the assembly and the whitespace around. -/
theorem solid_spec {names : Names} (h : names.wellFormed = true) (arguments : List Argument)
    (suffixes : List Suffix) :
    Solid (names.text ++ listText arguments ++ suffixesText suffixes) := by
  refine solid_append_flatMap ?_ fun suffix _ => (solid_suffix suffix).last
  cases arguments with
  | nil =>
      rw [listText, List.append_nil]
      exact solid_names h
  | cons argument arguments =>
      rw [listText]
      have hbracket : Solid [closeBracket] := ⟨⟨_, [], rfl, rfl⟩, [], _, rfl, rfl⟩
      exact (solid_names h).append hbracket
        (openBracket :: (argument.text ++ moreText arguments))

theorem solid_body {names : Names} (h : names.wellFormed = true) (arguments : List Argument)
    (suffixes : List Suffix) {assembly : Option Qualification}
    (hassembly : assembly.all Qualification.wellFormed = true) :
    Solid (names.text ++ listText arguments ++ suffixesText suffixes ++ assemblyText assembly) := by
  have hspec := solid_spec h arguments suffixes
  cases assembly with
  | none =>
      rw [assemblyText, List.append_nil]
      exact hspec
  | some q =>
      have hq : q.wellFormed = true := hassembly
      simp only [Qualification.wellFormed, Bool.and_eq_true] at hq
      obtain ⟨⟨⟨⟨-, -⟩, hname⟩, -⟩, hprops⟩ := hq
      rw [assemblyText, Qualification.text]
      have htail : Solid (names.text ++ listText arguments ++ suffixesText suffixes
          ++ (q.beforeComma ++ comma :: q.beforeName ++ q.name.text)) :=
        hspec.append (solid_entry hname) (q.beforeComma ++ comma :: q.beforeName)
      have hlast : ∀ p ∈ q.properties, ∃ front c, p.text = front ++ [c]
          ∧ isAsciiSpace c = false := fun p hp => by
        have hpw := List.all_eq_true.mp hprops p hp
        simp only [Property.wellFormed, Bool.and_eq_true] at hpw
        obtain ⟨front, c, htext, hc⟩ := (solid_entry hpw.1.2).last
        refine ⟨p.beforeComma ++ comma :: (p.head ++ front), c, ?_, hc⟩
        simp only [Property.text, htext, List.append_assoc, List.cons_append]
      have hfull := solid_append_flatMap htail hlast
      simpa only [propertiesText, List.append_assoc, List.cons_append] using hfull

/-- The loop over the type proper and blanks: the generic arguments, then the arrays. -/
theorem collectRest_spec (levels : ℕ) {names : Names} (h : names.wellFormed = true)
    (hq : names.quoteFree = true) {arguments : List Argument}
    (hclosed : Closed true (joinedText arguments)) (suffixes : List Suffix) {tail : List Byte}
    (htail : isBlank tail = true) (start : ℕ)
    {ok : Bool} {found : List ParsedAssemblyReference}
    (harguments : ∀ k, levels = k + 1 → Collects
      (collectGenericTypeArguments (collectType k)
        ⟨start + names.text.length + 1, joinedText arguments⟩) ok found) :
    Collects (collectRest (nestedAt levels)
        ⟨start, names.text ++ listText arguments ++ suffixesText suffixes ++ tail⟩)
      ((arguments.isEmpty || (0 < levels && ok)) && (!suffixes.any Suffix.isArray || 0 < levels))
      (if arguments.isEmpty then [] else found) := by
  rw [List.append_assoc, List.append_assoc, collectRest_names _ h hq]
  cases arguments with
  | nil =>
      rw [listText, List.nil_append]
      exact collectRest_suffixes levels suffixes htail _
  | cons argument arguments =>
      have htext : listText (argument :: arguments) ++ (suffixesText suffixes ++ tail)
          = openBracket :: (joinedText (argument :: arguments)
            ++ closeBracket :: (suffixesText suffixes ++ tail)) := by
        simp only [listText, joinedText, List.cons_append, List.append_assoc, List.nil_append]
      rw [htext, collectRest_group _ _ hclosed]
      cases levels with
      | zero => exact .fail _
      | succ k =>
          have hrest := collectRest_suffixes (k + 1) suffixes htail (start + names.text.length + 1
            + (joinedText (argument :: arguments)).length + 1)
          have hall := (harguments k rfl).andThen hrest
          rw [List.append_nil] at hall
          refine hall.cast ?_
          simp only [List.isEmpty_cons, Bool.false_or, Nat.succ_pos, decide_true, Bool.true_and]

theorem trimmed_type {before : List Byte} {names : Names} {arguments : List Argument}
    {suffixes : List Suffix} {assembly : Option Qualification} {behind : List Byte}
    (h : (TypeName.mk before names arguments suffixes assembly behind).wellFormed = true)
    (start : ℕ) :
    (Span.mk start (TypeName.mk before names arguments suffixes assembly behind).text).trimmed
      = ⟨start + before.length, names.text ++ listText arguments ++ suffixesText suffixes
        ++ assemblyText assembly⟩ := by
  simp only [TypeName.wellFormed, Bool.and_eq_true] at h
  obtain ⟨⟨⟨⟨hbefore, hnames⟩, -⟩, hassembly⟩, hbehind⟩ := h
  rw [TypeName.text, List.append_assoc,
    trimmed_pad hbefore (solid_body hnames arguments suffixes hassembly) hbehind]

/-- A type without and with an assembly, given what is found in its generic arguments. -/
theorem collectType_mk (levels : ℕ) {before : List Byte} {names : Names}
    {arguments : List Argument} {suffixes : List Suffix} {assembly : Option Qualification}
    {behind : List Byte}
    (h : (TypeName.mk before names arguments suffixes assembly behind).wellFormed = true)
    (hq : names.quoteFree = true) (hlist : Closed false (listText arguments))
    (hclosed : Closed true (joinedText arguments)) (start : ℕ)
    {ok : Bool} {found : List ParsedAssemblyReference}
    (harguments : ∀ k, levels = k + 1 → Collects
      (collectGenericTypeArguments (collectType k)
        ⟨start + before.length + names.text.length + 1, joinedText arguments⟩) ok found) :
    Collects (collectType levels
        ⟨start, (TypeName.mk before names arguments suffixes assembly behind).text⟩)
      (((arguments.isEmpty || (0 < levels && ok))
          && (!suffixes.any Suffix.isArray || 0 < levels))
        && !assembly.any Qualification.hasBareQuote)
      ((if arguments.isEmpty then [] else found)
        ++ (assembly.map fun q => q.reference (start + before.length
          + (names.text ++ listText arguments ++ suffixesText suffixes).length)).toList) := by
  have htrim := trimmed_type h start
  simp only [TypeName.wellFormed, Bool.and_eq_true] at h
  obtain ⟨⟨⟨⟨-, hnames⟩, -⟩, hassembly⟩, -⟩ := h
  have hspec : Closed false (names.text ++ listText arguments ++ suffixesText suffixes) :=
    ((closed_names hnames hq).append hlist).append (closed_suffixes suffixes)
  have hne := (solid_body hnames arguments suffixes hassembly).ne_nil
  rw [collectType_eq, collectTypeBody, htrim]
  simp only [if_neg hne]
  cases assembly with
  | none =>
      have hloop := collectRest_spec levels hnames hq hclosed suffixes (show isBlank [] = true from rfl)
        (start + before.length) harguments
      have hfind := findTopLevelSeparator_closed hspec
        (show false = true → 0 < 0 from fun h => by cases h) []
      simp only [assemblyText, hfind]
      simp only [Option.any_none, Bool.not_false, Bool.and_true, Option.map_none,
        Option.toList_none, List.append_nil] at hloop ⊢
      exact hloop
  | some q =>
      have hqual : q.wellFormed = true := hassembly
      have hblank : isBlank q.beforeComma = true := by
        simp only [Qualification.wellFormed, Bool.and_eq_true] at hqual
        exact hqual.1.1.1.1
      have hloop := collectRest_spec levels hnames hq hclosed suffixes hblank
        (start + before.length) harguments
      have htext : names.text ++ listText arguments ++ suffixesText suffixes
            ++ assemblyText (some q)
          = (names.text ++ listText arguments ++ suffixesText suffixes ++ q.beforeComma)
            ++ comma :: (q.beforeName ++ q.name.text ++ propertiesText q.properties) := by
        rw [assemblyText, Qualification.text, ← List.append_assoc]
      have hfind : findTopLevelSeparator comma none 0 (names.text ++ listText arguments
            ++ suffixesText suffixes ++ assemblyText (some q))
          = some (some (names.text ++ listText arguments ++ suffixesText suffixes
            ++ q.beforeComma).length) := by
        rw [htext, findTopLevelSeparator_closed (hspec.append (closed_blank hblank))
          (show false = true → 0 < 0 from fun h => by cases h),
          findTopLevelSeparator_plain (by decide) (by decide), if_neg (by decide),
          if_neg (by decide), if_pos ⟨rfl, rfl, rfl⟩]
        show some (some (0 + _)) = _
        rw [Nat.zero_add]
      have hafter : (Span.mk (start + before.length) (names.text ++ listText arguments
            ++ suffixesText suffixes ++ assemblyText (some q))).after
            ((names.text ++ listText arguments ++ suffixesText suffixes
              ++ q.beforeComma).length + 1)
          = ⟨start + before.length + (names.text ++ listText arguments
              ++ suffixesText suffixes).length + q.beforeComma.length + 1,
            q.beforeName ++ q.name.text ++ propertiesText q.properties⟩ := by
        rw [htext, Span.after, List.drop_append, List.drop_of_length_le (Nat.le_succ _),
          Nat.add_sub_cancel_left, List.length_append]
        simp only [List.nil_append, List.drop_succ_cons, List.drop_zero, Nat.add_assoc]
      have hname : Collects (if q.hasBareQuote then Collector.fail else .push (q.reference
            (start + before.length + (names.text ++ listText arguments
              ++ suffixesText suffixes).length)))
          (!q.hasBareQuote) [q.reference (start + before.length
            + (names.text ++ listText arguments ++ suffixesText suffixes).length)] := by
        cases q.hasBareQuote with
        | true => exact .fail _
        | false => exact .push _
      simp only [hfind, hafter, parseAssemblyQualification_text hqual]
      rw [htext, Span.upTo, List.take_left]
      exact hloop.andThen hname

theorem collectType_of_trimmed (levels : ℕ) {s : Span} (h : s.trimmed.trimmed = s.trimmed) :
    collectType levels s.trimmed = collectType levels s := by
  rw [collectType_eq, collectTypeBody, collectTypeBody, h]

/-- An identifier does not begin with a bracket. -/
theorem names_head {n : Names} (h : n.wellFormed = true) (rest : List Byte) :
    (n.text ++ rest).head? ≠ some openBracket := by
  obtain ⟨hsolid, hwf⟩ := Bool.and_eq_true_iff.mp (List.all_eq_true.mp h _ List.mem_cons_self)
  rw [Names.text]
  cases hitems : n.outer with
  | nil => rw [hitems] at hsolid; cases hsolid
  | cons item items =>
      rw [hitems] at hwf
      have hitem := (Bool.and_eq_true_iff.mp hwf).1
      cases item with
      | escaped c => exact fun h => absurd (Option.some.inj h) (by decide)
      | plain c =>
          simp only [Item.wellFormed, identifierOk, Bool.not_eq_true', Bool.or_eq_false_iff,
            beq_eq_false_iff_ne] at hitem
          exact fun h => hitem.1.2 (Option.some.inj h)

theorem moreText_shape (arguments : List Argument) :
    moreText arguments = [] ∧ joinedText arguments = []
      ∨ moreText arguments = comma :: joinedText arguments := by
  cases arguments with
  | nil => exact .inl ⟨rfl, rfl⟩
  | cons argument arguments => exact .inr rfl

theorem closed_joined (arguments : List Argument) (h : argumentsWellFormed arguments = true)
    (hq : argumentsQuoteFree arguments = true) : Closed true (joinedText arguments) := by
  cases arguments with
  | nil => exact .nil
  | cons argument arguments =>
      obtain ⟨hargument, harguments⟩ := Bool.and_eq_true_iff.mp h
      obtain ⟨hqargument, hqarguments⟩ := Bool.and_eq_true_iff.mp hq
      exact (closed_argument argument hargument hqargument).mono.append
        (closed_more arguments harguments hqarguments)

/-- When a type is accepted: its brackets and those of its arguments are within the
levels, and every bare simple name is without quotes. -/
theorem accepted_mk (levels : ℕ) (before : List Byte) (names : Names) (arguments : List Argument)
    (suffixes : List Suffix) (assembly : Option Qualification) (behind : List Byte) :
    (((arguments.isEmpty || (0 < levels && (decide (argumentsBracketDepth arguments ≤ levels - 1)
        && !argumentsHaveBareQuote arguments)))
      && (!suffixes.any Suffix.isArray || 0 < levels))
      && !assembly.any Qualification.hasBareQuote)
      = (decide ((TypeName.mk before names arguments suffixes assembly behind).bracketDepth ≤ levels)
        && !(TypeName.mk before names arguments suffixes assembly behind).hasBareQuote) := by
  rw [TypeName.bracketDepth, TypeName.hasBareQuote, Bool.eq_iff_iff]
  cases arguments with
  | nil =>
      have hnone : argumentsHaveBareQuote [] = false := rfl
      cases suffixes.any Suffix.isArray with
      | false => simp [hnone]
      | true =>
          simp [hnone]
          omega
  | cons argument arguments =>
      generalize argumentsHaveBareQuote (argument :: arguments) = quotes
      generalize argumentsBracketDepth (argument :: arguments) = depth
      cases suffixes.any Suffix.isArray <;> cases quotes <;>
        cases assembly.any Qualification.hasBareQuote <;> simp <;> omega

mutual

/-- **The collector on a type name.** -/
theorem collectType_text : (t : TypeName) → t.wellFormed = true → t.quoteFree = true →
    ∀ levels start, Collects (collectType levels ⟨start, t.text⟩)
      (decide (t.bracketDepth ≤ levels) && !t.hasBareQuote) (t.references start)
  | .mk before names arguments suffixes assembly behind, h, hq, levels, start => by
      obtain ⟨hqnames, hqarguments⟩ := Bool.and_eq_true_iff.mp hq
      have hwf := h
      simp only [TypeName.wellFormed, Bool.and_eq_true] at hwf
      obtain ⟨⟨⟨⟨-, -⟩, harguments⟩, -⟩, -⟩ := hwf
      have hcollect : ∀ k, levels = k + 1 → Collects
          (collectGenericTypeArguments (collectType k)
            ⟨start + before.length + names.text.length + 1, joinedText arguments⟩)
          (decide (argumentsBracketDepth arguments ≤ levels - 1)
            && !argumentsHaveBareQuote arguments)
          (argumentsReferences (start + before.length + names.text.length + 1) arguments) :=
        fun k hk => by
          rw [hk, Nat.add_sub_cancel]
          exact collectArguments_text arguments harguments hqarguments k _
      have hmk := collectType_mk levels h hqnames (closed_list arguments harguments hqarguments)
        (closed_joined arguments harguments hqarguments) start hcollect
      rw [accepted_mk levels before names arguments suffixes assembly behind] at hmk
      cases arguments with
      | nil => exact hmk
      | cons argument arguments => exact hmk

/-- What an entry of an argument list stands for is collected as a type. -/
theorem collectArgument_text : (a : Argument) → a.wellFormed = true → a.quoteFree = true →
    ∀ levels start, (Span.mk start a.text).trimmed.text ≠ [] ∧ ∃ s,
      unbracketed (Span.mk start a.text).trimmed = some s
        ∧ Collects (collectType levels s)
          (decide (a.bracketDepth ≤ levels) && !a.hasBareQuote) (a.references start)
  | .bare (.mk before names arguments suffixes assembly behind), h, hq, levels, start => by
      have htype := (Bool.and_eq_true_iff.mp h).2
      have htrim := trimmed_type htype start
      have hcollect := collectType_text _ htype hq levels start
      simp only [TypeName.wellFormed, Bool.and_eq_true] at htype
      obtain ⟨⟨⟨⟨-, hnames⟩, -⟩, hassembly⟩, -⟩ := htype
      have hsolid := solid_body hnames arguments suffixes hassembly
      have hself := trimmed_pad (show isBlank [] = true from rfl) hsolid
        (show isBlank [] = true from rfl) (start + before.length)
      rw [List.append_nil, List.nil_append, List.length_nil, Nat.add_zero] at hself
      have hhead : (names.text ++ listText arguments ++ suffixesText suffixes
          ++ assemblyText assembly).head? ≠ some openBracket := by
        rw [List.append_assoc, List.append_assoc]
        exact names_head hnames _
      rw [Argument.text, htrim]
      refine ⟨hsolid.ne_nil, _, by rw [unbracketed, if_neg hhead], ?_⟩
      rw [← htrim, collectType_of_trimmed levels (by rw [htrim, hself])]
      exact hcollect
  | .bracketed before type behind, h, hq, levels, start => by
      simp only [Argument.wellFormed, Bool.and_eq_true] at h
      obtain ⟨⟨hbefore, htype⟩, hbehind⟩ := h
      have hcollect := collectType_text type htype hq levels (start + before.length + 1)
      have hsolid : Solid (openBracket :: (type.text ++ [closeBracket])) :=
        ⟨⟨_, _, rfl, rfl⟩, openBracket :: type.text, _, rfl, rfl⟩
      have hclosing := findClosingBracket_group (closed_type type htype hq) []
      rw [Argument.text, List.append_assoc, trimmed_pad hbefore hsolid hbehind]
      refine ⟨hsolid.ne_nil, ⟨start + before.length + 1, type.text⟩, ?_, hcollect⟩
      rw [unbracketed]
      simp only [List.head?_cons, if_pos, hclosing, List.length_cons, List.length_append,
        List.length_nil, List.tail_cons, List.dropLast_concat, ne_eq, not_true, if_false]

theorem collectArguments_text : (arguments : List Argument) →
    argumentsWellFormed arguments = true → argumentsQuoteFree arguments = true →
    ∀ levels start, Collects
      (collectGenericTypeArguments (collectType levels) ⟨start, joinedText arguments⟩)
      (decide (argumentsBracketDepth arguments ≤ levels) && !argumentsHaveBareQuote arguments)
      (argumentsReferences start arguments)
  | [], _, _, levels, start => by
      rw [joinedText, collectArguments_nil]
      exact Collects.succeed
  | argument :: arguments, h, hq, levels, start => by
      obtain ⟨hargument, harguments⟩ := Bool.and_eq_true_iff.mp h
      obtain ⟨hqargument, hqarguments⟩ := Bool.and_eq_true_iff.mp hq
      obtain ⟨hne, s, hs, hfirst⟩ := collectArgument_text argument hargument hqargument levels start
      have hrest := collectArguments_text arguments harguments hqarguments levels
        (start + argument.text.length + 1)
      have hclosed := closed_argument argument hargument hqargument
      have htail : moreText arguments = [] ∨ ∃ more, moreText arguments = comma :: more := by
        rcases moreText_shape arguments with ⟨hnil, -⟩ | hcons
        · exact .inl hnil
        · exact .inr ⟨_, hcons⟩
      have hjoined : (moreText arguments).tail = joinedText arguments := by
        rcases moreText_shape arguments with ⟨hnil, hjoined⟩ | hcons
        · rw [hnil, hjoined]
          rfl
        · rw [hcons]
          rfl
      rw [joinedText, collectArguments_step _ hclosed htail, if_neg hne, hs, hjoined,
        argumentsReferences]
      refine (hfirst.andThen hrest).cast ?_
      rw [argumentsBracketDepth, argumentsHaveBareQuote, Bool.eq_iff_iff]
      simp only [Bool.and_eq_true, decide_eq_true_eq, Bool.not_eq_true', Bool.or_eq_false_iff,
        Nat.max_le]
      tauto

end

theorem parseTypeNameAssemblyReferences_text (t : TypeName) (h : t.wellFormed = true)
    (hq : t.quoteFree = true) :
    parseTypeNameAssemblyReferences t.text = (true, t.references 0)
      ↔ t.bracketDepth ≤ maxGenericNestingDepth ∧ t.hasBareQuote = false := by
  have hcollect := collectType_text t h hq maxGenericNestingDepth 0 []
  rw [parseTypeNameAssemblyReferences]
  by_cases hok : t.bracketDepth ≤ maxGenericNestingDepth ∧ t.hasBareQuote = false
  · rw [decide_eq_true hok.1, hok.2, if_pos (show (true && !false) = true from rfl),
      List.nil_append] at hcollect
    rw [hcollect]
    exact ⟨fun _ => hok, fun _ => rfl⟩
  · have hnot : ¬(decide (t.bracketDepth ≤ maxGenericNestingDepth) && !t.hasBareQuote) = true := by
      rw [Bool.and_eq_true, decide_eq_true_eq, Bool.not_eq_true']
      exact hok
    rw [if_neg hnot] at hcollect
    generalize collectType maxGenericNestingDepth ⟨0, t.text⟩ [] = result at hcollect
    obtain ⟨success, references⟩ := result
    obtain rfl : success = false := hcollect
    exact ⟨fun h => (by cases h), fun h => absurd h hok⟩

theorem parseTypeNameAssemblyReferences_failed {typeName : List Byte}
    (h : (parseTypeNameAssemblyReferences typeName).1 = false) :
    (parseTypeNameAssemblyReferences typeName).2 = [] := by
  rw [parseTypeNameAssemblyReferences] at h ⊢
  generalize collectType maxGenericNestingDepth ⟨0, typeName⟩ [] = result at h ⊢
  obtain ⟨success, references⟩ := result
  cases success with
  | false => rfl
  | true => cases h

/-- **Type names.** The parser returns exactly the references of a name whose identifiers
are free of quotes, in order and with their places, if and only if no bracket opens below
the maximum depth and no bare simple name has an escaped quote. On any string, a failure
leaves no references. -/
theorem parseTypeNameAssemblyReferences_exact_iff (t : TypeName) (hwf : t.wellFormed = true)
    (hquotes : t.quoteFree = true) (typeName : List Byte) :
    (parseTypeNameAssemblyReferences t.text = (true, t.references 0)
        ↔ t.bracketDepth ≤ maxGenericNestingDepth ∧ t.hasBareQuote = false)
      ∧ ((parseTypeNameAssemblyReferences typeName).1 = false →
        (parseTypeNameAssemblyReferences typeName).2 = []) :=
  ⟨parseTypeNameAssemblyReferences_text t hwf hquotes, parseTypeNameAssemblyReferences_failed⟩

/-- `G[[T, 'A' , version=1]], B`. -/
def acceptedName : TypeName :=
  .mk [] ⟨[.plain 0x47], []⟩
    [.bracketed [] (.mk [] ⟨[.plain 0x54], []⟩ [] []
      (some ⟨[], [0x20], ⟨some singleQuote, [.plain 0x41]⟩,
        [⟨[0x20], [0x20], ⟨none, versionKey.map (.plain ∘ toAsciiLower)⟩, [], [],
          ⟨none, [.plain 0x31]⟩⟩]⟩) []) []] []
    (some ⟨[], [0x20], ⟨none, [.plain 0x42]⟩, []⟩) []

theorem parseTypeNameAssemblyReferences_accepted :
    parseTypeNameAssemblyReferences acceptedName.text
      = (true, [⟨[0x41], 9, some ⟨20, [0x31]⟩⟩, ⟨[0x42], 26, none⟩])
      ∧ (parseTypeNameAssemblyReferences [openBracket]).2 = [] :=
  have hexact :=
    parseTypeNameAssemblyReferences_exact_iff acceptedName (by decide) (by decide) [openBracket]
  ⟨hexact.1.mpr (by decide), hexact.2 (by decide)⟩

/-! ### Names on which the parser gives up -/

/-- The type with the given identifier and assembly. -/
def simpleType (identifier : List Item) (suffixes : List Suffix) (assembly : Option Entry) :
    TypeName :=
  .mk [] ⟨identifier, []⟩ [] suffixes
    (assembly.map fun name => ⟨[], [0x20], name, []⟩) []

/-- `G[[...[[type]]...]]`, `n` deep. -/
def nestedIn : ℕ → TypeName → TypeName
  | 0, type => type
  | n + 1, type => .mk [] ⟨[.plain 0x47], []⟩ [.bracketed [] (nestedIn n type) []] [] none []

/-- `T, O\'A`, the array `T[]` in 64 generic types, and `T', A`. -/
def rejectedNames : List TypeName :=
  [simpleType [.plain 0x54] [] (some ⟨none, [.plain 0x4f, .escaped singleQuote, .plain 0x41]⟩),
    nestedIn 64 (simpleType [.plain 0x54] [.array false []] none),
    simpleType [.plain 0x54, .plain singleQuote] [] (some ⟨none, [.plain 0x41]⟩)]

theorem parseTypeNameAssemblyReferences_rejected :
    (rejectedNames.all fun t => t.wellFormed && t.genericDepth ≤ maxGenericNestingDepth) = true
      ∧ ¬∃ t ∈ rejectedNames,
          parseTypeNameAssemblyReferences t.text = (true, t.references 0) := by
  refine ⟨by decide +kernel, ?_⟩
  rintro ⟨t, ht, haccepted⟩
  rcases List.mem_cons.1 ht with rfl | ht
  · exact absurd ((parseTypeNameAssemblyReferences_text _ (by decide) (by decide)).1 haccepted)
      (by decide)
  rcases List.mem_cons.1 ht with rfl | ht
  · exact absurd ((parseTypeNameAssemblyReferences_text _ (by decide +kernel)
      (by decide +kernel)).1 haccepted) (by decide +kernel)
  · obtain rfl := List.mem_singleton.1 ht
    exact absurd haccepted (by decide)

end AutoInstrumentation.ReflectionName
