import AutoInstrumentation.ReflectionName.Lexical

/-!
# AutoInstrumentation.ReflectionName.Qualification

The parser on an assembly qualification.

The parts of a qualification are cut at commas and trimmed, an entry loses its quotes,
and what is left is the simple name, unescaped, and the version. The parser gives up on
one kind of qualification, a bare name with an escaped quote (`tryGetUnquoted_bare`).
-/

namespace AutoInstrumentation.ReflectionName

open Lib

/-! ### Trimming -/

/-- Text with no whitespace at its ends. -/
structure Solid (text : List Byte) : Prop where
  head : ∃ c rest, text = c :: rest ∧ isAsciiSpace c = false
  last : ∃ front c, text = front ++ [c] ∧ isAsciiSpace c = false

theorem Solid.ne_nil {text : List Byte} (h : Solid text) : text ≠ [] := by
  obtain ⟨c, rest, rfl, -⟩ := h.head
  exact List.cons_ne_nil c rest

/-- Only the outer ends count. -/
theorem Solid.append {s t : List Byte} (hs : Solid s) (ht : Solid t) (middle : List Byte) :
    Solid (s ++ (middle ++ t)) := by
  obtain ⟨c, rest, rfl, hc⟩ := hs.head
  obtain ⟨front, d, rfl, hd⟩ := ht.last
  refine ⟨⟨c, rest ++ (middle ++ (front ++ [d])), rfl, hc⟩, c :: rest ++ (middle ++ front), d, ?_, hd⟩
  simp only [List.append_assoc]

theorem trimmed_pad {before text behind : List Byte} (hb : isBlank before = true)
    (ht : Solid text) (he : isBlank behind = true) (start : ℕ) :
    (Span.mk start (before ++ (text ++ behind))).trimmed = ⟨start + before.length, text⟩ := by
  have hfront : ∀ c ∈ before, isAsciiSpace c = true := List.all_eq_true.mp hb
  have hback : ∀ c ∈ behind.reverse, isAsciiSpace c = true := fun c hc =>
    List.all_eq_true.mp he c (List.mem_reverse.mp hc)
  obtain ⟨c, rest, hhead, hc⟩ := ht.head
  obtain ⟨front, d, hlast, hd⟩ := ht.last
  have htake : (before ++ (text ++ behind)).takeWhile isAsciiSpace = before := by
    rw [List.takeWhile_append_of_pos hfront, hhead, List.cons_append,
      List.takeWhile_cons_of_neg (Bool.not_eq_true _ ▸ hc), List.append_nil]
  have hdrop : (before ++ (text ++ behind)).dropWhile isAsciiSpace = text ++ behind := by
    rw [List.dropWhile_append_of_pos hfront, hhead, List.cons_append,
      List.dropWhile_cons_of_neg (Bool.not_eq_true _ ▸ hc)]
  have hright : (text ++ behind).rdropWhile isAsciiSpace = text := by
    rw [List.rdropWhile, List.reverse_append, List.dropWhile_append_of_pos hback, hlast,
      List.reverse_append, List.reverse_singleton, List.singleton_append,
      List.dropWhile_cons_of_neg (Bool.not_eq_true _ ▸ hd), ← List.singleton_append,
      List.reverse_append, List.reverse_reverse, List.reverse_singleton]
  rw [Span.trimmed, htake, hdrop, hright]

/-! ### Items and entries as text -/

theorem isDelimiter_not_space {c : Byte} (h : isDelimiter c = true) : isAsciiSpace c = false := by
  have hmem : c ∈ [backslash, comma, plus, ampersand, star, openBracket, closeBracket, equals,
      singleQuote, doubleQuote, (0x2e : Byte), (0x2f : Byte)] := of_decide_eq_true h
  have hall : ∀ d ∈ [backslash, comma, plus, ampersand, star, openBracket, closeBracket, equals,
      singleQuote, doubleQuote, (0x2e : Byte), (0x2f : Byte)], isAsciiSpace d = false := by decide
  exact hall c hmem

theorem solid_items {plainOk : Byte → Bool} {items : List Item} (h : isSolid items = true)
    (hw : items.all (Item.wellFormed plainOk) = true) : Solid (itemsText items) := by
  obtain ⟨hhead, hlast⟩ := Bool.and_eq_true_iff.mp h
  constructor
  · cases items with
    | nil => cases hhead
    | cons item items =>
        cases item with
        | plain c => exact ⟨c, itemsText items, rfl, (Bool.not_eq_true' _).mp hhead⟩
        | escaped c => exact ⟨backslash, c :: itemsText items, rfl, rfl⟩
  · obtain ⟨item, hitem, hspace⟩ := (Option.any_eq_true _ _).mp hlast
    obtain ⟨front, rfl⟩ := List.getLast?_eq_some_iff.mp hitem
    have hwf := List.all_eq_true.mp hw item (List.mem_append_right _ List.mem_cons_self)
    rw [itemsText, List.flatMap_append]
    cases item with
    | plain c => exact ⟨itemsText front, c, rfl, (Bool.not_eq_true' _).mp hspace⟩
    | escaped c =>
        refine ⟨itemsText front ++ [backslash], c, ?_, isDelimiter_not_space hwf⟩
        rw [List.append_assoc]
        rfl

theorem solid_entry {e : Entry} (h : e.wellFormed = true) : Solid e.text := by
  rw [Entry.wellFormed] at h
  rw [Entry.text]
  cases hq : e.quote with
  | none =>
      rw [hq] at h
      obtain ⟨hsolid, hitems⟩ := Bool.and_eq_true_iff.mp h
      exact solid_items hsolid hitems
  | some q =>
      rw [hq] at h
      have hquote := (Bool.and_eq_true_iff.mp h).1
      have hspace : isAsciiSpace q = false := by
        rcases Bool.or_eq_true_iff.mp hquote with hs | hd
        · rw [beq_iff_eq.mp hs]
          rfl
        · rw [beq_iff_eq.mp hd]
          rfl
      exact ⟨⟨q, itemsText e.items ++ [q], rfl, hspace⟩, q :: itemsText e.items, q, rfl, hspace⟩

theorem unescape_items {items : List Item}
    (h : ∀ item ∈ items, ∀ c, item = .plain c → c ≠ backslash) :
    unescape (itemsText items) = items.map Item.value := by
  induction items with
  | nil => rfl
  | cons item items ih =>
      have ih := ih fun item hitem => h item (List.mem_cons_of_mem _ hitem)
      rw [itemsText, List.flatMap_cons]
      cases item with
      | plain c =>
          have hc := h (.plain c) List.mem_cons_self c rfl
          rw [List.map_cons, ← ih]
          show unescape (c :: itemsText items) = c :: unescape (itemsText items)
          cases itemsText items with
          | nil => rfl
          | cons d text => rw [unescape, if_neg hc]
      | escaped c =>
          rw [List.map_cons, ← ih]
          rfl

/-! ### Text without a separator -/

/-- The search for `expected` goes on behind `text` as if it had not been there. -/
def Passes (expected : Byte) (text : List Byte) : Prop :=
  ∀ rest, findUnescaped expected none (text ++ rest)
    = Found.shift text.length (findUnescaped expected none rest)

namespace Passes

variable {expected : Byte}

theorem nil : Passes expected [] := fun _ => (shift_zero _).symm

theorem append {s t : List Byte} (hs : Passes expected s) (ht : Passes expected t) :
    Passes expected (s ++ t) := by
  intro rest
  rw [List.append_assoc, hs, ht, shift_shift, List.length_append, Nat.add_comm]

theorem single {c : Byte} (h : isOrdinary c = true) (hc : c ≠ expected) : Passes expected [c] := by
  intro rest
  obtain ⟨hb, hquote, ho, hcl⟩ := isOrdinary_iff.mp h
  rw [List.singleton_append, findUnescaped_plain hquote hb, if_neg (not_or.mpr ⟨ho, hcl⟩),
    if_neg fun h => hc h.2]
  rfl

theorem escape (c : Byte) : Passes expected [backslash, c] := fun _ => rfl

theorem flatMap {α : Type} {f : α → List Byte} {xs : List α}
    (h : ∀ x ∈ xs, Passes expected (f x)) : Passes expected (xs.flatMap f) := by
  induction xs with
  | nil => exact nil
  | cons x xs ih =>
      rw [List.flatMap_cons]
      exact (h x List.mem_cons_self).append (ih fun y hy => h y (List.mem_cons_of_mem x hy))

theorem quoted {q : Byte} {inner : List Byte} (hq : isQuote q = true) (h : Quoted q inner) :
    Passes expected (q :: (inner ++ [q])) := by
  intro rest
  have hinner : findUnescaped expected (some q) (inner ++ q :: rest)
      = Found.shift (inner.length + 1) (findUnescaped expected none rest) := by
    induction h with
    | nil =>
        rw [List.nil_append, findUnescaped_quote hq (quote_ne hq), toggleQuote_self]
        rfl
    | @plain c text hc hcq _ ih =>
        have hone : findUnescaped expected (some q) (c :: (text ++ q :: rest))
            = Found.shift 1 (findUnescaped expected (some q) (text ++ q :: rest)) := by
          cases hquote : isQuote c with
          | true => rw [findUnescaped_quote hquote hc, toggleQuote_other hcq]
          | false =>
              rw [findUnescaped_plain hquote hc]
              simp only [reduceCtorEq, if_false, false_and, ite_self]
        rw [List.cons_append, hone, ih, shift_shift, List.length_cons]
    | escaped _ ih =>
        rw [List.cons_append, List.cons_append, findUnescaped_escape, ih, shift_shift]
        rfl
  rw [List.cons_append, List.append_assoc, List.singleton_append,
    findUnescaped_quote hq (quote_ne hq), toggleQuote_none, hinner, shift_shift]
  congr 1
  simp only [List.length_cons, List.length_append, List.length_nil]

/-- Nothing is found in text that is passed to its end. -/
theorem find_none {text : List Byte} (h : Passes expected text) :
    findUnescaped expected none text = some none := by
  have := h []
  rwa [List.append_nil] at this

theorem find_some {text : List Byte} (h : Passes expected text) (hq : isQuote expected = false)
    (hb : expected ≠ backslash) (ho : expected ≠ openBracket) (hc : expected ≠ closeBracket)
    (rest : List Byte) :
    findUnescaped expected none (text ++ expected :: rest) = some (some text.length) := by
  rw [h, findUnescaped_plain hq hb, if_neg (not_or.mpr ⟨ho, hc⟩), if_pos ⟨rfl, rfl⟩]
  show some (some (0 + text.length)) = _
  rw [Nat.zero_add]

end Passes

theorem isAsciiSpace_ordinary {c : Byte} (h : isAsciiSpace c = true) :
    isOrdinary c = true ∧ c ≠ comma ∧ c ≠ equals := by
  simp only [isAsciiSpace, Bool.or_eq_true, beq_iff_eq] at h
  rcases h with ((((rfl | rfl) | rfl) | rfl) | rfl) | rfl <;> decide

theorem passes_blank {text : List Byte} (h : isBlank text = true) :
    Passes comma text ∧ Passes equals text := by
  have hall : ∀ c ∈ text, isAsciiSpace c = true := List.all_eq_true.mp h
  induction text with
  | nil => exact ⟨.nil, .nil⟩
  | cons c text ih =>
      obtain ⟨hord, hcomma, hequals⟩ := isAsciiSpace_ordinary (hall c List.mem_cons_self)
      obtain ⟨ihc, ihe⟩ := ih (Bool.and_eq_true_iff.mp h).2 fun d hd =>
        hall d (List.mem_cons_of_mem c hd)
      exact ⟨(Passes.single hord hcomma).append ihc, (Passes.single hord hequals).append ihe⟩

/-- What a quotation in a well-formed entry encloses. -/
theorem quoted_items {q : Byte} {items : List Item}
    (h : items.all (Item.wellFormed fun c => !(c == backslash || c == q)) = true) :
    Quoted q (itemsText items) := by
  induction items with
  | nil => exact .nil
  | cons item items ih =>
      obtain ⟨hitem, hitems⟩ := Bool.and_eq_true_iff.mp h
      cases item with
      | plain c =>
          simp only [Item.wellFormed, Bool.not_eq_true', Bool.or_eq_false_iff,
            beq_eq_false_iff_ne] at hitem
          exact .plain hitem.1 hitem.2 (ih hitems)
      | escaped c => exact .escaped (ih hitems)

theorem bareOk_ordinary {c : Byte} (h : Entry.bareOk c = true) :
    isOrdinary c = true ∧ c ≠ comma := by
  simp only [Entry.bareOk, Bool.not_eq_true', Bool.or_eq_false_iff, beq_eq_false_iff_ne] at h
  obtain ⟨⟨⟨⟨hb, hcomma⟩, ho⟩, hc⟩, hq⟩ := h
  exact ⟨isOrdinary_iff.mpr ⟨hb, hq, ho, hc⟩, hcomma⟩

theorem passes_entry {expected : Byte} {e : Entry} (h : e.wellFormed = true)
    (he : expected = comma ∨ e.isSimple = true ∧ expected = equals) : Passes expected e.text := by
  rw [Entry.wellFormed] at h
  rw [Entry.text]
  cases hq : e.quote with
  | some q =>
      rw [hq] at h
      obtain ⟨hquote, hitems⟩ := Bool.and_eq_true_iff.mp h
      exact .quoted hquote (quoted_items hitems)
  | none =>
      rw [hq] at h
      have hitems := (Bool.and_eq_true_iff.mp h).2
      refine .flatMap fun item hitem => ?_
      have hwf := List.all_eq_true.mp hitems item hitem
      cases item with
      | escaped c => exact .escape c
      | plain c =>
          obtain ⟨hord, hcomma⟩ := bareOk_ordinary hwf
          refine .single hord ?_
          rcases he with rfl | ⟨hsimple, rfl⟩
          · exact hcomma
          · have hplain := List.all_eq_true.mp hsimple _ hitem
            simp only [Bool.not_eq_true', Bool.or_eq_false_iff, beq_eq_false_iff_ne] at hplain
            exact hplain.1

/-! ### Quotes -/

theorem plain_ne_backslash {e : Entry} (h : e.wellFormed = true) :
    ∀ item ∈ e.items, ∀ c, item = .plain c → c ≠ backslash := by
  rintro item hitem c rfl
  rw [Entry.wellFormed] at h
  cases hq : e.quote with
  | some q =>
      rw [hq] at h
      have hc := List.all_eq_true.mp (Bool.and_eq_true_iff.mp h).2 _ hitem
      simp only [Item.wellFormed, Bool.not_eq_true', Bool.or_eq_false_iff,
        beq_eq_false_iff_ne] at hc
      exact hc.1
  | none =>
      rw [hq] at h
      have hc := List.all_eq_true.mp (Bool.and_eq_true_iff.mp h).2 _ hitem
      exact (isOrdinary_iff.mp (bareOk_ordinary hc).1).1

/-- In the text of a bare entry, a quote stands in an escape. -/
theorem any_isQuote_bare {items : List Item}
    (h : items.all (Item.wellFormed Entry.bareOk) = true) :
    (itemsText items).any isQuote = items.any Item.isEscapedQuote := by
  induction items with
  | nil => rfl
  | cons item items ih =>
      obtain ⟨hitem, hitems⟩ := Bool.and_eq_true_iff.mp h
      have ih := ih hitems
      rw [itemsText, List.flatMap_cons, List.any_append, List.any_cons, ← ih]
      cases item with
      | plain c =>
          have hquote := (isOrdinary_iff.mp (bareOk_ordinary hitem).1).2.1
          simp only [Item.text, List.any_cons, hquote, List.any_nil, Item.isEscapedQuote]
          rfl
      | escaped c =>
          simp only [Item.text, List.any_cons, List.any_nil, Bool.or_false, Item.isEscapedQuote]
          rfl

/-- An entry loses its quotes; a bare entry with an escaped quote is refused. -/
theorem tryGetUnquoted_entry {e : Entry} (h : e.wellFormed = true) (start : ℕ) :
    tryGetUnquoted ⟨start, e.text⟩
      = if e.quote = none ∧ e.items.any Item.isEscapedQuote = true then none
        else some ⟨e.innerStart start, itemsText e.items⟩ := by
  obtain ⟨c, rest, htext, -⟩ := (solid_entry h).head
  rw [Entry.wellFormed] at h
  cases hq : e.quote with
  | some q =>
      rw [hq] at h
      have hquote := (Bool.and_eq_true_iff.mp h).1
      have htext : e.text = q :: (itemsText e.items ++ [q]) := by rw [Entry.text, hq]
      have hlast : (q :: (itemsText e.items ++ [q])).getLast? = some q := by
        rw [← List.cons_append, List.getLast?_concat]
      have hlong : ¬((q :: (itemsText e.items ++ [q])).length < 2
          ∨ (q :: (itemsText e.items ++ [q])).getLast? ≠ some q) := by
        rw [hlast, List.length_cons, List.length_append, List.length_singleton]
        rintro (hlt | hne)
        · omega
        · exact hne rfl
      rw [tryGetUnquoted, htext]
      simp only [if_pos hquote, if_neg hlong, reduceCtorEq, false_and, if_false, List.tail_cons,
        List.dropLast_concat, Entry.innerStart, hq]
  | none =>
      rw [hq] at h
      obtain ⟨hsolid, hitems⟩ := Bool.and_eq_true_iff.mp h
      have hbare : e.text = itemsText e.items := by rw [Entry.text, hq]
      have hfirst : isQuote c = false := by
        rw [hbare] at htext
        cases hi : e.items with
        | nil => rw [hi] at hsolid; cases hsolid
        | cons item items =>
            rw [hi] at htext hitems
            have hitem := (Bool.and_eq_true_iff.mp hitems).1
            cases item with
            | plain d =>
                obtain ⟨rfl, -⟩ := List.cons.inj htext
                exact (isOrdinary_iff.mp (bareOk_ordinary hitem).1).2.1
            | escaped d =>
                obtain ⟨rfl, -⟩ := List.cons.inj htext
                rfl
      rw [tryGetUnquoted]
      simp only [htext, hfirst, Bool.false_eq_true, if_false, true_and]
      rw [← htext, hbare, any_isQuote_bare hitems, Entry.innerStart, if_pos hq]

theorem isSimple_not_escapedQuote {e : Entry} (h : e.isSimple = true) :
    e.items.any Item.isEscapedQuote = false := by
  rw [List.any_eq_false]
  intro item hitem
  have hitem := List.all_eq_true.mp h item hitem
  cases item with
  | plain c => exact Bool.false_ne_true
  | escaped c => cases hitem

theorem itemsText_simple {e : Entry} (h : e.isSimple = true) : itemsText e.items = e.value := by
  obtain ⟨quote, items⟩ := e
  show itemsText items = items.map Item.value
  rw [Entry.isSimple] at h
  induction items with
  | nil => rfl
  | cons item items ih =>
      obtain ⟨hitem, hitems⟩ := Bool.and_eq_true_iff.mp h
      cases item with
      | plain c => exact congrArg (c :: ·) (ih hitems)
      | escaped c => cases hitem

/-! ### Properties -/

/-- What is left of a qualification behind a part that ends at `start`. -/
def afterPart (start : ℕ) : List Property → Span
  | [] => ⟨start, []⟩
  | p :: properties =>
      ⟨start + p.beforeComma.length + 1, p.head ++ (p.value.text ++ propertiesText properties)⟩

theorem tryGetNextQualifierPart_part {before body : List Byte} {properties : List Property}
    (hb : isBlank before = true) (hs : Solid body) (hp : Passes comma body)
    (hprops : properties.all Property.wellFormed = true) (start : ℕ) :
    tryGetNextQualifierPart ⟨start, before ++ (body ++ propertiesText properties)⟩
      = some (⟨start + before.length, body⟩,
        afterPart (start + before.length + body.length) properties) := by
  have hpass : Passes comma (before ++ body) := (passes_blank hb).1.append hp
  cases properties with
  | nil =>
      have htext : before ++ (body ++ propertiesText []) = before ++ body := by
        rw [propertiesText, List.flatMap_nil, List.append_nil]
      have htrim := trimmed_pad hb hs (show isBlank [] = true from rfl) start
      rw [List.append_nil] at htrim
      rw [tryGetNextQualifierPart, htext]
      simp only [hpass.find_none, htrim]
      rw [Span.after, afterPart, List.drop_length, List.length_append, Nat.add_assoc]
  | cons p properties =>
      have hwf := (Bool.and_eq_true_iff.mp hprops).1
      simp only [Property.wellFormed, Bool.and_eq_true] at hwf
      have hblank : isBlank p.beforeComma = true := hwf.1.1.1.1.1.1.1
      have hfull : Passes comma (before ++ (body ++ p.beforeComma)) := by
        rw [← List.append_assoc]
        exact hpass.append (passes_blank hblank).1
      have htext : before ++ (body ++ propertiesText (p :: properties))
          = (before ++ (body ++ p.beforeComma))
            ++ comma :: (p.head ++ (p.value.text ++ propertiesText properties)) := by
        simp only [propertiesText, List.flatMap_cons, Property.text, List.append_assoc,
          List.cons_append]
      have hfind := hfull.find_some (by decide) (by decide) (by decide) (by decide)
        (p.head ++ (p.value.text ++ propertiesText properties))
      rw [tryGetNextQualifierPart, htext]
      simp only [hfind]
      rw [Span.upTo, List.take_left, trimmed_pad hb hs hblank, Span.after, List.drop_append,
        List.drop_of_length_le (Nat.le_succ _), Nat.add_sub_cancel_left, afterPart]
      simp only [List.length_append, Nat.add_assoc]
      rfl

theorem length_le_propertiesText (properties : List Property) :
    properties.length ≤ (propertiesText properties).length := by
  induction properties with
  | nil => exact Nat.le_refl _
  | cons p properties ih =>
      simp only [propertiesText, List.flatMap_cons, List.length_append, List.length_cons,
        Property.text] at ih ⊢
      omega

theorem length_le_afterPart (start : ℕ) (properties : List Property) :
    properties.length ≤ (afterPart start properties).text.length := by
  cases properties with
  | nil => exact Nat.le_refl _
  | cons p properties =>
      have := length_le_propertiesText properties
      simp only [afterPart, Property.head, List.length_append, List.length_cons, List.length_nil]
      omega

/-- A property gives the version, unless there is one already. -/
theorem readQualifier_property {p : Property} (h : p.wellFormed = true) (start : ℕ)
    (reference : ParsedAssemblyReference) :
    readQualifier ⟨start + p.beforeComma.length + 1 + p.beforeKey.length,
        p.key.text ++ (p.beforeEquals ++ equals :: (p.beforeValue ++ p.value.text))⟩ reference
      = some { reference with
          versionSpan := reference.versionSpan.or
            (if p.isVersion then some (p.valueSpan start) else none) } := by
  simp only [Property.wellFormed, Bool.and_eq_true, Bool.or_eq_true, Bool.not_eq_true'] at h
  obtain ⟨⟨⟨⟨⟨⟨⟨-, -⟩, hequals⟩, hvalue⟩, hkey⟩, hsimple⟩, hentry⟩, hversion⟩ := h
  have hpass : Passes equals (p.key.text ++ p.beforeEquals) :=
    (passes_entry hkey (.inr ⟨hsimple, rfl⟩)).append (passes_blank hequals).2
  have htext : p.key.text ++ (p.beforeEquals ++ equals :: (p.beforeValue ++ p.value.text))
      = (p.key.text ++ p.beforeEquals) ++ equals :: (p.beforeValue ++ p.value.text) := by
    rw [List.append_assoc]
  have hfind := hpass.find_some (by decide) (by decide) (by decide) (by decide)
    (p.beforeValue ++ p.value.text)
  have hkeyTrim := trimmed_pad (show isBlank [] = true from rfl) (solid_entry hkey) hequals
    (start + p.beforeComma.length + 1 + p.beforeKey.length)
  have hvalueTrim := trimmed_pad hvalue (solid_entry hentry) (show isBlank [] = true from rfl)
    (start + p.beforeComma.length + 1 + p.beforeKey.length
      + ((p.key.text ++ p.beforeEquals).length + 1))
  rw [List.append_nil] at hvalueTrim
  rw [List.nil_append, List.length_nil, Nat.add_zero] at hkeyTrim
  rw [readQualifier, htext]
  simp only [hfind, Option.getD_some, Span.upTo, List.take_left, hkeyTrim,
    tryGetUnquoted_entry hkey, isSimple_not_escapedQuote hsimple, Bool.false_eq_true, and_false,
    if_false, itemsText_simple hsimple]
  have hafter : (Span.mk (start + p.beforeComma.length + 1 + p.beforeKey.length)
      ((p.key.text ++ p.beforeEquals) ++ equals :: (p.beforeValue ++ p.value.text))).after
        ((p.key.text ++ p.beforeEquals).length + 1)
      = ⟨start + p.beforeComma.length + 1 + p.beforeKey.length
          + ((p.key.text ++ p.beforeEquals).length + 1), p.beforeValue ++ p.value.text⟩ := by
    rw [Span.after, List.drop_append, List.drop_of_length_le (Nat.le_succ _),
      Nat.add_sub_cancel_left]
    rfl
  rw [hafter, hvalueTrim]
  by_cases hversionKey : p.isVersion
  · have hkeyEq : equalsIgnoreAsciiCase p.key.value versionKey = true := hversionKey
    have hvalueSimple : p.value.isSimple = true :=
      hversion.resolve_left (by rw [hversionKey]; exact Bool.noConfusion)
    have hspan : (⟨p.value.innerStart (start + p.beforeComma.length + 1 + p.beforeKey.length
        + ((p.key.text ++ p.beforeEquals).length + 1) + p.beforeValue.length),
        itemsText p.value.items⟩ : Span) = p.valueSpan start := by
      rw [Property.valueSpan, Property.head]
      simp only [List.length_append, List.length_singleton, Nat.add_assoc]
    simp only [hkeyEq, and_true, tryGetUnquoted_entry hentry,
      isSimple_not_escapedQuote hvalueSimple, Bool.false_eq_true, and_false, if_false, hspan,
      if_pos hversionKey]
    obtain ⟨assemblyName, insertVersionAt, version⟩ := reference
    cases version with
    | none => rfl
    | some span => rfl
  · have hkeyNe : ¬(reference.versionSpan = none
        ∧ equalsIgnoreAsciiCase p.key.value versionKey = true) := fun h => hversionKey h.2
    rw [if_neg hkeyNe, if_neg hversionKey, Option.or_none]

theorem qualifierLoop_properties {properties : List Property}
    (h : properties.all Property.wellFormed = true) (start fuel : ℕ)
    (hfuel : properties.length < fuel) (reference : ParsedAssemblyReference) :
    qualifierLoop fuel (afterPart start properties) reference
      = some { reference with
          versionSpan := reference.versionSpan.or (versionSpan start properties) } := by
  induction properties generalizing start fuel reference with
  | nil =>
      obtain ⟨fuel, rfl⟩ : ∃ n, fuel = n + 1 := ⟨fuel - 1, by omega⟩
      rw [qualifierLoop, afterPart, if_pos rfl, versionSpan, Option.or_none]
  | cons p properties ih =>
      obtain ⟨fuel, rfl⟩ : ∃ n, fuel = n + 1 := ⟨fuel - 1, by omega⟩
      obtain ⟨hp, hprops⟩ := Bool.and_eq_true_iff.mp h
      have hwf := hp
      simp only [Property.wellFormed, Bool.and_eq_true] at hwf
      obtain ⟨⟨⟨⟨⟨⟨⟨-, hbefore⟩, hequals⟩, hvalue⟩, hkey⟩, hsimple⟩, hentry⟩, -⟩ := hwf
      have hsolid : Solid (p.key.text
          ++ (p.beforeEquals ++ equals :: (p.beforeValue ++ p.value.text))) := by
        have := (solid_entry hkey).append (solid_entry hentry)
          (p.beforeEquals ++ equals :: p.beforeValue)
        rwa [List.append_assoc, List.cons_append] at this
      have hpass : Passes comma (p.key.text
          ++ (p.beforeEquals ++ equals :: (p.beforeValue ++ p.value.text))) := by
        refine (passes_entry hkey (.inl rfl)).append ((passes_blank hequals).1.append ?_)
        exact (Passes.single (by decide) (by decide)).append
          ((passes_blank hvalue).1.append (passes_entry hentry (.inl rfl)))
      have hshape : p.head ++ (p.value.text ++ propertiesText properties)
          = p.beforeKey ++ ((p.key.text
            ++ (p.beforeEquals ++ equals :: (p.beforeValue ++ p.value.text)))
            ++ propertiesText properties) := by
        simp only [Property.head, List.append_assoc, List.cons_append, List.nil_append]
      have hne : p.head ++ (p.value.text ++ propertiesText properties) ≠ [] := by
        rw [hshape]
        exact List.append_ne_nil_of_right_ne_nil _
          (List.append_ne_nil_of_left_ne_nil hsolid.ne_nil _)
      have hnext : start + p.beforeComma.length + 1 + p.beforeKey.length + (p.key.text
          ++ (p.beforeEquals ++ equals :: (p.beforeValue ++ p.value.text))).length
          = start + p.text.length := by
        simp only [Property.text, Property.head, List.length_append, List.length_cons,
          List.length_nil]
        omega
      rw [qualifierLoop, afterPart, if_neg hne, hshape,
        tryGetNextQualifierPart_part hbefore hsolid hpass hprops]
      simp only [readQualifier_property hp]
      rw [hnext, ih hprops _ _ (by rw [List.length_cons] at hfuel; omega), versionSpan]
      by_cases hversion : p.isVersion
      · simp only [if_pos hversion, Option.or_assoc, Option.some_or]
      · simp only [if_neg hversion, Option.or_none]

/-- **An assembly qualification.** The reference is found, or the name is bare and contains
an escaped quote. -/
theorem parseAssemblyQualification_text {q : Qualification} (h : q.wellFormed = true)
    (start : ℕ) :
    parseAssemblyQualification ⟨start + q.beforeComma.length + 1,
        q.beforeName ++ q.name.text ++ propertiesText q.properties⟩
      = if q.hasBareQuote then .fail else .push (q.reference start) := by
  simp only [Qualification.wellFormed, Bool.and_eq_true] at h
  obtain ⟨⟨⟨⟨-, hbefore⟩, hname⟩, -⟩, hprops⟩ := h
  rw [parseAssemblyQualification, List.append_assoc,
    tryGetNextQualifierPart_part hbefore (solid_entry hname)
      (passes_entry hname (.inl rfl)) hprops]
  simp only [if_neg (solid_entry hname).ne_nil, tryGetUnquoted_entry hname]
  have hbare : (q.name.quote = none ∧ q.name.items.any Item.isEscapedQuote = true)
      ↔ q.hasBareQuote = true := by
    rw [Qualification.hasBareQuote, Bool.and_eq_true, decide_eq_true_iff]
  have hfuel : q.properties.length < (afterPart (start + q.beforeComma.length + 1
      + q.beforeName.length + q.name.text.length) q.properties).text.length + 1 :=
    Nat.lt_succ_of_le (length_le_afterPart _ _)
  by_cases hb : q.hasBareQuote
  · rw [if_pos (hbare.mpr hb), if_pos hb]
  · rw [if_neg fun h => hb (hbare.mp h), if_neg hb]
    simp only [qualifierLoop_properties hprops _ _ hfuel, unescape_items (plain_ne_backslash hname)]
    rfl

end AutoInstrumentation.ReflectionName
