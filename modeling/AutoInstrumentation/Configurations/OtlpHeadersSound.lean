import AutoInstrumentation.Configurations.OtlpHeaders

/-!
# AutoInstrumentation.Configurations.OtlpHeadersSound

When the combined headers are the union of both inputs.

A part of the list with a second `=` is not taken, and neither is a structured header that
is only white space; and a structured header's name with an `=` is split in the wrong
place. Nothing else gets lost.
-/

namespace AutoInstrumentation.Configurations

open AutoInstrumentation.Lib
open AutoInstrumentation.Cel (WChar WString code Unicode asciiUnicode)

/-! ### Splitting and joining -/

theorem not_mem_of_mem_splitOn {α : Type} [BEq α] [LawfulBEq α] {a : α} {xs l : List α}
    (h : l ∈ xs.splitOn a) : a ∉ l := by
  induction xs generalizing l with
  | nil =>
      rw [List.splitOn_nil, List.mem_singleton] at h
      rw [h]
      exact List.not_mem_nil
  | cons x xs ih =>
      rw [List.splitOn_cons_eq_if_modifyHead] at h
      obtain ⟨head, tail, hsplit⟩ := List.exists_cons_of_ne_nil (List.splitOn_ne_nil a xs)
      rw [hsplit] at h ih
      split at h
      · rcases List.mem_cons.mp h with rfl | h
        · exact List.not_mem_nil
        · exact ih h
      · next hx =>
          rw [List.modifyHead_cons] at h
          rcases List.mem_cons.mp h with rfl | h
          · have hhead := ih List.mem_cons_self
            simp only [List.mem_cons, not_or]
            exact ⟨fun heq => hx (by rw [heq, beq_self_eq_true]), hhead⟩
          · exact ih (List.mem_cons_of_mem head h)

theorem mem_of_mem_splitOn {α : Type} [BEq α] [LawfulBEq α] {a : α} {xs l : List α}
    (h : l ∈ xs.splitOn a) {x : α} (hx : x ∈ l) : x ∈ xs := by
  induction xs generalizing l with
  | nil =>
      rw [List.splitOn_nil, List.mem_singleton] at h
      rwa [h] at hx
  | cons y xs ih =>
      rw [List.splitOn_cons_eq_if_modifyHead] at h
      obtain ⟨head, tail, hsplit⟩ := List.exists_cons_of_ne_nil (List.splitOn_ne_nil a xs)
      rw [hsplit] at h ih
      split at h
      · rcases List.mem_cons.mp h with rfl | h
        · cases hx
        · exact List.mem_cons_of_mem y (ih h hx)
      · rw [List.modifyHead_cons] at h
        rcases List.mem_cons.mp h with rfl | h
        · rcases List.mem_cons.mp hx with rfl | hx
          · exact List.mem_cons_self
          · exact List.mem_cons_of_mem y (ih List.mem_cons_self hx)
        · exact List.mem_cons_of_mem y (ih (List.mem_cons_of_mem head h) hx)

theorem splitPair_printPair {p : WString × WString} (h : code '=' ∉ p.1) :
    splitPair (printPair p) = p := by
  have hname : ∀ c ∈ p.1, decide (c ≠ code '=') = true := by
    intro c hc
    simp only [decide_eq_true_eq]
    rintro rfl
    exact h hc
  rw [splitPair, printPair, List.takeWhile_append_of_pos hname, List.dropWhile_append_of_pos hname]
  simp

/-- A part with an `=` is its name, an `=`, and its value. -/
theorem printPair_splitPair {s : WString} (h : code '=' ∈ s) :
    printPair (splitPair s) = s ∧ code '=' ∉ (splitPair s).1 := by
  obtain ⟨key, value, rfl, hkey⟩ := List.eq_append_cons_of_mem h
  have hsplit : splitPair (printPair (key, value)) = (key, value) := splitPair_printPair hkey
  rw [printPair] at hsplit
  rw [hsplit]
  exact ⟨rfl, hkey⟩

/-- What is taken of a part: its pair, if both sides are there and it has one `=`. -/
theorem takePair_eq (s : WString) :
    takePair s =
      if code '=' ∈ s ∧ ((splitPair s).1 ≠ [] ∧ (splitPair s).2 ≠ []) ∧ code '=' ∉ (splitPair s).2
      then some (splitPair s) else none := by
  by_cases hs : code '=' ∈ s
  · obtain ⟨hprint, hname⟩ := printPair_splitPair hs
    have hsplit : s.splitOn (code '=') = (splitPair s).1 :: (splitPair s).2.splitOn (code '=') := by
      conv_lhs => rw [← hprint]
      exact List.splitOn_append_cons_self_of_not_mem hname _
    rw [takePair, hsplit]
    by_cases hvalue : code '=' ∈ (splitPair s).2
    · obtain ⟨hprint', hname'⟩ := printPair_splitPair hvalue
      have hsplit' : (splitPair s).2.splitOn (code '=')
          = (splitPair (splitPair s).2).1 :: (splitPair (splitPair s).2).2.splitOn (code '=') := by
        conv_lhs => rw [← hprint']
        exact List.splitOn_append_cons_self_of_not_mem hname' _
      obtain ⟨head, tail, hrest⟩ := List.exists_cons_of_ne_nil
        (List.splitOn_ne_nil (code '=') (splitPair (splitPair s).2).2)
      rw [hsplit', hrest, if_neg (fun h => h.2.2 hvalue)]
    · rw [List.splitOn_eq_singleton hvalue]
      simp only [hs, hvalue, not_false_eq_true, true_and, and_true]
  · rw [takePair, List.splitOn_eq_singleton hs, if_neg fun h => hs h.1]

/-! ### The pairs that are taken -/

theorem filterMap_takePair (parts : List WString) :
    (parts.filter (· ≠ [])).filterMap takePair =
      (((parts.filter (code '=' ∈ ·)).map splitPair).filter fun p => p.1 ≠ [] ∧ p.2 ≠ []).filter
        fun p => code '=' ∉ p.2 := by
  induction parts with
  | nil => rfl
  | cons s parts ih =>
      by_cases hs : code '=' ∈ s
      · have hne : s ≠ [] := List.ne_nil_of_mem hs
        by_cases hboth : (splitPair s).1 ≠ [] ∧ (splitPair s).2 ≠ []
        · by_cases hvalue : code '=' ∈ (splitPair s).2
          · simpa [takePair_eq, hs, hne, hboth.1, hboth.2, hvalue] using ih
          · simpa [takePair_eq, hs, hne, hboth.1, hboth.2, hvalue] using ih
        · have htake : takePair s = none := by rw [takePair_eq, if_neg fun h => hboth h.2.1]
          rw [List.filter_cons, if_pos (by simpa using hne), List.filterMap_cons, htake]
          rw [List.filter_cons, if_pos (by simpa using hs), List.map_cons, List.filter_cons,
            if_neg (by simpa using hboth)]
          exact ih
      · have htake : takePair s = none := by rw [takePair_eq, if_neg fun h => hs h.1]
        by_cases hne : s = []
        · simpa [hs, hne] using ih
        · simpa [hs, hne, htake] using ih

theorem isWhiteSpace_equalsSign (unicode : Unicode) : unicode.isWhiteSpace (code '=') = false := by
  have hcategory := unicode.ascii (code '=') (by decide)
  rw [Unicode.isWhiteSpace, hcategory]
  decide

/-- Of the list, the pairs without a second `=` are taken. -/
theorem pairsOfList_eq (unicode : Unicode) (headersList : Option WString) :
    pairsOfList unicode headersList =
      (listHeaders headersList).filter fun p => code '=' ∉ p.2 := by
  rw [pairsOfList]
  split
  · next hblank =>
      have hall : ∀ c ∈ headersList.getD [], unicode.isWhiteSpace c = true := by
        cases headersList with
        | none => exact fun _ hc => nomatch hc
        | some s => exact List.all_eq_true.mp hblank
      have hnone : code '=' ∉ headersList.getD [] := by
        intro hmem
        have hspace := hall _ hmem
        rw [isWhiteSpace_equalsSign] at hspace
        cases hspace
      have hparts : ((headersList.getD []).splitOn (code ',')).filter (code '=' ∈ ·) = [] := by
        refine List.filter_eq_nil_iff.mpr fun s hs hmem => hnone ?_
        exact mem_of_mem_splitOn hs (of_decide_eq_true hmem)
      rw [listHeaders, parseHeaders, hparts]
      rfl
  · exact filterMap_takePair _

/-- A header whose name or value is only white space. -/
def IsBlank (unicode : Unicode) (p : WString × WString) : Prop :=
  (p.1.all unicode.isWhiteSpace || p.2.all unicode.isWhiteSpace) = true

instance (unicode : Unicode) : DecidablePred (IsBlank unicode) := fun _ =>
  inferInstanceAs (Decidable (_ = _))

/-- Of the structured headers, those that are not only white space are taken. -/
theorem filterMap_takeHeader (unicode : Unicode) (headers : List (Option Header)) :
    headers.filterMap (takeHeader unicode) =
      (structuredHeaders (some headers)).filter fun p => ¬IsBlank unicode p := by
  induction headers with
  | nil => rfl
  | cons header headers ih =>
      rcases header with _ | ⟨_ | name, _ | value⟩
      · exact ih
      · exact ih
      · exact ih
      · exact ih
      · by_cases hempty : name ≠ [] ∧ value ≠ []
        · by_cases hblank : IsBlank unicode (name, value)
          · have htake : takeHeader unicode (some ⟨some name, some value⟩) = none := if_pos hblank
            rw [List.filterMap_cons, htake]
            simpa [structuredHeaders, hempty.1, hempty.2, hblank] using ih
          · have htake : takeHeader unicode (some ⟨some name, some value⟩) = some (name, value) :=
              if_neg hblank
            rw [List.filterMap_cons, htake]
            simpa [structuredHeaders, hempty.1, hempty.2, hblank] using ih
        · have hblank : IsBlank unicode (name, value) := by
            rw [IsBlank]
            by_cases hname : name = []
            · rw [hname]
              rfl
            · have hvalue : value = [] := by
                by_contra hvalue
                exact hempty ⟨hname, hvalue⟩
              rw [hvalue, List.all_nil, Bool.or_true]
          have htake : takeHeader unicode (some ⟨some name, some value⟩) = none := if_pos hblank
          rw [List.filterMap_cons, htake]
          have hnone : structuredHeaders (some (some ⟨some name, some value⟩ :: headers))
              = structuredHeaders (some headers) := by
            rw [structuredHeaders, structuredHeaders, Option.getD_some, Option.getD_some,
              List.filterMap_cons]
            simp only [if_neg hempty]
          rw [hnone]
          exact ih

/-! ### The result -/

/-- The pairs that are taken, in the order in which they are set. -/
def takenPairs (unicode : Unicode) (headers : Option (List (Option Header)))
    (headersList : Option WString) : List (WString × WString) :=
  (listHeaders headersList).filter (fun p => !p.2.contains (code '='))
    ++ (structuredHeaders headers).filter fun p => ¬IsBlank unicode p

theorem takenPairs_eq (unicode : Unicode) (headers : Option (List (Option Header)))
    (headersList : Option WString) :
    takenPairs unicode headers headersList =
      (listHeaders headersList).filter (fun p => code '=' ∉ p.2)
        ++ (structuredHeaders headers).filter fun p => ¬IsBlank unicode p := by
  rw [takenPairs]
  congr 2
  funext p
  simp

/-- The headers that are combined are those of a dictionary in which the taken pairs were
set. -/
theorem combineHeaders_eq (unicode : Unicode) (comparer : OrdinalIgnoreCase)
    (headers : Option (List (Option Header))) (headersList : Option WString) :
    ∃ d : Dictionary comparer.upper WString,
      d = Dictionary.empty.setAll (takenPairs unicode headers headersList)
        ∧ (combineHeaders unicode comparer headers headersList).getD [] =
          [code ','].intercalate (d.entries.map printPair) := by
  refine ⟨_, rfl, ?_⟩
  have hstructured : (headers.getD []).filterMap (takeHeader unicode) =
      (structuredHeaders headers).filter fun p => ¬IsBlank unicode p := by
    rw [filterMap_takeHeader]
    cases headers <;> rfl
  rw [combineHeaders, pairsOfList_eq, hstructured, takenPairs_eq, Dictionary.setAll,
    Dictionary.setAll, Dictionary.setAll, ← List.foldl_append]
  split
  · next hnil =>
      rw [hnil]
      rfl
  · rfl

theorem parseHeaders_join {pairs : List (WString × WString)}
    (h : ∀ p ∈ pairs, code '=' ∉ p.1 ∧ code ',' ∉ p.1 ∧ code ',' ∉ p.2) :
    parseHeaders ([code ','].intercalate (pairs.map printPair)) = pairs := by
  by_cases hnil : pairs = []
  · subst hnil
    rfl
  · have hcomma : ∀ s ∈ pairs.map printPair, code ',' ∉ s := by
      intro s hs
      obtain ⟨p, hp, rfl⟩ := List.mem_map.mp hs
      obtain ⟨-, hname, hvalue⟩ := h p hp
      rw [printPair, List.mem_append, List.mem_cons]
      rintro (hmem | heq | hmem)
      · exact hname hmem
      · exact absurd heq (by decide)
      · exact hvalue hmem
    have hequals : ∀ s ∈ pairs.map printPair, decide (code '=' ∈ s) = true := by
      intro s hs
      obtain ⟨p, -, rfl⟩ := List.mem_map.mp hs
      exact decide_eq_true (List.mem_append_right _ List.mem_cons_self)
    have hne : pairs.map printPair ≠ [] := fun hmap => hnil (List.map_eq_nil_iff.mp hmap)
    rw [parseHeaders, List.splitOn_intercalate _ hcomma hne, List.filter_eq_self.mpr hequals, List.map_map]
    conv_rhs => rw [← List.map_id pairs]
    exact List.map_congr_left fun p hp => splitPair_printPair (h p hp).1

theorem listHeaders_plain {headersList : Option WString} {p : WString × WString}
    (h : p ∈ listHeaders headersList) : code '=' ∉ p.1 ∧ code ',' ∉ p.1 ∧ code ',' ∉ p.2 := by
  obtain ⟨s, hs, rfl⟩ := List.mem_map.mp (List.mem_filter.mp h).1
  obtain ⟨hpart, hequals⟩ := List.mem_filter.mp hs
  have hcomma := not_mem_of_mem_splitOn hpart
  obtain ⟨hprint, hname⟩ := printPair_splitPair (of_decide_eq_true hequals)
  rw [← hprint, printPair, List.mem_append, List.mem_cons, not_or, not_or] at hcomma
  exact ⟨hname, hcomma.1, hcomma.2.2⟩

/-! ### When nothing gets lost -/

/-- No pair that is left out is the last one of its name, unless the one that is found
instead has the same value; and no name that is taken has an `=`. -/
structure Combinable (unicode : Unicode) (comparer : OrdinalIgnoreCase)
    (headers : Option (List (Option Header))) (headersList : Option WString) : Prop where
  names : ∀ p ∈ structuredHeaders headers, ¬IsBlank unicode p → code '=' ∉ p.1
  list : ∀ before p after, listHeaders headersList = before ++ p :: after → code '=' ∈ p.2 →
    ∃ q ∈ after ++ structuredHeaders headers, comparer.upper q.1 = comparer.upper p.1
  structured : ∀ before p after, structuredHeaders headers = before ++ p :: after →
    IsBlank unicode p →
      (∃ q ∈ after, comparer.upper q.1 = comparer.upper p.1)
        ∨ lastValue comparer.upper
            ((listHeaders headersList).filter (fun q => code '=' ∉ q.2)
              ++ before.filter fun q => ¬IsBlank unicode q) p.1 = some p.2

section Combinable

variable {unicode : Unicode} {comparer : OrdinalIgnoreCase}
  {headers : Option (List (Option Header))} {headersList : Option WString}

theorem equalsSign_congr {a b : WString} (h : comparer.upper a = comparer.upper b) :
    code '=' ∈ a ↔ code '=' ∈ b := by
  rw [← comparer.equalsSign a, h, comparer.equalsSign b]

/-- Where no name has an `=`, what is parsed is what was taken. -/
theorem parse_combined
    (hcomma : ∀ p ∈ structuredHeaders headers, code ',' ∉ p.1 ∧ code ',' ∉ p.2)
    (hnames : ∀ p ∈ structuredHeaders headers, ¬IsBlank unicode p → code '=' ∉ p.1) :
    let result :=
      parseHeaders ((combineHeaders unicode comparer headers headersList).getD [])
    (result.map fun p => comparer.upper p.1).Nodup
      ∧ ∀ name, lastValue comparer.upper result name =
          lastValue comparer.upper (takenPairs unicode headers headersList) name := by
  obtain ⟨d, hd, hcombined⟩ := combineHeaders_eq unicode comparer headers headersList
  have htaken : ∀ p ∈ takenPairs unicode headers headersList,
      code '=' ∉ p.1 ∧ code ',' ∉ p.1 ∧ code ',' ∉ p.2 := by
    intro p hp
    rcases List.mem_append.mp hp with hp | hp
    · exact listHeaders_plain (List.mem_filter.mp hp).1
    · obtain ⟨hmem, hblank⟩ := List.mem_filter.mp hp
      exact ⟨hnames p hmem (of_decide_eq_true hblank), hcomma p hmem⟩
  have hentries : ∀ p ∈ d.entries, code '=' ∉ p.1 ∧ code ',' ∉ p.1 ∧ code ',' ∉ p.2 := by
    intro p hp
    rw [hd] at hp
    obtain ⟨⟨q, hq, hkey⟩, r, hr, hvalue⟩ := Dictionary.mem_setAll hp
    rw [hkey, hvalue]
    exact ⟨(htaken q hq).1, (htaken q hq).2.1, (htaken r hr).2.2⟩
  dsimp only
  rw [hcombined, parseHeaders_join hentries]
  refine ⟨d.nodup, fun name => ?_⟩
  have hfind := (Dictionary.empty : Dictionary comparer.upper WString).find_setAll
    (takenPairs unicode headers headersList) name
  rw [← hd] at hfind
  exact hfind.trans (Option.or_none)

theorem combinable_of_isUnion
    (hcomma : ∀ p ∈ structuredHeaders headers, code ',' ∉ p.1 ∧ code ',' ∉ p.2)
    (h : IsUnion comparer headers headersList
      (combineHeaders unicode comparer headers headersList)) :
    Combinable unicode comparer headers headersList := by
  have hnames : ∀ p ∈ structuredHeaders headers, ¬IsBlank unicode p → code '=' ∉ p.1 := by
    intro p hp _ hequals
    -- the name is expected, but no name that is parsed has an `=`
    have hexpected : lastValue comparer.upper
        (listHeaders headersList ++ structuredHeaders headers) p.1 ≠ none := fun hnone =>
      lastValue_eq_none.mp hnone p (List.mem_append_right _ hp) rfl
    rw [← h.2 p.1] at hexpected
    refine hexpected (lastValue_eq_none.mpr fun q hq heq => ?_)
    obtain ⟨s, hs, rfl⟩ := List.mem_map.mp hq
    have hname := (printPair_splitPair (of_decide_eq_true (List.mem_filter.mp hs).2)).2
    exact hname ((equalsSign_congr heq).mpr hequals)
  have htaken : ∀ name, lastValue comparer.upper (takenPairs unicode headers headersList) name =
      lastValue comparer.upper (listHeaders headersList ++ structuredHeaders headers) name := by
    intro name
    rw [← (parse_combined hcomma hnames).2 name]
    exact h.2 name
  refine ⟨hnames, fun before p after hlist hequals => ?_, fun before p after hstr hblank => ?_⟩
  · by_contra hnone
    have habsent : ∀ q ∈ after ++ structuredHeaders headers,
        comparer.upper q.1 ≠ comparer.upper p.1 := fun q hq heq => hnone ⟨q, hq, heq⟩
    have hlast := htaken p.1
    rw [hlist, List.append_assoc, List.cons_append, lastValue_of_last habsent] at hlast
    obtain ⟨front, q, back, hsplit, hkey, hvalue, -⟩ := exists_last hlast
    have hq : q ∈ takenPairs unicode headers headersList := by
      rw [hsplit]
      exact List.mem_append_right _ List.mem_cons_self
    rw [takenPairs_eq] at hq
    rcases List.mem_append.mp hq with hq | hq
    · rw [← hvalue] at hequals
      exact of_decide_eq_true (List.mem_filter.mp hq).2 hequals
    · exact habsent q (List.mem_append_right _ (List.mem_filter.mp hq).1) hkey
  · by_cases hlater : ∃ q ∈ after, comparer.upper q.1 = comparer.upper p.1
    · exact .inl hlater
    · have habsent : ∀ q ∈ after, comparer.upper q.1 ≠ comparer.upper p.1 :=
        fun q hq heq => hlater ⟨q, hq, heq⟩
      have hlast := htaken p.1
      rw [takenPairs_eq, hstr, List.filter_append,
        List.filter_cons_of_neg (by simpa using hblank), ← List.append_assoc,
        ← List.append_assoc, lastValue_of_last habsent,
        lastValue_append_of_absent fun q hq => habsent q (List.mem_filter.mp hq).1] at hlast
      exact .inr hlast

theorem Combinable.lastValue_eq (h : Combinable unicode comparer headers headersList)
    (name : WString) :
    lastValue comparer.upper (takenPairs unicode headers headersList) name =
      lastValue comparer.upper (listHeaders headersList ++ structuredHeaders headers) name := by
  have absent_filter {pairs : List (WString × WString)} (f : WString × WString → Bool)
      (habsent : ∀ q ∈ pairs, comparer.upper q.1 ≠ comparer.upper name) :
      ∀ q ∈ pairs.filter f, comparer.upper q.1 ≠ comparer.upper name :=
    fun q hq => habsent q (List.mem_filter.mp hq).1
  rw [takenPairs_eq]
  cases hstr : lastValue comparer.upper (structuredHeaders headers) name with
  | some value =>
      obtain ⟨before, p, after, hsplit, hkey, rfl, habsent⟩ := exists_last hstr
      rw [lastValue_append (listHeaders headersList), hstr, Option.some_or, hsplit,
        List.filter_append]
      by_cases hblank : IsBlank unicode p
      · rcases h.structured before p after hsplit hblank with ⟨q, hq, heq⟩ | hfound
        · exact absurd (heq.trans hkey) (habsent q hq)
        · rw [List.filter_cons_of_neg (by simpa using hblank), ← List.append_assoc,
            lastValue_append_of_absent (absent_filter _ habsent), ← lastValue_congr hkey]
          exact hfound
      · rw [List.filter_cons_of_pos (by simpa using hblank), ← List.append_assoc,
          ← lastValue_congr hkey]
        exact lastValue_of_last (hkey ▸ absent_filter _ habsent)
  | none =>
      have hstructured := lastValue_eq_none.mp hstr
      rw [lastValue_append_of_absent (absent_filter _ hstructured),
        lastValue_append_of_absent hstructured]
      cases hlist : lastValue comparer.upper (listHeaders headersList) name with
      | none => exact lastValue_eq_none.mpr (absent_filter _ (lastValue_eq_none.mp hlist))
      | some value =>
          obtain ⟨before, p, after, hsplit, hkey, rfl, habsent⟩ := exists_last hlist
          have hvalue : code '=' ∉ p.2 := by
            intro hequals
            obtain ⟨q, hq, heq⟩ := h.list before p after hsplit hequals
            rcases List.mem_append.mp hq with hq | hq
            · exact habsent q hq (heq.trans hkey)
            · exact hstructured q hq (heq.trans hkey)
          rw [hsplit, List.filter_append, List.filter_cons_of_pos (by simpa using hvalue),
            ← lastValue_congr hkey]
          exact lastValue_of_last (hkey ▸ absent_filter _ habsent)

/-- **The combined headers are the union of both inputs** exactly when no pair that is left
out, a part of the list with a second `=` or a structured header of white space, is the one
that counts, and no structured header's name has an `=`. -/
theorem combineHeaders_isUnion_iff
    (hcomma : ∀ p ∈ structuredHeaders headers, code ',' ∉ p.1 ∧ code ',' ∉ p.2) :
    IsUnion comparer headers headersList (combineHeaders unicode comparer headers headersList)
      ↔ Combinable unicode comparer headers headersList := by
  refine ⟨combinable_of_isUnion hcomma, fun h => ?_⟩
  have hcombined := @parse_combined unicode comparer headers headersList hcomma h.names
  obtain ⟨hnodup, hvalues⟩ := hcombined
  exact ⟨hnodup, fun name => (hvalues name).trans (h.lastValue_eq name)⟩

end Combinable

/-! ### Inputs -/

/-- Nothing but ASCII has an upper case. -/
def asciiIgnoreCase : OrdinalIgnoreCase where
  upper := List.map asciiUpper
  equalsSign := by
    have hchar (c : WChar) : asciiUpper c = code '=' ↔ c = code '=' :=
      asciiUpper_eq_iff (by decide)
    intro s
    rw [List.mem_map]
    exact ⟨fun ⟨c, hc, heq⟩ => (hchar c).mp heq ▸ hc, fun h => ⟨_, h, (hchar _).mpr rfl⟩⟩

/-- `k=v` and a structured header `K`. -/
theorem combineHeaders_isUnion_iff_structured :
    IsUnion asciiIgnoreCase (some [some ⟨some [code 'K'], some [code 'w']⟩])
      (some [code 'k', code '=', code 'v'])
      (combineHeaders asciiUnicode asciiIgnoreCase (some [some ⟨some [code 'K'], some [code 'w']⟩])
        (some [code 'k', code '=', code 'v'])) := by
  refine (combineHeaders_isUnion_iff (by decide)).mpr ⟨by decide, ?_, ?_⟩
  · intro before p after hsplit hequals
    have hlist : listHeaders (some [code 'k', code '=', code 'v']) = [([code 'k'], [code 'v'])] := by
      decide
    have hp : p ∈ listHeaders (some [code 'k', code '=', code 'v']) := by
      rw [hsplit]
      exact List.mem_append_right _ List.mem_cons_self
    rw [hlist, List.mem_singleton] at hp
    rw [hp] at hequals
    exact absurd hequals (by decide)
  · intro before p after hsplit hblank
    have hstr : structuredHeaders (some [some ⟨some [code 'K'], some [code 'w']⟩])
        = [([code 'K'], [code 'w'])] := by decide
    have hp : p ∈ structuredHeaders (some [some ⟨some [code 'K'], some [code 'w']⟩]) := by
      rw [hsplit]
      exact List.mem_append_right _ List.mem_cons_self
    rw [hstr, List.mem_singleton] at hp
    rw [hp] at hblank
    exact absurd hblank (by decide)

/-- The header of `k=YQ==`, whose value is padded Base64, is lost. -/
theorem combineHeaders_not_isUnion :
    ¬IsUnion asciiIgnoreCase none
      (some [code 'k', code '=', code 'Y', code 'Q', code '=', code '='])
      (combineHeaders asciiUnicode asciiIgnoreCase none
        (some [code 'k', code '=', code 'Y', code 'Q', code '=', code '='])) := by
  intro h
  exact absurd (h.2 [code 'k']) (by decide)

end AutoInstrumentation.Configurations
