import AutoInstrumentation.CallTarget.Around

/-!
# AutoInstrumentation.CallTarget.Clauses

Where the exception clauses stand in the new list.

An imported clause keeps the instructions that it names, so that its intervals move with
them: the ends of what it protects and of its filter to the next imported instruction, and
the end of its handler behind its last one. The clauses that are added have fixed places
around them.
-/

namespace AutoInstrumentation.CallTarget

open AutoInstrumentation.IL AutoInstrumentation.Lib

/-! ### Positions in a list of blocks -/

theorem position_middle {front rest : List ILInstr} {i : ILInstr}
    (hnodup : ((front ++ i :: rest).map (·.ptr)).Nodup) :
    position (front ++ i :: rest) (.instr i.ptr) = front.length
      ∧ position (front ++ i :: rest) (nextPtr (front ++ i :: rest) (.instr i.ptr))
        = front.length + 1
      ∧ Linked (front ++ i :: rest) (nextPtr (front ++ i :: rest) (.instr i.ptr)) := by
  have hget : (front ++ i :: rest)[front.length]? = some i := by
    rw [List.getElem?_append_right (Nat.le_refl _), Nat.sub_self]
    rfl
  refine ⟨position_ptr hnodup hget, position_nextPtr hnodup hget, ?_⟩
  rw [nextPtr_getElem hnodup hget]
  exact linked_headPtr_drop _ _

theorem StartsWith.position {p : InstrPtr} {front block rest : List ILInstr}
    (h : StartsWith p block) (hnodup : ((front ++ block ++ rest).map (·.ptr)).Nodup) :
    position (front ++ block ++ rest) p = front.length
      ∧ ∃ i ∈ front ++ block ++ rest, p = .instr i.ptr := by
  obtain ⟨i, behind, rfl, rfl⟩ := h
  rw [List.append_assoc, List.cons_append] at hnodup ⊢
  exact ⟨(position_middle hnodup).1, i, by simp, rfl⟩

theorem EndsWith.position {p : InstrPtr} {front block rest : List ILInstr}
    (h : EndsWith p block) (hnodup : ((front ++ block ++ rest).map (·.ptr)).Nodup) :
    position (front ++ block ++ rest) (nextPtr (front ++ block ++ rest) p)
        = front.length + block.length
      ∧ ∃ i ∈ front ++ block ++ rest, p = .instr i.ptr := by
  obtain ⟨before, i, rfl, rfl⟩ := h
  rw [← List.append_assoc, List.append_assoc _ [i], List.singleton_append] at hnodup ⊢
  refine ⟨?_, i, by simp, rfl⟩
  rw [(position_middle hnodup).2.1, List.length_append, List.length_append]
  rfl

theorem StartsWith.length_pos {p : InstrPtr} {block : List ILInstr} (h : StartsWith p block) :
    0 < block.length := by
  obtain ⟨i, rest, rfl, -⟩ := h
  exact Nat.succ_pos _

/-- The intervals of the clause of a callback, from `lo` to `hi`. -/
inductive IsCallbackClause (lo hi : ℕ) : Clause ℕ → Prop
  | caught (u : ℕ) : lo < u → u < hi → IsCallbackClause lo hi ⟨⟨lo, u⟩, none, ⟨u, hi⟩⟩
  | filtered (u v : ℕ) : lo < u → u < v → v < hi →
      IsCallbackClause lo hi ⟨⟨lo, u⟩, some ⟨u, v⟩, ⟨v, hi⟩⟩

theorem IsCallback.startsWith {cb : Callback} {callback : List ILInstr}
    (h : IsCallback cb callback) : StartsWith cb.tryStartInstr callback := by
  obtain ⟨tryBlock, handlerBlock, rfl, hcb⟩ := h
  exact hcb.tryStartInstr.append _

/-- Where the clause of a callback stands. -/
theorem IsCallback.positions {tokens : TracerTokens} {cb : Callback} {e : EHClause}
    {front callback rest : List ILInstr} (h : IsCallback cb callback)
    (hnodup : ((front ++ callback ++ rest).map (·.ptr)).Nodup)
    (he : cb.handler.clause tokens cb.tryStartInstr = some e) :
    e.In (front ++ callback ++ rest)
      ∧ IsCallbackClause front.length (front.length + callback.length)
        (e.positions (front ++ callback ++ rest)) := by
  obtain ⟨tryBlock, _, rfl, hcb⟩ := h
  obtain ⟨filterBlock, catchBlock, rfl, hhandler⟩ := hcb.handler
  obtain ⟨first, hfirst, rfl⟩ := Option.map_eq_some_iff.mp he
  have hcatchList : front ++ (tryBlock ++ (filterBlock ++ catchBlock)) ++ rest
      = front ++ tryBlock ++ filterBlock ++ catchBlock ++ rest := by
    simp only [List.append_assoc]
  have hfilterList : front ++ (tryBlock ++ (filterBlock ++ catchBlock)) ++ rest
      = front ++ tryBlock ++ filterBlock ++ (catchBlock ++ rest) := by
    simp only [List.append_assoc]
  obtain ⟨htry, htryIn⟩ := (hcb.tryStartInstr.append _).position hnodup
  have hstarts := hhandler.catchFirstInstr first hfirst
  obtain ⟨hcatch, hcatchIn⟩ := hstarts.position (hcatchList ▸ hnodup)
  obtain ⟨hleave, hleaveIn⟩ := hhandler.catchLeaveInstr.position (hcatchList ▸ hnodup)
  rw [← hcatchList] at hcatch hcatchIn hleave hleaveIn
  have hnone : corILExceptionClauseNone &&& corILExceptionClauseFilter = 0 := by decide
  have hflag : corILExceptionClauseFilter &&& corILExceptionClauseFilter ≠ 0 := by decide
  have htryPos := hcb.tryStartInstr.length_pos
  have hcatchPos := hstarts.length_pos
  have hlength : front.length + (tryBlock ++ (filterBlock ++ catchBlock)).length
      = (front ++ tryBlock ++ filterBlock).length + catchBlock.length := by
    simp only [List.length_append, Nat.add_assoc]
  cases hfilter : cb.handler.filter with
  | none =>
      have hnil := hhandler.noFilter hfilter
      subst hnil
      refine ⟨⟨.inr htryIn, .inr hcatchIn, .inr hcatchIn, hleaveIn, fun hflags => ?_⟩, ?_⟩
      · exact absurd hnone hflags
      · rw [EHClause.positions]
        dsimp only
        rw [if_pos hnone, htry, hcatch, hleave, hlength]
        exact .caught _ (by simp; omega) (by simp; omega)
  | some filter =>
      have hfilterStarts := hhandler.filter filter hfilter
      obtain ⟨hposition, hfilterIn⟩ := hfilterStarts.position (hfilterList ▸ hnodup)
      rw [← hfilterList] at hposition hfilterIn
      have hfilterPos := hfilterStarts.length_pos
      refine ⟨⟨.inr htryIn, .inr hfilterIn, .inr hcatchIn, hleaveIn, fun _ => .inr hfilterIn⟩, ?_⟩
      rw [EHClause.positions]
      dsimp only
      rw [if_neg hflag, htry, hposition, hcatch, hleave, hlength]
      exact .filtered _ _ (by simp; omega) (by simp; omega) (by simp; omega)

/-! ### The new clauses -/

theorem positions_congr {is js : List ILInstr} (h : js.map (·.ptr) = is.map (·.ptr))
    (e : EHClause) : e.positions js = e.positions is := by
  simp only [EHClause.positions, position_congr h, nextPtr_congr h]

theorem in_congr {is js : List ILInstr} (h : js.map (·.ptr) = is.map (·.ptr)) {e : EHClause}
    (he : e.In js) : e.In is where
  tryBegin := (linked_congr h).mp he.tryBegin
  tryEnd := (linked_congr h).mp he.tryEnd
  handlerBegin := (linked_congr h).mp he.handlerBegin
  handlerEnd := by
    obtain ⟨i, hi, hend⟩ := he.handlerEnd
    have hptr : i.ptr ∈ is.map (·.ptr) := h ▸ List.mem_map_of_mem hi
    obtain ⟨j, hj, heq⟩ := List.mem_map.mp hptr
    exact ⟨j, hj, heq ▸ hend⟩
  filter := fun hflags => (linked_congr h).mp (he.filter hflags)

/-- The intervals of the new clauses: the code that begins the call ends at `b`, the code
behind the method starts at `K`, and its last handler ends behind `M`. -/
structure AreNewClauses (b K M : ℕ) (cs : List (Clause ℕ)) : Prop where
  clauses : ∃ c d, IsCallbackClause 0 b c ∧ IsCallbackClause (K + 2) M d
    ∧ cs = [c, d, ⟨⟨0, K⟩, none, ⟨K, K + 2⟩⟩, ⟨⟨0, K + 2⟩, none, ⟨K + 2, M + 1⟩⟩]

theorem allSome_four {a b : Option EHClause} {c d : EHClause} {es : List EHClause}
    (h : [a, b, some c, some d].allSome = some es) :
    ∃ a' b', a = some a' ∧ b = some b' ∧ es = [a', b', c, d] := by
  cases a with
  | none => cases h
  | some a =>
      cases b with
      | none => cases h
      | some b =>
          cases h
          exact ⟨a, b, rfl, rfl, rfl⟩

theorem Rewritten.newClauses {s t : ILRewriter} {isVoid : Bool} {m : Emitted}
    {begin body ending : List ILInstr} {methodReturn : ILInstr} {tokens : TracerTokens}
    {es : List EHClause} (h : Rewritten s isVoid m begin body ending methodReturn t)
    (hes : (m.clauses tokens t.instrs).allSome = some es) :
    (∀ e ∈ es, e.In t.instrs)
      ∧ ∃ M, M + 1 < t.instrs.length ∧ AreNewClauses begin.length (begin.length + body.length) M
        (es.map (EHClause.positions t.instrs)) := by
  obtain ⟨beginClause, endClause, hbeginClause, hendClause, rfl⟩ := allSome_four hes
  obtain ⟨catchInstr, rethrowInstr, callback, finallyInstr, rest, hending, hcatch, hrethrow,
    hcallback, hfinally⟩ := h.ends.blocks
  -- the targets do not matter, only the addresses
  let is := begin.map erased ++ body ++ ending.map erased ++ [methodReturn]
  have hptrs : is.map (·.ptr) = t.instrs.map (·.ptr) := by
    rw [h.instrs]
    simp only [is, List.map_append, List.map_map]
    rfl
  have hnodup : (is.map (·.ptr)).Nodup := hptrs ▸ h.closed.nodup
  have hbeginList : is = [] ++ begin.map erased ++ (body ++ ending.map erased ++ [methodReturn]) := by
    simp [is]
  have hcatchList : is = begin.map erased ++ body ++ catchInstr ::
      (rethrowInstr :: (callback ++ finallyInstr :: rest) ++ [methodReturn]) := by
    simp [is, hending]
  have hrethrowList : is = (begin.map erased ++ body ++ [catchInstr]) ++ rethrowInstr ::
      (callback ++ finallyInstr :: rest ++ [methodReturn]) := by
    simp [is, hending]
  have hcallbackList : is = (begin.map erased ++ body ++ [catchInstr, rethrowInstr]) ++ callback ++
      (finallyInstr :: rest ++ [methodReturn]) := by
    simp [is, hending]
  have hfinallyList : is = (begin.map erased ++ body ++ [catchInstr, rethrowInstr] ++ callback)
      ++ finallyInstr :: (rest ++ [methodReturn]) := by
    simp [is, hending]
  obtain ⟨htryStart, htryStartIn⟩ := h.begins.startsWith.position (hbeginList ▸ hnodup)
  obtain ⟨hbeginIn, hbegin⟩ := h.begins.positions (hbeginList ▸ hnodup) hbeginClause
  rw [← hbeginList] at htryStart htryStartIn hbeginIn hbegin
  obtain ⟨hendIn, hend⟩ := hcallback.positions (hcallbackList ▸ hnodup) hendClause
  rw [← hcallbackList] at hendIn hend
  obtain ⟨hcatchAt, -, -⟩ := position_middle (hcatchList ▸ hnodup)
  rw [← hcatchList] at hcatchAt
  obtain ⟨-, hbehindRethrow, hbehindRethrowIn⟩ := position_middle (hrethrowList ▸ hnodup)
  rw [← hrethrowList] at hbehindRethrow hbehindRethrowIn
  obtain ⟨-, hbehindFinally, -⟩ := position_middle (hfinallyList ▸ hnodup)
  rw [← hfinallyList] at hbehindFinally
  have hmem (i : ILInstr) (hi : i ∈ ending.map erased) : i ∈ is :=
    List.mem_append_left _ (List.mem_append_right _ hi)
  have hcatchIn : Linked is m.startExceptionCatch :=
    .inr ⟨catchInstr, hmem _ (by rw [hending]; simp), hcatch⟩
  have hrethrowIn : ∃ i ∈ is, m.rethrowInstr = .instr i.ptr :=
    ⟨rethrowInstr, hmem _ (by rw [hending]; simp), hrethrow⟩
  have hfinallyIn : ∃ i ∈ is, m.endFinallyInstr = .instr i.ptr :=
    ⟨finallyInstr, hmem _ (by rw [hending]; simp), hfinally⟩
  rw [← hrethrow] at hbehindRethrow hbehindRethrowIn
  rw [← hfinally] at hbehindFinally
  rw [← hcatch] at hcatchAt
  have hnoFilter : corILExceptionClauseNone &&& corILExceptionClauseFilter = 0 := by decide
  have hnoFilter' : corILExceptionClauseFinally &&& corILExceptionClauseFilter = 0 := by decide
  rw [← List.map_congr_left fun e _ => positions_congr hptrs e, ← nextPtr_congr hptrs]
  simp only [List.length_append, List.length_map, List.length_cons, List.length_nil,
    Nat.zero_add] at htryStart hbegin hend hcatchAt hbehindRethrow hbehindFinally
  refine ⟨?_, begin.length + body.length + 2 + callback.length, ?_,
    ⟨beginClause.positions is, endClause.positions is, hbegin, hend, ?_⟩⟩
  · intro e he
    refine in_congr hptrs ?_
    simp only [List.mem_cons, List.not_mem_nil, or_false] at he
    rcases he with rfl | rfl | rfl | rfl
    · exact hbeginIn
    · exact hendIn
    · exact ⟨.inr htryStartIn, hcatchIn, hcatchIn, hrethrowIn, fun h => absurd hnoFilter h⟩
    · exact ⟨.inr htryStartIn, hbehindRethrowIn, hbehindRethrowIn, hfinallyIn,
        fun h => absurd hnoFilter' h⟩
  · have hlength : is.length = t.instrs.length := by
      simpa using congrArg List.length hptrs
    rw [← hlength, hfinallyList]
    simp
    omega
  · simp [EHClause.positions, hnoFilter, hnoFilter', htryStart, hcatchAt, hbehindRethrow,
      hbehindFinally]

/-! ### The imported clauses -/

/-- The new position of what stood at `k`, behind `b` instructions. -/
def place (isVoid : Bool) (methodReturnInstr : InstrPtr) (b : ℕ) (is : List ILInstr) (k : ℕ) : ℕ :=
  b + k + insertions isVoid methodReturnInstr (is.take k)

/-- The new position of what is behind the last instruction before `k`. -/
def placeEnd (isVoid : Bool) (methodReturnInstr : InstrPtr) (b : ℕ) (is : List ILInstr) : ℕ → ℕ
  | 0 => place isVoid methodReturnInstr b is 0
  | k + 1 => place isVoid methodReturnInstr b is k + 1

section places

variable {isVoid : Bool} {methodReturnInstr : InstrPtr} {b : ℕ} {is : List ILInstr}

theorem place_succ {k : ℕ} {i : ILInstr} (h : is[k]? = some i) :
    place isVoid methodReturnInstr b is (k + 1)
      = place isVoid methodReturnInstr b is k + 1
        + if isVoid = false ∧ IsReturn methodReturnInstr i then 1 else 0 := by
  obtain ⟨hlt, rfl⟩ := List.getElem?_eq_some_iff.mp h
  rw [place, place, List.take_succ_eq_append_getElem hlt, insertions_append, insertions_cons]
  simp only [insertions, List.countP_nil]
  omega

theorem place_lt {j k : ℕ} (hjk : j < k) :
    place isVoid methodReturnInstr b is j < place isVoid methodReturnInstr b is k := by
  have hle : insertions isVoid methodReturnInstr (is.take j)
      ≤ insertions isVoid methodReturnInstr (is.take k) :=
    (List.take_prefix_take_left (Nat.le_of_lt hjk)).sublist.countP_le
  rw [place, place]
  omega

theorem shortens_placeEnd : Shortens {k | k ≤ is.length}
    (place isVoid methodReturnInstr b is) (placeEnd isVoid methodReturnInstr b is) := by
  refine ⟨fun j _ k _ hjk => place_lt hjk, fun k _ => ?_, fun j _ k _ hjk => ?_⟩
  · cases k with
    | zero => exact Nat.le_refl _
    | succ k => exact place_lt (Nat.lt_succ_self k)
  · cases k with
    | zero => cases hjk
    | succ k =>
        rcases Nat.lt_or_eq_of_le (Nat.le_of_lt_succ hjk) with hlt | rfl
        · exact Nat.lt_succ_of_lt (place_lt hlt)
        · exact Nat.lt_succ_self _

/-- Only behind a value that is returned the two differ. -/
theorem placeEnd_eq_iff {k : ℕ} {i : ILInstr} (h : is[k]? = some i) :
    placeEnd isVoid methodReturnInstr b is (k + 1) = place isVoid methodReturnInstr b is (k + 1)
      ↔ isVoid = true ∨ ¬IsReturn methodReturnInstr i := by
  rw [place_succ h, placeEnd]
  cases isVoid with
  | true => simp
  | false => by_cases hreturn : IsReturn methodReturnInstr i <;> simp [hreturn]

end places

section old

variable {s t : ILRewriter} {isVoid : Bool} {m : Emitted} {begin body ending : List ILInstr}
  {methodReturn : ILInstr}

/-- The new position of an imported instruction. -/
theorem Rewritten.getElem? (h : Rewritten s isVoid m begin body ending methodReturn t) {k : ℕ}
    {i : ILInstr} (hi : s.instrs[k]? = some i) :
    ∃ j, t.instrs[place isVoid m.methodReturnInstr begin.length s.instrs k]? = some j
      ∧ j.ptr = i.ptr := by
  obtain ⟨n, target, -, hbody⟩ := h.body
  obtain ⟨front, n', rest, hsplit, hlength, -⟩ :=
    replaceReturns_split isVoid m.locals.returnValue m.methodReturnInstr target n hi
  obtain ⟨j, tail, hfirst, hptr⟩ :=
    replaceReturns_first isVoid m.locals.returnValue m.methodReturnInstr target n' i
  have hlist : t.instrs = (begin ++ front) ++ j :: (tail ++ rest ++ ending ++ [methodReturn]) := by
    rw [h.instrs, hbody, hsplit, hfirst]
    simp
  refine ⟨j, ?_, hptr⟩
  have hplace : place isVoid m.methodReturnInstr begin.length s.instrs k
      = (begin ++ front).length := by
    rw [place, List.length_append, hlength, Nat.add_assoc]
  rw [hlist, hplace, List.getElem?_append_right (Nat.le_refl _), Nat.sub_self]
  rfl

theorem Rewritten.position (h : Rewritten s isVoid m begin body ending methodReturn t) {k : ℕ}
    {i : ILInstr} (hi : s.instrs[k]? = some i) :
    position t.instrs (.instr i.ptr)
        = place isVoid m.methodReturnInstr begin.length s.instrs k
      ∧ position t.instrs (nextPtr t.instrs (.instr i.ptr))
        = placeEnd isVoid m.methodReturnInstr begin.length s.instrs (k + 1) := by
  obtain ⟨j, hj, hptr⟩ := h.getElem? hi
  rw [← hptr]
  exact ⟨position_ptr h.closed.nodup hj, position_nextPtr h.closed.nodup hj⟩

theorem Rewritten.linked (h : Rewritten s isVoid m begin body ending methodReturn t)
    {p : InstrPtr} (hp : Linked s.instrs p) : Linked t.instrs p := by
  rcases hp with rfl | ⟨i, hi, rfl⟩
  · exact .inl rfl
  · obtain ⟨k, hk⟩ := List.mem_iff_getElem?.mp hi
    obtain ⟨j, hj, hptr⟩ := h.getElem? hk
    exact .inr ⟨j, List.mem_of_getElem? hj, by rw [hptr]⟩

/-- The new position of a place before the end of the imported list. -/
theorem Rewritten.position_of_lt (h : Rewritten s isVoid m begin body ending methodReturn t)
    {p : InstrPtr} (hp : IL.position s.instrs p < s.instrs.length) :
    IL.position t.instrs p
      = place isVoid m.methodReturnInstr begin.length s.instrs (IL.position s.instrs p) := by
  have hget := List.getElem?_eq_getElem hp
  have hptr := position_getElem hget
  obtain ⟨hposition, -⟩ := h.position hget
  rwa [← hptr] at hposition

theorem Rewritten.place_length (h : Rewritten s isVoid m begin body ending methodReturn t) :
    place isVoid m.methodReturnInstr begin.length s.instrs s.instrs.length
      = begin.length + body.length := by
  obtain ⟨n, target, -, hbody⟩ := h.body
  rw [place, List.take_length, hbody, length_replaceReturns, Nat.add_assoc]

/-- **Where an imported clause stands in the new list.** Only what it protects can end
elsewhere, when it ended with the code. -/
theorem Rewritten.clause (h : Rewritten s isVoid m begin body ending methodReturn t)
    (hnodup : (s.instrs.map (·.ptr)).Nodup) {e : EHClause} (he : e.In s.instrs)
    (hnonempty : ∀ r ∈ (e.positions s.instrs).ranges, r.Nonempty) :
    e.In t.instrs ∧ e.positions t.instrs
      = { (e.positions s.instrs).map (place isVoid m.methodReturnInstr begin.length s.instrs)
            (placeEnd isVoid m.methodReturnInstr begin.length s.instrs) with
          tryRange :=
            ⟨place isVoid m.methodReturnInstr begin.length s.instrs
              (IL.position s.instrs e.tryBegin), IL.position t.instrs e.tryEnd⟩ } := by
  obtain ⟨i, hi, hend⟩ := he.handlerEnd
  obtain ⟨k, hk⟩ := List.mem_iff_getElem?.mp hi
  obtain ⟨j, hj, hptr⟩ := h.getElem? hk
  obtain ⟨-, hnext⟩ := h.position hk
  have hold := position_nextPtr hnodup hk
  have htry : IL.position s.instrs e.tryBegin < IL.position s.instrs e.tryEnd :=
    hnonempty _ (Clause.guards_subset _ (Clause.tryRange_mem _))
  have hhandler : IL.position s.instrs e.handlerBegin
      < IL.position s.instrs (nextPtr s.instrs e.handlerEnd) := hnonempty _ (Clause.handler_mem _)
  have htryBegin := h.position_of_lt (Nat.lt_of_lt_of_le htry (position_le _ _))
  have hhandlerBegin := h.position_of_lt (Nat.lt_of_lt_of_le hhandler (position_le _ _))
  refine ⟨⟨h.linked he.tryBegin, h.linked he.tryEnd, h.linked he.handlerBegin,
    ⟨j, List.mem_of_getElem? hj, by rw [hend, hptr]⟩, fun hflags => h.linked (he.filter hflags)⟩, ?_⟩
  by_cases hflags : e.flags &&& corILExceptionClauseFilter = 0
  · simp only [EHClause.positions, Clause.map, Region.map, hflags, if_true, Option.map_none,
      htryBegin, hhandlerBegin, hend, hnext, hold]
  · have hfilter : IL.position s.instrs e.filter < IL.position s.instrs e.handlerBegin := by
      refine hnonempty ⟨IL.position s.instrs e.filter, IL.position s.instrs e.handlerBegin⟩ ?_
      refine Clause.guards_subset _ (List.mem_cons_of_mem _ ?_)
      rw [EHClause.positions, if_neg hflags]
      exact List.mem_singleton_self _
    have hfilterAt := h.position_of_lt (Nat.lt_of_lt_of_le hfilter (position_le _ _))
    simp only [EHClause.positions, Clause.map, Region.map, hflags, if_false, Option.map_some,
      htryBegin, hhandlerBegin, hfilterAt, hend, hnext, hold]

end old

end AutoInstrumentation.CallTarget
