import AutoInstrumentation.DuckTyping.Emission

/-!
# AutoInstrumentation.DuckTyping.Fragments

What the fragments of a proxy method do on the stack.

A fragment is appended to the instructions so far and marks only labels of its own, so a
jump of the code around it passes it. A conversion replaces the value on top by what it
converts it to, or by the null that stands for it.
-/

namespace AutoInstrumentation.DuckTyping

variable {τ : Type}

theorem bind_eq_ok {ε α β : Type} {x : Except ε α} {f : α → Except ε β} {b : β} :
    x >>= f = .ok b ↔ ∃ a, x = .ok a ∧ f a = .ok b := by
  cases x with
  | error e => exact iff_of_false (fun h => by cases h) fun ⟨_, h, _⟩ => by cases h
  | ok a =>
      refine ⟨fun h => ⟨a, rfl, h⟩, fun ⟨a', ha, h⟩ => ?_⟩
      cases ha
      exact h

/-! ### Appended instructions -/

/-- Instructions are appended; they mark no label that was there before. -/
structure Appends (il il' : LazyIL τ) (code : List (Instr τ)) : Prop where
  instructions : il'.instructions = il.instructions ++ code
  labels : il.labels ≤ il'.labels
  locals : il.locals ≤ il'.locals
  marks : ∀ label < il.labels, ∀ i ∈ code, i.marks label = false

theorem Appends.refl (il : LazyIL τ) : Appends il il [] where
  instructions := (List.append_nil _).symm
  labels := le_rfl
  locals := le_rfl
  marks := fun _ _ i hi => by cases hi

theorem Appends.trans {il il' il'' : LazyIL τ} {code rest : List (Instr τ)}
    (h : Appends il il' code) (hrest : Appends il' il'' rest) :
    Appends il il'' (code ++ rest) where
  instructions := by rw [hrest.instructions, h.instructions, List.append_assoc]
  labels := Nat.le_trans h.labels hrest.labels
  locals := Nat.le_trans h.locals hrest.locals
  marks := by
    intro label hlabel i hi
    rcases List.mem_append.mp hi with hi | hi
    · exact h.marks label hlabel i hi
    · exact hrest.marks label (Nat.lt_of_lt_of_le hlabel h.labels) i hi

/-- Instructions with labels of their own. -/
theorem appends_emit (il : LazyIL τ) (labels locals : ℕ) {code : List (Instr τ)}
    (hmarks : ∀ label < il.labels, ∀ i ∈ code, i.marks label = false) :
    Appends il
      (LazyIL.emit { il with labels := il.labels + labels, locals := il.locals + locals } code)
      code where
  instructions := rfl
  labels := Nat.le_add_right _ _
  locals := Nat.le_add_right _ _
  marks := hmarks

theorem marks_of_isLinear {i : Instr τ} (h : i.isLinear = true) (label : ℕ) :
    i.marks label = false := by
  cases i
  case markLabel => cases h
  all_goals rfl

/-- Instructions without labels. -/
theorem appends_linear (il : LazyIL τ) {code : List (Instr τ)}
    (h : ∀ i ∈ code, i.isLinear = true) : Appends il (il.emit code) code := by
  exact appends_emit il 0 0 fun label _ i hi => marks_of_isLinear (h i hi) label

/-! ### Conversions -/

/-- A value, or the null that stands for it. -/
def IsValue (value slot : Slot) : Prop := slot = value ∨ slot = .null

/-- The frame has another value on top, and the same locals below a bound. -/
structure Converted (bound : ℕ) (slot : Slot) (stack : List Slot) (f f' : Frame) : Prop where
  stack : ∃ slot', IsValue slot slot' ∧ f'.stack = slot' :: stack
  called : f'.called = f.called
  stored : f'.stored = f.stored
  locals : ∀ l < bound, f'.locals l = f.locals l
  fresh : (∀ l ≥ bound, f.locals l = .null) → ∀ l ≥ bound, f'.locals l = .null

/-- The code converts the value on top, and writes no local below `bound`. -/
def Converts (bound : ℕ) (code : List (Instr τ)) : Prop :=
  ∀ (holdsReference taken : ℕ → Bool) (f : Frame) (slot : Slot) (stack : List Slot),
    f.stack = slot :: stack →
      Runs holdsReference taken code f (Converted bound slot stack f)

theorem Converted.refl {bound : ℕ} {f : Frame} {slot : Slot} {stack : List Slot}
    (h : f.stack = slot :: stack) : Converted bound slot stack f f :=
  ⟨⟨slot, .inl rfl, h⟩, rfl, rfl, fun _ _ => rfl, id⟩

theorem converts_nil (bound : ℕ) : Converts bound ([] : List (Instr τ)) :=
  fun _ _ _ _ _ hstack => .nil (.refl hstack)

variable {code rest : List (Instr τ)}

theorem Converts.append {bound : ℕ} (h : Converts bound code) (hrest : Converts bound rest) :
    Converts bound (code ++ rest) := by
  intro holdsReference taken f slot stack hstack
  refine (h holdsReference taken f slot stack hstack).append fun g hg => ?_
  obtain ⟨slot', hvalue, hstack'⟩ := hg.stack
  refine (hrest holdsReference taken g slot' stack hstack').mono fun k hk => ?_
  refine ⟨?_, hk.called.trans hg.called, hk.stored.trans hg.stored,
    fun l hl => (hk.locals l hl).trans (hg.locals l hl), fun h => hk.fresh (hg.fresh h)⟩
  obtain ⟨slot'', hvalue', hstack''⟩ := hk.stack
  refine ⟨slot'', ?_, hstack''⟩
  rcases hvalue' with rfl | rfl
  · exact hvalue
  · exact .inr rfl

/-- The instructions that keep what is on top. -/
def Instr.keeps : Instr τ → Bool
  | .castclass _ | .isinst _ | .box _ | .unboxAny _ | .newobj _ => true
  | .call .getInstance | .call (.createFrom _ _) | .call (.create _)
  | .call (.createReverse _) => true
  | _ => false

theorem Instr.keeps_isLinear {i : Instr τ} (h : i.keeps = true) : i.isLinear = true := by
  cases i
  case brtrueS => cases h
  case brS => cases h
  case markLabel => cases h
  case throwException => cases h
  case ret => cases h
  all_goals rfl

theorem Frame.step_keeps {i : Instr τ} (h : i.keeps = true) {f : Frame} {slot : Slot}
    {stack : List Slot} (hstack : f.stack = slot :: stack) (holdsReference : ℕ → Bool) :
    f.step holdsReference i = some f := by
  cases i
  case call callee =>
    cases callee
    case getInstance => simp only [Frame.step, Frame.call, hstack]
    case createFrom => simp only [Frame.step, Frame.call, hstack]
    case create => simp only [Frame.step, Frame.call, hstack]
    case createReverse => simp only [Frame.step, Frame.call, hstack]
    all_goals cases h
  case castclass => simp only [Frame.step, hstack]
  case isinst => simp only [Frame.step, hstack]
  case box => simp only [Frame.step, hstack]
  case unboxAny => simp only [Frame.step, hstack]
  case newobj => simp only [Frame.step, hstack]
  all_goals cases h

/-- Instructions that keep the value on top convert it. -/
theorem converts_keeps (bound : ℕ) (h : ∀ i ∈ code, i.keeps = true) : Converts bound code := by
  induction code with
  | nil => exact converts_nil bound
  | cons i code ih =>
      intro holdsReference taken f slot stack hstack
      have hkeeps := h i List.mem_cons_self
      refine .cons (Instr.keeps_isLinear hkeeps) (Frame.step_keeps hkeeps hstack _) ?_
      exact ih (fun j hj => h j (List.mem_cons_of_mem i hj)) holdsReference taken f slot stack
        hstack

theorem Converts.mono {bound bound' : ℕ} (h : Converts bound' code) (hle : bound ≤ bound') :
    Converts bound code := by
  intro holdsReference taken f slot stack hstack
  refine (h holdsReference taken f slot stack hstack).mono fun g hg => ?_
  refine ⟨hg.stack, hg.called, hg.stored, fun l hl => hg.locals l (Nat.lt_of_lt_of_le hl hle),
    fun hnull l hl => ?_⟩
  by_cases hlt : l < bound'
  · rw [hg.locals l hlt]
    exact hnull l hl
  · exact hg.fresh (fun k hk => hnull k (Nat.le_trans hle hk)) l (Nat.le_of_not_lt hlt)

/-! ### The conversions of the emission -/

/-- What a conversion appends. -/
def AppendsConversion (il il' : LazyIL τ) : Prop :=
  ∃ code, Appends il il' code ∧ Converts il.locals code

theorem appendsConversion_refl (il : LazyIL τ) : AppendsConversion il il :=
  ⟨[], .refl il, converts_nil _⟩

theorem appendsConversion_keeps (il : LazyIL τ) {code : List (Instr τ)}
    (h : ∀ i ∈ code, i.keeps = true) : AppendsConversion il (il.emit code) :=
  ⟨code, appends_linear il fun i hi => Instr.keeps_isLinear (h i hi), converts_keeps _ h⟩

/-- A value is unboxed if it has the type, and an exception is thrown if not. -/
theorem converts_checked (bound label : ℕ) (type : τ) :
    Converts bound [.dup, .isinst type, .brtrueS label, .pop, .throwException,
      .markLabel label, .unboxAny type] := by
  intro holdsReference taken f slot stack hstack
  obtain ⟨stack', locals, called, stored⟩ := f
  cases hstack
  cases htaken : taken label with
  | true =>
      refine .inr ⟨_, ?_, .refl rfl⟩
      simp [exec, Frame.step, Frame.push, htaken, Instr.marks]
  | false =>
      refine .inl ⟨?_, label, htaken⟩
      simp [exec, Frame.step, Frame.push, htaken]

/-- A proxy is made of a value that is not null, and put into a `Nullable<>`. -/
theorem converts_nullable (bound label : ℕ) (genericType innerType : τ) :
    Converts bound [.dup, .brtrueS label, .pop, .ldloca bound, .initobj genericType,
      .ldloc bound, .brS (label + 1), .markLabel label, .call (.create innerType),
      .newobj genericType, .markLabel (label + 1)] := by
  intro holdsReference taken f slot stack hstack
  obtain ⟨stack', locals, called, stored⟩ := f
  cases hstack
  cases htaken : taken label with
  | true =>
      refine .inr ⟨_, ?_, .refl rfl⟩
      simp [exec, Frame.step, Frame.call, Frame.push, htaken, Instr.marks]
  | false =>
      refine .inr ⟨⟨.null :: stack, fun l => if l = bound then .null else locals l, called,
        stored⟩, ?_, ⟨_, .inr rfl, rfl⟩, rfl, rfl, fun l hl => ?_, fun hnull l hl => ?_⟩
      · simp [exec, Frame.step, Frame.push, htaken, Instr.marks]
      · exact if_neg (Nat.ne_of_lt hl)
      · show (if l = bound then Slot.null else locals l) = .null
        split
        · rfl
        · exact hnull l hl

variable {S : TypeSystem τ} {il il' : LazyIL τ}

theorem addIlToExtractDuckType_appends (toType fromType : τ)
    (h : addIlToExtractDuckType S il toType fromType = .ok il') : AppendsConversion il il' := by
  cases h
  exact appendsConversion_keeps il (by simp [Instr.keeps])

theorem addIlToDuckChainReverse_appends (genericType originalType : τ)
    (h : addIlToDuckChainReverse il genericType originalType = .ok il') :
    AppendsConversion il il' := by
  cases h
  exact appendsConversion_keeps il (by simp [Instr.keeps])

theorem addIlToDuckChain_appends {genericType fromType : τ}
    (h : addIlToDuckChain S il genericType fromType = .ok il') : AppendsConversion il il' := by
  rw [addIlToDuckChain] at h
  split at h
  · cases h
    exact appendsConversion_keeps il (by simp [Instr.keeps])
  · split at h
    · next innerType _ =>
        dsimp only at h
        split at h
        · cases h
          refine ⟨_, appends_emit il 2 1 ?_, converts_nullable _ _ _ _⟩
          intro label hlabel i hi
          simp only [List.mem_cons, List.not_mem_nil, or_false] at hi
          rcases hi with rfl | rfl | rfl | rfl | rfl | rfl | rfl | rfl | rfl | rfl | rfl
          case inr.inr.inr.inr.inr.inr.inr.inl =>
            exact beq_eq_false_iff_ne.mpr (Nat.ne_of_gt hlabel)
          case inr.inr.inr.inr.inr.inr.inr.inr.inr.inr =>
            exact beq_eq_false_iff_ne.mpr (Nat.ne_of_gt (Nat.lt_succ_of_lt hlabel))
          all_goals rfl
        · cases h
    · cases h
      exact appendsConversion_keeps il (by simp [Instr.keeps])

theorem Direction.duckCastParameter_appends {direction : Direction} {toType fromType : τ}
    (h : direction.duckCastParameter S il toType fromType = .ok il') :
    AppendsConversion il il' := by
  cases direction with
  | forward => exact addIlToExtractDuckType_appends toType fromType h
  | reverse => exact addIlToDuckChain_appends h

theorem Direction.duckChain_appends {direction : Direction} {toType fromType : τ}
    (h : direction.duckChain S il toType fromType = .ok il') : AppendsConversion il il' := by
  cases direction with
  | forward => exact addIlToDuckChain_appends h
  | reverse => exact addIlToExtractDuckType_appends toType fromType h

theorem Direction.addDuckChainIl_appends {direction : Direction} {toType fromType : τ}
    (h : direction.addDuckChainIl S il toType fromType = .ok il') : AppendsConversion il il' := by
  cases direction with
  | forward => exact addIlToDuckChain_appends h
  | reverse => exact addIlToDuckChainReverse_appends toType fromType h

variable [DecidableEq τ]

theorem writeTypeConversion_appends {actualType expectedType : τ}
    (h : writeTypeConversion S il actualType expectedType = .ok il') :
    AppendsConversion il il' := by
  rw [writeTypeConversion] at h
  dsimp only at h
  split at h
  · cases h
    exact appendsConversion_refl il
  · split at h
    · split at h
      · cases h
      · split at h
        · cases h
          exact appendsConversion_keeps il (by simp [Instr.keeps])
        · split at h
          · cases h
            exact appendsConversion_keeps il (by simp [Instr.keeps])
          · cases h
    · split at h
      · split at h
        · cases h
          refine ⟨_, appends_emit il 1 0 ?_, converts_checked _ _ _⟩
          intro label hlabel i hi
          simp only [List.mem_cons, List.not_mem_nil, or_false] at hi
          rcases hi with rfl | rfl | rfl | rfl | rfl | rfl | rfl
          case inr.inr.inr.inr.inr.inl => exact beq_eq_false_iff_ne.mpr (Nat.ne_of_gt hlabel)
          all_goals rfl
        · cases h
      · split at h
        · cases h
          exact appendsConversion_keeps il (by simp [Instr.keeps])
        · cases h
          exact appendsConversion_refl il

theorem writeSafeTypeConversion_appends {actualType expectedType : τ}
    (h : writeSafeTypeConversion S il actualType expectedType = .ok il') :
    AppendsConversion il il' := by
  rw [writeSafeTypeConversion] at h
  split at h
  · cases h
    exact appendsConversion_refl il
  · exact writeTypeConversion_appends h

end AutoInstrumentation.DuckTyping
