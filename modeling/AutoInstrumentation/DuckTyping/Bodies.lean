import AutoInstrumentation.DuckTyping.Arguments
import Mathlib.Data.List.Forall2

/-!
# AutoInstrumentation.DuckTyping.Bodies

When the body that `CreateMethods` gives a method of a proxy calls the inner method with all
its arguments, writes back what is to be written back, and returns.

The body falls apart into the instance, the arguments, the call, what is written back and what
is returned. Each part either runs, with what it leaves behind, or gets stuck.
-/

namespace AutoInstrumentation.DuckTyping

variable {τ : Type} {S : TypeSystem τ} {direction : Direction} {il il' : LazyIL τ}
  {holdsReference taken : ℕ → Bool} {f : Frame}

/-! ### Passed parameters -/

theorem PassedAll.length {locals : ℕ → Slot} {idx : ℕ} {owns : List (Option ℕ)}
    {slots : List Slot} (h : PassedAll locals idx owns slots) : slots.length = owns.length := by
  induction owns generalizing idx slots with
  | nil =>
      cases slots with
      | nil => rfl
      | cons slot slots => exact absurd h (fun h => h)
  | cons own owns ih =>
      cases slots with
      | nil => exact absurd h (fun h => h)
      | cons slot slots => exact congrArg (· + 1) (ih h.2)

/-- What is written back is in a local whose address was passed. -/
theorem PassedAll.address_mem {locals : ℕ → Slot} {idx : ℕ} {owns : List (Option ℕ)}
    {slots : List Slot} (h : PassedAll locals idx owns slots) {p : ℕ × ℕ}
    (hp : p ∈ writtenBack idx owns) : .address p.1 ∈ slots := by
  induction owns generalizing idx slots with
  | nil => cases hp
  | cons own owns ih =>
      cases slots with
      | nil => exact absurd h (fun h => h)
      | cons slot slots =>
          rw [writtenBack_cons, List.mem_append] at hp
          rcases hp with hp | hp
          · cases own with
            | none => cases hp
            | some l =>
                cases List.mem_singleton.mp hp
                rw [h.1.1]
                exact List.mem_cons_self
          · exact List.mem_cons_of_mem _ (ih h.2 hp)

/-! ### Paths -/

/-- Every path through the code returns in a frame with `P`; only where a branch is not taken may
it throw instead. -/
def Returns (holdsReference : ℕ → Bool) (code : List (Instr τ)) (P : Frame → Prop) : Prop :=
  ∀ taken, (exec holdsReference taken none code .initial = some .threw
      ∧ ∃ label, taken label = false)
    ∨ ∃ f, exec holdsReference taken none code .initial = some (.returned f) ∧ P f

theorem Returns.of_runs {code : List (Instr τ)} {P : Frame → Prop}
    (h : ∀ taken, Runs holdsReference taken code .initial P) :
    Returns holdsReference (code ++ [.ret]) P := by
  intro taken
  rcases h taken with ⟨hthrew, hnot⟩ | ⟨f, hexec, hP⟩
  · refine .inl ⟨?_, hnot⟩
    rw [exec_append, hthrew]
    rfl
  · refine .inr ⟨f, ?_, hP⟩
    rw [exec_append, hexec]
    rfl

theorem Stuck.not_returns {code : List (Instr τ)} {P : Frame → Prop}
    (h : Stuck holdsReference code .initial) : ¬Returns holdsReference code P := by
  intro hreturns
  rcases hreturns straight with ⟨-, label, hnot⟩ | ⟨f, hexec, -⟩
  · cases hnot
  · rw [Stuck] at h
    rw [h] at hexec
    cases hexec

/-! ### The instance and the call -/

/-- What is loaded in front of the parameters. -/
def instanceOf (targetMethod : Method τ) : List Slot :=
  if targetMethod.isStatic then [] else [.argument 0]

theorem instanceOf_length (targetMethod : Method τ) :
    (instanceOf targetMethod).length + targetMethod.parameters.length
      = targetMethod.argumentCount := by
  unfold instanceOf Method.argumentCount
  split
  · rfl
  · rfl

theorem initialiseProxyMethod_runs (targetMethod : Method τ) (instanceField : Option Bool)
    (f : Frame) :
    Runs holdsReference taken (initialiseProxyMethod targetMethod instanceField).instructions f
      (· = { f with stack := instanceOf targetMethod ++ f.stack }) := by
  unfold initialiseProxyMethod instanceOf
  split
  · exact .nil rfl
  · cases instanceField with
    | none => exact .single rfl rfl rfl
    | some isValueType =>
        cases isValueType with
        | true => exact .cons rfl rfl (.single rfl rfl rfl)
        | false => exact .cons rfl rfl (.single rfl rfl rfl)

/-- The code calls the inner method with what is on the stack above `bottom`, and gets stuck if
there is too little. -/
structure CallsInner (bottom : List Slot) (code : List (Instr τ)) (count : ℕ) (returns : Bool) :
    Prop where
  runs : ∀ (holdsReference taken : ℕ → Bool) (f : Frame) (arguments : List Slot),
    arguments.length = count → f.stack = arguments.reverse ++ bottom →
      Runs holdsReference taken code f (· = f.callInner arguments [] returns)
  stuck : ∀ (holdsReference : ℕ → Bool) (f : Frame) (arguments : List Slot),
    arguments.length < count → f.stack = arguments.reverse ++ bottom →
      Stuck holdsReference code f

theorem callsInner_target (virtual : Bool) (count : ℕ) (returns : Bool) :
    CallsInner [] [.call (.target virtual count returns) (τ := τ)] count returns where
  runs := by
    intro holdsReference taken f arguments hlength hstack
    rw [List.append_nil] at hstack
    have hlength' : arguments.reverse.length = count := by rw [List.length_reverse, hlength]
    refine .single rfl ?_ rfl
    simp only [Frame.step, Frame.call, hstack, ← hlength', le_refl, if_pos, List.take_length,
      List.drop_length, List.reverse_reverse]
  stuck := by
    intro holdsReference f arguments hlength hstack
    rw [List.append_nil] at hstack
    refine .cons rfl ?_ _
    simp [Frame.step, Frame.call, hstack, hlength]

theorem callsInner_pointer (count : ℕ) (returns : Bool) :
    CallsInner [] [.ldcI8, .convI, .call (.pointer count returns) (τ := τ)] count returns where
  runs := by
    intro holdsReference taken f arguments hlength hstack
    rw [List.append_nil] at hstack
    have hlength' : arguments.reverse.length = count := by rw [List.length_reverse, hlength]
    refine .cons rfl rfl (.cons rfl rfl (.single rfl ?_ rfl))
    simp only [Frame.step, Frame.call, Frame.push, hstack, ← hlength', le_refl, if_pos,
      List.take_length, List.drop_length, List.reverse_reverse]
    rfl
  stuck := by
    intro holdsReference f arguments hlength hstack
    rw [List.append_nil] at hstack
    have hpointer : Runs holdsReference straight [Instr.ldcI8 (τ := τ), .convI] f
        (· = f.push .functionPointer) := .cons rfl rfl (.single rfl rfl rfl)
    refine hpointer.stuck fun g hg => .cons rfl ?_ _
    simp [Frame.step, Frame.call, Frame.push, hg, hstack, hlength]

theorem callsInner_invoke (count : ℕ) (returns : Bool) :
    CallsInner [.delegate] [.call (.invoke count returns) (τ := τ)] count returns where
  runs := by
    intro holdsReference taken f arguments hlength hstack
    refine .single rfl ?_ rfl
    have hlength' : arguments.reverse.length = count := by rw [List.length_reverse, hlength]
    simp [Frame.step, Frame.call, hstack, ← hlength']
  stuck := by
    intro holdsReference f arguments hlength hstack
    refine .cons rfl ?_ _
    have hdrop : f.stack.drop count = [] := by
      rw [List.drop_eq_nil_iff, hstack, List.length_append, List.length_reverse]
      exact hlength
    simp [Frame.step, Frame.call, hdrop]

/-! ### Writing back -/

/-- What the instructions that write back a local through a parameter need. -/
def SetFits (holdsReference : ℕ → Bool) (p : ℕ × ℕ) : Prop :=
  p.1 < 256 ∧ p.2 + 1 < 256 ∧ holdsReference (p.2 + 1) = true

/-- What is stored through a parameter is what is in its local. -/
def StoredFrom (locals : ℕ → Slot) (p : ℕ × ℕ) (s : ℕ × Slot) : Prop :=
  s.1 = p.2 + 1 ∧ IsValue (locals p.1) s.2

/-- The frame has stored through the parameters, in their order. -/
structure WroteBack (bound : ℕ) (pairs : List (ℕ × ℕ)) (f f' : Frame) : Prop where
  stack : f'.stack = f.stack
  called : f'.called = f.called
  stored : ∃ stored, f'.stored = stored.reverse ++ f.stored
    ∧ List.Forall₂ (StoredFrom f.locals) pairs stored
  locals : ∀ l < bound, f'.locals l = f.locals l

theorem WroteBack.cons {bound bound' : ℕ} {p : ℕ × ℕ} {pairs : List (ℕ × ℕ)} {g k : Frame}
    (hg : WroteBack bound [p] f g) (hk : WroteBack bound' pairs g k) (hle : bound ≤ bound')
    (hpairs : ∀ p ∈ pairs, p.1 < bound) : WroteBack bound (p :: pairs) f k := by
  obtain ⟨stored, hstored, hfrom⟩ := hg.stored
  obtain ⟨stored', hstored', hfrom'⟩ := hk.stored
  refine ⟨hk.stack.trans hg.stack, hk.called.trans hg.called, ⟨stored ++ stored', ?_, ?_⟩,
    fun l hl => (hk.locals l (Nat.lt_of_lt_of_le hl hle)).trans (hg.locals l hl)⟩
  · rw [hstored', hstored, List.reverse_append, List.append_assoc]
  · have hsame : List.Forall₂ (StoredFrom f.locals) pairs stored' := by
      refine ((List.forall₂_and_left _ _).mpr ⟨hpairs, hfrom'⟩).imp fun p s h => ⟨h.2.1, ?_⟩
      rw [← hg.locals p.1 h.1]
      exact h.2.2
    exact List.rel_append hfrom hsame

variable [DecidableEq τ]

theorem setOutputOrRefParameter_appends {data : OutputAndRefParameterData τ}
    (h : setOutputOrRefParameter S direction il data = .ok il') :
    ∃ code, Appends il il' code
      ∧ (SetFits holdsReference (data.localIndex, data.proxyArgumentIndex) → ∀ taken f,
        Runs holdsReference taken code f
          (WroteBack il.locals [(data.localIndex, data.proxyArgumentIndex)] f))
      ∧ (¬SetFits holdsReference (data.localIndex, data.proxyArgumentIndex) → ∀ f,
        Stuck holdsReference code f) := by
  obtain ⟨l, localType, idx, argumentType⟩ := data
  rw [setOutputOrRefParameter] at h
  dsimp only at h ⊢
  have hloads : (il.writeLoadArgument idx false).writeLoadLocal l
      = il.emit [argumentLoad idx, localLoad l] := by
    simp [LazyIL.writeLoadArgument, LazyIL.writeLoadLocal, LazyIL.emit, argumentLoad, localLoad]
  rw [hloads] at h
  obtain ⟨il₁, ⟨code, happends, hconverts⟩, rfl⟩ : ∃ il₁,
      AppendsConversion (il.emit [argumentLoad idx, localLoad l]) il₁
        ∧ il' = il₁.emit [.stindRef] := by
    split at h
    · obtain ⟨il₁, hconvert, h⟩ := bind_eq_ok.mp h
      exact ⟨il₁, Direction.duckChain_appends hconvert, (Except.ok.inj h).symm⟩
    · obtain ⟨il₁, hconvert, h⟩ := bind_eq_ok.mp h
      exact ⟨il₁, writeSafeTypeConversion_appends hconvert, (Except.ok.inj h).symm⟩
  have hload : Appends il (il.emit [argumentLoad idx, localLoad l])
      [argumentLoad idx, localLoad l] := by
    refine appends_linear il fun i hi => ?_
    rcases List.mem_cons.mp hi with rfl | hi
    · exact argumentLoad_isLinear idx
    · rw [List.mem_singleton.mp hi]
      exact localLoad_isLinear l
  have hset : Appends il₁ (il₁.emit [.stindRef]) [.stindRef] := by
    refine appends_linear il₁ fun i hi => ?_
    rw [List.mem_singleton.mp hi]
    rfl
  -- the argument and the converted value are on the stack
  have hvalue (hidx : idx + 1 < 256) (hlocal : l < 256) (taken : ℕ → Bool) (f : Frame) :
      Runs holdsReference taken ([argumentLoad idx, localLoad l] ++ code) f
        (Converted il.locals (f.locals l) (.argument (idx + 1) :: f.stack)
          ((f.push (.argument (idx + 1))).push (f.locals l))) := by
    refine .cons (argumentLoad_isLinear idx) ((step_argumentLoad _ f idx).trans (if_pos hidx)) ?_
    refine .cons (localLoad_isLinear l) ((step_localLoad _ _ l).trans (if_pos hlocal)) ?_
    exact hconverts holdsReference taken ((f.push (.argument (idx + 1))).push (f.locals l)) _ _ rfl
  refine ⟨_, (hload.trans happends).trans hset, fun hfits taken f => ?_, fun hnot f => ?_⟩
  · obtain ⟨hlocal, hidx, hholds⟩ := hfits
    refine (hvalue hidx hlocal taken f).append fun g hg => ?_
    obtain ⟨slot, hslot, hstack⟩ := hg.stack
    have hstep : g.step holdsReference (.stindRef : Instr τ)
        = some { g with stack := f.stack, stored := (idx + 1, slot) :: g.stored } := by
      simp only [Frame.step, hstack]
      exact if_pos hholds
    refine .single rfl hstep ⟨rfl, hg.called, ⟨[(idx + 1, slot)], ?_, ?_⟩, hg.locals⟩
    · exact congrArg _ hg.stored
    · exact .cons ⟨rfl, hslot⟩ .nil
  · by_cases hidx : idx + 1 < 256
    · by_cases hlocal : l < 256
      · have hholds : ¬holdsReference (idx + 1) = true := fun hholds =>
          hnot ⟨hlocal, hidx, hholds⟩
        refine (hvalue hidx hlocal straight f).stuck fun g hg => ?_
        obtain ⟨slot, -, hstack⟩ := hg.stack
        have hstep : g.step holdsReference (.stindRef : Instr τ) = none := by
          simp only [Frame.step, hstack]
          exact if_neg hholds
        exact .cons rfl hstep _
      · have hfirst : Runs holdsReference straight [(argumentLoad idx : Instr τ)] f
            fun g => g = f.push (.argument (idx + 1)) :=
          .single (argumentLoad_isLinear idx)
            ((step_argumentLoad _ f idx).trans (if_pos hidx)) rfl
        refine hfirst.stuck fun g _ => ?_
        exact .cons (localLoad_isLinear l) ((step_localLoad _ g l).trans (if_neg hlocal)) _
    · exact .cons (argumentLoad_isLinear idx) ((step_argumentLoad _ f idx).trans (if_neg hidx)) _

/-- **What the inner method left** in the locals is written back, if the instructions fit. -/
theorem addIlToSetOutputAndRefParameters_appends (holdsReference : ℕ → Bool) {il₀ il₃ : LazyIL τ}
    {datas : List (OutputAndRefParameterData τ)}
    (h : addIlToSetOutputAndRefParameters S direction il₀ datas = .ok il₃)
    (hlocals : ∀ p ∈ datas.map fun d => (d.localIndex, d.proxyArgumentIndex), p.1 < il₀.locals) :
    ∃ code, Appends il₀ il₃ code
      ∧ ((∀ p ∈ datas.map fun d => (d.localIndex, d.proxyArgumentIndex),
            SetFits holdsReference p) → ∀ taken f, Runs holdsReference taken code f
          (WroteBack il₀.locals (datas.map fun d => (d.localIndex, d.proxyArgumentIndex)) f))
      ∧ ((¬∀ p ∈ datas.map fun d => (d.localIndex, d.proxyArgumentIndex),
            SetFits holdsReference p) → ∀ f, Stuck holdsReference code f) := by
  induction datas generalizing il₀ with
  | nil =>
      cases h
      refine ⟨[], .refl _, fun _ taken f => .nil ⟨rfl, rfl, ⟨[], rfl, .nil⟩, fun _ _ => rfl⟩,
        fun hnot => absurd (fun p hp => by cases hp) hnot⟩
  | cons data datas ih =>
      obtain ⟨il₁, hset, h⟩ := bind_eq_ok.mp h
      obtain ⟨code, happends, hruns, hstuck⟩ := setOutputOrRefParameter_appends hset
      simp only [List.map_cons, List.forall_mem_cons] at hlocals ⊢
      obtain ⟨code', happends', hruns', hstuck'⟩ := ih h fun p hp =>
        Nat.lt_of_lt_of_le (hlocals.2 p hp) happends.locals
      refine ⟨code ++ code', happends.trans happends', fun hfit taken f => ?_,
        fun hnot f => ?_⟩
      · obtain ⟨hfit, hfits⟩ := hfit
        refine (hruns hfit taken f).append fun g hg => ?_
        exact (hruns' hfits taken g).mono fun k hk => hg.cons hk happends.locals hlocals.2
      · by_cases hfit : SetFits holdsReference (data.localIndex, data.proxyArgumentIndex)
        · refine (hruns hfit straight f).stuck fun g _ => ?_
          exact hstuck' (fun hfits => hnot ⟨hfit, hfits⟩) g
        · exact (hstuck hfit f).append _

/-! ### What is returned -/

/-- What is on the stack where a method returns. -/
def ReturnsValue (S : TypeSystem τ) (returnType : τ) (stack : List Slot) : Prop :=
  if returnType = S.void then stack = [] else ∃ slot, IsValue .result slot ∧ stack = [slot]

/-- **The result** is converted, or there is none. -/
theorem tryAddReturnIl_appends {currentReturnType innerReturnType outerReturnType : τ}
    (h : tryAddReturnIl S direction il currentReturnType innerReturnType outerReturnType
      = .ok il') :
    ∃ code, il'.instructions = il.instructions ++ (code ++ [.ret])
      ∧ ∀ (holdsReference taken : ℕ → Bool) (f : Frame),
        f.stack = (if innerReturnType = S.void then [] else [.result]) →
          Runs holdsReference taken code f fun g =>
            ReturnsValue S outerReturnType g.stack ∧ g.called = f.called ∧ g.stored = f.stored := by
  rw [tryAddReturnIl] at h
  dsimp only at h
  split at h
  · cases h
  next hagree =>
  obtain ⟨hvoid, hvalue⟩ := not_or.mp hagree
  have hiff : innerReturnType = S.void ↔ outerReturnType = S.void := by
    cases hvalueType : S.valueWithTypeArgument outerReturnType with
    | none =>
        rw [hvalueType, Option.getD_none] at hvoid hvalue
        exact ⟨fun hinner => by_contra fun hne => hvoid ⟨hinner, hne⟩,
          fun houter => by_contra fun hne => hvalue ⟨hne, houter⟩⟩
    | some type =>
        have hne : type ≠ S.void := fun htype =>
          S.valueWithTypeArgument_ne_void outerReturnType (htype ▸ hvalueType)
        rw [hvalueType, Option.getD_some] at hvoid
        refine iff_of_false (fun hinner => hvoid ⟨hinner, hne⟩) fun houter => ?_
        rw [houter, S.valueWithTypeArgument_void] at hvalueType
        cases hvalueType
  obtain ⟨il₁, ⟨code, happends, hconverts⟩, hnone, rfl⟩ : ∃ il₁, AppendsConversion il il₁
      ∧ (innerReturnType = S.void → il₁ = il)
      ∧ il' = LazyIL.emit (if (S.valueWithTypeArgument outerReturnType).isSome = true then
          il₁.emit [.ldtoken innerReturnType, .call .getTypeFromHandle,
            .call (.valueWithType outerReturnType)] else il₁) [.ret] := by
    split at h
    · next hne =>
        split at h
        · obtain ⟨il₁, hchain, h⟩ := bind_eq_ok.mp h
          exact ⟨il₁, Direction.addDuckChainIl_appends hchain, fun hinner => absurd hinner hne,
            (Except.ok.inj h).symm⟩
        · split at h
          · obtain ⟨il₁, hconvert, h⟩ := bind_eq_ok.mp h
            exact ⟨il₁, writeSafeTypeConversion_appends hconvert,
              fun hinner => absurd hinner hne, (Except.ok.inj h).symm⟩
          · exact ⟨il, appendsConversion_refl il, fun _ => rfl, (Except.ok.inj h).symm⟩
    · exact ⟨il, appendsConversion_refl il, fun _ => rfl, (Except.ok.inj h).symm⟩
  by_cases hinner : innerReturnType = S.void
  · have houter : outerReturnType = S.void := hiff.mp hinner
    rw [houter, S.valueWithTypeArgument_void, hnone hinner]
    refine ⟨[], rfl, fun holdsReference taken f hstack => .nil ⟨?_, rfl, rfl⟩⟩
    rw [if_pos hinner] at hstack
    rw [ReturnsValue, if_pos rfl]
    exact hstack
  · have houter : outerReturnType ≠ S.void := fun houter => hinner (hiff.mpr houter)
    have hconverted (holdsReference taken : ℕ → Bool) (f : Frame)
        (hstack : f.stack = (if innerReturnType = S.void then [] else [.result])) :
        Runs holdsReference taken code f (Converted il.locals .result [] f) := by
      rw [if_neg hinner] at hstack
      exact hconverts holdsReference taken f .result [] hstack
    cases S.valueWithTypeArgument outerReturnType with
    | none =>
        refine ⟨code, ?_, fun holdsReference taken f hstack => ?_⟩
        · show il₁.instructions ++ [.ret] = _
          rw [happends.instructions, List.append_assoc]
        · refine (hconverted holdsReference taken f hstack).mono fun g hg => ?_
          rw [ReturnsValue, if_neg houter]
          exact ⟨hg.stack, hg.called, hg.stored⟩
    | some type =>
        refine ⟨code ++ [.ldtoken innerReturnType, .call .getTypeFromHandle,
          .call (.valueWithType outerReturnType)], ?_, fun holdsReference taken f hstack => ?_⟩
        · show (il₁.instructions ++ _) ++ [.ret] = _
          rw [happends.instructions]
          simp only [List.append_assoc]
        · refine (hconverted holdsReference taken f hstack).append fun g hg => ?_
          obtain ⟨slot, hslot, hstack⟩ := hg.stack
          have hcreate : (g.push .typeHandle).step holdsReference
              (.call (.valueWithType outerReturnType) : Instr τ) = some g := by
            simp only [Frame.step, Frame.call, Frame.push, hstack]
            rw [← hstack]
          refine .cons rfl rfl (.cons rfl rfl (.single rfl hcreate ?_))
          rw [ReturnsValue, if_neg houter]
          exact ⟨hg.stack, hg.called, hg.stored⟩

/-! ### What the instructions need -/

theorem ownLocals_length (S : TypeSystem τ) (locals : ℕ) (outers inners : List (Parameter τ)) :
    (ownLocals S locals outers inners).length = min outers.length inners.length := by
  induction outers generalizing locals inners with
  | nil => simp
  | cons outer outers ih =>
      cases inners with
      | nil => rfl
      | cons inner inners =>
          rw [ownLocals_cons, List.length_cons, ih, List.length_cons, List.length_cons]
          omega

theorem mem_writtenBack_ownLocals {idx locals : ℕ} {outers inners : List (Parameter τ)}
    {p : ℕ × ℕ} (h : p ∈ writtenBack idx (ownLocals S locals outers inners)) :
    locals ≤ p.1 ∧ idx ≤ p.2 := by
  induction outers generalizing idx locals inners with
  | nil => simp [writtenBack] at h
  | cons outer outers ih =>
      cases inners with
      | nil => cases h
      | cons inner inners =>
          rw [ownLocals_cons, writtenBack_cons, List.mem_append] at h
          rcases h with h | h
          · split at h
            · cases List.mem_singleton.mp h
              exact ⟨le_rfl, le_rfl⟩
            · cases h
          · obtain ⟨hlocal, hidx⟩ := ih h
            exact ⟨Nat.le_trans (Nat.le_add_right _ _) hlocal, Nat.le_of_succ_le hidx⟩

/-- No two parameters share a local. -/
theorem writtenBack_ownLocals_nodup (S : TypeSystem τ) (idx locals : ℕ)
    (outers inners : List (Parameter τ)) :
    ((writtenBack idx (ownLocals S locals outers inners)).map Prod.fst).Nodup := by
  induction outers generalizing idx locals inners with
  | nil => simp [writtenBack]
  | cons outer outers ih =>
      cases inners with
      | nil => exact List.nodup_nil
      | cons inner inners =>
          rw [ownLocals_cons, writtenBack_cons, List.map_append]
          split
          · refine List.nodup_cons.mpr ⟨fun hmem => ?_, ih _ _ _⟩
            obtain ⟨p, hp, hlocal⟩ := List.mem_map.mp hmem
            have hlt : locals + 1 ≤ p.1 := (mem_writtenBack_ownLocals hp).1
            exact absurd hlocal (Nat.ne_of_gt hlt)
          · exact ih _ _ _

/-- What a parameter needs, to be loaded and to be written back. -/
def ParameterFits (S : TypeSystem τ) (holdsReference : ℕ → Bool) (outer inner : Parameter τ)
    (idx : ℕ) : Prop :=
  idx + 1 < 256 ∧ (ownLocal S outer inner = true → holdsReference (idx + 1) = true)

/-- A parameter is not behind its local. -/
theorem parameterFits_iff {outer inner : Parameter τ} {idx locals : ℕ} (hle : locals ≤ idx) :
    ParameterFits S holdsReference outer inner idx
      ↔ LoadFits S holdsReference outer inner idx locals
        ∧ (ownLocal S outer inner = true → SetFits holdsReference (locals, idx)) := by
  unfold ParameterFits LoadFits SetFits
  cases hown : ownLocal S outer inner with
  | false => simp
  | true =>
      refine ⟨fun ⟨hidx, hholds⟩ => ?_, fun ⟨_, hset⟩ => ⟨(hset rfl).2.1, fun _ => (hset rfl).2.2⟩⟩
      have hlocal : locals < 256 := by omega
      exact ⟨⟨fun _ => hlocal, fun _ _ => hholds rfl, fun _ => hidx⟩,
        fun _ => ⟨hlocal, hidx, hholds rfl⟩⟩

theorem parametersFit_iff {idx locals : ℕ} {outers inners : List (Parameter τ)}
    (hle : locals ≤ idx) (hlength : outers.length = inners.length) :
    (LoadsFit S holdsReference idx locals outers inners
        ∧ ∀ p ∈ writtenBack idx (ownLocals S locals outers inners), SetFits holdsReference p)
      ↔ ∀ i outer inner, outers[i]? = some outer → inners[i]? = some inner →
        ParameterFits S holdsReference outer inner (idx + i) := by
  induction outers generalizing idx locals inners with
  | nil => simp [loadsFit_nil, writtenBack]
  | cons outer outers ih =>
      cases inners with
      | nil => cases hlength
      | cons inner inners =>
          have hle' : locals + (if ownLocal S outer inner = true then 1 else 0) ≤ idx + 1 := by
            split <;> omega
          have hlength' : outers.length = inners.length := Nat.succ.inj hlength
          have hstep := ih hle' hlength'
          have hpairs (rest : List (ℕ × ℕ)) :
              (∀ p ∈ ((if ownLocal S outer inner then some locals else none).map
                  fun l => (l, idx)).toList ++ rest, SetFits holdsReference p)
                ↔ (ownLocal S outer inner = true → SetFits holdsReference (locals, idx))
                  ∧ ∀ p ∈ rest, SetFits holdsReference p := by
            rw [List.forall_mem_append]
            cases ownLocal S outer inner with
            | true => simp
            | false => simp
          have hsplit :
              (∀ i o n, (outer :: outers)[i]? = some o → (inner :: inners)[i]? = some n →
                  ParameterFits S holdsReference o n (idx + i))
                ↔ ParameterFits S holdsReference outer inner idx
                  ∧ ∀ i o n, outers[i]? = some o → inners[i]? = some n →
                    ParameterFits S holdsReference o n (idx + 1 + i) := by
            constructor
            · intro h
              refine ⟨h 0 outer inner rfl rfl, fun i o n ho hn => ?_⟩
              rw [Nat.add_right_comm]
              exact h (i + 1) o n ho hn
            · rintro ⟨hfirst, hrest⟩ i o n ho hn
              cases i with
              | zero =>
                  cases ho
                  cases hn
                  exact hfirst
              | succ i =>
                  have hfit := hrest i o n ho hn
                  rw [Nat.add_right_comm] at hfit
                  exact hfit
          rw [ownLocals_cons, writtenBack_cons, LoadsFit, hpairs, hsplit, parameterFits_iff hle,
            ← hstep, and_and_and_comm]

/-! ### The body -/

/-- **What a proxy method is for**: the inner method was called with the instance and with every
parameter in order, what it left in their locals was stored through the parameters, and what is
returned is on the stack. -/
structure StackCorrect (S : TypeSystem τ) (proxyMethod targetMethod : Method τ) (f : Frame) :
    Prop where
  called : ∃ (g : Frame) (arguments : List Slot),
    f.called = some ((instanceOf targetMethod ++ arguments).map fun a => (a, g.behind a))
      ∧ PassedAll g.locals 0 (ownLocals S 0 proxyMethod.parameters targetMethod.parameters)
        arguments
  stored : ∃ stored, f.stored = stored.reverse ∧ List.Forall₂ (StoredFrom .written)
    (writtenBack 0 (ownLocals S 0 proxyMethod.parameters targetMethod.parameters)) stored
  stack : ReturnsValue S proxyMethod.returnType f.stack

theorem addIlToLoadArguments_length {generics : List τ} {idx : ℕ} {il₀ il₃ : LazyIL τ}
    {outers inners : List (Parameter τ)} {datas : List (OutputAndRefParameterData τ)}
    (h : addIlToLoadArguments S direction generics idx il₀ outers inners = .ok (il₃, datas)) :
    outers.length ≤ inners.length := by
  induction inners generalizing outers idx il₀ datas with
  | nil =>
      cases outers with
      | nil => exact le_rfl
      | cons outer outers => cases h
  | cons inner inners ih =>
      cases outers with
      | nil => exact Nat.zero_le _
      | cons outer outers =>
          obtain ⟨⟨il₁, data⟩, -, h⟩ := bind_eq_ok.mp h
          obtain ⟨⟨il₂, rest⟩, hrest, h⟩ := bind_eq_ok.mp h
          cases h
          exact Nat.succ_le_succ (ih hrest)

theorem addIlToLoadArguments_locals {generics : List τ} {idx : ℕ} {il₀ il₃ : LazyIL τ}
    {outers inners : List (Parameter τ)} {datas : List (OutputAndRefParameterData τ)}
    (h : addIlToLoadArguments S .forward generics idx il₀ outers inners = .ok (il₃, datas)) :
    il₀.locals ≤ il₃.locals
      ∧ ∀ p ∈ writtenBack idx (ownLocals S il₀.locals outers inners), p.1 < il₃.locals := by
  induction inners generalizing outers idx il₀ datas with
  | nil =>
      cases outers with
      | nil =>
          cases h
          exact ⟨le_rfl, fun p hp => by cases hp⟩
      | cons outer outers => cases h
  | cons inner inners ih =>
      cases outers with
      | nil =>
          rw [addIlToLoadArguments] at h
          split at h
          · cases h
          · exact ⟨(ih h).1, fun p hp => by cases hp⟩
      | cons outer outers =>
          obtain ⟨⟨il₁, data⟩, hload, h⟩ := bind_eq_ok.mp h
          obtain ⟨⟨il₂, rest⟩, hrest, h⟩ := bind_eq_ok.mp h
          cases h
          have hlocals := loadParameter_locals hload
          obtain ⟨hle, hlt⟩ := ih hrest
          refine ⟨Nat.le_trans (hlocals ▸ Nat.le_add_right _ _) hle, fun p hp => ?_⟩
          rw [ownLocals_cons, writtenBack_cons, List.mem_append] at hp
          rcases hp with hp | hp
          · split at hp
            · next hown =>
                cases List.mem_singleton.mp hp
                rw [if_pos hown] at hlocals
                exact Nat.lt_of_lt_of_le (hlocals ▸ Nat.lt_succ_self _) hle
            · cases hp
          · exact hlt p (hlocals ▸ hp)

/-- The frame behind the instance. -/
def Frame.entry (targetMethod : Method τ) (bottom : List Slot) : Frame :=
  { Frame.initial with stack := instanceOf targetMethod ++ bottom }

/-- The frame in which the inner method is called. -/
structure Arrived (S : TypeSystem τ) (proxyMethod targetMethod : Method τ) (bottom : List Slot)
    (f : Frame) : Prop where
  stack : ∃ slots, f.stack = (instanceOf targetMethod ++ slots).reverse ++ bottom
    ∧ PassedAll f.locals 0 (ownLocals S 0 proxyMethod.parameters targetMethod.parameters) slots
  stored : f.stored = []

/-- The parts of a body, each with what it needs. -/
structure BodyParts (S : TypeSystem τ) (holdsReference : ℕ → Bool)
    (proxyMethod targetMethod : Method τ) (bottom : List Slot) (returns : Bool)
    (front load call set result : List (Instr τ)) : Prop where
  length_le : proxyMethod.parameters.length ≤ targetMethod.parameters.length
  enters : ∀ taken, Runs holdsReference taken front .initial (· = .entry targetMethod bottom)
  loads : LoadsFit S holdsReference 0 0 proxyMethod.parameters targetMethod.parameters →
    ∀ taken, Runs holdsReference taken load (.entry targetMethod bottom)
      (Arrived S proxyMethod targetMethod bottom)
  loads_stuck : ¬LoadsFit S holdsReference 0 0 proxyMethod.parameters targetMethod.parameters →
    Stuck holdsReference load (.entry targetMethod bottom)
  calls : CallsInner bottom call targetMethod.argumentCount returns
  sets : (∀ p ∈ writtenBack 0 (ownLocals S 0 proxyMethod.parameters targetMethod.parameters),
      SetFits holdsReference p) → ∀ taken f, Runs holdsReference taken set f
    (WroteBack 0
      (writtenBack 0 (ownLocals S 0 proxyMethod.parameters targetMethod.parameters)) f)
  sets_stuck : (¬∀ p ∈ writtenBack 0
      (ownLocals S 0 proxyMethod.parameters targetMethod.parameters), SetFits holdsReference p) →
    ∀ f, Stuck holdsReference set f
  results : ∀ taken f, f.stack = (if returns then [.result] else []) →
    Runs holdsReference taken result f fun g =>
      ReturnsValue S proxyMethod.returnType g.stack ∧ g.called = f.called ∧ g.stored = f.stored

section

variable {proxyMethod targetMethod : Method τ} {bottom : List Slot} {returns : Bool}
  {front load call set result : List (Instr τ)}

theorem Arrived.arguments (h : Arrived S proxyMethod targetMethod bottom f)
    (hle : proxyMethod.parameters.length ≤ targetMethod.parameters.length) :
    ∃ slots, f.stack = (instanceOf targetMethod ++ slots).reverse ++ bottom
      ∧ PassedAll f.locals 0 (ownLocals S 0 proxyMethod.parameters targetMethod.parameters) slots
      ∧ (instanceOf targetMethod ++ slots).length + targetMethod.parameters.length
        = targetMethod.argumentCount + proxyMethod.parameters.length := by
  obtain ⟨slots, hstack, hpassed⟩ := h.stack
  refine ⟨slots, hstack, hpassed, ?_⟩
  rw [List.length_append, hpassed.length, ownLocals_length, Nat.min_eq_left hle,
    ← instanceOf_length]
  omega

/-- The body does what it is for. -/
theorem BodyParts.returns_of_fits
    (h : BodyParts S holdsReference proxyMethod targetMethod bottom returns front load call set
      result)
    (hlength : proxyMethod.parameters.length = targetMethod.parameters.length)
    (hload : LoadsFit S holdsReference 0 0 proxyMethod.parameters targetMethod.parameters)
    (hset : ∀ p ∈ writtenBack 0 (ownLocals S 0 proxyMethod.parameters targetMethod.parameters),
      SetFits holdsReference p) :
    Returns holdsReference (front ++ (load ++ (call ++ (set ++ result))) ++ [.ret])
      (StackCorrect S proxyMethod targetMethod) := by
  refine .of_runs fun taken => ?_
  refine (h.enters taken).append fun f hf => ?_
  rw [hf]
  refine (h.loads hload taken).append fun g hg => ?_
  obtain ⟨slots, hstack, hpassed, hcount⟩ := hg.arguments h.length_le
  have hcount : (instanceOf targetMethod ++ slots).length = targetMethod.argumentCount := by omega
  refine (h.calls.runs holdsReference taken g _ hcount hstack).append fun k hk => ?_
  refine (h.sets hset taken k).append fun l hl => ?_
  refine (h.results taken l ?_).mono fun m ⟨hstackm, hcalledm, hstoredm⟩ => ⟨?_, ?_, hstackm⟩
  · rw [hl.stack, hk]
    rfl
  · refine ⟨g, slots, ?_, hpassed⟩
    rw [hcalledm, hl.called, hk]
    rfl
  · obtain ⟨stored, hstored, hfrom⟩ := hl.stored
    refine ⟨stored, ?_, ?_⟩
    · rw [hstoredm, hstored, hk]
      show stored.reverse ++ g.stored = _
      rw [hg.stored, List.append_nil]
    · have hwritten (p : ℕ × ℕ) (hp : p ∈ writtenBack 0
          (ownLocals S 0 proxyMethod.parameters targetMethod.parameters)) :
          k.locals p.1 = .written p.1 := by
        rw [hk]
        exact if_pos (List.mem_append_right _ (hpassed.address_mem hp))
      refine ((List.forall₂_and_left _ _).mpr ⟨hwritten, hfrom⟩).imp fun p s hp => ⟨hp.2.1, ?_⟩
      rw [← hp.1]
      exact hp.2.2

/-- The body gets stuck. -/
theorem BodyParts.stuck (h : BodyParts S holdsReference proxyMethod targetMethod bottom returns
      front load call set result)
    (hnot : ¬(proxyMethod.parameters.length = targetMethod.parameters.length
      ∧ LoadsFit S holdsReference 0 0 proxyMethod.parameters targetMethod.parameters
      ∧ ∀ p ∈ writtenBack 0 (ownLocals S 0 proxyMethod.parameters targetMethod.parameters),
        SetFits holdsReference p)) :
    Stuck holdsReference (front ++ (load ++ (call ++ (set ++ result))) ++ [.ret]) .initial := by
  refine Stuck.append ?_ _
  refine (h.enters straight).stuck fun f hf => ?_
  rw [hf]
  by_cases hload : LoadsFit S holdsReference 0 0 proxyMethod.parameters targetMethod.parameters
  · refine (h.loads hload straight).stuck fun g hg => ?_
    obtain ⟨slots, hstack, -, hcount⟩ := hg.arguments h.length_le
    by_cases hlength : proxyMethod.parameters.length = targetMethod.parameters.length
    · have hcount : (instanceOf targetMethod ++ slots).length = targetMethod.argumentCount := by
        omega
      refine (h.calls.runs holdsReference straight g _ hcount hstack).stuck fun k _ => ?_
      exact (h.sets_stuck (fun hset => hnot ⟨hlength, hload, hset⟩) k).append _
    · have hcount : (instanceOf targetMethod ++ slots).length < targetMethod.argumentCount := by
        have hle := h.length_le
        omega
      exact (h.calls.stuck holdsReference g _ hcount hstack).append _
  · exact (h.loads_stuck hload).append _

theorem BodyParts.returns_iff (h : BodyParts S holdsReference proxyMethod targetMethod bottom
      returns front load call set result) :
    Returns holdsReference (front ++ (load ++ (call ++ (set ++ result))) ++ [.ret])
        (StackCorrect S proxyMethod targetMethod)
      ↔ proxyMethod.parameters.length = targetMethod.parameters.length
        ∧ ∀ i outer inner, proxyMethod.parameters[i]? = some outer →
          targetMethod.parameters[i]? = some inner →
            ParameterFits S holdsReference outer inner i := by
  constructor
  · intro hreturns
    by_cases hfits : proxyMethod.parameters.length = targetMethod.parameters.length
      ∧ LoadsFit S holdsReference 0 0 proxyMethod.parameters targetMethod.parameters
      ∧ ∀ p ∈ writtenBack 0 (ownLocals S 0 proxyMethod.parameters targetMethod.parameters),
        SetFits holdsReference p
    · refine ⟨hfits.1, fun i outer inner houter hinner => ?_⟩
      have hfit := (parametersFit_iff le_rfl hfits.1).mp hfits.2 i outer inner houter hinner
      rw [Nat.zero_add] at hfit
      exact hfit
    · exact absurd hreturns (h.stuck hfits).not_returns
  · rintro ⟨hlength, hfits⟩
    have hall : LoadsFit S holdsReference 0 0 proxyMethod.parameters targetMethod.parameters
        ∧ ∀ p ∈ writtenBack 0 (ownLocals S 0 proxyMethod.parameters targetMethod.parameters),
          SetFits holdsReference p := by
      refine (parametersFit_iff le_rfl hlength).mpr fun i outer inner houter hinner => ?_
      rw [Nat.zero_add]
      exact hfits i outer inner houter hinner
    exact h.returns_of_fits hlength hall.1 hall.2

end

/-! ### `CreateMethods` -/

/-- What the arguments leave in the frame that the inner method is called in. -/
theorem LoadedAll.arrived {proxyMethod targetMethod : Method τ} {bottom : List Slot} {g : Frame}
    (h : LoadedAll il il' 0
      (ownLocals S 0 proxyMethod.parameters targetMethod.parameters)
      (.entry targetMethod bottom) g) : Arrived S proxyMethod targetMethod bottom g := by
  obtain ⟨slots, hstack, hpassed⟩ := h.stack
  refine ⟨⟨slots, ?_, hpassed⟩, h.stored⟩
  have hreverse : (instanceOf targetMethod).reverse = instanceOf targetMethod := by
    unfold instanceOf
    split
    · rfl
    · rfl
  rw [hstack, List.reverse_append, hreverse, List.append_assoc]
  rfl

/-- The parts that are appended around a call. -/
theorem bodyParts_of_call (holdsReference : ℕ → Bool) {proxyMethod targetMethod : Method τ}
    {generics : List τ} {instanceField : Option Bool} {front call : List (Instr τ)}
    {bottom : List Slot} {il₁ il₂ il₃ il₄ : LazyIL τ}
    {datas : List (OutputAndRefParameterData τ)} {currentReturnType innerReturnType : τ}
    (hfront : ∀ taken, Runs holdsReference taken front .initial
      (· = { Frame.initial with stack := bottom }))
    (hload : addIlToLoadArguments S .forward generics 0
      (initialiseProxyMethod targetMethod instanceField) proxyMethod.parameters
      targetMethod.parameters = .ok (il₁, datas))
    (hcall : CallsInner bottom call targetMethod.argumentCount (innerReturnType ≠ S.void))
    (hinstructions : il₂.instructions = front ++ il₁.instructions ++ call)
    (hlocals : il₂.locals = il₁.locals)
    (hset : addIlToSetOutputAndRefParameters S .forward il₂ datas = .ok il₃)
    (hreturn : tryAddReturnIl S .forward il₃ currentReturnType innerReturnType
      proxyMethod.returnType = .ok il₄) :
    ∃ front load call set result, il₄.instructions
        = front ++ (load ++ (call ++ (set ++ result))) ++ [.ret]
      ∧ BodyParts S holdsReference proxyMethod targetMethod bottom (innerReturnType ≠ S.void)
        front load call set result := by
  have hzero : (initialiseProxyMethod targetMethod instanceField).locals = 0 := by
    unfold initialiseProxyMethod
    split
    · rfl
    · rfl
  obtain ⟨-, hlt⟩ := addIlToLoadArguments_locals hload
  obtain ⟨hdatas, load, happends, hloads, hloadStuck⟩ :=
    addIlToLoadArguments_loads holdsReference hload
  rw [hzero] at hlt hdatas hloads hloadStuck
  obtain ⟨set, happendsSet, hsets, hsetStuck⟩ :=
    addIlToSetOutputAndRefParameters_appends holdsReference hset
      (by rw [hdatas, hlocals]; exact hlt)
  rw [hdatas] at hsets hsetStuck
  obtain ⟨result, hresult, hresults⟩ := tryAddReturnIl_appends hreturn
  have hfresh : Fresh (initialiseProxyMethod targetMethod instanceField)
      (.entry targetMethod bottom) := fun _ _ => rfl
  refine ⟨front ++ (initialiseProxyMethod targetMethod instanceField).instructions, load, call,
    set, result, ?_, addIlToLoadArguments_length hload, fun taken => ?_, fun hfit taken => ?_,
    fun hnot => hloadStuck hnot _ hfresh, hcall, fun hfit taken f => ?_, hsetStuck,
    fun taken f hstack => ?_⟩
  · rw [hresult, happendsSet.instructions, hinstructions, happends.instructions]
    simp only [List.append_assoc]
  · refine (hfront taken).append fun f hf => ?_
    rw [hf]
    exact initialiseProxyMethod_runs targetMethod instanceField _
  · exact (hloads hfit taken _ hfresh).mono fun g hg => hg.arrived
  · refine (hsets hfit taken f).mono fun g hg => ?_
    exact ⟨hg.stack, hg.called, hg.stored, fun l hl => absurd hl (Nat.not_lt_zero l)⟩
  · refine hresults holdsReference taken f ?_
    rw [hstack]
    by_cases hvoid : innerReturnType = S.void
    · simp [hvoid]
    · simp [hvoid]

/-- A direct call, or one through a function pointer. -/
theorem addIlForDirectMethodCall_calls (S : TypeSystem τ) (il : LazyIL τ) (targetMethod : Method τ)
    (generics : List τ) :
    ∃ call, (addIlForDirectMethodCall S il targetMethod generics).1.instructions
        = il.instructions ++ call
      ∧ (addIlForDirectMethodCall S il targetMethod generics).1.locals = il.locals
      ∧ CallsInner [] call targetMethod.argumentCount
        ((addIlForDirectMethodCall S il targetMethod generics).2.returnType ≠ S.void) := by
  have hcount : (if generics ≠ [] then targetMethod.makeGenericMethod generics
      else targetMethod).argumentCount = targetMethod.argumentCount := by
    split
    · rfl
    · rfl
  rw [addIlForDirectMethodCall, ← hcount]
  generalize (if generics ≠ [] then targetMethod.makeGenericMethod generics
    else targetMethod) = constructed
  split
  · exact ⟨_, rfl, rfl, callsInner_target _ _ _⟩
  · exact ⟨_, rfl, rfl, callsInner_pointer _ _⟩

/-- A call of the delegate, which is loaded in front of everything else. -/
theorem addIlForDynamicMethodCall_calls (S : TypeSystem τ) (il : LazyIL τ)
    (targetMethod : Method τ) :
    ∃ call, (addIlForDynamicMethodCall S il targetMethod).1.instructions
        = [.call .getDelegate] ++ il.instructions ++ call
      ∧ (addIlForDynamicMethodCall S il targetMethod).1.locals = il.locals
      ∧ CallsInner [.delegate] call targetMethod.argumentCount
        (targetMethod.returnType ≠ S.void) := by
  refine ⟨_, rfl, rfl, ?_⟩
  have hreturns : decide (targetMethod.returnType ≠ S.void)
      = decide ((if S.useDirectAccessTo targetMethod.returnType
        && !S.isGenericParameter targetMethod.returnType then targetMethod.returnType
          else S.object) ≠ S.void) := by
    by_cases hvoid : targetMethod.returnType = S.void
    · simp [hvoid, S.useDirectAccessTo_void, S.isGenericParameter_void]
    · split
      · rfl
      · simp [hvoid, S.object_ne_void]
  rw [hreturns]
  exact callsInner_invoke _ _

theorem createMethod_parts (holdsReference : ℕ → Bool) {proxyMethod targetMethod : Method τ}
    {targetType : τ} {instanceField : Option Bool} {code : List (Instr τ)}
    (h : createMethod S proxyMethod targetMethod targetType instanceField = .ok code) :
    ∃ bottom returns front load call set result,
      code = front ++ (load ++ (call ++ (set ++ result))) ++ [.ret]
        ∧ BodyParts S holdsReference proxyMethod targetMethod bottom returns front load call set
          result := by
  rw [createMethod] at h
  obtain ⟨⟨il₁, datas⟩, hload, h⟩ := bind_eq_ok.mp h
  dsimp only at h
  split at h
  · obtain ⟨⟨il₂, constructed, returnType⟩, hcall, h⟩ := bind_eq_ok.mp h
    obtain ⟨il₃, hset, h⟩ := bind_eq_ok.mp h
    obtain ⟨il₄, hreturn, h⟩ := bind_eq_ok.mp h
    cases h
    cases hcall
    obtain ⟨call, hinstructions, hlocals, hcalls⟩ :=
      addIlForDirectMethodCall_calls S il₁ targetMethod proxyMethod.genericArguments
    obtain ⟨front, load, call, set, result, hcode, hparts⟩ :=
      bodyParts_of_call holdsReference (fun _ => .nil rfl) hload hcalls hinstructions hlocals hset
        hreturn
    exact ⟨_, _, front, load, call, set, result, hcode, hparts⟩
  · split at h
    · cases h
    · obtain ⟨⟨il₂, constructed, returnType⟩, hcall, h⟩ := bind_eq_ok.mp h
      obtain ⟨il₃, hset, h⟩ := bind_eq_ok.mp h
      obtain ⟨il₄, hreturn, h⟩ := bind_eq_ok.mp h
      cases h
      cases hcall
      obtain ⟨call, hinstructions, hlocals, hcalls⟩ :=
        addIlForDynamicMethodCall_calls S il₁ targetMethod
      obtain ⟨front, load, call, set, result, hcode, hparts⟩ :=
        bodyParts_of_call holdsReference (fun _ => .single rfl rfl rfl) hload hcalls hinstructions
          hlocals hset hreturn
      exact ⟨_, _, front, load, call, set, result, hcode, hparts⟩

/-- The types of the methods below. -/
inductive LookupType
  | void
  | object
  | objectByRef
  | string
  | stringByRef
  | duckType
  deriving DecidableEq

def LookupType.getElementType : LookupType → Option LookupType
  | .objectByRef => some .object
  | .stringByRef => some .string
  | _ => none

theorem LookupType.getElementType_objectByRef :
    LookupType.getElementType .objectByRef = some .object := rfl

theorem LookupType.object_ne_void : LookupType.object ≠ .void := by decide

theorem LookupType.true_of_void (_ : LookupType) : true = true := rfl

theorem LookupType.false_of_void (_ : LookupType) : false = false := rfl

theorem LookupType.none_eq (_ : LookupType) : (none : Option LookupType) = none := rfl

theorem LookupType.none_ne (_ : LookupType) : (none : Option LookupType) ≠ some .void := nofun

def lookupTypes : TypeSystem LookupType where
  object := .object
  objectByRef := .objectByRef
  void := .void
  duckType := .duckType
  isValueType type := type == .void
  isEnum _ := false
  isByRef type := type == .objectByRef || type == .stringByRef
  isGenericParameter _ := false
  getElementType := LookupType.getElementType
  getEnumUnderlyingType := id
  isAssignableFrom type _ := type == .object
  hasDuckCopyAttribute _ := false
  isClrType _ := true
  nullableArgument _ := none
  valueWithTypeArgument _ := none
  useDirectAccessTo _ := true
  objectByRef_element := LookupType.getElementType_objectByRef
  object_ne_void := LookupType.object_ne_void
  useDirectAccessTo_void := LookupType.true_of_void .void
  isGenericParameter_void := LookupType.false_of_void .void
  valueWithTypeArgument_void := LookupType.none_eq .void
  valueWithTypeArgument_ne_void := LookupType.none_ne

/-- A method with a key, and a value behind an output parameter. -/
def lookupMethod (type typeByRef : LookupType) : Method LookupType where
  parameters := [⟨type, false, false, false⟩, ⟨typeByRef, true, false, false⟩]
  returnType := type
  isStatic := false
  isPublic := true
  isGenericMethod := false
  ofValueType := false
  genericArguments := []
  constructedReturnType _ := type

/-- The body of `object Lookup(object, out object)` over `string Lookup(string, out string)`. -/
def lookupBody : List (Instr LookupType) :=
  [.ldarg 0, .ldarg 1, .castclass .string, .ldlocaS 0, .call (.target true 3 true), .ldarg 2,
    .ldloc 0, .stindRef, .ret]

end AutoInstrumentation.DuckTyping
