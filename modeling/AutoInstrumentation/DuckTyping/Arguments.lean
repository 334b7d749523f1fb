import AutoInstrumentation.DuckTyping.Fragments

/-!
# AutoInstrumentation.DuckTyping.Arguments

What `AddIlToLoadArguments` leaves on the stack, and what `AddIlToSetOutputAndRefParameters`
writes back.

A parameter by reference whose type is another one on the other side has a local of its own:
the inner method gets the address of the local, and what it leaves there is written back.
Both directions are through instructions for references.
-/

namespace AutoInstrumentation.DuckTyping

variable {τ : Type} {S : TypeSystem τ} {direction : Direction} {il il' : LazyIL τ}
  {holdsReference taken : ℕ → Bool} {f : Frame}

/-! ### The value inside a reference -/

/-- A value that is not null is converted. -/
theorem converts_notNull (bound label : ℕ) {code : List (Instr τ)} (hcode : Converts bound code)
    (hmarks : ∀ i ∈ code, i.marks (label + 1) = false) :
    Converts bound ([.dup, .brtrueS label, .pop, .ldnull, .brS (label + 1), .markLabel label]
      ++ (code ++ [.markLabel (label + 1)])) := by
  intro holdsReference taken f slot stack hstack
  obtain ⟨stack', locals, called, stored⟩ := f
  cases hstack
  rw [Runs, exec_append]
  cases htaken : taken label with
  | true =>
      have hexec : exec holdsReference taken none
          [Instr.dup (τ := τ), .brtrueS label, .pop, .ldnull, .brS (label + 1), .markLabel label]
          ⟨slot :: stack, locals, called, stored⟩
            = some (.running none ⟨slot :: stack, locals, called, stored⟩) := by
        simp [exec, Frame.step, Frame.push, htaken, Instr.marks]
      rw [hexec]
      refine (hcode holdsReference taken ⟨slot :: stack, locals, called, stored⟩ slot stack
        rfl).append fun g hg => ?_
      exact .inr ⟨g, rfl, hg⟩
  | false =>
      have hexec : exec holdsReference taken none
          [Instr.dup (τ := τ), .brtrueS label, .pop, .ldnull, .brS (label + 1), .markLabel label]
          ⟨slot :: stack, locals, called, stored⟩
            = some (.running (some (label + 1)) ⟨.null :: stack, locals, called, stored⟩) := by
        simp [exec, Frame.step, Frame.push, htaken, Instr.marks]
      refine .inr ⟨⟨.null :: stack, locals, called, stored⟩, ?_,
        ⟨_, .inr rfl, rfl⟩, rfl, rfl, fun _ _ => rfl, id⟩
      rw [hexec]
      show exec holdsReference taken (some (label + 1)) (code ++ [.markLabel (label + 1)]) _ = _
      rw [exec_append, exec_pass hmarks]
      simp [Outcome.andThen, exec, Instr.marks]

/-! ### Loads and stores -/

/-- What `WriteLoadArgument` emits. -/
def argumentLoad (idx : ℕ) : Instr τ := if idx + 1 ≤ 3 then .ldarg (idx + 1) else .ldargS (idx + 1)

/-- What `WriteLoadLocal` emits. -/
def localLoad (l : ℕ) : Instr τ := if l ≤ 3 then .ldloc l else .ldlocS l

/-- What `WriteStoreLocal` emits. -/
def localStore (l : ℕ) : Instr τ := if l ≤ 3 then .stloc l else .stlocS l

theorem argumentLoad_isLinear (idx : ℕ) : (argumentLoad idx : Instr τ).isLinear = true := by
  rw [argumentLoad]
  split
  · rfl
  · rfl

theorem localLoad_isLinear (l : ℕ) : (localLoad l : Instr τ).isLinear = true := by
  rw [localLoad]
  split
  · rfl
  · rfl

theorem localStore_isLinear (l : ℕ) : (localStore l : Instr τ).isLinear = true := by
  rw [localStore]
  split
  · rfl
  · rfl

theorem step_argumentLoad (holdsReference : ℕ → Bool) (f : Frame) (idx : ℕ) :
    f.step holdsReference (argumentLoad idx : Instr τ)
      = if idx + 1 < 256 then some (f.push (.argument (idx + 1))) else none := by
  rw [argumentLoad]
  split
  · rw [if_pos (by omega)]
    rfl
  · rfl

theorem step_localLoad (holdsReference : ℕ → Bool) (f : Frame) (l : ℕ) :
    f.step holdsReference (localLoad l : Instr τ)
      = if l < 256 then some (f.push (f.locals l)) else none := by
  rw [localLoad]
  split
  · rw [if_pos (by omega)]
    rfl
  · rfl

/-- A local is set. -/
def Frame.setLocal (f : Frame) (l : ℕ) (slot : Slot) (stack : List Slot) : Frame :=
  { f with stack, locals := fun k => if k = l then slot else f.locals k }

theorem step_localStore (holdsReference : ℕ → Bool) {l : ℕ} {slot : Slot} {stack : List Slot}
    (hstack : f.stack = slot :: stack) :
    f.step holdsReference (localStore l : Instr τ)
      = if l < 256 then some (f.setLocal l slot stack) else none := by
  rw [localStore]
  split
  · rw [if_pos (by omega)]
    simp only [Frame.step, hstack]
    rfl
  · simp only [Frame.step, hstack]
    rfl

/-! ### Loading a parameter -/

/-- How a parameter is passed: as it is, or by the address of its local. -/
def Passed (locals : ℕ → Slot) (idx : ℕ) : Option ℕ → Slot → Prop
  | none, slot => IsValue (.argument (idx + 1)) slot
  | some l, slot => slot = .address l ∧ IsValue (.argument (idx + 1)) (locals l)

/-- The frame has a parameter on top; no local is written but new ones. -/
structure Loaded (il il' : LazyIL τ) (idx : ℕ) (own : Option ℕ) (f f' : Frame) : Prop where
  stack : ∃ slot, f'.stack = slot :: f.stack ∧ Passed f'.locals idx own slot
  called : f'.called = f.called
  stored : f'.stored = f.stored
  locals : ∀ l < il.locals, f'.locals l = f.locals l
  fresh : ∀ l ≥ il'.locals, f'.locals l = .null

/-- The locals that were not made yet are null. -/
def Fresh (il : LazyIL τ) (f : Frame) : Prop := ∀ l ≥ il.locals, f.locals l = .null

/-- The code loads a parameter if its instructions fit, and gets stuck if they do not. -/
structure LoadsParameter (holdsReference : ℕ → Bool) (il il' : LazyIL τ) (idx : ℕ)
    (own : Option ℕ) (fits : Prop) : Prop where
  appends : ∃ code, Appends il il' code
    ∧ (fits → ∀ taken f, Fresh il f → Runs holdsReference taken code f (Loaded il il' idx own f))
    ∧ (¬fits → ∀ f, Fresh il f → Stuck holdsReference code f)

theorem AppendsConversion.trans {il'' : LazyIL τ} (h : AppendsConversion il il')
    (h' : AppendsConversion il' il'') : AppendsConversion il il'' := by
  obtain ⟨code, happends, hconverts⟩ := h
  obtain ⟨rest, happends', hconverts'⟩ := h'
  exact ⟨code ++ rest, happends.trans happends', hconverts.append (hconverts'.mono happends.locals)⟩

/-- A parameter that is passed as it is. -/
theorem loadsParameter_argument {idx : ℕ}
    (h : AppendsConversion (il.emit [argumentLoad idx]) il') :
    LoadsParameter holdsReference il il' idx none (idx + 1 < 256) := by
  obtain ⟨code, happends, hconverts⟩ := h
  have hload : Appends il (il.emit [argumentLoad idx]) [argumentLoad idx] :=
    appends_linear il fun i hi => List.mem_singleton.mp hi ▸ argumentLoad_isLinear idx
  refine ⟨_, hload.trans happends, fun hfits taken f hfresh => ?_, fun hnot f _ => ?_⟩
  · refine .cons (argumentLoad_isLinear idx) ((step_argumentLoad _ f idx).trans (if_pos hfits)) ?_
    refine (hconverts holdsReference taken (f.push _) _ _ rfl).mono fun g hg => ?_
    obtain ⟨slot, hvalue, hstack⟩ := hg.stack
    exact ⟨⟨slot, hstack, hvalue⟩, hg.called, hg.stored, hg.locals,
      fun l hl => hg.fresh hfresh l (Nat.le_trans happends.locals hl)⟩
  · exact .cons (argumentLoad_isLinear idx) ((step_argumentLoad _ f idx).trans (if_neg hnot)) _

/-- An output parameter with a local of its own. -/
theorem loadsParameter_out (il : LazyIL τ) (idx : ℕ) :
    LoadsParameter holdsReference il
      ({ il with locals := il.locals + 1 }.emit [.ldlocaS il.locals]) idx (some il.locals)
      (il.locals < 256) := by
  refine ⟨_, appends_emit il 0 1 fun label _ i hi => ?_, fun hfits taken f hfresh => ?_,
    fun hnot f _ => ?_⟩
  · rw [List.mem_singleton.mp hi]
    rfl
  · refine .single rfl (if_pos hfits) ⟨⟨_, rfl, rfl, ?_⟩, rfl, rfl, fun _ _ => rfl, ?_⟩
    · exact .inr (hfresh il.locals le_rfl)
    · exact fun l hl => hfresh l (Nat.le_of_succ_le hl)
  · have hstep : f.step holdsReference (.ldlocaS il.locals : Instr τ) = none := if_neg hnot
    exact .cons rfl hstep _

/-- A parameter by reference with a local of its own. -/
theorem loadsParameter_ref {idx : ℕ}
    (h : AppendsConversion ({ il with locals := il.locals + 1 }.emit [argumentLoad idx, .ldindRef])
      il') :
    LoadsParameter holdsReference il (il'.emit [localStore il.locals, .ldlocaS il.locals]) idx
      (some il.locals)
      (il.locals < 256 ∧ holdsReference (idx + 1) = true ∧ idx + 1 < 256) := by
  obtain ⟨code, happends, hconverts⟩ := h
  have hload : Appends il
      ({ il with locals := il.locals + 1 }.emit [argumentLoad idx, .ldindRef])
      [argumentLoad idx, .ldindRef] := by
    refine appends_emit il 0 1 fun label _ i hi => ?_
    rcases List.mem_cons.mp hi with rfl | hi
    · exact marks_of_isLinear (argumentLoad_isLinear idx) label
    · rw [List.mem_singleton.mp hi]
      rfl
  have hstore : Appends il' (il'.emit [localStore il.locals, .ldlocaS il.locals])
      [localStore il.locals, .ldlocaS il.locals] := by
    refine appends_linear il' fun i hi => ?_
    rcases List.mem_cons.mp hi with rfl | hi
    · exact localStore_isLinear il.locals
    · rw [List.mem_singleton.mp hi]
      rfl
  -- the value behind the argument is converted on top of the stack
  have hvalue (hidx : idx + 1 < 256) (hholds : holdsReference (idx + 1) = true)
      (taken : ℕ → Bool) (f : Frame) :
      Runs holdsReference taken ([argumentLoad idx, .ldindRef] ++ code) f
        (Converted (il.locals + 1) (.argument (idx + 1)) f.stack
          (f.push (.argument (idx + 1)))) := by
    refine .cons (argumentLoad_isLinear idx) ((step_argumentLoad _ f idx).trans (if_pos hidx)) ?_
    have hload : (f.push (.argument (idx + 1))).step holdsReference (.ldindRef : Instr τ)
        = some (f.push (.argument (idx + 1))) := if_pos hholds
    exact .cons rfl hload (hconverts holdsReference taken (f.push _) _ _ rfl)
  refine ⟨_, (hload.trans happends).trans hstore, fun ⟨hlocal, hholds, hidx⟩ taken f hfresh => ?_,
    fun hnot f hfresh => ?_⟩
  · refine (hvalue hidx hholds taken f).append fun g hg => ?_
    obtain ⟨slot, hslot, hstack⟩ := hg.stack
    refine .cons (localStore_isLinear _) ((step_localStore _ hstack).trans (if_pos hlocal)) ?_
    refine .single rfl (if_pos hlocal) ⟨⟨_, rfl, rfl, ?_⟩, hg.called, hg.stored, fun l hl => ?_,
      fun l hl => ?_⟩
    · have hwritten : (g.setLocal il.locals slot f.stack).locals il.locals = slot := if_pos rfl
      show IsValue _ ((g.setLocal il.locals slot f.stack).locals il.locals)
      rw [hwritten]
      exact hslot
    · exact (if_neg (Nat.ne_of_lt hl)).trans (hg.locals l (Nat.lt_succ_of_lt hl))
    · have hle : il.locals + 1 ≤ l := Nat.le_trans happends.locals hl
      refine (if_neg (Nat.ne_of_gt hle)).trans (hg.fresh (fun k hk => ?_) l hle)
      exact hfresh k (Nat.le_of_succ_le hk)
  · by_cases hidx : idx + 1 < 256
    · by_cases hholds : holdsReference (idx + 1) = true
      · have hlocal : ¬il.locals < 256 := fun hlocal => hnot ⟨hlocal, hholds, hidx⟩
        refine (hvalue hidx hholds straight f).stuck fun g hg => ?_
        obtain ⟨slot, -, hstack⟩ := hg.stack
        exact .cons (localStore_isLinear _) ((step_localStore _ hstack).trans (if_neg hlocal)) _
      · have hload : (f.push (.argument (idx + 1))).step holdsReference (.ldindRef : Instr τ)
            = none := if_neg hholds
        have hfirst : Runs holdsReference straight [(argumentLoad idx : Instr τ)] f
            fun g => g = f.push (.argument (idx + 1)) :=
          .single (argumentLoad_isLinear idx)
            ((step_argumentLoad _ f idx).trans (if_pos hidx)) rfl
        refine hfirst.stuck fun g hg => ?_
        rw [hg]
        exact .cons rfl hload _
    · exact .cons (argumentLoad_isLinear idx) ((step_argumentLoad _ f idx).trans (if_neg hidx)) _

theorem LoadsParameter.congr {idx : ℕ} {own : Option ℕ} {fits fits' : Prop}
    (h : LoadsParameter holdsReference il il' idx own fits) (hiff : fits ↔ fits') :
    LoadsParameter holdsReference il il' idx own fits' := by
  rw [← propext hiff]
  exact h

/-- All parameters are passed, each in its way. -/
def PassedAll (locals : ℕ → Slot) : ℕ → List (Option ℕ) → List Slot → Prop
  | _, [], [] => True
  | idx, own :: owns, slot :: slots =>
      Passed locals idx own slot ∧ PassedAll locals (idx + 1) owns slots
  | _, _, _ => False

/-- The frame has all parameters on top. -/
structure LoadedAll (il il' : LazyIL τ) (idx : ℕ) (own : List (Option ℕ)) (f f' : Frame) :
    Prop where
  stack : ∃ slots, f'.stack = slots.reverse ++ f.stack ∧ PassedAll f'.locals idx own slots
  called : f'.called = f.called
  stored : f'.stored = f.stored
  locals : ∀ l < il.locals, f'.locals l = f.locals l
  fresh : Fresh il' f'

theorem Passed.congr {locals locals' : ℕ → Slot} {idx : ℕ} {own : Option ℕ} {slot : Slot}
    (h : Passed locals idx own slot) (hlocals : ∀ l ∈ own, locals' l = locals l) :
    Passed locals' idx own slot := by
  cases own with
  | none => exact h
  | some l => exact ⟨h.1, by rw [hlocals l rfl]; exact h.2⟩

/-- The rule of the parameters: one is loaded, and then the others. -/
theorem Loaded.cons {il₁ : LazyIL τ} {idx : ℕ} {own : Option ℕ}
    {owns : List (Option ℕ)} {g k : Frame} (hg : Loaded il il₁ idx own f g)
    (hk : LoadedAll il₁ il' (idx + 1) owns g k) (hle : il.locals ≤ il₁.locals)
    (hown : ∀ l ∈ own, l < il₁.locals) : LoadedAll il il' idx (own :: owns) f k := by
  obtain ⟨slot, hslot, hpassed⟩ := hg.stack
  obtain ⟨slots, hslots, hpassedAll⟩ := hk.stack
  refine ⟨⟨slot :: slots, ?_, ?_, hpassedAll⟩, hk.called.trans hg.called,
    hk.stored.trans hg.stored, fun l hl => ?_, hk.fresh⟩
  · rw [hslots, hslot, List.reverse_cons, List.append_assoc]
    rfl
  · exact hpassed.congr fun l hl => hk.locals l (hown l hl)
  · exact (hk.locals l (Nat.lt_of_lt_of_le hl hle)).trans (hg.locals l hl)

variable [DecidableEq τ]

/-- The parameter has a local of its own. -/
def ownLocal (S : TypeSystem τ) (outer inner : Parameter τ) : Bool :=
  (outer.isOut || S.isByRef outer.parameterType) && outer.parameterType ≠ inner.parameterType

/-- What the instructions that load a parameter need. -/
def LoadFits (S : TypeSystem τ) (holdsReference : ℕ → Bool) (outer inner : Parameter τ)
    (idx locals : ℕ) : Prop :=
  (ownLocal S outer inner = true → locals < 256)
    ∧ (ownLocal S outer inner = true → outer.isOut = false → holdsReference (idx + 1) = true)
    ∧ (ownLocal S outer inner = false ∨ outer.isOut = false → idx + 1 < 256)

theorem loadRefCast_appends {innerElementType outerElementType : τ}
    (h : loadRefCast S direction il innerElementType outerElementType = .ok il') :
    AppendsConversion il il' := by
  rw [loadRefCast] at h
  split at h
  · obtain ⟨il₁, hcast, h⟩ := bind_eq_ok.mp h
    cases h
    obtain ⟨code, happends, hconverts⟩ := Direction.duckCastParameter_appends hcast
    have hmarks (label : ℕ) (hlabel : label < il.labels + 2) (i : Instr τ) (hi : i ∈ code) :
        i.marks label = false := happends.marks label hlabel i hi
    refine ⟨_, ⟨?_, ?_, happends.locals, fun label hlabel i hi => ?_⟩,
      converts_notNull _ il.labels hconverts (hmarks _ (Nat.lt_succ_self _))⟩
    · show il₁.instructions ++ _ = _
      rw [happends.instructions]
      exact (List.append_assoc _ _ _).trans (List.append_assoc _ _ _)
    · exact Nat.le_trans (Nat.le_add_right _ 2) happends.labels
    · rcases List.mem_append.mp hi with hi | hi
      · simp only [List.mem_cons, List.not_mem_nil, or_false] at hi
        rcases hi with rfl | rfl | rfl | rfl | rfl | rfl
        case inr.inr.inr.inr.inr => exact beq_eq_false_iff_ne.mpr (Nat.ne_of_gt hlabel)
        all_goals rfl
      · rcases List.mem_append.mp hi with hi | hi
        · exact hmarks label (Nat.lt_add_right 2 hlabel) i hi
        · rw [List.mem_singleton.mp hi]
          exact beq_eq_false_iff_ne.mpr (Nat.ne_of_gt (Nat.lt_succ_of_lt hlabel))
  · cases h
    exact appendsConversion_refl il

/-! ### Loading the arguments -/

theorem loadOut_loads {outer inner : Parameter τ} {idx : ℕ}
    {data : Option (OutputAndRefParameterData τ)} (hout : outer.isOut = true)
    (h : loadOut il outer.parameterType inner.parameterType idx = (il', data)) :
    (data.map fun d => (d.localIndex, d.proxyArgumentIndex))
        = (if ownLocal S outer inner then some (il.locals, idx) else none)
      ∧ LoadsParameter holdsReference il il' idx
        (if ownLocal S outer inner then some il.locals else none)
        (LoadFits S holdsReference outer inner idx il.locals) := by
  rw [loadOut] at h
  by_cases hne : outer.parameterType ≠ inner.parameterType
  · have hown : ownLocal S outer inner = true := by simp [ownLocal, hout, hne]
    rw [if_pos hne] at h
    cases h
    rw [hown, if_pos rfl, if_pos rfl]
    refine ⟨rfl, (loadsParameter_out il idx).congr ?_⟩
    simp [LoadFits, hown, hout]
  · have hown : ownLocal S outer inner = false := by simp [ownLocal, not_not.mp hne]
    rw [if_neg hne] at h
    cases h
    rw [hown, if_neg Bool.false_ne_true, if_neg Bool.false_ne_true]
    refine ⟨rfl, (loadsParameter_argument (appendsConversion_refl _)).congr ?_⟩
    simp [LoadFits, hown]

theorem loadRef_loads {outer inner : Parameter τ} {idx : ℕ}
    {data : Option (OutputAndRefParameterData τ)} (hout : outer.isOut = false)
    (hbyRef : S.isByRef outer.parameterType = true)
    (h : loadRef S direction il outer.parameterType inner.parameterType idx = .ok (il', data)) :
    (data.map fun d => (d.localIndex, d.proxyArgumentIndex))
        = (if ownLocal S outer inner then some (il.locals, idx) else none)
      ∧ LoadsParameter holdsReference il il' idx
        (if ownLocal S outer inner then some il.locals else none)
        (LoadFits S holdsReference outer inner idx il.locals) := by
  rw [loadRef] at h
  by_cases hne : outer.parameterType ≠ inner.parameterType
  · have hown : ownLocal S outer inner = true := by simp [ownLocal, hbyRef, hne]
    rw [if_pos hne] at h
    dsimp only at h
    obtain ⟨il₁, hcast, h⟩ := bind_eq_ok.mp h
    obtain ⟨il₂, hconvert, h⟩ := bind_eq_ok.mp h
    cases h
    rw [hown, if_pos rfl, if_pos rfl]
    refine ⟨rfl, ?_⟩
    have hvalue := (loadRefCast_appends hcast).trans (writeSafeTypeConversion_appends hconvert)
    have hcode : (il₂.writeStoreLocal il.locals).emit [.ldlocaS il.locals]
        = il₂.emit [localStore il.locals, .ldlocaS il.locals] := by
      simp [LazyIL.writeStoreLocal, LazyIL.emit, localStore]
    rw [hcode]
    refine (loadsParameter_ref ?_).congr ?_
    · have hload : LazyIL.emit { il with locals := il.locals + 1 } [argumentLoad idx, .ldindRef]
          = (LazyIL.writeLoadArgument { il with locals := il.locals + 1 } idx false).emit
            [.ldindRef] := by
        simp [LazyIL.writeLoadArgument, LazyIL.emit, argumentLoad]
      rw [hload]
      exact hvalue
    · simp [LoadFits, hown, hout]
  · have hown : ownLocal S outer inner = false := by simp [ownLocal, not_not.mp hne]
    rw [if_neg hne] at h
    cases h
    rw [hown, if_neg Bool.false_ne_true, if_neg Bool.false_ne_true]
    refine ⟨rfl, (loadsParameter_argument (appendsConversion_refl _)).congr ?_⟩
    simp [LoadFits, hown]

theorem loadValue_loads {outer inner : Parameter τ} {idx : ℕ} (hout : outer.isOut = false)
    (hbyRef : S.isByRef outer.parameterType = false)
    (h : loadValue S direction il outer.parameterType inner.parameterType idx = .ok il') :
    LoadsParameter holdsReference il il' idx none
      (LoadFits S holdsReference outer inner idx il.locals) := by
  rw [loadValue] at h
  have hown : ownLocal S outer inner = false := by simp [ownLocal, hout, hbyRef]
  have hvalue : AppendsConversion (il.emit [argumentLoad idx]) il' := by
    split at h
    · obtain ⟨il₁, hcast, h⟩ := bind_eq_ok.mp h
      exact (Direction.duckCastParameter_appends hcast).trans (writeSafeTypeConversion_appends h)
    · obtain ⟨il₁, hload, h⟩ := bind_eq_ok.mp h
      cases hload
      exact writeSafeTypeConversion_appends h
  refine (loadsParameter_argument hvalue).congr ?_
  simp [LoadFits, hown]

/-- **A parameter** that both methods have is loaded. -/
theorem loadParameter_loads {generics : List τ} {outer inner : Parameter τ} {idx : ℕ}
    {data : Option (OutputAndRefParameterData τ)}
    (h : loadParameter S direction generics il outer inner idx = .ok (il', data)) :
    (data.map fun d => (d.localIndex, d.proxyArgumentIndex))
        = (if ownLocal S outer inner then some (il.locals, idx) else none)
      ∧ LoadsParameter holdsReference il il' idx
        (if ownLocal S outer inner then some il.locals else none)
        (LoadFits S holdsReference outer inner idx il.locals) := by
  rw [loadParameter] at h
  split at h
  · cases h
  split at h
  · cases h
  split at h
  · cases h
  split at h
  · next hout => exact loadOut_loads hout (Except.ok.inj h)
  · next hout =>
      have hout : outer.isOut = false := Bool.not_eq_true _ ▸ hout
      split at h
      · next hbyRef => exact loadRef_loads hout hbyRef h
      · next hbyRef =>
          have hbyRef : S.isByRef outer.parameterType = false :=
            Bool.not_eq_true _ ▸ hbyRef
          obtain ⟨il₁, hvalue, h⟩ := bind_eq_ok.mp h
          cases h
          have hown : ownLocal S outer inner = false := by simp [ownLocal, hout, hbyRef]
          rw [hown, if_neg Bool.false_ne_true, if_neg Bool.false_ne_true]
          exact ⟨rfl, loadValue_loads hout hbyRef hvalue⟩

/-! ### The locals of the forward direction -/

theorem writeTypeConversion_locals {actualType expectedType : τ}
    (h : writeTypeConversion S il actualType expectedType = .ok il') :
    il'.locals = il.locals := by
  rw [writeTypeConversion] at h
  dsimp only at h
  split at h
  · cases h
    rfl
  · split at h
    · split at h
      · cases h
      · split at h
        · cases h
          rfl
        · split at h
          · cases h
            rfl
          · cases h
    · split at h
      · split at h
        · cases h
          rfl
        · cases h
      · split at h
        · cases h
          rfl
        · cases h
          rfl

theorem writeSafeTypeConversion_locals {actualType expectedType : τ}
    (h : writeSafeTypeConversion S il actualType expectedType = .ok il') :
    il'.locals = il.locals := by
  rw [writeSafeTypeConversion] at h
  split at h
  · cases h
    rfl
  · exact writeTypeConversion_locals h

theorem loadRefCast_locals {innerElementType outerElementType : τ}
    (h : loadRefCast S .forward il innerElementType outerElementType = .ok il') :
    il'.locals = il.locals := by
  rw [loadRefCast] at h
  split at h
  · obtain ⟨il₁, hcast, h⟩ := bind_eq_ok.mp h
    cases hcast
    cases h
    rfl
  · cases h
    rfl

/-- Only a parameter with a local of its own makes one. -/
theorem loadParameter_locals {generics : List τ} {outer inner : Parameter τ} {idx : ℕ}
    {data : Option (OutputAndRefParameterData τ)}
    (h : loadParameter S .forward generics il outer inner idx = .ok (il', data)) :
    il'.locals = il.locals + (if ownLocal S outer inner then 1 else 0) := by
  rw [loadParameter] at h
  split at h
  · cases h
  split at h
  · cases h
  split at h
  · cases h
  split at h
  · next hout =>
      have h := Except.ok.inj h
      rw [loadOut] at h
      by_cases hne : outer.parameterType ≠ inner.parameterType
      · rw [if_pos hne] at h
        cases h
        simp [ownLocal, hout, hne, LazyIL.emit]
      · rw [if_neg hne] at h
        cases h
        simp [ownLocal, not_not.mp hne, LazyIL.writeLoadArgument, LazyIL.emit]
  · next hout =>
      split at h
      · next hbyRef =>
          rw [loadRef] at h
          by_cases hne : outer.parameterType ≠ inner.parameterType
          · rw [if_pos hne] at h
            dsimp only at h
            obtain ⟨il₁, hcast, h⟩ := bind_eq_ok.mp h
            obtain ⟨il₂, hconvert, h⟩ := bind_eq_ok.mp h
            cases h
            have hlocals := (writeSafeTypeConversion_locals hconvert).trans
              (loadRefCast_locals hcast)
            simpa [ownLocal, hbyRef, hne, LazyIL.writeStoreLocal, LazyIL.emit,
              LazyIL.writeLoadArgument] using hlocals
          · rw [if_neg hne] at h
            cases h
            simp [ownLocal, not_not.mp hne, LazyIL.writeLoadArgument, LazyIL.emit]
      · next hbyRef =>
          obtain ⟨il₁, hvalue, h⟩ := bind_eq_ok.mp h
          cases h
          have hown : ownLocal S outer inner = false := by simp [ownLocal, hout, hbyRef]
          rw [hown, if_neg Bool.false_ne_true, Nat.add_zero]
          rw [loadValue] at hvalue
          split at hvalue
          · obtain ⟨il₂, hcast, hvalue⟩ := bind_eq_ok.mp hvalue
            have hlocals := writeSafeTypeConversion_locals hvalue
            cases hcast
            exact hlocals
          · obtain ⟨il₂, hload, hvalue⟩ := bind_eq_ok.mp hvalue
            have hlocals := writeSafeTypeConversion_locals hvalue
            cases hload
            exact hlocals

/-! ### All parameters -/

/-- The locals of the parameters that have one of their own. -/
def ownLocals (S : TypeSystem τ) : ℕ → List (Parameter τ) → List (Parameter τ) → List (Option ℕ)
  | locals, outer :: outers, inner :: inners =>
      if ownLocal S outer inner then some locals :: ownLocals S (locals + 1) outers inners
      else none :: ownLocals S locals outers inners
  | _, _, _ => []

/-- What is written back: the locals, with the parameters. -/
def writtenBack : ℕ → List (Option ℕ) → List (ℕ × ℕ)
  | _, [] => []
  | idx, none :: own => writtenBack (idx + 1) own
  | idx, some l :: own => (l, idx) :: writtenBack (idx + 1) own

/-- What the instructions that load the parameters need. -/
def LoadsFit (S : TypeSystem τ) (holdsReference : ℕ → Bool) :
    ℕ → ℕ → List (Parameter τ) → List (Parameter τ) → Prop
  | idx, locals, outer :: outers, inner :: inners =>
      LoadFits S holdsReference outer inner idx locals
        ∧ LoadsFit S holdsReference (idx + 1)
          (locals + (if ownLocal S outer inner then 1 else 0)) outers inners
  | _, _, _, _ => True

theorem ownLocals_cons (S : TypeSystem τ) (locals : ℕ) (outer inner : Parameter τ)
    (outers inners : List (Parameter τ)) :
    ownLocals S locals (outer :: outers) (inner :: inners)
      = (if ownLocal S outer inner then some locals else none)
        :: ownLocals S (locals + (if ownLocal S outer inner then 1 else 0)) outers inners := by
  rw [ownLocals]
  split
  · rfl
  · rfl

theorem writtenBack_cons (idx : ℕ) (own : Option ℕ) (owns : List (Option ℕ)) :
    writtenBack idx (own :: owns)
      = (own.map fun l => (l, idx)).toList ++ writtenBack (idx + 1) owns := by
  cases own with
  | none => rfl
  | some l => rfl

@[simp] theorem ownLocals_nil (S : TypeSystem τ) (locals : ℕ) (inners : List (Parameter τ)) :
    ownLocals S locals [] inners = [] := by
  cases inners with
  | nil => rfl
  | cons inner inners => rfl

theorem loadsFit_nil (S : TypeSystem τ) (holdsReference : ℕ → Bool) (idx locals : ℕ)
    (inners : List (Parameter τ)) : LoadsFit S holdsReference idx locals [] inners := by
  cases inners with
  | nil => trivial
  | cons inner inners => trivial

/-- **The arguments** are loaded, if the instructions fit; for an optional parameter that the
outer method lacks nothing is loaded. -/
theorem addIlToLoadArguments_loads (holdsReference : ℕ → Bool) {generics : List τ} {idx : ℕ}
    {il₀ il₃ : LazyIL τ} {outers inners : List (Parameter τ)}
    {datas : List (OutputAndRefParameterData τ)}
    (h : addIlToLoadArguments S .forward generics idx il₀ outers inners = .ok (il₃, datas)) :
    datas.map (fun d => (d.localIndex, d.proxyArgumentIndex))
        = writtenBack idx (ownLocals S il₀.locals outers inners)
      ∧ ∃ code, Appends il₀ il₃ code
        ∧ (LoadsFit S holdsReference idx il₀.locals outers inners → ∀ taken f, Fresh il₀ f →
            Runs holdsReference taken code f
              (LoadedAll il₀ il₃ idx (ownLocals S il₀.locals outers inners) f))
        ∧ (¬LoadsFit S holdsReference idx il₀.locals outers inners → ∀ f, Fresh il₀ f →
            Stuck holdsReference code f) := by
  induction inners generalizing outers idx il₀ datas with
  | nil =>
      cases outers with
      | cons outer outers => cases h
      | nil =>
          cases h
          refine ⟨rfl, [], .refl _, fun _ taken f hfresh => ?_, fun hnot => absurd trivial hnot⟩
          exact .nil ⟨⟨[], rfl, trivial⟩, rfl, rfl, fun _ _ => rfl, hfresh⟩
  | cons inner inners ih =>
      cases outers with
      | nil =>
          rw [addIlToLoadArguments] at h
          split at h
          · cases h
          · obtain ⟨hdatas, code, happends, hruns, -⟩ := ih h
            simp only [ownLocals_nil] at hdatas hruns ⊢
            refine ⟨hdatas, code, happends, fun _ taken f hfresh => ?_,
              fun hnot => absurd trivial hnot⟩
            refine (hruns (loadsFit_nil _ _ _ _ _) taken f hfresh).mono fun g hg => ?_
            obtain ⟨slots, hstack, hpassed⟩ := hg.stack
            cases slots with
            | nil => exact ⟨⟨[], hstack, trivial⟩, hg.called, hg.stored, hg.locals, hg.fresh⟩
            | cons slot slots => exact absurd hpassed (fun h => h)
      | cons outer outers =>
          obtain ⟨⟨il₁, data⟩, hload, h⟩ := bind_eq_ok.mp h
          obtain ⟨⟨il₂, rest⟩, hrest, h⟩ := bind_eq_ok.mp h
          cases h
          have hlocals : il₁.locals = il₀.locals + if ownLocal S outer inner then 1 else 0 :=
            loadParameter_locals hload
          obtain ⟨hdata, code, happends, hruns, hstuck⟩ :=
            loadParameter_loads hload
          obtain ⟨hdatas, code', happends', hruns', hstuck'⟩ := ih hrest
          rw [hlocals] at hdatas hruns' hstuck'
          rw [ownLocals_cons]
          refine ⟨?_, code ++ code', happends.trans happends', ?_, ?_⟩
          · rw [writtenBack_cons, List.map_append, hdatas]
            congr 1
            cases hown : ownLocal S outer inner with
            | true =>
                rw [hown, if_pos rfl] at hdata
                rw [if_pos rfl]
                obtain ⟨d, rfl, hd⟩ := Option.map_eq_some_iff.mp hdata
                exact congrArg (fun p => [p]) hd
            | false =>
                rw [hown, if_neg Bool.false_ne_true] at hdata
                rw [if_neg Bool.false_ne_true, Option.map_eq_none_iff.mp hdata]
                rfl
          · rintro ⟨hfit, hfits⟩ taken f hfresh
            refine (hruns hfit taken f hfresh).append fun g hg => ?_
            refine (hruns' hfits taken g hg.fresh).mono fun k hk => ?_
            refine hg.cons hk happends.locals fun l hl => ?_
            cases hown : ownLocal S outer inner with
            | true =>
                rw [hown, if_pos rfl] at hl hlocals
                cases hl
                exact hlocals ▸ Nat.lt_succ_self _
            | false =>
                rw [hown] at hl
                cases hl
          · intro hnot f hfresh
            by_cases hfit : LoadFits S holdsReference outer inner idx il₀.locals
            · refine (hruns hfit straight f hfresh).stuck fun g hg => ?_
              exact hstuck' (fun hfits => hnot ⟨hfit, hfits⟩) g hg.fresh
            · exact (hstuck hfit f hfresh).append _

end AutoInstrumentation.DuckTyping
