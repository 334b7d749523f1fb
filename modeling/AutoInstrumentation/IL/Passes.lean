import AutoInstrumentation.IL.Layout

/-!
# AutoInstrumentation.IL.Passes

The passes of `Export` write the encoding of the settled list.

Each walk has an inversion lemma, which says what a successful walk has done, and a
progress lemma, which says that a walk with enough room succeeds. The two together give
the outcome of the passes: they succeed exactly when the code of the settled list fits
the buffer.
-/

namespace AutoInstrumentation.IL

open AutoInstrumentation.Lib

theorem writeBytes_eq_ok {b c : Buffer} {off : ℕ} {bs : List Byte}
    (h : writeBytes b off bs = .ok c) : b.write off bs = some c := by
  rw [writeBytes] at h
  split at h
  · next hw =>
      cases h
      exact hw
  · cases h

theorem writeBytes_progress (b : Buffer) (off : ℕ) (bs : List Byte)
    (h : off + bs.length ≤ b.size) : ∃ c, writeBytes b off bs = .ok c := by
  obtain ⟨c, hc⟩ := Buffer.write_eq_some h
  exact ⟨c, by rw [writeBytes, hc]⟩

/-! ### The operand bytes -/

theorem operandBytes_branch {i : ILInstr} (h : (opCodeFlags i.opcode).branchTarget = true) :
    operandBytes i = [] := by
  rw [operandBytes]
  split <;> simp_all [OpCodeFlags.branchTarget]

theorem operandBytes_plain {i : ILInstr} (h : (opCodeFlags i.opcode).branchTarget = false) :
    operandBytes i = bytesOfNat (operandSize (opCodeFlags i.opcode)) i.arg.toNat := by
  rw [operandBytes]
  split
  · next hflags => rw [hflags] at h; cases h
  · next hflags => rw [hflags] at h; cases h
  · rfl

theorem length_operandBytes_le (i : ILInstr) :
    (operandBytes i).length ≤ operandSize (opCodeFlags i.opcode) := by
  cases h : (opCodeFlags i.opcode).branchTarget with
  | true =>
      rw [operandBytes_branch h]
      exact Nat.zero_le _
  | false =>
      rw [operandBytes_plain h, length_bytesOfNat]

theorem operandSize_le (flags : OpCodeFlags) : operandSize flags ≤ 8 := by
  cases flags <;> decide

/-- An operand that is no branch target is written as it is. -/
theorem raw_encode {i : ILInstr} (h : (opCodeFlags i.opcode).branchTarget = false)
    (offsets : InstrPtr → ℕ) (after switchBase : BitVec 32) :
    (i.raw offsets).encode after switchBase = opcodeBytes i.opcode ++ operandBytes i := by
  have harg : i.opcode ≠ ceeSwitchArg := by
    intro harg
    rw [harg, opCodeFlags_switchArg] at h
    cases h
  have hsmall : i.arg.toNat % 256 ^ operandSize (opCodeFlags i.opcode) < 2 ^ 64 :=
    Nat.lt_of_le_of_lt (Nat.mod_le _ _) i.arg.isLt
  have hvalue : (i.raw offsets).arg.toNat
      = i.arg.toNat % 256 ^ operandSize (opCodeFlags i.opcode) := by
    simp only [ILInstr.raw, h, Bool.false_eq_true, if_false]
    rw [BitVec.toNat_ofNat, Nat.mod_eq_of_lt hsmall]
  rw [RawInstr.encode, RawInstr.operand, ILInstr.raw_opcode, if_neg harg, operandBytes_plain h]
  split
  · next hflags => rw [hflags] at h; cases h
  · next hflags => rw [hflags] at h; cases h
  · rw [hvalue, bytesOfNat_mod]

theorem raw_arg32 {i : ILInstr} (h : (opCodeFlags i.opcode).branchTarget = true)
    (offsets : InstrPtr → ℕ) : (i.raw offsets).arg32 = .ofNat 32 (offsets i.target) := by
  rw [RawInstr.arg32, ILInstr.raw, if_pos h, BitVec.setWidth_setWidth_of_le _ (by decide),
    BitVec.setWidth_eq]

theorem raw_switch_arg32 {i : ILInstr} (h : i.opcode = ceeSwitch) (offsets : InstrPtr → ℕ) :
    (i.raw offsets).arg32 = i.arg32 := by
  have hflags : opCodeFlags i.opcode = .switch := by rw [h, opCodeFlags_switch]
  apply BitVec.eq_of_toNat_eq
  simp only [RawInstr.arg32, ILInstr.raw, hflags, OpCodeFlags.branchTarget, operandSize,
    Bool.false_eq_true, if_false, ILInstr.arg32, BitVec.toNat_setWidth, BitVec.toNat_ofNat]
  omega

theorem raw_base {offsets : InstrPtr → ℕ} {here : ℕ} {i : ILInstr}
    (h : offsets (.instr i.ptr) = here) (switchBase : BitVec 32) :
    (i.raw offsets).base here switchBase = nextSwitchBase offsets switchBase i := by
  rw [RawInstr.base, nextSwitchBase, ILInstr.raw_opcode, h]
  split
  · next hswitch => rw [raw_switch_arg32 hswitch]
  · rfl

/-! ### The first walk -/

/-- What the first walk leaves of the instructions from `here` on: all but the branch
targets. -/
def Emitted (b : Buffer) : ℕ → List ILInstr → Prop
  | _, [] => True
  | here, i :: is =>
      (b.Holds here (opcodeBytes i.opcode ++ operandBytes i)
        ∧ here + (opcodeBytes i.opcode ++ operandBytes i).length ≤ b.size)
      ∧ Emitted b (here + instrSize i.opcode) is

/-- What the first walk over `is` does. -/
structure Emits (is : List ILInstr) (e e' : Emission) : Prop where
  size : e'.buffer.size = e.buffer.size
  offset : e'.offset = e.offset + codeSize is
  fBranch : e'.fBranch = (e.fBranch || is.any fun i => (opCodeFlags i.opcode).branchTarget)
  below : e.buffer.SameBelow e'.buffer e.offset
  emitted : Emitted e'.buffer e.offset is
  offsets : ∀ p, (∀ i ∈ is, p ≠ .instr i.ptr) → e'.offsets p = e.offsets p
  laidOut : (is.map (·.ptr)).Nodup →
    LaidOut (fun p => if p = .il then e'.offset else e'.offsets p) e.offset is

theorem Emits.nil {e : Emission} : Emits [] e e where
  size := rfl
  offset := rfl
  fBranch := (Bool.or_false _).symm
  below := .refl _ _
  emitted := trivial
  offsets _ _ := rfl
  laidOut _ := if_pos rfl

theorem emitInstr_spec {maxSize : ℕ} {i : ILInstr} {e e' : Emission}
    (h : emitInstr maxSize i e = .ok e') :
    e'.buffer.size = e.buffer.size
      ∧ e'.offset = e.offset + instrSize i.opcode
      ∧ e'.fBranch = (e.fBranch || (opCodeFlags i.opcode).branchTarget)
      ∧ e'.offsets = (fun p => if p = .instr i.ptr then e.offset else e.offsets p)
      ∧ e.buffer.SameBelow e'.buffer e.offset
      ∧ e'.buffer.Holds e.offset (opcodeBytes i.opcode ++ operandBytes i)
      ∧ e.offset + (opcodeBytes i.opcode ++ operandBytes i).length ≤ e'.buffer.size := by
  rw [emitInstr] at h
  split at h
  · cases h
  obtain ⟨b, hb, h⟩ := bind_eq_ok h
  have hopcode := writeBytes_eq_ok hb
  split at h
  · cases h
  obtain ⟨c, hc, h⟩ := bind_eq_ok h
  have hoperand := writeBytes_eq_ok hc
  cases h
  have hsame := Buffer.write_below hoperand
  refine ⟨?_, ?_, rfl, rfl, ?_, ?_, ?_⟩
  · rw [Buffer.write_size hoperand, Buffer.write_size hopcode]
  · rw [instrSize, Nat.add_assoc]
  · exact (Buffer.write_below hopcode).trans (hsame.mono (Nat.le_add_right _ _))
  · refine Buffer.holds_append.mpr ⟨?_, Buffer.write_holds hoperand⟩
    exact hsame.holds (Nat.le_refl _) (Buffer.write_holds hopcode)
  · rw [List.length_append, ← Nat.add_assoc]
    dsimp only
    rw [Buffer.write_size hoperand]
    exact Buffer.write_fits hoperand

theorem Emitted.sameBelow {b c : Buffer} {is : List ILInstr} {here : ℕ} (h : Emitted b here is)
    (hsame : ∀ off bs, here ≤ off → b.Holds off bs → c.Holds off bs) (hsize : c.size = b.size) :
    Emitted c here is := by
  induction is generalizing here with
  | nil => trivial
  | cons i is ih =>
      obtain ⟨⟨hholds, hfits⟩, hrest⟩ := h
      refine ⟨⟨hsame _ _ (Nat.le_refl _) hholds, by rwa [hsize]⟩, ih hrest ?_⟩
      exact fun off bs hoff => hsame off bs (Nat.le_trans (Nat.le_add_right _ _) hoff)

theorem emitInstrs_spec {maxSize : ℕ} {is : List ILInstr} {e e' : Emission}
    (h : emitInstrs maxSize is e = .ok e') : Emits is e e' := by
  induction is generalizing e with
  | nil =>
      cases h
      exact .nil
  | cons i is ih =>
      obtain ⟨m, hm, h⟩ := bind_eq_ok h
      obtain ⟨hsize, hoffset, hbranch, hoffsets, hbelow, hholds, hfits⟩ := emitInstr_spec hm
      have rest := ih h
      have hle : e.offset + (opcodeBytes i.opcode ++ operandBytes i).length ≤ m.offset := by
        rw [hoffset, List.length_append, instrSize]
        exact Nat.add_le_add_left (Nat.add_le_add_left (length_operandBytes_le i) _) _
      refine ⟨rest.size.trans hsize, ?_, ?_, ?_, ⟨⟨?_, ?_⟩, ?_⟩, ?_, ?_⟩
      · rw [rest.offset, hoffset, codeSize, Nat.add_assoc]
      · rw [rest.fBranch, hbranch, List.any_cons, Bool.or_assoc]
      · exact hbelow.trans (rest.below.mono (hoffset ▸ Nat.le_add_right _ _))
      · exact rest.below.holds hle hholds
      · rwa [rest.size]
      · exact hoffset ▸ rest.emitted
      · intro p hp
        rw [rest.offsets p fun j hj => hp j (List.mem_cons_of_mem i hj), hoffsets]
        exact if_neg (hp i List.mem_cons_self)
      · intro hnodup
        rw [List.map_cons, List.nodup_cons] at hnodup
        refine ⟨?_, hoffset ▸ rest.laidOut hnodup.2⟩
        have hkept : e'.offsets (.instr i.ptr) = m.offsets (.instr i.ptr) := by
          refine rest.offsets _ fun j hj heq => hnodup.1 ?_
          rw [InstrPtr.instr.inj heq]
          exact List.mem_map_of_mem hj
        dsimp only
        rw [if_neg (by simp), hkept, hoffsets]
        exact if_pos rfl

theorem emitInstrs_progress {maxSize : ℕ} {is : List ILInstr} {e : Emission}
    (himp : ∀ i ∈ is, Importable i.opcode) (hsize : e.buffer.size = maxSize)
    (hfits : e.offset + codeSize is ≤ maxSize) : ∃ e', emitInstrs maxSize is e = .ok e' := by
  induction is generalizing e with
  | nil => exact ⟨e, rfl⟩
  | cons i is ih =>
      have hi := himp i List.mem_cons_self
      have hpos := hi.size_pos
      rw [codeSize] at hfits
      have hinstr : e.offset + instrSize i.opcode ≤ maxSize := by omega
      have hoperand := length_operandBytes_le i
      rw [instrSize] at hinstr
      obtain ⟨b, hb⟩ := writeBytes_progress e.buffer e.offset (opcodeBytes i.opcode) (by omega)
      have hbsize := Buffer.write_size (writeBytes_eq_ok hb)
      obtain ⟨c, hc⟩ := writeBytes_progress b (e.offset + (opcodeBytes i.opcode).length)
        (operandBytes i) (by omega)
      have hstep : ∃ m, emitInstr maxSize i e = .ok m := by
        rw [emitInstr, if_neg (by omega), hb]
        simp only [bind, Except.bind, if_neg (Nat.not_le.mpr hi.lt), hc]
        exact ⟨_, rfl⟩
      obtain ⟨m, hm⟩ := hstep
      obtain ⟨hmsize, hmoffset, -⟩ := emitInstr_spec hm
      obtain ⟨e', he'⟩ := ih (fun j hj => himp j (List.mem_cons_of_mem i hj))
        (hmsize.trans hsize) (by omega)
      exact ⟨e', by rw [emitInstrs, hm]; exact he'⟩

/-! ### The second walk -/

/-- What the second walk does at the instruction `i`, which stands at `here`. -/
structure PatchesInstr (offsets : InstrPtr → ℕ) (here : ℕ) (switchBase : BitVec 32) (i : ILInstr)
    (b : Buffer) (i' : ILInstr) (b' : Buffer) (again : Bool) : Prop where
  instr : i' = if Far offsets (here + instrSize i.opcode) i then i.widen else i
  tryAgain : again = decide (Far offsets (here + instrSize i.opcode) i)
  size : b'.size = b.size
  below : b.SameBelow b' here
  behind : ∀ off bs, here + instrSize i.opcode ≤ off → b.Holds off bs → b'.Holds off bs
  written : again = false →
    b'.Holds here ((i.raw offsets).encode (.ofNat 32 (here + instrSize i.opcode)) switchBase)
      ∧ here + instrSize i.opcode ≤ b.size

theorem patchInstr_spec {offsets : InstrPtr → ℕ} {next : InstrPtr} {switchBase : BitVec 32}
    {i i' : ILInstr} {b b' : Buffer} {again : Bool} {here : ℕ}
    (hoffset : offsets (.instr i.ptr) = here) (hnext : offsets next = here + instrSize i.opcode)
    (hemit : b.Holds here (opcodeBytes i.opcode ++ operandBytes i)
      ∧ here + (opcodeBytes i.opcode ++ operandBytes i).length ≤ b.size)
    (h : patchInstr offsets next switchBase i b = .ok (i', b', again)) :
    PatchesInstr offsets here switchBase i b i' b' again := by
  obtain ⟨hholds, hfits⟩ := hemit
  -- an instruction whose operand the first walk has written
  have plain (hflags : (opCodeFlags i.opcode).branchTarget = false)
      (hok : Except.ok (ε := Failure) (i, b, false) = .ok (i', b', again)) :
      PatchesInstr offsets here switchBase i b i' b' again := by
    cases hok
    have hnear : ¬Far offsets (here + instrSize i.opcode) i := by
      rintro ⟨hshort, -⟩
      rw [hshort] at hflags
      cases hflags
    rw [List.length_append, operandBytes_plain hflags, length_bytesOfNat] at hfits
    refine ⟨(if_neg hnear).symm, (decide_eq_false hnear).symm, rfl, .refl _ _,
      fun _ _ _ hb => hb, fun _ => ⟨?_, hfits⟩⟩
    rwa [raw_encode hflags]
  -- an instruction whose target this walk fills in
  have filled {off : ℕ} {bs : List Byte} (hflags : (opCodeFlags i.opcode).branchTarget = true)
      (hnear : ¬Far offsets (here + instrSize i.opcode) i)
      (hoff : off = here + (opcodeBytes i.opcode).length)
      (hbs : bs = (i.raw offsets).operand (.ofNat 32 (here + instrSize i.opcode)) switchBase)
      (hok : writeBytes b off bs >>= (fun b => .ok (i, b, false)) = .ok (i', b', again)) :
      PatchesInstr offsets here switchBase i b i' b' again := by
    obtain ⟨c, hc, hok⟩ := bind_eq_ok hok
    cases hok
    have hw := writeBytes_eq_ok hc
    have hbelow := Buffer.write_below hw
    have hend : off + bs.length = here + instrSize i.opcode := by
      rw [hoff, hbs, RawInstr.length_operand, ILInstr.raw_opcode, instrSize, Nat.add_assoc]
    rw [operandBytes_branch hflags, List.append_nil] at hholds
    refine ⟨(if_neg hnear).symm, (decide_eq_false hnear).symm, Buffer.write_size hw,
      hbelow.mono (by omega), ?_, fun _ => ⟨?_, ?_⟩⟩
    · exact fun off' cs hoff' => Buffer.write_holds_behind hw (by omega)
    · refine Buffer.holds_append.mpr ⟨hbelow.holds (by rw [hoff]; rfl) hholds, ?_⟩
      rw [← hbs, ILInstr.raw_opcode, ← hoff]
      exact Buffer.write_holds hw
    · rw [← hend]
      exact Buffer.write_fits hw
  rw [patchInstr] at h
  by_cases hswitch : i.opcode = ceeSwitch
  · rw [if_pos hswitch] at h
    exact plain (by rw [hswitch]; rfl) h
  rw [if_neg hswitch] at h
  by_cases harg : i.opcode = ceeSwitchArg
  · rw [if_pos harg] at h
    have hflags : opCodeFlags i.opcode = .branch := by rw [harg, opCodeFlags_switchArg]
    refine filled (by rw [hflags]; rfl) ?_ ?_ ?_ h
    · rintro ⟨hshort, -⟩
      rw [hflags] at hshort
      cases hshort
    · rw [hoffset, harg]
      rfl
    · rw [RawInstr.operand, ILInstr.raw_opcode, if_pos harg, raw_arg32 (by rw [hflags]; rfl)]
  rw [if_neg harg] at h
  dsimp only at h
  split at h
  · next hflags =>
      have htarget : (opCodeFlags i.opcode).branchTarget = true := by rw [hflags]; rfl
      have hsize : instrSize i.opcode = (opcodeBytes i.opcode).length + 1 := by
        rw [instrSize, hflags]; rfl
      by_cases hreach : OutOfReach (.ofNat 32 (offsets i.target) - .ofNat 32 (offsets next))
      · rw [if_pos hreach] at h
        obtain ⟨opcode, hopcode, h⟩ := bind_eq_ok h
        cases h
        obtain ⟨rfl, -⟩ := widenOpcode_eq_ok hopcode
        have hfar : Far offsets (here + instrSize i.opcode) i := ⟨hflags, hnext ▸ hreach⟩
        exact ⟨(if_pos hfar).symm, (decide_eq_true hfar).symm, rfl, .refl _ _,
          fun _ _ _ hb => hb, by rintro ⟨⟩⟩
      · rw [if_neg hreach] at h
        refine filled htarget ?_ ?_ ?_ h
        · rintro ⟨-, hfar⟩
          exact hreach (hnext ▸ hfar)
        · omega
        · simp only [RawInstr.operand, ILInstr.raw_opcode, if_neg harg, hflags,
            raw_arg32 htarget, hnext]
  · next hflags =>
      have htarget : (opCodeFlags i.opcode).branchTarget = true := by rw [hflags]; rfl
      have hsize : instrSize i.opcode = (opcodeBytes i.opcode).length + 4 := by
        rw [instrSize, hflags]; rfl
      refine filled htarget ?_ ?_ ?_ h
      · rintro ⟨hshort, -⟩
        rw [hflags] at hshort
        cases hshort
      · omega
      · simp only [RawInstr.operand, ILInstr.raw_opcode, if_neg harg, hflags,
          raw_arg32 htarget, hnext]
  · next hshort hbranch =>
      refine plain ?_ h
      cases hflags : opCodeFlags i.opcode <;> first | rfl | contradiction

/-- What the second walk does over the instructions from `here` on. -/
structure Patches (offsets : InstrPtr → ℕ) (here : ℕ) (switchBase : BitVec 32)
    (is : List ILInstr) (b : Buffer) (is' : List ILInstr) (b' : Buffer) (again : Bool) : Prop where
  instrs : is' = widenFar offsets here is
  tryAgain : again = anyFar offsets here is
  size : b'.size = b.size
  below : b.SameBelow b' here
  written : again = false →
    b'.Holds here (encodeAll here switchBase (is.map (ILInstr.raw offsets)))
      ∧ (here ≤ b.size → here + codeSize is ≤ b.size)

theorem patch_spec {offsets : InstrPtr → ℕ} {is is' : List ILInstr} {switchBase : BitVec 32}
    {b b' : Buffer} {again : Bool} {here : ℕ} (hlaid : LaidOut offsets here is)
    (hemit : Emitted b here is) (h : patch offsets is switchBase b = .ok (is', b', again)) :
    Patches offsets here switchBase is b is' b' again := by
  induction is generalizing is' switchBase b b' again here with
  | nil =>
      cases h
      exact ⟨rfl, rfl, rfl, .refl _ _, fun _ => ⟨Buffer.holds_nil _ _, fun hle => hle⟩⟩
  | cons i is ih =>
      obtain ⟨⟨j, c, w⟩, hi, h⟩ := bind_eq_ok h
      obtain ⟨⟨js, d, w'⟩, his, h⟩ := bind_eq_ok h
      cases h
      obtain ⟨hoffset, hlaid⟩ := hlaid
      have first := patchInstr_spec hoffset hlaid.head hemit.1 hi
      have rest := ih hlaid (hemit.2.sameBelow first.behind first.size) his
      have hbelow := rest.below.mono (Nat.le_add_right here (instrSize i.opcode))
      refine ⟨?_, ?_, rest.size.trans first.size, first.below.trans hbelow, ?_⟩
      · rw [widenFar, first.instr, rest.instrs]
      · rw [anyFar, first.tryAgain, rest.tryAgain]
      · intro hagain
        obtain ⟨hw, hw'⟩ := Bool.or_eq_false_iff.mp hagain
        obtain ⟨hinstr, hfits⟩ := first.written hw
        obtain ⟨hcode, hend⟩ := rest.written hw'
        rw [List.map_cons, encodeAll, ILInstr.raw_opcode, raw_base hoffset]
        refine ⟨Buffer.holds_append.mpr ⟨?_, ?_⟩, fun _ => ?_⟩
        · refine rest.below.holds (Nat.le_of_eq ?_) hinstr
          rw [RawInstr.length_encode, ILInstr.raw_opcode]
        · rwa [RawInstr.length_encode, ILInstr.raw_opcode]
        · rw [codeSize, ← Nat.add_assoc, ← first.size]
          rw [first.size] at hend ⊢
          exact hend hfits

/-- A branch that is out of reach has a long form. -/
theorem widenOpcode_progress {opcode : ℕ} (h : opCodeFlags opcode = .shortBranch) :
    ∃ opcode', widenOpcode opcode = .ok opcode' := by
  rw [widenOpcode]
  rcases shortBranch_cases h with rfl | hrange
  · exact ⟨_, rfl⟩
  · split
    · exact ⟨_, rfl⟩
    · have hlong : ceeBr ≤ opcode - ceeBrS + ceeBr ∧ opcode - ceeBrS + ceeBr ≤ ceeBltUn := by
        simp only [ceeBrS, ceeBltUnS, ceeBr, ceeBltUn] at hrange ⊢
        omega
      dsimp only
      rw [if_neg (not_not.mpr hlong)]
      exact ⟨_, rfl⟩

theorem patchInstr_progress {offsets : InstrPtr → ℕ} {next : InstrPtr} {i : ILInstr} {b : Buffer}
    {here : ℕ} (switchBase : BitVec 32) (hoffset : offsets (.instr i.ptr) = here)
    (hnext : offsets next = here + instrSize i.opcode)
    (hfits : here + instrSize i.opcode ≤ b.size) :
    ∃ r, patchInstr offsets next switchBase i b = .ok r := by
  have written {off n v : ℕ} (hoff : off + n ≤ b.size) :
      ∃ r, writeBytes b off (bytesOfNat n v) >>= (fun b => .ok (i, b, false)) = .ok r := by
    obtain ⟨c, hc⟩ := writeBytes_progress b off (bytesOfNat n v) (by rwa [length_bytesOfNat])
    exact ⟨(i, c, false), by rw [hc]; rfl⟩
  rw [patchInstr]
  split
  · exact ⟨_, rfl⟩
  · split
    · next harg =>
        have hsize : instrSize i.opcode = 4 := by rw [harg]; rfl
        exact written (by omega)
    · dsimp only
      split
      · next hflags =>
          have hsize : instrSize i.opcode = (opcodeBytes i.opcode).length + 1 := by
            rw [instrSize, hflags]; rfl
          split
          · obtain ⟨opcode, hopcode⟩ := widenOpcode_progress hflags
            exact ⟨({ i with opcode := opcode }, b, true), by rw [hopcode]; rfl⟩
          · exact written (by omega)
      · next hflags =>
          have hsize : instrSize i.opcode = (opcodeBytes i.opcode).length + 4 := by
            rw [instrSize, hflags]; rfl
          exact written (by omega)
      · exact ⟨_, rfl⟩

theorem patch_progress {offsets : InstrPtr → ℕ} {is : List ILInstr} (switchBase : BitVec 32)
    {b : Buffer} {here : ℕ} (hlaid : LaidOut offsets here is) (hemit : Emitted b here is)
    (hfits : here + codeSize is ≤ b.size) : ∃ r, patch offsets is switchBase b = .ok r := by
  induction is generalizing switchBase b here with
  | nil => exact ⟨_, rfl⟩
  | cons i is ih =>
      rw [codeSize] at hfits
      obtain ⟨hoffset, hlaid⟩ := hlaid
      obtain ⟨⟨j, c, w⟩, hi⟩ :=
        patchInstr_progress switchBase hoffset hlaid.head (b := b) (by omega)
      have first := patchInstr_spec hoffset hlaid.head hemit.1 hi
      obtain ⟨⟨js, d, w'⟩, hjs⟩ := ih (nextSwitchBase offsets switchBase i) hlaid
        (hemit.2.sameBelow first.behind first.size) (by rw [first.size]; omega)
      exact ⟨(j :: js, d, w || w'), by rw [patch, hi]; simp only [bind, Except.bind, hjs]⟩

/-! ### All passes -/

/-- The addresses in a list are distinct, and its branches stay in it. -/
structure Closed (is : List ILInstr) : Prop where
  nodup : (is.map (·.ptr)).Nodup
  importable : ∀ i ∈ is, Importable i.opcode
  targets : ∀ i ∈ is, (opCodeFlags i.opcode).branchTarget = true → Linked is i.target

theorem linked_iff_ptrs {is : List ILInstr} {p : InstrPtr} :
    Linked is p ↔ p = .il ∨ p ∈ is.map fun i => .instr i.ptr := by
  rw [Linked, List.mem_map]
  exact or_congr_right ⟨fun ⟨i, hi, h⟩ => ⟨i, hi, h.symm⟩, fun ⟨i, hi, h⟩ => ⟨i, hi, h.symm⟩⟩

theorem linked_widenFar {offsets : InstrPtr → ℕ} {here : ℕ} {is : List ILInstr} {p : InstrPtr} :
    Linked (widenFar offsets here is) p ↔ Linked is p := by
  rw [linked_iff_ptrs, linked_iff_ptrs, map_widenFar _ fun _ => rfl]

theorem Closed.widenFar {is : List ILInstr} (h : Closed is) (offsets : InstrPtr → ℕ) (here : ℕ) :
    Closed (widenFar offsets here is) where
  nodup := by
    rw [map_widenFar _ fun _ => rfl]
    exact h.nodup
  importable := forall_widenFar (fun _ hshort _ => importable_longBranch hshort) h.importable
  targets := by
    intro i hi hbranch
    rw [linked_widenFar]
    revert hbranch
    refine forall_widenFar (P := fun i => (opCodeFlags i.opcode).branchTarget = true →
      Linked is i.target) (fun i hshort hP _ => hP ?_) h.targets i hi
    rw [hshort]
    rfl

theorem Closed.settle {is : List ILInstr} (h : Closed is) : Closed (settle is) :=
  settle_induction (fun is (hclosed : Closed is) => hclosed.widenFar _ _) is h

section congr

variable {offsets offsets' : InstrPtr → ℕ} {is : List ILInstr}
  (h : ∀ i ∈ is, (opCodeFlags i.opcode).branchTarget = true →
    offsets i.target = offsets' i.target)

include h

theorem far_congr {i : ILInstr} (hi : i ∈ is) (after : ℕ) :
    Far offsets after i ↔ Far offsets' after i := by
  rw [Far, Far]
  refine and_congr_right fun hshort => ?_
  rw [h i hi (by rw [hshort]; rfl)]

theorem widenFar_congr (here : ℕ) : widenFar offsets here is = widenFar offsets' here is := by
  induction is generalizing here with
  | nil => rfl
  | cons i is ih =>
      simp only [widenFar, far_congr h List.mem_cons_self]
      rw [ih fun j hj => h j (List.mem_cons_of_mem i hj)]

theorem anyFar_congr (here : ℕ) : anyFar offsets here is = anyFar offsets' here is := by
  induction is generalizing here with
  | nil => rfl
  | cons i is ih =>
      simp only [anyFar, far_congr h List.mem_cons_self]
      rw [ih fun j hj => h j (List.mem_cons_of_mem i hj)]

theorem raw_congr : is.map (ILInstr.raw offsets) = is.map (ILInstr.raw offsets') := by
  refine List.map_congr_left fun i hi => ?_
  rw [ILInstr.raw, ILInstr.raw]
  congr 1
  split
  · next hbranch => rw [h i hi hbranch]
  · rfl

end congr

/-- The code of a list, its targets at their own offsets. -/
def code (is : List ILInstr) : List Byte :=
  encodeAll 0 0 (is.map (ILInstr.raw (offsetOf is)))

/-- Without a branch there is nothing for the second walk to do. -/
theorem patch_of_no_branch {offsets : InstrPtr → ℕ} {is : List ILInstr} (switchBase : BitVec 32)
    (b : Buffer) (h : is.any (fun i => (opCodeFlags i.opcode).branchTarget) = false) :
    patch offsets is switchBase b = .ok (is, b, false) := by
  induction is generalizing switchBase with
  | nil => rfl
  | cons i is ih =>
      obtain ⟨hi, his⟩ := Bool.or_eq_false_iff.mp (List.any_cons ▸ h)
      have hinstr : patchInstr offsets (headPtr is) switchBase i b = .ok (i, b, false) := by
        rw [patchInstr]
        split
        · rfl
        · split
          · next harg =>
              rw [harg] at hi
              cases hi
          · dsimp only
            split
            · next hflags => rw [hflags] at hi; cases hi
            · next hflags => rw [hflags] at hi; cases hi
            · rfl
      rw [patch, hinstr]
      simp only [bind, Except.bind, ih _ his, Bool.or_false]

/-- A pass, with the second walk over every list. -/
theorem exportPasses_eq (maxSize : ℕ) (is : List ILInstr) (buffer : Buffer) :
    exportPasses maxSize is buffer =
      match emit maxSize is buffer with
      | .error f => .error f
      | .ok e =>
          match patch e.offsets is 0 e.buffer with
          | .error f => .error f
          | .ok (is', b, again) =>
              if again = true then exportPasses maxSize is' b
              else .ok (is', { e with buffer := b }) := by
  rw [exportPasses]
  cases he : emit maxSize is buffer with
  | error f => rfl
  | ok e =>
      dsimp only
      by_cases hbranch : e.fBranch = true
      · rw [if_pos hbranch]
        cases hp : patch e.offsets is 0 e.buffer with
        | error f => rfl
        | ok r => rfl
      · obtain ⟨m, hm, heq⟩ := bind_eq_ok he
        cases heq
        have hany := (emitInstrs_spec hm).fBranch
        rw [Bool.false_or] at hany
        rw [if_neg hbranch]
        have hno : is.any (fun i => (opCodeFlags i.opcode).branchTarget) = false := by
          rw [← hany]
          exact Bool.eq_false_of_not_eq_true hbranch
        rw [patch_of_no_branch _ _ hno]
        rfl

/-- What a first walk over the whole list leaves. -/
theorem emit_spec {maxSize : ℕ} {is : List ILInstr} {buffer : Buffer} {e : Emission}
    (hnodup : (is.map (·.ptr)).Nodup) (h : emit maxSize is buffer = .ok e) :
    e.buffer.size = buffer.size ∧ e.offset = codeSize is ∧ LaidOut e.offsets 0 is
      ∧ Emitted e.buffer 0 is := by
  obtain ⟨m, hm, heq⟩ := bind_eq_ok h
  cases heq
  have hspec := emitInstrs_spec hm
  exact ⟨hspec.size, by rw [hspec.offset, Nat.zero_add], hspec.laidOut hnodup, hspec.emitted⟩

theorem emit_progress {maxSize : ℕ} {is : List ILInstr} {buffer : Buffer}
    (himp : ∀ i ∈ is, Importable i.opcode) (hsize : buffer.size = maxSize)
    (hfits : codeSize is ≤ maxSize) : ∃ e, emit maxSize is buffer = .ok e := by
  obtain ⟨e, he⟩ := emitInstrs_progress (e := ⟨buffer, 0, fun _ => 0, false⟩) himp hsize
    (by rwa [Nat.zero_add])
  exact ⟨_, by rw [emit, he]; rfl⟩

theorem LaidOut.targets {is : List ILInstr} {offsets : InstrPtr → ℕ} (hclosed : Closed is)
    (h : LaidOut offsets 0 is) :
    ∀ i ∈ is, (opCodeFlags i.opcode).branchTarget = true →
      offsets i.target = offsetOf is i.target := by
  intro i hi hbranch
  rw [h.offset_eq (hclosed.targets i hi hbranch), Nat.zero_add]

/-- What the passes leave. -/
structure Exported (is : List ILInstr) (e : Emission) : Prop where
  offset : e.offset = codeSize is
  laidOut : LaidOut e.offsets 0 is
  code : e.buffer.take e.offset = code is

/-- **The passes write the code of the settled list**, if they succeed; and then it has
fitted the buffer. -/
theorem exportPasses_spec {maxSize : ℕ} {is is' : List ILInstr} {buffer : Buffer} {e : Emission}
    (hclosed : Closed is) (hsize : buffer.size = maxSize)
    (h : exportPasses maxSize is buffer = .ok (is', e)) :
    is' = settle is ∧ Exported is' e ∧ codeSize is' ≤ maxSize := by
  induction is using settle.induct generalizing buffer with
  | case1 is hfar ih =>
      rw [exportPasses_eq] at h
      split at h
      · cases h
      · next m hm =>
          obtain ⟨hmsize, -, hlaid, hemit⟩ := emit_spec hclosed.nodup hm
          have htargets := hlaid.targets hclosed
          split at h
          · cases h
          · next js b again hp =>
              have hpatch := patch_spec hlaid hemit hp
              have hagain : again = true := by
                rw [hpatch.tryAgain, anyFar_congr htargets, hfar]
              have hjs : js = widenFar (offsetOf is) 0 is := by
                rw [hpatch.instrs, widenFar_congr htargets]
              rw [if_pos hagain, hjs] at h
              rw [settle_of_far hfar]
              exact ih (hclosed.widenFar _ _) (hpatch.size.trans (hmsize.trans hsize)) h
  | case2 is hnear =>
      have hsettled : Settled is := Bool.eq_false_of_not_eq_true hnear
      rw [exportPasses_eq] at h
      split at h
      · cases h
      · next m hm =>
          obtain ⟨hmsize, hoffset, hlaid, hemit⟩ := emit_spec hclosed.nodup hm
          have htargets := hlaid.targets hclosed
          split at h
          · cases h
          · next js b again hp =>
              have hpatch := patch_spec hlaid hemit hp
              have hagain : again = false := by
                rw [hpatch.tryAgain, anyFar_congr htargets]
                exact hsettled
              rw [if_neg (by rw [hagain]; exact Bool.false_ne_true)] at h
              have hjs : js = is := by
                rw [hpatch.instrs]
                exact widenFar_of_near (by rw [← hpatch.tryAgain, hagain])
              obtain ⟨hcode, hfits⟩ := hpatch.written hagain
              cases h
              rw [settle_of_settled hsettled]
              refine ⟨hjs, ⟨?_, ?_, ?_⟩, ?_⟩
              · rw [hjs]
                exact hoffset
              · rw [hjs]
                exact hlaid
              · rw [raw_congr htargets] at hcode
                have htake := hcode.take_eq
                rw [length_encodeAll] at htake
                rw [hjs, hoffset]
                exact htake
              · have := hfits (Nat.zero_le _)
                rwa [Nat.zero_add, hmsize, hsize, ← hjs] at this

/-- The passes succeed when the code of the settled list fits the buffer. -/
theorem exportPasses_progress {maxSize : ℕ} {is : List ILInstr} {buffer : Buffer}
    (hclosed : Closed is) (hsize : buffer.size = maxSize) (hfits : codeSize (settle is) ≤ maxSize) :
    ∃ r, exportPasses maxSize is buffer = .ok r := by
  induction is using settle.induct generalizing buffer with
  | case1 is hfar ih =>
      rw [settle_of_far hfar] at hfits
      have hsmall : codeSize is ≤ maxSize :=
        Nat.le_trans (codeSize_le_settle is) (by rwa [settle_of_far hfar])
      obtain ⟨m, hm⟩ := emit_progress hclosed.importable hsize hsmall
      obtain ⟨hmsize, -, hlaid, hemit⟩ := emit_spec hclosed.nodup hm
      obtain ⟨⟨js, b, again⟩, hp⟩ := patch_progress 0 hlaid hemit
        (by rw [Nat.zero_add, hmsize, hsize]; exact hsmall)
      have hpatch := patch_spec hlaid hemit hp
      have htargets := hlaid.targets hclosed
      have hagain : again = true := by rw [hpatch.tryAgain, anyFar_congr htargets, hfar]
      have hjs : js = widenFar (offsetOf is) 0 is := by
        rw [hpatch.instrs, widenFar_congr htargets]
      obtain ⟨r, hr⟩ := ih (hclosed.widenFar _ _) (hpatch.size.trans (hmsize.trans hsize)) hfits
      refine ⟨r, ?_⟩
      rw [exportPasses_eq, hm]
      simp only [hp, hagain, if_true, hjs, hr]
  | case2 is hnear =>
      have hsettled : Settled is := Bool.eq_false_of_not_eq_true hnear
      rw [settle_of_settled hsettled] at hfits
      obtain ⟨m, hm⟩ := emit_progress hclosed.importable hsize hfits
      obtain ⟨hmsize, -, hlaid, hemit⟩ := emit_spec hclosed.nodup hm
      obtain ⟨⟨js, b, again⟩, hp⟩ := patch_progress 0 hlaid hemit
        (by rw [Nat.zero_add, hmsize, hsize]; exact hfits)
      have hpatch := patch_spec hlaid hemit hp
      have hagain : again = false := by
        rw [hpatch.tryAgain, anyFar_congr (hlaid.targets hclosed)]
        exact hsettled
      refine ⟨(js, { m with buffer := b }), ?_⟩
      rw [exportPasses_eq, hm]
      simp only [hp, hagain, Bool.false_eq_true, if_false]

end AutoInstrumentation.IL
