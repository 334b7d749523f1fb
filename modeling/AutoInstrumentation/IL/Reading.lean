import AutoInstrumentation.IL.Passes

/-!
# AutoInstrumentation.IL.Reading

The code that `ImportIL` accepts, and the instructions it makes of it.

The loop of `ImportIL` succeeds on exactly the encodings of lists of instructions whose
operands fit their width, whose short branches reach, and in which each switch is
followed by its targets; and then it has appended these instructions. One turn reads one
instruction, or a switch with all its targets.
-/

namespace AutoInstrumentation.IL

open AutoInstrumentation.Lib

/-! ### Lists of raw instructions -/

/-- What an instruction is for the extent of a switch. -/
inductive Part
  | plain
  | switch (n : ℕ)
  | switchArg
  deriving Repr, DecidableEq

/-- The part of an instruction with this opcode and the low bits of this operand. -/
def part (opcode : ℕ) (arg32 : BitVec 32) : Part :=
  if opcode = ceeSwitch then .switch arg32.toNat
  else if opcode = ceeSwitchArg then .switchArg
  else .plain

def RawInstr.part (r : RawInstr) : Part := IL.part r.opcode r.arg32

/-- With `n` targets of a switch to come, each switch is followed by as many targets as
it says, and no target stands elsewhere. -/
def blocks : ℕ → List Part → Bool
  | 0, [] => true
  | 0, .plain :: ps => blocks 0 ps
  | 0, .switch n :: ps => blocks n ps
  | n + 1, .switchArg :: ps => blocks n ps
  | _, _ => false

/-- The bytes of the operand that an instruction keeps. -/
def argSize (flags : OpCodeFlags) : ℕ := if flags.branchTarget then 4 else operandSize flags

/-- An instruction that can stand in the code. -/
structure Normal (r : RawInstr) : Prop where
  importable : Importable r.opcode
  fits : r.arg.toNat < 256 ^ argSize (opCodeFlags r.opcode)

/-- Each short branch reaches its target. -/
def Reaches : ℕ → List RawInstr → Prop
  | _, [] => True
  | here, r :: rs =>
      let after := here + instrSize r.opcode
      (opCodeFlags r.opcode = .shortBranch → ¬OutOfReach (r.arg32 - .ofNat 32 after))
        ∧ Reaches after rs

/-- One turn's worth of instructions. -/
inductive Group : List RawInstr → Prop
  | plain (r : RawInstr) : r.part = .plain → Group [r]
  | switch (r : RawInstr) (args : List RawInstr) : r.part = .switch args.length →
      (∀ a ∈ args, a.part = .switchArg) → Group (r :: args)

theorem part_plain {r : RawInstr} :
    r.part = .plain ↔ r.opcode ≠ ceeSwitch ∧ r.opcode ≠ ceeSwitchArg := by
  rw [RawInstr.part, part]
  split
  · next h => exact ⟨(fun h => nomatch h), fun h' => absurd h h'.1⟩
  · split
    · next h => exact ⟨(fun h => nomatch h), fun h' => absurd h h'.2⟩
    · next h h' => exact ⟨fun _ => ⟨h, h'⟩, fun _ => rfl⟩

theorem part_switch {r : RawInstr} {n : ℕ} :
    r.part = .switch n ↔ r.opcode = ceeSwitch ∧ r.arg32.toNat = n := by
  rw [RawInstr.part, part]
  split
  · next h => exact ⟨fun h' => ⟨h, Part.switch.inj h'⟩, fun h' => by rw [h'.2]⟩
  · next h =>
      split
      · exact ⟨(fun h => nomatch h), fun h' => absurd h'.1 h⟩
      · exact ⟨(fun h => nomatch h), fun h' => absurd h'.1 h⟩

theorem part_switchArg {r : RawInstr} : r.part = .switchArg ↔ r.opcode = ceeSwitchArg := by
  rw [RawInstr.part, part]
  split
  · next h =>
      refine ⟨(fun h => nomatch h), fun h' => ?_⟩
      rw [h'] at h
      cases h
  · split
    · next h => exact ⟨fun _ => h, fun _ => rfl⟩
    · next h => exact ⟨(fun h => nomatch h), fun h' => absurd h' h⟩

/-- Behind the targets that are still to come, the blocks begin anew. -/
theorem blocks_split {n : ℕ} {rs : List RawInstr} (h : blocks n (rs.map RawInstr.part) = true) :
    ∃ args rest, rs = args ++ rest ∧ args.length = n ∧ (∀ a ∈ args, a.part = .switchArg)
      ∧ blocks 0 (rest.map RawInstr.part) = true := by
  induction n generalizing rs with
  | zero => exact ⟨[], rs, rfl, rfl, (fun _ ha => nomatch ha), h⟩
  | succ n ih =>
      cases rs with
      | nil => cases h
      | cons r rs =>
          rw [List.map_cons] at h
          cases hp : r.part with
          | plain => rw [hp] at h; cases h
          | switch m => rw [hp] at h; cases h
          | switchArg =>
              rw [hp, blocks] at h
              obtain ⟨args, rest, rfl, hlen, hargs, hrest⟩ := ih h
              refine ⟨r :: args, rest, rfl, by rw [List.length_cons, hlen], ?_, hrest⟩
              intro a ha
              rcases List.mem_cons.mp ha with rfl | ha
              · exact hp
              · exact hargs a ha

theorem blocks_group {rs : List RawInstr} (h : blocks 0 (rs.map RawInstr.part) = true)
    (hne : rs ≠ []) : ∃ g rest, rs = g ++ rest ∧ Group g
      ∧ blocks 0 (rest.map RawInstr.part) = true := by
  cases rs with
  | nil => exact absurd rfl hne
  | cons r rs =>
      rw [List.map_cons] at h
      cases hp : r.part with
      | plain =>
          rw [hp, blocks] at h
          exact ⟨[r], rs, rfl, .plain r hp, h⟩
      | switch n =>
          rw [hp, blocks] at h
          obtain ⟨args, rest, rfl, rfl, hargs, hrest⟩ := blocks_split h
          exact ⟨r :: args, rest, rfl, .switch r args hp hargs, hrest⟩
      | switchArg => rw [hp] at h; cases h

theorem blocks_args {args : List RawInstr} (h : ∀ a ∈ args, a.part = .switchArg)
    (ps : List Part) : blocks args.length (args.map RawInstr.part ++ ps) = blocks 0 ps := by
  induction args with
  | nil => rfl
  | cons a args ih =>
      rw [List.map_cons, h a List.mem_cons_self, List.cons_append, List.length_cons, blocks]
      exact ih fun b hb => h b (List.mem_cons_of_mem a hb)

theorem Group.blocks {g rest : List RawInstr} (hg : Group g)
    (h : blocks 0 (rest.map RawInstr.part) = true) :
    blocks 0 ((g ++ rest).map RawInstr.part) = true := by
  rw [List.map_append]
  cases hg with
  | plain r hr => rwa [List.map_singleton, hr, List.singleton_append, IL.blocks]
  | switch r args hr hargs =>
      rw [List.map_cons, hr, List.cons_append, IL.blocks, blocks_args hargs]
      exact h

/-! ### Encodings -/

/-- The size of the code. -/
def rawSize (rs : List RawInstr) : ℕ := (rs.map fun r => instrSize r.opcode).sum

theorem rawSize_cons (r : RawInstr) (rs : List RawInstr) :
    rawSize (r :: rs) = instrSize r.opcode + rawSize rs := List.sum_cons

theorem rawSize_append (rs qs : List RawInstr) : rawSize (rs ++ qs) = rawSize rs + rawSize qs := by
  rw [rawSize, List.map_append, List.sum_append]
  rfl

theorem length_encode (here : ℕ) (switchBase : BitVec 32) (rs : List RawInstr) :
    (encodeAll here switchBase rs).length = rawSize rs := by
  induction rs generalizing here switchBase with
  | nil => rfl
  | cons r rs ih =>
      rw [encodeAll, List.length_append, RawInstr.length_encode, ih, rawSize_cons]

theorem RawInstr.encode_base {r : RawInstr} (h : r.part ≠ .switchArg) (after b c : BitVec 32) :
    r.encode after b = r.encode after c := by
  have hop : r.opcode ≠ ceeSwitchArg := fun hop => h (part_switchArg.mpr hop)
  rw [RawInstr.encode, RawInstr.encode, RawInstr.operand, RawInstr.operand, if_neg hop, if_neg hop]

/-- Where no switch is open, its base does not matter. -/
theorem encodeAll_base {rs : List RawInstr} (h : blocks 0 (rs.map RawInstr.part) = true) (here : ℕ)
    (b c : BitVec 32) : encodeAll here b rs = encodeAll here c rs := by
  induction rs generalizing here b c with
  | nil => rfl
  | cons r rs ih =>
      rw [List.map_cons] at h
      rw [encodeAll, encodeAll]
      cases hp : r.part with
      | plain =>
          rw [hp, blocks] at h
          rw [RawInstr.encode_base (by rw [hp]; exact Part.noConfusion) _ b c, ih h]
      | switch n =>
          have hop := (part_switch.mp hp).1
          rw [RawInstr.encode_base (by rw [hp]; exact Part.noConfusion) _ b c, RawInstr.base,
            RawInstr.base, if_pos hop, if_pos hop]
      | switchArg => rw [hp] at h; cases h

theorem encodeAll_append {rs qs : List RawInstr} (h : blocks 0 (qs.map RawInstr.part) = true)
    (here : ℕ) (b c : BitVec 32) :
    encodeAll here b (rs ++ qs) = encodeAll here b rs ++ encodeAll (here + rawSize rs) c qs := by
  induction rs generalizing here b with
  | nil => exact encodeAll_base h here b c
  | cons r rs ih =>
      rw [List.cons_append, encodeAll, encodeAll, ih, List.append_assoc, rawSize_cons,
        Nat.add_assoc]

theorem reaches_append {rs qs : List RawInstr} {here : ℕ} :
    Reaches here (rs ++ qs) ↔ Reaches here rs ∧ Reaches (here + rawSize rs) qs := by
  induction rs generalizing here with
  | nil => exact ⟨fun h => ⟨trivial, h⟩, fun h => h.2⟩
  | cons r rs ih =>
      rw [List.cons_append, Reaches, Reaches, ih, rawSize_cons, Nat.add_assoc, and_assoc]

/-! ### Operands -/

theorem word_bytes (v : BitVec 32) : BitVec.ofNat 32 (natOfBytes (bytesOfNat 4 v.toNat)) = v := by
  have hlt : v.toNat < 256 ^ 4 := v.isLt
  rw [natOfBytes_bytesOfNat, Nat.mod_eq_of_lt hlt, BitVec.ofNat_toNat, BitVec.setWidth_eq]

theorem bytes_word {bs : List Byte} (h : bs.length = 4) :
    bytesOfNat 4 (BitVec.ofNat 32 (natOfBytes bs)).toNat = bs := by
  have hlt : natOfBytes bs < 256 ^ bs.length := natOfBytes_lt bs
  rw [h] at hlt
  have hword : natOfBytes bs < 2 ^ 32 := hlt
  rw [BitVec.toNat_ofNat, Nat.mod_eq_of_lt hword, ← h, bytesOfNat_natOfBytes]

theorem byte_bytes (v : BitVec 32) :
    BitVec.ofNat 8 (natOfBytes (bytesOfNat 1 v.toNat)) = v.setWidth 8 := by
  apply BitVec.eq_of_toNat_eq
  rw [natOfBytes_bytesOfNat, BitVec.toNat_ofNat, BitVec.toNat_setWidth]
  omega

theorem setWidth_arg32 {r : RawInstr} (h : r.arg.toNat < 2 ^ 32) : r.arg32.setWidth 64 = r.arg := by
  apply BitVec.eq_of_toNat_eq
  rw [RawInstr.arg32, BitVec.toNat_setWidth, BitVec.toNat_setWidth]
  omega

theorem arg32_setWidth (opcode : ℕ) (v : BitVec 32) :
    (RawInstr.mk opcode (v.setWidth 64)).arg32 = v := by
  apply BitVec.eq_of_toNat_eq
  rw [RawInstr.arg32, BitVec.toNat_setWidth, BitVec.toNat_setWidth]
  omega

/-- A displacement that reaches is the byte it is written as. -/
theorem signExtend_reach {d : BitVec 32} (h : ¬OutOfReach d) :
    (BitVec.ofNat 8 (natOfBytes (bytesOfNat 1 d.toNat))).signExtend 32 = d := by
  rw [byte_bytes]
  exact not_not.mp h

theorem setWidth_signExtend (b : Byte) : (b.signExtend 32).setWidth 8 = b := by
  ext k hk
  have hk32 : k < 32 := Nat.lt_trans hk (by decide)
  rw [BitVec.getElem_setWidth, BitVec.getLsbD_signExtend, if_pos hk, decide_eq_true hk32,
    Bool.true_and, BitVec.getLsbD_eq_getElem hk]

theorem reach_signExtend (b : Byte) : ¬OutOfReach (b.signExtend 32) := by
  rw [OutOfReach, not_not, setWidth_signExtend]

theorem bytes_signExtend {bs : List Byte} (h : bs.length = 1) :
    bytesOfNat 1 ((BitVec.ofNat 8 (natOfBytes bs)).signExtend 32).toNat = bs := by
  obtain ⟨b, rfl⟩ := List.length_eq_one_iff.mp h
  have hb : BitVec.ofNat 8 (natOfBytes [b]) = b := by
    rw [natOfBytes, natOfBytes, Nat.mul_zero, Nat.add_zero, BitVec.ofNat_toNat, BitVec.setWidth_eq]
  rw [hb, bytesOfNat, bytesOfNat, BitVec.ofNat_toNat, setWidth_signExtend]

/-! ### One turn -/

/-- An instruction at the end of the list, with its offset unless it is a switch target. -/
def addRaw (st : Import) (r : RawInstr) : Import where
  rewriter :=
    let s := st.rewriter.append r.opcode r.arg
    if r.opcode = ceeSwitchArg then s else s.recordOffset st.offset (.instr s.nInstrs)
  offset := st.offset + instrSize r.opcode
  fBranch :=
    st.fBranch || ((opCodeFlags r.opcode).branchTarget || decide (opCodeFlags r.opcode = .switch))

def addAll (st : Import) (rs : List RawInstr) : Import := rs.foldl addRaw st

/-- An opcode that stands in the code. -/
def Readable (opcode : ℕ) : Prop :=
  opcode < ceeCount ∧ ¬(ceePrefix7 ≤ opcode ∧ opcode ≤ ceePrefix1)

theorem checkOpcode_readable {opcode : ℕ} (h : Readable opcode) (length : ℕ) :
    checkOpcode opcode length = pure (opcode, length) := by
  obtain ⟨hlt, hlead⟩ := h
  have hnot : ¬(ceePrefix7 ≤ opcode ∧ opcode ≤ ceePrefix2) := fun hp =>
    hlead ⟨hp.1, Nat.le_trans hp.2 (by decide)⟩
  rw [checkOpcode, if_neg hnot, if_neg (Nat.not_le.mpr hlt)]

theorem checkOpcode_eq_some {opcode length : ℕ} {bs : List Byte} {r : (ℕ × ℕ) × List Byte}
    (h : checkOpcode opcode length bs = some r) :
    ¬(ceePrefix7 ≤ opcode ∧ opcode ≤ ceePrefix2) ∧ opcode < ceeCount
      ∧ r = ((opcode, length), bs) := by
  rw [checkOpcode] at h
  split at h
  · cases h
  · next hlead =>
      split at h
      · cases h
      · next hlt => exact ⟨hlead, Nat.lt_of_not_le hlt, (Option.some.inj h).symm⟩

theorem readOpcode_reads {opcode : ℕ} (h : Readable opcode) :
    Cursor.Reads readOpcode (opcodeBytes opcode) (opcode, (opcodeBytes opcode).length) := by
  obtain ⟨hlt, hlead⟩ := h
  have hcount : opcode < 0x126 := hlt
  rw [opcodeBytes, if_neg (Nat.not_le.mpr hlt)]
  by_cases hlong : 0x100 ≤ opcode
  · have hsecond : 0x100 + (BitVec.ofNat 8 opcode).toNat = opcode := by
      rw [BitVec.toNat_ofNat]
      omega
    rw [if_pos hlong]
    refine (Cursor.reads_next (BitVec.ofNat 8 ceePrefix1)).bind ?_
    rw [if_pos (show (BitVec.ofNat 8 ceePrefix1).toNat = ceePrefix1 from rfl)]
    refine (Cursor.reads_next (BitVec.ofNat 8 opcode)).bind ?_
    rw [hsecond, checkOpcode_readable ⟨hlt, hlead⟩]
    exact Cursor.reads_pure _
  · have hfirst : (BitVec.ofNat 8 opcode).toNat = opcode := by
      rw [BitVec.toNat_ofNat]
      omega
    have hne : opcode ≠ ceePrefix1 := fun heq => hlead (by rw [heq]; decide)
    rw [if_neg hlong]
    refine (Cursor.reads_next (BitVec.ofNat 8 opcode)).bind ?_
    rw [hfirst, if_neg hne, checkOpcode_readable ⟨hlt, hlead⟩]
    exact Cursor.reads_pure _

theorem readOpcode_eq_some {bs rest : List Byte} {opcode length : ℕ}
    (h : readOpcode bs = some ((opcode, length), rest)) :
    Readable opcode ∧ length = (opcodeBytes opcode).length ∧ bs = opcodeBytes opcode ++ rest := by
  obtain ⟨first, behind, hfirst, hread⟩ := Cursor.bind_eq_some h
  cases bs with
  | nil => cases hfirst
  | cons b bs =>
      cases hfirst
      clear h
      by_cases hlead : first.toNat = ceePrefix1
      · rw [if_pos hlead] at hread
        obtain ⟨second, behind', hsecond, hread⟩ := Cursor.bind_eq_some hread
        cases behind with
        | nil => cases hsecond
        | cons c bs =>
            cases hsecond
            obtain ⟨-, hlt, heq⟩ := checkOpcode_eq_some hread
            cases heq
            have hfar : ¬(0x100 + second.toNat ≤ ceePrefix1) := by rw [ceePrefix1]; omega
            have hb : first = BitVec.ofNat 8 ceePrefix1 := BitVec.eq_of_toNat_eq hlead
            have hc : BitVec.ofNat 8 (0x100 + second.toNat) = second := by
              apply BitVec.eq_of_toNat_eq
              rw [BitVec.toNat_ofNat]
              omega
            rw [opcodeBytes, if_neg (Nat.not_le.mpr hlt), if_pos (Nat.le_add_right _ _), hc, hb]
            exact ⟨⟨hlt, fun hp => hfar hp.2⟩, rfl, rfl⟩
      · rw [if_neg hlead] at hread
        obtain ⟨hunsupported, hlt, heq⟩ := checkOpcode_eq_some hread
        cases heq
        have hbyte : first.toNat < 256 := first.isLt
        rw [opcodeBytes, if_neg (Nat.not_le.mpr hlt), if_neg (by omega), BitVec.ofNat_toNat,
          BitVec.setWidth_eq]
        refine ⟨⟨hlt, fun hp => hunsupported ⟨hp.1, ?_⟩⟩, rfl, rfl⟩
        simp only [ceePrefix1, ceePrefix2] at hp hlead ⊢
        omega

theorem takeN_eq_some {n : ℕ} {bs a rest : List Byte} (h : Cursor.takeN n bs = some (a, rest)) :
    bs = a ++ rest ∧ a.length = n := by
  rw [Cursor.takeN] at h
  split at h
  · next hle =>
      cases h
      exact ⟨(List.take_append_drop n bs).symm, List.length_take_of_le hle⟩
  · cases h

theorem operandSize_plain {flags : OpCodeFlags} (h : flags ≠ .switch) :
    operandSize flags = flags.size := by
  cases flags with
  | switch => exact absurd rfl h
  | _ => rfl

theorem arg_lt {r : RawInstr} (hn : Normal r)
    (h : (opCodeFlags r.opcode).branchTarget = true) : r.arg.toNat < 2 ^ 32 := by
  have := hn.fits
  rwa [argSize, if_pos h] at this

/-- What is read of an operand is the operand. -/
theorem importOperand_operand {r : RawInstr} (hn : Normal r) (hne : r.opcode ≠ ceeSwitchArg)
    (hswitch : opCodeFlags r.opcode ≠ .switch) (offset : ℕ)
    (hreach : opCodeFlags r.opcode = .shortBranch →
      ¬OutOfReach (r.arg32 - .ofNat 32 (offset + 1))) (switchBase : BitVec 32) :
    importOperand (opCodeFlags r.opcode) offset
      (r.operand (.ofNat 32 (offset + (opCodeFlags r.opcode).size)) switchBase) = r.arg := by
  have value (hbranch : (opCodeFlags r.opcode).branchTarget = false) :
      BitVec.ofNat 64 (natOfBytes (bytesOfNat (operandSize (opCodeFlags r.opcode)) r.arg.toNat))
        = r.arg := by
    have hfits := hn.fits
    rw [argSize, if_neg (by rw [hbranch]; exact Bool.false_ne_true)] at hfits
    rw [natOfBytes_bytesOfNat, Nat.mod_eq_of_lt hfits, BitVec.ofNat_toNat, BitVec.setWidth_eq]
  rw [RawInstr.operand, if_neg hne]
  cases hflags : opCodeFlags r.opcode with
  | shortBranch =>
      have harg := arg_lt hn (by rw [hflags]; rfl)
      dsimp only [importOperand, OpCodeFlags.size]
      rw [signExtend_reach (hreach hflags), BitVec.add_comm, BitVec.sub_add_cancel,
        setWidth_arg32 harg]
  | branch =>
      have harg := arg_lt hn (by rw [hflags]; rfl)
      dsimp only [importOperand, OpCodeFlags.size]
      rw [word_bytes, BitVec.add_comm, BitVec.sub_add_cancel, setWidth_arg32 harg]
  | switch => exact absurd hflags hswitch
  | _ =>
      rw [hflags] at value
      exact value rfl

/-- Every operand that is read is the operand of what is made of it. -/
theorem operand_importOperand {opcode : ℕ} {operand : List Byte} (h : Readable opcode)
    (hswitch : opCodeFlags opcode ≠ .switch)
    (hlen : operand.length = (opCodeFlags opcode).size) (offset : ℕ) :
    let r : RawInstr := ⟨opcode, importOperand (opCodeFlags opcode) offset operand⟩
    Normal r
      ∧ (opCodeFlags opcode = .shortBranch → ¬OutOfReach (r.arg32 - .ofNat 32 (offset + 1)))
      ∧ ∀ switchBase,
          r.operand (.ofNat 32 (offset + (opCodeFlags opcode).size)) switchBase = operand := by
  have hne : opcode ≠ ceeSwitchArg := by
    rintro rfl
    exact absurd h.1 (by decide)
  have value (hbranch : (opCodeFlags opcode).branchTarget = false) :
      (BitVec.ofNat 64 (natOfBytes operand)).toNat < 256 ^ operandSize (opCodeFlags opcode)
        ∧ bytesOfNat (operandSize (opCodeFlags opcode))
            (BitVec.ofNat 64 (natOfBytes operand)).toNat = operand := by
    rw [operandSize_plain hswitch, ← hlen]
    have hlt := natOfBytes_lt operand
    have hword : 256 ^ operand.length ≤ 2 ^ 64 := by
      have hsize := operandSize_le (opCodeFlags opcode)
      rw [operandSize_plain hswitch, ← hlen] at hsize
      exact Nat.pow_le_pow_right (n := 256) (by decide) hsize
    rw [BitVec.toNat_ofNat, Nat.mod_eq_of_lt (Nat.lt_of_lt_of_le hlt hword)]
    exact ⟨hlt, bytesOfNat_natOfBytes operand⟩
  have himp : Importable opcode := .inl h
  intro r
  simp only [RawInstr.operand, r, if_neg hne]
  cases hflags : opCodeFlags opcode with
  | shortBranch =>
      rw [hflags] at hlen
      dsimp only [importOperand, OpCodeFlags.size]
      refine ⟨⟨himp, ?_⟩, ?_, fun _ => ?_⟩
      · dsimp only
        rw [hflags, BitVec.toNat_setWidth]
        exact Nat.lt_of_le_of_lt (Nat.mod_le _ _) (BitVec.isLt _)
      · intro _
        rw [arg32_setWidth, BitVec.add_comm, BitVec.add_sub_cancel]
        exact reach_signExtend _
      · rw [arg32_setWidth, BitVec.add_comm, BitVec.add_sub_cancel]
        exact bytes_signExtend hlen
  | branch =>
      rw [hflags] at hlen
      dsimp only [importOperand, OpCodeFlags.size]
      refine ⟨⟨himp, ?_⟩, by rintro ⟨⟩, fun _ => ?_⟩
      · dsimp only
        rw [hflags, BitVec.toNat_setWidth]
        exact Nat.lt_of_le_of_lt (Nat.mod_le _ _) (BitVec.isLt _)
      · rw [arg32_setWidth, BitVec.add_comm, BitVec.add_sub_cancel]
        exact bytes_word hlen
  | switch => exact absurd hflags hswitch
  | _ =>
      rw [hflags] at value
      obtain ⟨hfits, hbytes⟩ := value rfl
      refine ⟨⟨himp, ?_⟩, by rintro ⟨⟩, fun _ => hbytes⟩
      dsimp only
      rw [hflags]
      exact hfits

theorem addRaw_switchArg {st : Import} {r : RawInstr} (h : r.opcode = ceeSwitchArg)
    (hb : st.fBranch = true) :
    addRaw st r = { st with rewriter := st.rewriter.append ceeSwitchArg r.arg
                            offset := st.offset + 4 } := by
  rw [addRaw, h]
  simp only [if_true, hb, Bool.true_or]
  rfl

theorem addRaw_fBranch {st : Import} (r : RawInstr) (hb : st.fBranch = true) :
    (addRaw st r).fBranch = true := by
  rw [addRaw, hb, Bool.true_or]

theorem encode_switchArg {r : RawInstr} (h : r.opcode = ceeSwitchArg) (after base : BitVec 32) :
    r.encode after base = bytesOfNat 4 (r.arg32 - base).toNat := by
  rw [RawInstr.encode, RawInstr.operand, if_pos h, h]
  rfl

theorem base_switchArg {r : RawInstr} (h : r.opcode = ceeSwitchArg) (here : ℕ)
    (base : BitVec 32) : r.base here base = base := by
  rw [RawInstr.base, if_neg (by rw [h]; decide)]

theorem importSwitchArgs_reads {args : List RawInstr} (hargs : ∀ a ∈ args, a.part = .switchArg)
    (hnormal : ∀ a ∈ args, Normal a) {st : Import} (hb : st.fBranch = true) (base : BitVec 32) :
    Cursor.Reads (importSwitchArgs base args.length st) (encodeAll st.offset base args)
      (addAll st args) := by
  induction args generalizing st with
  | nil => exact Cursor.reads_pure st
  | cons a args ih =>
      have hop := part_switchArg.mp (hargs a List.mem_cons_self)
      have hflags : (opCodeFlags a.opcode).branchTarget = true := by rw [hop]; rfl
      have hsize : instrSize a.opcode = 4 := by rw [hop]; rfl
      rw [encodeAll, encode_switchArg hop, base_switchArg hop, List.length_cons, importSwitchArgs,
        addAll, List.foldl_cons]
      have hread := Cursor.reads_takeN (bytesOfNat 4 (a.arg32 - base).toNat)
      rw [length_bytesOfNat] at hread
      refine hread.bind ?_
      have hrest := ih (fun b hb => hargs b (List.mem_cons_of_mem a hb))
        (fun b hb => hnormal b (List.mem_cons_of_mem a hb)) (addRaw_fBranch a hb)
      rw [addRaw_switchArg hop hb] at hrest ⊢
      dsimp only at hrest ⊢
      rw [word_bytes, BitVec.add_comm, BitVec.sub_add_cancel,
        setWidth_arg32 (arg_lt (hnormal a List.mem_cons_self) hflags), hsize]
      exact hrest

theorem importSwitchArgs_eq_some {base : BitVec 32} {n : ℕ} {st st' : Import}
    {bs rest : List Byte} (hb : st.fBranch = true)
    (h : importSwitchArgs base n st bs = some (st', rest)) :
    ∃ args, args.length = n ∧ (∀ a ∈ args, a.part = .switchArg) ∧ (∀ a ∈ args, Normal a)
      ∧ bs = encodeAll st.offset base args ++ rest ∧ st' = addAll st args := by
  induction n generalizing st bs with
  | zero =>
      cases h
      exact ⟨[], rfl, (fun _ ha => nomatch ha), (fun _ ha => nomatch ha), rfl, rfl⟩
  | succ n ih =>
      obtain ⟨operand, behind, htake, hread⟩ := Cursor.bind_eq_some h
      obtain ⟨rfl, hlen⟩ := takeN_eq_some htake
      let a : RawInstr := ⟨ceeSwitchArg, (base + BitVec.ofNat 32 (natOfBytes operand)).setWidth 64⟩
      have hop : a.opcode = ceeSwitchArg := rfl
      have hadd := addRaw_switchArg hop hb
      have hrest : importSwitchArgs base n (addRaw st a) behind = some (st', rest) := by
        rw [hadd]
        exact hread
      obtain ⟨args, rfl, hargs, hnormal, rfl, rfl⟩ := ih (addRaw_fBranch a hb) hrest
      refine ⟨a :: args, rfl, ?_, ?_, ?_, ?_⟩
      · intro b hb
        rcases List.mem_cons.mp hb with rfl | hb
        · exact part_switchArg.mpr hop
        · exact hargs b hb
      · intro b hb
        rcases List.mem_cons.mp hb with rfl | hb
        · refine ⟨.inr rfl, ?_⟩
          rw [BitVec.toNat_setWidth]
          exact Nat.lt_of_le_of_lt (Nat.mod_le _ _) (BitVec.isLt _)
        · exact hnormal b hb
      · rw [encodeAll, encode_switchArg hop, base_switchArg hop, arg32_setWidth, BitVec.add_comm,
          BitVec.add_sub_cancel, bytes_word hlen, List.append_assoc]
        rfl
      · rfl

/-- The base of a switch, as the loop computes it. -/
theorem base_switch {r : RawInstr} {here n : ℕ} (h : r.part = .switch n) (switchBase : BitVec 32) :
    r.base here switchBase = BitVec.ofNat 32 (here + 1 + 4 + n * 4) := by
  obtain ⟨hop, hn⟩ := part_switch.mp h
  apply BitVec.eq_of_toNat_eq
  have hfour : (4 : BitVec 32).toNat = 4 := rfl
  have hone : (1 : BitVec 32).toNat = 1 := rfl
  rw [RawInstr.base, if_pos hop, BitVec.toNat_add, BitVec.toNat_mul, BitVec.toNat_add, hn, hfour,
    hone, BitVec.toNat_ofNat, BitVec.toNat_ofNat]
  omega

theorem flags_switch {opcode : ℕ} (h : opCodeFlags opcode = .switch) : opcode = ceeSwitch := by
  have hlt : opcode < opCodeFlagsCount := by
    by_contra hge
    rw [opCodeFlags_of_ge (Nat.le_of_not_lt hge)] at h
    cases h
  have htable : ∀ o < opCodeFlagsCount, opCodeFlags o = .switch → o = ceeSwitch := by
    decide +kernel
  exact htable opcode hlt h

theorem Normal.readable {r : RawInstr} (hn : Normal r) (hne : r.opcode ≠ ceeSwitchArg) :
    Readable r.opcode := hn.importable.resolve_right hne

theorem importInstr_plain {st : Import} {r : RawInstr} (hr : r.part = .plain) (hn : Normal r)
    (hreach : Reaches st.offset [r]) (switchBase : BitVec 32) :
    Cursor.Reads (importInstr st) (encodeAll st.offset switchBase [r]) (addAll st [r]) := by
  obtain ⟨hnotSwitch, hnotArg⟩ := part_plain.mp hr
  have hflags : opCodeFlags r.opcode ≠ .switch := fun h => hnotSwitch (flags_switch h)
  have hafter : st.offset + instrSize r.opcode
      = st.offset + (opcodeBytes r.opcode).length + (opCodeFlags r.opcode).size := by
    rw [instrSize, operandSize_plain hflags, Nat.add_assoc]
  have hlen := r.length_operand
    (.ofNat 32 (st.offset + (opcodeBytes r.opcode).length + (opCodeFlags r.opcode).size)) switchBase
  rw [operandSize_plain hflags] at hlen
  rw [encodeAll, encodeAll, List.append_nil, RawInstr.encode, hafter]
  refine (readOpcode_reads (hn.readable hnotArg)).bind ?_
  dsimp only
  rw [if_neg hflags]
  have hread := Cursor.reads_takeN (r.operand (.ofNat 32
    (st.offset + (opcodeBytes r.opcode).length + (opCodeFlags r.opcode).size)) switchBase)
  rw [hlen] at hread
  have hoperand := importOperand_operand hn hnotArg hflags
    (st.offset + (opcodeBytes r.opcode).length) (fun hshort => ?_) switchBase
  · have hdone := hread.bind_pure fun operand =>
      let s := st.rewriter.append r.opcode (importOperand (opCodeFlags r.opcode)
        (st.offset + (opcodeBytes r.opcode).length) operand)
      { rewriter := s.recordOffset st.offset (.instr s.nInstrs)
        offset := st.offset + (opcodeBytes r.opcode).length + (opCodeFlags r.opcode).size
        fBranch := st.fBranch || (opCodeFlags r.opcode).branchTarget : Import }
    rw [hoperand] at hdone
    have hadd : addAll st [r] = { rewriter := (st.rewriter.append r.opcode r.arg).recordOffset
                                    st.offset (.instr (st.rewriter.append r.opcode r.arg).nInstrs)
                                  offset := st.offset + (opcodeBytes r.opcode).length
                                    + (opCodeFlags r.opcode).size
                                  fBranch := st.fBranch || (opCodeFlags r.opcode).branchTarget } := by
      rw [addAll, List.foldl_cons, List.foldl_nil, addRaw, if_neg hnotArg, decide_eq_false hflags,
        Bool.or_false, hafter]
    rw [hadd]
    exact hdone
  · have := hreach.1 hshort
    rw [hafter, hshort] at this
    exact this

theorem addRaw_switch {st : Import} {r : RawInstr} (h : r.opcode = ceeSwitch) :
    addRaw st r = { rewriter := (st.rewriter.append ceeSwitch r.arg).recordOffset
                      st.offset (.instr (st.rewriter.append ceeSwitch r.arg).nInstrs)
                    offset := st.offset + 1 + 4
                    fBranch := true } := by
  rw [addRaw, h, if_neg (by decide), opCodeFlags_switch, decide_eq_true rfl, Bool.or_true,
    Bool.or_true]
  rfl

theorem importInstr_switch {st : Import} {r : RawInstr} {args : List RawInstr}
    (hr : r.part = .switch args.length) (hargs : ∀ a ∈ args, a.part = .switchArg)
    (hnormal : ∀ a ∈ r :: args, Normal a) (switchBase : BitVec 32) :
    Cursor.Reads (importInstr st) (encodeAll st.offset switchBase (r :: args))
      (addAll st (r :: args)) := by
  obtain ⟨hop, hlen⟩ := part_switch.mp hr
  have hn := hnormal r List.mem_cons_self
  have hne : r.opcode ≠ ceeSwitchArg := by rw [hop]; decide
  have hfits : r.arg.toNat < 256 ^ 4 := by
    have := hn.fits
    rwa [hop] at this
  have hcount : r.arg.toNat = args.length := by
    rw [← hlen, RawInstr.arg32, BitVec.toNat_setWidth,
      Nat.mod_eq_of_lt (show r.arg.toNat < 2 ^ 32 from hfits)]
  have hencode (after : BitVec 32) :
      r.encode after switchBase = opcodeBytes ceeSwitch ++ bytesOfNat 4 args.length := by
    rw [RawInstr.encode, RawInstr.operand, if_neg hne, hop, ← hcount]
    rfl
  have hsize : instrSize r.opcode = 1 + 4 := by rw [hop]; rfl
  have hbytes : natOfBytes (bytesOfNat 4 args.length) = args.length := by
    rw [natOfBytes_bytesOfNat, ← hcount, Nat.mod_eq_of_lt hfits]
  have hread := Cursor.reads_takeN (bytesOfNat 4 args.length)
  rw [length_bytesOfNat] at hread
  rw [encodeAll, hencode, hsize, base_switch hr, addAll, List.foldl_cons, addRaw_switch hop,
    List.append_assoc]
  refine (readOpcode_reads (hop ▸ hn.readable hne)).bind ?_
  dsimp only
  rw [if_pos opCodeFlags_switch]
  refine hread.bind ?_
  rw [hbytes]
  have harg : BitVec.ofNat 64 args.length = r.arg := by
    rw [← hcount, BitVec.ofNat_toNat, BitVec.setWidth_eq]
  rw [harg]
  exact importSwitchArgs_reads hargs (fun a ha => hnormal a (List.mem_cons_of_mem r ha)) rfl _

/-- A turn reads the code of one group, and appends it. -/
theorem importInstr_reads {st : Import} {g : List RawInstr} (hg : Group g)
    (hnormal : ∀ r ∈ g, Normal r) (hreach : Reaches st.offset g) (switchBase : BitVec 32) :
    Cursor.Reads (importInstr st) (encodeAll st.offset switchBase g) (addAll st g) := by
  cases hg with
  | plain r hr => exact importInstr_plain hr (hnormal r List.mem_cons_self) hreach switchBase
  | switch r args hr hargs => exact importInstr_switch hr hargs hnormal switchBase

theorem reaches_switchArgs {args : List RawInstr} (hargs : ∀ a ∈ args, a.part = .switchArg)
    (here : ℕ) : Reaches here args := by
  induction args generalizing here with
  | nil => trivial
  | cons a args ih =>
      refine ⟨fun hshort => ?_, ih (fun b hb => hargs b (List.mem_cons_of_mem a hb)) _⟩
      rw [part_switchArg.mp (hargs a List.mem_cons_self)] at hshort
      cases hshort

/-- What a turn has read is the code of a group. -/
theorem importInstr_eq_some {st st' : Import} {bs rest : List Byte}
    (h : importInstr st bs = some (st', rest)) :
    ∃ g, Group g ∧ (∀ r ∈ g, Normal r) ∧ Reaches st.offset g
      ∧ bs = encodeAll st.offset 0 g ++ rest ∧ st' = addAll st g := by
  obtain ⟨⟨opcode, length⟩, behind, hopcode, hread⟩ := Cursor.bind_eq_some h
  obtain ⟨hreadable, rfl, rfl⟩ := readOpcode_eq_some hopcode
  dsimp only at hread
  have hne : opcode ≠ ceeSwitchArg := by
    rintro rfl
    exact absurd hreadable.1 (by decide)
  by_cases hswitch : opCodeFlags opcode = .switch
  · obtain rfl := flags_switch hswitch
    rw [if_pos hswitch] at hread
    obtain ⟨operand, behind', htake, htargets⟩ := Cursor.bind_eq_some hread
    obtain ⟨rfl, hlen⟩ := takeN_eq_some htake
    have hfits := natOfBytes_lt operand
    rw [hlen] at hfits
    have hvalue : (BitVec.ofNat 64 (natOfBytes operand)).toNat = natOfBytes operand := by
      rw [BitVec.toNat_ofNat, Nat.mod_eq_of_lt (Nat.lt_trans hfits (by decide))]
    let r : RawInstr := ⟨ceeSwitch, .ofNat 64 (natOfBytes operand)⟩
    have hpart : r.part = .switch (natOfBytes operand) := by
      refine part_switch.mpr ⟨rfl, ?_⟩
      rw [RawInstr.arg32, BitVec.toNat_setWidth, hvalue,
        Nat.mod_eq_of_lt (show natOfBytes operand < 2 ^ 32 from hfits)]
    have hadd : addRaw st r = _ := addRaw_switch rfl
    have hloop : importSwitchArgs
        (.ofNat 32 (st.offset + (opcodeBytes ceeSwitch).length + 4 + natOfBytes operand * 4))
        (natOfBytes operand) (addRaw st r) behind' = some (st', rest) := by
      rw [hadd]
      exact htargets
    obtain ⟨args, hlength, hargs, hnormal, rfl, rfl⟩ :=
      importSwitchArgs_eq_some (by rw [hadd]) hloop
    rw [← hlength] at hpart
    refine ⟨r :: args, .switch r args hpart hargs, ?_, ⟨by rintro ⟨⟩, ?_⟩, ?_, ?_⟩
    · intro a ha
      rcases List.mem_cons.mp ha with rfl | ha
      · exact ⟨.inl hreadable, by rw [hvalue]; exact hfits⟩
      · exact hnormal a ha
    · exact reaches_switchArgs hargs _
    · have hencode (after : BitVec 32) : r.encode after 0 = opcodeBytes ceeSwitch ++ operand := by
        have hfour : bytesOfNat 4 (natOfBytes operand) = operand := by
          rw [← hlen, bytesOfNat_natOfBytes]
        rw [RawInstr.encode, RawInstr.operand, if_neg hne, hvalue]
        exact congrArg _ hfour
      rw [encodeAll, hencode, base_switch hpart, hlength, List.append_assoc, List.append_assoc]
      rfl
    · rfl
  · rw [if_neg hswitch] at hread
    obtain ⟨operand, behind', htake, hdone⟩ := Cursor.bind_eq_some hread
    obtain ⟨rfl, hlen⟩ := takeN_eq_some htake
    cases hdone
    obtain ⟨hnormal, hreach, hoperand⟩ :=
      operand_importOperand hreadable hswitch hlen (st.offset + (opcodeBytes opcode).length)
    have hafter : st.offset + instrSize opcode
        = st.offset + (opcodeBytes opcode).length + (opCodeFlags opcode).size := by
      rw [instrSize, operandSize_plain hswitch, Nat.add_assoc]
    let r : RawInstr := ⟨opcode, importOperand (opCodeFlags opcode)
      (st.offset + (opcodeBytes opcode).length) operand⟩
    have hplain : r.part = .plain :=
      part_plain.mpr ⟨fun hop => hswitch (by rw [show opcode = ceeSwitch from hop]; rfl), hne⟩
    refine ⟨[r], .plain r hplain, ?_, ⟨fun hshort => ?_, trivial⟩, ?_, ?_⟩
    · intro a ha
      rw [List.mem_singleton.mp ha]
      exact hnormal
    · have hsize : (opCodeFlags opcode).size = 1 := by rw [show opCodeFlags opcode = _ from hshort]; rfl
      rw [hafter, hsize]
      exact hreach hshort
    · rw [encodeAll, encodeAll, List.append_nil, RawInstr.encode, hafter, hoperand, List.append_assoc]
    · rw [addAll, List.foldl_cons, List.foldl_nil, addRaw, if_neg hne, decide_eq_false hswitch,
        Bool.or_false, hafter]

/-! ### The loop -/

theorem addAll_offset (st : Import) (rs : List RawInstr) :
    (addAll st rs).offset = st.offset + rawSize rs := by
  induction rs generalizing st with
  | nil => rfl
  | cons r rs ih =>
      rw [addAll, List.foldl_cons, ← addAll, ih, rawSize_cons, addRaw, Nat.add_assoc]

theorem addAll_append (st : Import) (rs qs : List RawInstr) :
    addAll st (rs ++ qs) = addAll (addAll st rs) qs := List.foldl_append

theorem importLoop_succ {n : ℕ} {st : Import} {bs : List Byte} (h : bs ≠ []) :
    importLoop (n + 1) st bs = (importInstr st bs).bind fun r => importLoop n r.1 r.2 := by
  cases bs with
  | nil => exact absurd rfl h
  | cons b bs => rfl

theorem rawSize_pos {r : RawInstr} {rs : List RawInstr} (h : Normal r) : 0 < rawSize (r :: rs) := by
  rw [rawSize_cons]
  exact Nat.add_pos_left h.importable.size_pos _

theorem Group.rawSize_pos {g : List RawInstr} (hg : Group g) (h : ∀ r ∈ g, Normal r) :
    0 < rawSize g := by
  cases hg with
  | plain r _ => exact IL.rawSize_pos (h r List.mem_cons_self)
  | switch r args _ _ => exact IL.rawSize_pos (h r List.mem_cons_self)

theorem encodeAll_ne_nil {g : List RawInstr} (hsize : 0 < rawSize g) (here : ℕ)
    (switchBase : BitVec 32) (rest : List Byte) : encodeAll here switchBase g ++ rest ≠ [] := by
  intro h
  have hlen := length_encode here switchBase g
  rw [(List.append_eq_nil_iff.mp h).1] at hlen
  exact absurd hlen (Nat.ne_of_lt hsize)

/-- The loop reads the code of every list whose switches are complete and whose short
branches reach. -/
theorem importLoop_reads {n : ℕ} {st : Import} {rs : List RawInstr} (hnormal : ∀ r ∈ rs, Normal r)
    (hblocks : blocks 0 (rs.map RawInstr.part) = true) (hreach : Reaches st.offset rs)
    (hn : rawSize rs ≤ n) :
    importLoop n st (encodeAll st.offset 0 rs) = some (addAll st rs) := by
  induction n generalizing st rs with
  | zero =>
      cases rs with
      | nil => rfl
      | cons r rs =>
          exact absurd hn (Nat.not_le.mpr (rawSize_pos (hnormal r List.mem_cons_self)))
  | succ n ih =>
      by_cases hrs : rs = []
      · subst hrs
        rfl
      · obtain ⟨g, rest, rfl, hg, hrest⟩ := blocks_group hblocks hrs
        obtain ⟨hreach, hreachRest⟩ := reaches_append.mp hreach
        have hnormalG : ∀ r ∈ g, Normal r := fun r hr => hnormal r (List.mem_append_left _ hr)
        have hsize := hg.rawSize_pos hnormalG
        rw [rawSize_append] at hn
        rw [encodeAll_append hrest st.offset 0 0,
          importLoop_succ (encodeAll_ne_nil hsize _ _ _),
          importInstr_reads hg hnormalG hreach 0 _, Option.bind_some, addAll_append]
        rw [← addAll_offset] at hreachRest ⊢
        exact ih (fun r hr => hnormal r (List.mem_append_right _ hr)) hrest hreachRest (by omega)

/-- What the loop accepts is the code of such a list. -/
theorem importLoop_eq_some {n : ℕ} {st st' : Import} {bs : List Byte}
    (h : importLoop n st bs = some st') :
    ∃ rs, (∀ r ∈ rs, Normal r) ∧ blocks 0 (rs.map RawInstr.part) = true ∧ Reaches st.offset rs
      ∧ bs = encodeAll st.offset 0 rs ∧ st' = addAll st rs := by
  induction n generalizing st bs with
  | zero =>
      cases bs with
      | nil =>
          cases h
          exact ⟨[], (fun _ hr => nomatch hr), rfl, trivial, rfl, rfl⟩
      | cons b bs => cases h
  | succ n ih =>
      by_cases hbs : bs = []
      · subst hbs
        cases h
        exact ⟨[], (fun _ hr => nomatch hr), rfl, trivial, rfl, rfl⟩
      · rw [importLoop_succ hbs] at h
        obtain ⟨⟨m, behind⟩, hinstr, hloop⟩ := Option.bind_eq_some_iff.mp h
        obtain ⟨g, hg, hnormalG, hreachG, rfl, rfl⟩ := importInstr_eq_some hinstr
        obtain ⟨rs, hnormal, hblocks, hreach, hcode, rfl⟩ := ih hloop
        rw [addAll_offset] at hreach hcode
        refine ⟨g ++ rs, ?_, hg.blocks hblocks, reaches_append.mpr ⟨hreachG, hreach⟩, ?_, ?_⟩
        · intro r hr
          rcases List.mem_append.mp hr with hr | hr
          · exact hnormalG r hr
          · exact hnormal r hr
        · rw [encodeAll_append hblocks st.offset 0 0]
          exact congrArg _ hcode
        · rw [addAll_append]

end AutoInstrumentation.IL
