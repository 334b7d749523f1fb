import AutoInstrumentation.IL.Import
import Mathlib.Data.List.Nodup

/-!
# AutoInstrumentation.IL.Reimport

Lists of instructions that survive being written and read again.

A well-formed list has distinct instructions, branches that stay among them, and
switches with all their targets. Its code is imported to the same instructions in the
same places, once no short branch is out of reach; and a list that was imported is well
formed, settled, and has the code it was imported from.
-/

namespace AutoInstrumentation.IL

open AutoInstrumentation.Lib

/-! ### Positions -/

/-- The position of an instruction in the list; the sentinel stands behind the last. -/
def position (is : List ILInstr) (p : InstrPtr) : ℕ := is.findIdx fun i => decide (p = .instr i.ptr)

theorem position_le (is : List ILInstr) (p : InstrPtr) : position is p ≤ is.length :=
  List.findIdx_le_length

theorem position_il (is : List ILInstr) : position is .il = is.length := by
  refine List.findIdx_eq_length.mpr fun i _ => ?_
  rw [decide_eq_false (fun h => nomatch h)]

theorem offsetOf_eq (is : List ILInstr) (p : InstrPtr) :
    offsetOf is p = codeSize (is.take (position is p)) := by
  induction is with
  | nil => rfl
  | cons i is ih =>
      rw [offsetOf, position, List.findIdx_cons]
      by_cases hp : p = .instr i.ptr
      · rw [if_pos hp, decide_eq_true hp]
        rfl
      · rw [if_neg hp, decide_eq_false hp, ih]
        rfl

theorem position_getElem {is : List ILInstr} {p : InstrPtr} {i : ILInstr}
    (h : is[position is p]? = some i) : p = .instr i.ptr := by
  obtain ⟨hlt, rfl⟩ := List.getElem?_eq_some_iff.mp h
  exact of_decide_eq_true (List.findIdx_getElem (w := hlt))

theorem position_ptr {is : List ILInstr} (hnodup : (is.map (·.ptr)).Nodup) {m : ℕ} {i : ILInstr}
    (h : is[m]? = some i) : position is (.instr i.ptr) = m := by
  obtain ⟨hlt, rfl⟩ := List.getElem?_eq_some_iff.mp h
  have hle : position is (.instr is[m].ptr) ≤ m := by
    refine Nat.le_of_not_lt fun hgt => ?_
    have := List.not_of_lt_findIdx hgt
    rw [decide_eq_true rfl] at this
    exact Bool.false_ne_true this.symm
  have hlt' : position is (.instr is[m].ptr) < is.length := Nat.lt_of_le_of_lt hle hlt
  have hptr := position_getElem (List.getElem?_eq_getElem hlt')
  have hm : m < (is.map (·.ptr)).length := by rwa [List.length_map]
  have hn : position is (.instr is[m].ptr) < (is.map (·.ptr)).length := by rwa [List.length_map]
  have heq : (is.map (·.ptr))[position is (.instr is[m].ptr)] = (is.map (·.ptr))[m] := by
    rw [List.getElem_map, List.getElem_map]
    exact (InstrPtr.instr.inj hptr).symm
  exact (List.Nodup.getElem_inj_iff hnodup).mp heq

theorem position_congr {is js : List ILInstr} (h : js.map (·.ptr) = is.map (·.ptr))
    (p : InstrPtr) : position js p = position is p := by
  have hmap (ks : List ILInstr) :
      position ks p = (ks.map (·.ptr)).findIdx fun n => decide (p = .instr n) := by
    rw [List.findIdx_map]
    rfl
  rw [hmap, hmap, h]

/-! ### Sizes -/

theorem codeSize_eq_sum (is : List ILInstr) :
    codeSize is = ((is.map (·.opcode)).map instrSize).sum := by
  induction is with
  | nil => rfl
  | cons i is ih => rw [codeSize, ih, List.map_cons, List.map_cons, List.sum_cons]

theorem rawSize_eq_codeSize {rs : List RawInstr} {is : List ILInstr}
    (h : is.map (·.opcode) = rs.map (·.opcode)) (m : ℕ) :
    rawSize (rs.take m) = codeSize (is.take m) := by
  have hraw : rawSize (rs.take m) = (((rs.take m).map (·.opcode)).map instrSize).sum := by
    rw [rawSize, List.map_map]
    rfl
  have htake : (is.take m).map (·.opcode) = (rs.take m).map (·.opcode) := by
    rw [List.map_take, List.map_take, h]
  rw [hraw, codeSize_eq_sum, htake]

theorem raw_opcodes (offsets : InstrPtr → ℕ) (is : List ILInstr) :
    is.map (·.opcode) = (is.map (ILInstr.raw offsets)).map (·.opcode) := by
  rw [List.map_map]
  rfl

theorem codeSize_take_le (is : List ILInstr) (m : ℕ) : codeSize (is.take m) ≤ codeSize is := by
  have hsplit := List.take_append_drop m (is.map (·.opcode))
  rw [codeSize_eq_sum, codeSize_eq_sum, List.map_take]
  conv_rhs => rw [← hsplit, List.map_append, List.sum_append]
  exact Nat.le_add_right _ _

/-! ### Well-formed lists -/

/-- `RawInstr.part`, of an instruction of the list. -/
def ILInstr.part (i : ILInstr) : Part := IL.part i.opcode i.arg32

theorem raw_part (offsets : InstrPtr → ℕ) (i : ILInstr) : (i.raw offsets).part = i.part := by
  rw [RawInstr.part, ILInstr.part, ILInstr.raw_opcode, part, part]
  split
  · next hswitch =>
      rw [raw_switch_arg32 hswitch]
  · rfl

/-- A list whose instructions are distinct, whose branches go to instructions of the list
or to its end, and whose switches are complete. -/
structure WellFormed (is : List ILInstr) : Prop extends Closed is where
  blocks : blocks 0 (is.map ILInstr.part) = true
  notArg : ∀ i ∈ is, (opCodeFlags i.opcode).branchTarget = true →
    ∀ j ∈ is, i.target = .instr j.ptr → j.opcode ≠ ceeSwitchArg

theorem part_widen {i : ILInstr} (h : opCodeFlags i.opcode = .shortBranch) :
    i.widen.part = i.part := by
  have hlong := opCodeFlags_longBranch (shortBranch_cases h)
  have hplain {opcode : ℕ} (hs : opcode ≠ ceeSwitch) (ha : opcode ≠ ceeSwitchArg) (v : BitVec 32) :
      IL.part opcode v = .plain := by rw [IL.part, if_neg hs, if_neg ha]
  rw [ILInstr.part, ILInstr.part, hplain, hplain]
  · intro heq
    rw [heq] at h
    cases h
  · intro heq
    rw [heq] at h
    cases h
  · intro heq
    rw [show i.widen.opcode = longBranch i.opcode from rfl] at heq
    rw [heq] at hlong
    cases hlong
  · exact longBranch_ne_switchArg h

theorem map_part_widenFar (offsets : InstrPtr → ℕ) (here : ℕ) (is : List ILInstr) :
    (widenFar offsets here is).map ILInstr.part = is.map ILInstr.part := by
  induction is generalizing here with
  | nil => rfl
  | cons i is ih =>
      rw [widenFar, List.map_cons, List.map_cons, ih]
      congr 1
      split
      · next hfar => exact part_widen hfar.1
      · rfl

theorem mem_widenFar {offsets : InstrPtr → ℕ} {here : ℕ} {is : List ILInstr} {j : ILInstr}
    (h : j ∈ widenFar offsets here is) :
    ∃ i ∈ is, j = i ∨ opCodeFlags i.opcode = .shortBranch ∧ j = i.widen := by
  induction is generalizing here with
  | nil => cases h
  | cons i is ih =>
      rcases List.mem_cons.mp h with rfl | h
      · refine ⟨i, List.mem_cons_self, ?_⟩
        split
        · next hfar => exact .inr ⟨hfar.1, rfl⟩
        · exact .inl rfl
      · obtain ⟨a, ha, hja⟩ := ih h
        exact ⟨a, List.mem_cons_of_mem i ha, hja⟩

theorem WellFormed.widenFar {is : List ILInstr} (h : WellFormed is) (offsets : InstrPtr → ℕ)
    (here : ℕ) : WellFormed (widenFar offsets here is) where
  toClosed := h.toClosed.widenFar offsets here
  blocks := by
    rw [map_part_widenFar]
    exact h.blocks
  notArg := by
    intro i hi hbranch j hj htarget
    obtain ⟨i', hi', hii'⟩ := mem_widenFar hi
    obtain ⟨j', hj', hjj'⟩ := mem_widenFar hj
    have hptr : j.ptr = j'.ptr := by rcases hjj' with rfl | ⟨-, rfl⟩ <;> rfl
    have htarget' : i'.target = .instr j'.ptr := by
      rw [← hptr, ← htarget]
      rcases hii' with rfl | ⟨-, rfl⟩ <;> rfl
    have hbranch' : (opCodeFlags i'.opcode).branchTarget = true := by
      rcases hii' with rfl | ⟨hshort, -⟩
      · exact hbranch
      · rw [hshort]
        rfl
    have hne := h.notArg i' hi' hbranch' j' hj' htarget'
    rcases hjj' with rfl | ⟨hshort, rfl⟩
    · exact hne
    · exact longBranch_ne_switchArg hshort

theorem WellFormed.settle {is : List ILInstr} (h : WellFormed is) : WellFormed (settle is) :=
  settle_induction (fun is (hwf : WellFormed is) => hwf.widenFar _ _) is h

/-! ### The code of a list -/

theorem reaches_raw {offsets : InstrPtr → ℕ} {here : ℕ} {is : List ILInstr} :
    Reaches here (is.map (ILInstr.raw offsets)) ↔ anyFar offsets here is = false := by
  induction is generalizing here with
  | nil => exact ⟨fun _ => rfl, fun _ => trivial⟩
  | cons i is ih =>
      rw [List.map_cons, Reaches, anyFar, Bool.or_eq_false_iff, decide_eq_false_iff_not, Far,
        not_and, ILInstr.raw_opcode, ih]
      refine and_congr_left fun _ => forall_congr' fun hshort => ?_
      rw [raw_arg32 (by rw [hshort]; rfl)]

theorem raw_normal {offsets : InstrPtr → ℕ} {i : ILInstr} (h : Importable i.opcode) :
    Normal (i.raw offsets) := by
  refine ⟨h, ?_⟩
  rw [ILInstr.raw_opcode, argSize, ILInstr.raw]
  split
  · rw [BitVec.toNat_setWidth]
    exact Nat.lt_of_le_of_lt (Nat.mod_le _ _) (BitVec.isLt _)
  · rw [BitVec.toNat_ofNat]
    refine Nat.lt_of_le_of_lt (Nat.mod_le _ _) (Nat.mod_lt _ (Nat.pow_pos (by decide)))

/-- A branch target of a well-formed list is an offset that the import finds. -/
theorem WellFormed.startsAt {is : List ILInstr} (h : WellFormed is) (hsize : codeSize is < 2 ^ 32)
    {i : ILInstr} (hi : i ∈ is) (hbranch : (opCodeFlags i.opcode).branchTarget = true) :
    StartsAt (is.map (ILInstr.raw (offsetOf is))) (position is i.target)
      (i.raw (offsetOf is)).arg32.toNat := by
  have hoffset : offsetOf is i.target < 2 ^ 32 := by
    rw [offsetOf_eq]
    exact Nat.lt_of_le_of_lt (codeSize_take_le is _) hsize
  refine ⟨by rw [List.length_map]; exact position_le is _, ?_, ?_⟩
  · rw [raw_arg32 hbranch, BitVec.toNat_ofNat, Nat.mod_eq_of_lt hoffset, offsetOf_eq,
      rawSize_eq_codeSize (raw_opcodes _ is)]
  · intro r hr
    rw [List.getElem?_map] at hr
    obtain ⟨j, hj, rfl⟩ := Option.map_eq_some_iff.mp hr
    exact h.notArg i hi hbranch j (List.mem_of_getElem? hj) (position_getElem hj)

/-! ### Reading a list back -/

/-- `j`, of the list `js`, is the instruction `i` of the list `is`: it has the same opcode
or its long form, the same operand, and the same target. -/
structure SameInstr (is js : List ILInstr) (i j : ILInstr) : Prop where
  opcode : j.opcode = i.opcode ∨
    (i.opcode = ceeLeaveS ∨ ceeBrS ≤ i.opcode ∧ i.opcode ≤ ceeBltUnS)
      ∧ j.opcode = longBranch i.opcode
  operand : (opCodeFlags i.opcode).branchTarget = false →
    j.arg.toNat % 256 ^ operandSize (opCodeFlags i.opcode)
      = i.arg.toNat % 256 ^ operandSize (opCodeFlags i.opcode)
  target : (opCodeFlags i.opcode).branchTarget = true →
    Linked js j.target ∧ position js j.target = position is i.target

/-- The lists have the same instructions, in the same order. -/
def SameInstrs (is js : List ILInstr) : Prop := List.Forall₂ (SameInstr is js) is js

theorem ImportedAs.opcodes {rs : List RawInstr} {is : List ILInstr} (h : ImportedAs rs is) :
    is.map (·.opcode) = rs.map (·.opcode) := by
  refine List.ext_getElem? fun m => ?_
  rw [List.getElem?_map, List.getElem?_map]
  cases hi : is[m]? with
  | none =>
      have hlen := List.getElem?_eq_none_iff.mp hi
      rw [h.length] at hlen
      rw [List.getElem?_eq_none hlen]
      rfl
  | some i =>
      obtain ⟨r, hr, -, hop, -⟩ := h.instrs m i hi
      rw [hr, Option.map_some, Option.map_some, hop]

theorem ImportedAs.nodup {rs : List RawInstr} {is : List ILInstr} (h : ImportedAs rs is) :
    (is.map (·.ptr)).Nodup := by
  rw [List.nodup_iff_getElem?_ne_getElem?]
  intro m n hmn hn heq
  rw [List.length_map] at hn
  rw [List.getElem?_map, List.getElem?_map, List.getElem?_eq_getElem hn,
    List.getElem?_eq_getElem (Nat.lt_trans hmn hn), Option.map_some, Option.map_some,
    Option.some_inj] at heq
  obtain ⟨-, -, hm, -⟩ := h.instrs m _ (List.getElem?_eq_getElem (Nat.lt_trans hmn hn))
  obtain ⟨-, -, hn', -⟩ := h.instrs n _ (List.getElem?_eq_getElem hn)
  omega

/-- The address at a position of an imported list. -/
theorem ImportedAs.ptrAt {rs : List RawInstr} {is : List ILInstr} (h : ImportedAs rs is) {m : ℕ}
    (hm : m ≤ rs.length) :
    Linked is (ptrAt rs.length m) ∧ position is (ptrAt rs.length m) = m := by
  rw [IL.ptrAt]
  split
  · next hlt =>
      have hlt' : m < is.length := by rwa [h.length]
      have hget := List.getElem?_eq_getElem hlt'
      obtain ⟨-, -, hptr, -⟩ := h.instrs m _ hget
      rw [← hptr]
      exact ⟨.inr ⟨_, List.getElem_mem hlt', rfl⟩, position_ptr h.nodup hget⟩
  · next hge =>
      refine ⟨.inl rfl, ?_⟩
      rw [position_il, h.length]
      exact Nat.le_antisymm (Nat.le_of_not_lt hge) hm

/-- **The code of a settled list is imported to the same instructions.** -/
theorem importIL_code {s : ILRewriter} {is : List ILInstr} (hinstrs : s.instrs = [])
    (hn : s.nInstrs = 0) (hwf : WellFormed is) (hsettled : Settled is)
    (hsize : codeSize is < 2 ^ 32) :
    ∃ t, s.importIL (code is) = some t
      ∧ List.Forall₂ (fun i j => j.opcode = i.opcode ∧ SameInstr is t.instrs i j) is t.instrs := by
  have hnormal : ∀ r ∈ is.map (ILInstr.raw (offsetOf is)), Normal r := by
    intro r hr
    obtain ⟨i, hi, rfl⟩ := List.mem_map.mp hr
    exact raw_normal (hwf.importable i hi)
  have hparts : (is.map (ILInstr.raw (offsetOf is))).map RawInstr.part = is.map ILInstr.part := by
    rw [List.map_map]
    exact List.map_congr_left fun i _ => raw_part _ i
  obtain ⟨t, ht⟩ := importIL_progress hinstrs hn hnormal (hparts ▸ hwf.blocks)
    (reaches_raw.mpr hsettled) fun r hr hbranch => by
      obtain ⟨i, hi, rfl⟩ := List.mem_map.mp hr
      exact ⟨_, hwf.startsAt hsize hi hbranch⟩
  have himported := (imports_encodeAll hinstrs hn hnormal (hparts ▸ hwf.blocks)
    (reaches_raw.mpr hsettled) ht).instrs
  refine ⟨t, ht, List.forall₂_iff_get.mpr ⟨?_, fun m hm hm' => ?_⟩⟩
  · rw [himported.length, List.length_map]
  · rw [List.get_eq_getElem, List.get_eq_getElem]
    obtain ⟨r, hr, -, hop, harg, htarget⟩ := himported.instrs m _ (List.getElem?_eq_getElem hm')
    rw [List.getElem?_map, List.getElem?_eq_getElem hm, Option.map_some, Option.some_inj] at hr
    subst hr
    rw [ILInstr.raw_opcode] at hop htarget
    refine ⟨hop, .inl hop, fun hbranch => ?_, fun hbranch => ?_⟩
    · have hsmall : is[m].arg.toNat % 256 ^ operandSize (opCodeFlags is[m].opcode) < 2 ^ 64 :=
        Nat.lt_of_le_of_lt (Nat.mod_le _ _) is[m].arg.isLt
      simp only [harg, ILInstr.raw, hbranch, Bool.false_eq_true, if_false]
      rw [BitVec.toNat_ofNat, Nat.mod_eq_of_lt hsmall, Nat.mod_mod]
    · obtain ⟨n, hstart, hptr⟩ := htarget hbranch
      have heq := startsAt_unique hnormal hstart
        (hwf.startsAt hsize (List.getElem_mem hm) hbranch)
      rw [hptr, heq]
      refine himported.ptrAt ?_
      rw [List.length_map]
      exact position_le is _

/-! ### Imported lists -/

/-- **An imported list is well formed, settled, and has the code it was imported from.** -/
theorem imported_wellFormed {rs : List RawInstr} {is : List ILInstr} (h : ImportedAs rs is)
    (hnormal : ∀ r ∈ rs, Normal r) (hblocks : blocks 0 (rs.map RawInstr.part) = true)
    (hreach : Reaches 0 rs) :
    WellFormed is ∧ Settled is ∧ is.map (ILInstr.raw (offsetOf is)) = rs := by
  have hinstr : ∀ i ∈ is, ∃ (m : ℕ) (r : RawInstr), is[m]? = some i ∧ rs[m]? = some r ∧ i.opcode = r.opcode
      ∧ i.arg = r.arg ∧ ((opCodeFlags r.opcode).branchTarget = true →
        ∃ n, StartsAt rs n r.arg32.toNat ∧ i.target = IL.ptrAt rs.length n) := by
    intro i hi
    obtain ⟨m, hm⟩ := List.mem_iff_getElem?.mp hi
    obtain ⟨r, hr, -, hrest⟩ := h.instrs m i hm
    exact ⟨m, r, hm, hr, hrest⟩
  have hraw : is.map (ILInstr.raw (offsetOf is)) = rs := by
    refine List.ext_getElem? fun m => ?_
    rw [List.getElem?_map]
    cases hi : is[m]? with
    | none =>
        have hlen := List.getElem?_eq_none_iff.mp hi
        rw [h.length] at hlen
        rw [List.getElem?_eq_none hlen]
        rfl
    | some i =>
        obtain ⟨r, hr, -, hop, harg, htarget⟩ := h.instrs m i hi
        have hfits := (hnormal r (List.mem_of_getElem? hr)).fits
        rw [hr, Option.map_some, ILInstr.raw, hop]
        congr 1
        rw [argSize] at hfits
        split
        · next hbranch =>
            obtain ⟨n, hstart, hptr⟩ := htarget hbranch
            have hoffset : offsetOf is i.target = r.arg32.toNat := by
              rw [hptr, offsetOf_eq, (h.ptrAt hstart.1).2, ← rawSize_eq_codeSize h.opcodes,
                hstart.2.1]
            rw [if_pos hbranch] at hfits
            rw [hoffset, BitVec.ofNat_toNat, BitVec.setWidth_eq, setWidth_arg32 hfits]
        · next hbranch =>
            rw [if_neg hbranch] at hfits
            rw [harg, Nat.mod_eq_of_lt hfits, BitVec.ofNat_toNat, BitVec.setWidth_eq]
  refine ⟨⟨⟨h.nodup, ?_, ?_⟩, ?_, ?_⟩, ?_, hraw⟩
  · intro i hi
    obtain ⟨m, r, -, hr, hop, -⟩ := hinstr i hi
    rw [hop]
    exact (hnormal r (List.mem_of_getElem? hr)).importable
  · intro i hi hbranch
    obtain ⟨m, r, -, hr, hop, -, htarget⟩ := hinstr i hi
    obtain ⟨n, hstart, hptr⟩ := htarget (hop ▸ hbranch)
    rw [hptr]
    exact (h.ptrAt hstart.1).1
  · rw [← hraw, List.map_map] at hblocks
    rw [← hblocks]
    congr 1
    exact List.map_congr_left fun i _ => (raw_part _ i).symm
  · intro i hi hbranch j hj heq
    obtain ⟨m, r, -, hr, hop, -, htarget⟩ := hinstr i hi
    obtain ⟨n, hstart, hptr⟩ := htarget (hop ▸ hbranch)
    obtain ⟨k, r', hk, hr', hop', -⟩ := hinstr j hj
    have hposition := (h.ptrAt hstart.1).2
    rw [← hptr, heq, position_ptr h.nodup hk] at hposition
    rw [hop']
    exact hstart.2.2 r' (hposition ▸ hr')
  · exact reaches_raw.mp (by rwa [hraw])

end AutoInstrumentation.IL
