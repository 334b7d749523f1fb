import AutoInstrumentation.CallTarget.Rewrite

/-!
# AutoInstrumentation.CallTarget.Emission

What emissions do to the instruction list.

An emission links a block of new instructions in before the position. The addresses of
the block are new, its opcodes are among a few, and its branches go to instructions of
the list; the rest of the list stays as it is. A block is described up to the targets of
its branches, which are set later than the instruction is emitted.
-/

namespace AutoInstrumentation.CallTarget

open AutoInstrumentation.IL

/-- The opcodes of the code that is emitted. -/
def emittedOpcodes : List ℕ :=
  [0x02, 0x03, 0x04, 0x05, 0x06, 0x07, 0x08, 0x09, 0x0A, 0x0B, 0x0C, 0x0D,
   ceeLdargS, ceeLdargaS, ceeLdlocS, ceeLdlocaS, ceeStlocS, ceeLdnull,
   0x16, 0x17, 0x18, 0x19, 0x1A, 0x1B, 0x1C, 0x1D, 0x1E, ceeLdcI4S, ceeLdcI4, ceeDup, ceePop,
   ceeCall, ceeBrS, ceeBrtrueS, ceeCallvirt, ceeLdobj, ceeIsinst, ceeBox, ceeNewarr,
   ceeStelemRef, ceeLdtoken, ceeEndfinally, ceeLeaveS, ceeConvU, ceeCeq, ceeCgtUn, ceeLdarg,
   ceeLdarga, ceeLdloc, ceeLdloca, ceeStloc, ceeEndfilter, ceeRethrow]

theorem emittedOpcodes_importable : ∀ opcode ∈ emittedOpcodes, Importable opcode := by decide

theorem emittedOpcodes_ne_ret : ∀ opcode ∈ emittedOpcodes, opcode ≠ ceeRet := by decide

/-- An instruction but for its target. -/
def erased (i : ILInstr) : ILInstr := { i with target := .il }

@[simp] theorem erased_ptr (i : ILInstr) : (erased i).ptr = i.ptr := rfl

@[simp] theorem erased_opcode (i : ILInstr) : (erased i).opcode = i.opcode := rfl

/-- The list around a block, the last address that was given out before it, and the
clauses. -/
structure Context where
  pre : List ILInstr
  post : List ILInstr
  base : ℕ
  eh : List EHClause

/-- The wrapper has emitted `new`. -/
structure HasEmitted (c : Context) (new : List ILInstr) (w : ILRewriterWrapper) : Prop where
  instrs : w.rewriter.instrs = c.pre ++ new ++ c.post
  position : w.ilInstr = headPtr c.post
  nodup : ((c.pre ++ new ++ c.post).map (·.ptr)).Nodup
  old : ∀ i ∈ c.pre ++ c.post, i.ptr ≤ c.base
  fresh : ∀ i ∈ new, c.base < i.ptr ∧ i.ptr ≤ w.rewriter.nInstrs
  base : c.base ≤ w.rewriter.nInstrs
  opcodes : ∀ i ∈ new, i.opcode ∈ emittedOpcodes
  targets : ∀ i ∈ new, Linked (c.pre ++ new ++ c.post) i.target
  eh : w.rewriter.eh = c.eh
  fGenerateTinyHeader : w.rewriter.fGenerateTinyHeader = false

/-- The wrapper has emitted `block`, up to targets. -/
def Emitting (c : Context) (block : List ILInstr) (w : ILRewriterWrapper) : Prop :=
  ∃ new : List ILInstr, new.map erased = block ∧ HasEmitted c new w

/-- **What an emission inserts.** When `known` is among what was emitted and the emission
succeeds, it has emitted a block more, of which and of its result `Q` holds. -/
def Inserts {α : Type} (c : Context) (known : List ILInstr) (m : Emit α)
    (Q : α → List ILInstr → Prop) : Prop :=
  ∀ ⦃shape w a w'⦄, known ⊆ shape → Emitting c shape w → m w = .ok (a, w') →
    ∃ block, Emitting c (shape ++ block) w' ∧ Q a block

/-! ### Composing emissions -/

theorem Emit.bind_eq_ok {α β : Type} {m : Emit α} {f : α → Emit β} {w w' : ILRewriterWrapper}
    {b : β} (h : (m >>= f) w = .ok (b, w')) :
    ∃ a w₁, m w = .ok (a, w₁) ∧ f a w₁ = .ok (b, w') := by
  change (m w >>= fun r => f r.1 r.2) = _ at h
  obtain ⟨⟨a, w₁⟩, hm, hf⟩ := IL.bind_eq_ok h
  exact ⟨a, w₁, hm, hf⟩

namespace Inserts

variable {α β : Type} {c : Context} {known : List ILInstr}

theorem mono {m : Emit α} {Q R : α → List ILInstr → Prop} (hm : Inserts c known m Q)
    (h : ∀ a block, Q a block → R a block) : Inserts c known m R := by
  intro shape w a w' hknown hw hrun
  obtain ⟨block, hemit, hQ⟩ := hm hknown hw hrun
  exact ⟨block, hemit, h a block hQ⟩

theorem pure {a : α} {Q : α → List ILInstr → Prop} (h : Q a []) :
    Inserts c known (Pure.pure a : Emit α) Q := by
  intro shape w b w' _ hw hrun
  cases hrun
  exact ⟨[], by rwa [List.append_nil], h⟩

/-- One emission after another; what the first one emits is known to the second. -/
theorem bind {m : Emit α} {f : α → Emit β} {Q : α → List ILInstr → Prop}
    {R : β → List ILInstr → Prop} (hm : Inserts c known m Q)
    (hf : ∀ a block, Q a block →
      Inserts c (known ++ block) (f a) fun b rest => R b (block ++ rest)) :
    Inserts c known (m >>= f) R := by
  intro shape w b w' hknown hw hrun
  obtain ⟨a, w₁, hfirst, hsecond⟩ := Emit.bind_eq_ok hrun
  obtain ⟨block, hemit, hQ⟩ := hm hknown hw hfirst
  have hknown' : known ++ block ⊆ shape ++ block :=
    List.append_subset.mpr ⟨fun i hi => List.mem_append_left _ (hknown hi),
      fun i hi => List.mem_append_right _ hi⟩
  obtain ⟨rest, hemit', hR⟩ := hf a block hQ hknown' hemit hsecond
  exact ⟨block ++ rest, by rwa [← List.append_assoc], hR⟩

theorem skip {Q : α → List ILInstr → Prop} : Inserts c known Emit.skip Q := by
  intro shape w a w' _ _ hrun
  cases hrun

theorem ofOption {o : Option α} : Inserts c known (Emit.ofOption o) fun _ block => block = [] := by
  intro shape w a w' _ hw hrun
  cases o with
  | none => cases hrun
  | some a =>
      cases hrun
      exact ⟨[], by rwa [List.append_nil], rfl⟩

theorem ite {p : Prop} [Decidable p] {m m' : Emit α} {Q : α → List ILInstr → Prop}
    (ht : p → Inserts c known m Q) (he : ¬p → Inserts c known m' Q) :
    Inserts c known (if p then m else m') Q := by
  split
  · next h => exact ht h
  · next h => exact he h

end Inserts

/-! ### One instruction -/

/-- The block is the instruction with this opcode that `p` is the address of. -/
def IsInstr (opcode : ℕ) (arg : BitVec 64) (p : InstrPtr) (block : List ILInstr) : Prop :=
  ∃ n, p = .instr n ∧ block = [⟨n, opcode, .il, arg⟩]

theorem linked_append {is js : List ILInstr} {p : InstrPtr} (hsub : is ⊆ js) (h : Linked is p) :
    Linked js p := by
  rcases h with rfl | ⟨i, hi, rfl⟩
  · exact .inl rfl
  · exact .inr ⟨i, hsub hi, rfl⟩

/-- The position is not the address of an instruction before it. -/
theorem position_ne {pre post : List ILInstr} (h : ((pre ++ post).map (·.ptr)).Nodup) :
    ∀ i ∈ pre, headPtr post ≠ .instr i.ptr := by
  intro i hi heq
  cases post with
  | nil => cases heq
  | cons j post =>
      have hptr : j.ptr = i.ptr := InstrPtr.instr.inj heq
      rw [List.map_append, List.nodup_append] at h
      exact h.2.2 i.ptr (List.mem_map_of_mem hi) j.ptr (List.mem_map_of_mem List.mem_cons_self)
        hptr.symm

theorem createInstr_inserts {c : Context} {known : List ILInstr} {opCode : ℕ}
    (hop : opCode ∈ emittedOpcodes) (arg : BitVec 64) :
    Inserts c known (createInstr opCode arg) (IsInstr opCode arg) := by
  rintro shape w p w' - ⟨new, rfl, hw⟩ hrun
  cases hrun
  let i : ILInstr := ⟨w.rewriter.nInstrs + 1, opCode, .il, arg⟩
  refine ⟨[i], ⟨new ++ [i], by rw [List.map_append]; rfl, ?_⟩, _, rfl, rfl⟩
  have hinstrs : linkBefore w.ilInstr i w.rewriter.instrs = c.pre ++ (new ++ [i]) ++ c.post := by
    rw [hw.instrs, hw.position, linkBefore_append (position_ne hw.nodup) rfl]
    simp only [List.append_assoc, List.singleton_append]
  have hperm : (c.pre ++ (new ++ [i]) ++ c.post).Perm (i :: (c.pre ++ new ++ c.post)) := by
    simp only [← List.append_assoc]
    rw [List.append_assoc (c.pre ++ new) [i] c.post]
    exact List.perm_middle
  refine
    { instrs := hinstrs, position := hw.position, old := hw.old
      base := Nat.le_succ_of_le hw.base, eh := hw.eh
      fGenerateTinyHeader := hw.fGenerateTinyHeader, nodup := ?_, fresh := ?_, opcodes := ?_
      targets := ?_ }
  · rw [(hperm.map _).nodup_iff, List.map_cons, List.nodup_cons]
    refine ⟨fun hmem => ?_, hw.nodup⟩
    obtain ⟨j, hj, hptr⟩ := List.mem_map.mp hmem
    have hle : j.ptr ≤ w.rewriter.nInstrs := by
      rcases List.mem_append.mp hj with hj | hj
      · rcases List.mem_append.mp hj with hj | hj
        · exact Nat.le_trans (hw.old j (List.mem_append_left _ hj)) hw.base
        · exact (hw.fresh j hj).2
      · exact Nat.le_trans (hw.old j (List.mem_append_right _ hj)) hw.base
    exact absurd hptr (Nat.ne_of_lt (Nat.lt_succ_of_le hle))
  · intro j hj
    rcases List.mem_append.mp hj with hj | hj
    · exact ⟨(hw.fresh j hj).1, Nat.le_succ_of_le (hw.fresh j hj).2⟩
    · rw [List.mem_singleton.mp hj]
      exact ⟨Nat.lt_succ_of_le hw.base, Nat.le_refl _⟩
  · intro j hj
    rcases List.mem_append.mp hj with hj | hj
    · exact hw.opcodes j hj
    · rw [List.mem_singleton.mp hj]
      exact hop
  · intro j hj
    rcases List.mem_append.mp hj with hj | hj
    · refine linked_append (fun k hk => ?_) (hw.targets j hj)
      exact hperm.symm.subset (List.mem_cons_of_mem i hk)
    · rw [List.mem_singleton.mp hj]
      exact .inl rfl

/-! ### Targets -/

theorem map_updateInstrs {α : Type} (f : ILInstr → α) {g : ILInstr → ILInstr}
    (hg : ∀ i, f (g i) = f i) (p : InstrPtr) (is : List ILInstr) :
    (updateInstrs p g is).map f = is.map f := by
  rw [updateInstrs, List.map_map]
  refine List.map_congr_left fun i _ => ?_
  rw [Function.comp_apply]
  split
  · exact hg i
  · rfl

theorem updateInstrs_of_ne {p : InstrPtr} {is : List ILInstr} (h : ∀ i ∈ is, p ≠ .instr i.ptr)
    (f : ILInstr → ILInstr) : updateInstrs p f is = is := by
  rw [updateInstrs]
  conv_rhs => rw [← List.map_id is]
  exact List.map_congr_left fun i hi => if_neg (h i hi)

theorem updateInstrs_append (p : InstrPtr) (f : ILInstr → ILInstr) (is js : List ILInstr) :
    updateInstrs p f (is ++ js) = updateInstrs p f is ++ updateInstrs p f js := List.map_append

theorem linked_congr {is js : List ILInstr} (h : is.map (·.ptr) = js.map (·.ptr)) {p : InstrPtr} :
    Linked is p ↔ Linked js p := by
  have hmap (ks : List ILInstr) :
      (ks.map fun i => InstrPtr.instr i.ptr) = (ks.map (·.ptr)).map InstrPtr.instr := by
    rw [List.map_map]
    rfl
  rw [linked_iff_ptrs, linked_iff_ptrs, hmap, hmap, h]

/-- The target of an instruction that was emitted is set to the position, or to another
one. -/
theorem setTarget_inserts {c : Context} {known : List ILInstr} {p target : InstrPtr}
    (hp : ∃ i ∈ known, p = .instr i.ptr)
    (htarget : target = headPtr c.post ∨ ∃ i ∈ known, target = .instr i.ptr) :
    Inserts c known (setTarget p target) fun _ block => block = [] := by
  rintro shape w u w' hknown ⟨new, rfl, hw⟩ hrun
  cases hrun
  let set (i : ILInstr) : ILInstr := { i with target := target }
  have hold : ∀ i ∈ c.pre ++ c.post, p ≠ .instr i.ptr := by
    obtain ⟨i, hi, rfl⟩ := hp
    obtain ⟨j, hj, rfl⟩ := List.mem_map.mp (hknown hi)
    intro k hk heq
    have hptr : j.ptr = k.ptr := InstrPtr.instr.inj heq
    have hlt := (hw.fresh j hj).1
    have hle := hw.old k hk
    omega
  have hinstrs : updateInstrs p set (c.pre ++ new ++ c.post)
      = c.pre ++ updateInstrs p set new ++ c.post := by
    rw [updateInstrs_append, updateInstrs_append,
      updateInstrs_of_ne fun i hi => hold i (List.mem_append_left _ hi),
      updateInstrs_of_ne fun i hi => hold i (List.mem_append_right _ hi)]
  have hptrs : (c.pre ++ updateInstrs p set new ++ c.post).map (·.ptr)
      = (c.pre ++ new ++ c.post).map (·.ptr) := by
    rw [← hinstrs]
    exact map_updateInstrs (·.ptr) (g := set) (fun _ => rfl) p _
  have hmem : ∀ i ∈ updateInstrs p set new, ∃ j ∈ new, i.ptr = j.ptr ∧ i.opcode = j.opcode
      ∧ (i.target = j.target ∨ i.target = target) := by
    intro i hi
    obtain ⟨j, hj, rfl⟩ := List.mem_map.mp hi
    refine ⟨j, hj, ?_⟩
    split
    · exact ⟨rfl, rfl, .inr rfl⟩
    · exact ⟨rfl, rfl, .inl rfl⟩
  refine ⟨[], ⟨updateInstrs p set new, ?_, ?_⟩, rfl⟩
  · rw [List.append_nil]
    exact map_updateInstrs erased (g := set) (fun _ => rfl) p _
  refine
    { instrs := by rw [← hinstrs, ← hw.instrs]; rfl
      position := hw.position, old := hw.old, base := hw.base, eh := hw.eh
      fGenerateTinyHeader := hw.fGenerateTinyHeader, nodup := ?_, fresh := ?_, opcodes := ?_
      targets := ?_ }
  · rw [hptrs]
    exact hw.nodup
  · intro i hi
    obtain ⟨j, hj, hptr, -⟩ := hmem i hi
    rw [hptr]
    exact hw.fresh j hj
  · intro i hi
    obtain ⟨j, hj, -, hop, -⟩ := hmem i hi
    rw [hop]
    exact hw.opcodes j hj
  · intro i hi
    obtain ⟨j, hj, -, -, hsame⟩ := hmem i hi
    rw [linked_congr hptrs]
    rcases hsame with hsame | hsame
    · rw [hsame]
      exact hw.targets j hj
    · rw [hsame]
      rcases htarget with rfl | ⟨k, hk, rfl⟩
      · cases hpost : c.post with
        | nil => exact .inl rfl
        | cons k post => exact .inr ⟨k, List.mem_append_right _ List.mem_cons_self, rfl⟩
      · obtain ⟨l, hl, rfl⟩ := List.mem_map.mp (hknown hk)
        exact .inr ⟨l, List.mem_append_left _ (List.mem_append_right _ hl), rfl⟩

theorem getCurrentILInstr_inserts {c : Context} {known : List ILInstr} :
    Inserts c known getCurrentILInstr fun p block => p = headPtr c.post ∧ block = [] := by
  rintro shape w p w' - hw hrun
  cases hrun
  obtain ⟨new, -, hnew⟩ := id hw
  exact ⟨[], by rwa [List.append_nil], hnew.position, rfl⟩

end AutoInstrumentation.CallTarget
