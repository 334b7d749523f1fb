import AutoInstrumentation.IL.MaxStack

/-!
# AutoInstrumentation.IL.MaxStackSound

When the exported `MaxStack` is enough.

`Export` changes the list only to lengthen branches, which leaves every depth as it was.
So the depths of the exported code are those of the list before, and they are bounded by
the counter, as long as the sum fits the field and the imported maximum has room for the
exception that a handler starts with, for which no instruction is counted.
-/

namespace AutoInstrumentation.IL

open AutoInstrumentation.Lib

/-! ### Long branches -/

/-- What `Export` makes of an instruction. -/
def Widens (i j : ILInstr) : Prop :=
  j = i ∨ opCodeFlags i.opcode = .shortBranch ∧ j = i.widen

theorem Widens.trans {i j k : ILInstr} (hij : Widens i j) (hjk : Widens j k) : Widens i k := by
  rcases hij with rfl | ⟨hshort, rfl⟩
  · exact hjk
  · rcases hjk with rfl | ⟨hshort', -⟩
    · exact .inr ⟨hshort, rfl⟩
    · have hlong := opCodeFlags_longBranch (shortBranch_cases hshort)
      rw [ILInstr.widen, hlong] at hshort'
      cases hshort'

theorem widens_trans {is js ks : List ILInstr} (hij : List.Forall₂ Widens is js)
    (hjk : List.Forall₂ Widens js ks) : List.Forall₂ Widens is ks := by
  induction hij generalizing ks with
  | nil => exact hjk
  | cons hi _ ih =>
      cases hjk with
      | cons hj hjs => exact .cons (hi.trans hj) (ih hjs)

theorem patch_widens {offsets : InstrPtr → ℕ} {is is' : List ILInstr} {switchBase : BitVec 32}
    {b b' : Buffer} {again : Bool} (h : patch offsets is switchBase b = .ok (is', b', again)) :
    List.Forall₂ Widens is is' := by
  induction is generalizing is' switchBase b again with
  | nil =>
      cases h
      exact .nil
  | cons i is ih =>
      obtain ⟨⟨j, c, w⟩, hi, h⟩ := bind_eq_ok h
      obtain ⟨⟨js, d, w'⟩, his, h⟩ := bind_eq_ok h
      cases h
      refine .cons ?_ (ih his)
      rcases patchInstr_cases hi with ⟨-, hsame⟩ | ⟨-, hwiden, hshort, -⟩
      · exact .inl hsame
      · exact .inr ⟨hshort, hwiden⟩

/-- The passes change the list only to lengthen branches. -/
theorem exportPasses_widens {maxSize : ℕ} {is is' : List ILInstr} {buffer : Buffer}
    {e : Emission} (h : exportPasses maxSize is buffer = .ok (is', e)) :
    List.Forall₂ Widens is is' := by
  induction hn : shortBranches is using Nat.strong_induction_on generalizing is buffer with
  | _ n ih =>
      subst hn
      rw [exportPasses_eq] at h
      split at h
      · cases h
      · split at h
        · cases h
        · next js b again hpatch =>
            have hpass := patch_widens hpatch
            split at h
            · next hagain =>
                have hless := (patch_shortBranches hpatch).2 hagain
                exact widens_trans hpass (ih _ hless h rfl)
            · cases h
              exact hpass

/-- A branch and its long form behave alike. -/
theorem longBranch_flow {opcode : ℕ} (h : opCodeFlags opcode = .shortBranch) :
    endsFlow (longBranch opcode) = endsFlow opcode
      ∧ (stackPops (longBranch opcode) = stackPops opcode ∧ (stackPops opcode).isSome = true)
      ∧ (stackPushes (longBranch opcode) = stackPushes opcode)
      ∧ (varPush opcode = false ∧ varPush (longBranch opcode) = false)
      ∧ (longBranch opcode = ceeLeave ↔ opcode = ceeLeaveS)
      ∧ longBranch opcode ≠ ceeLeaveS ∧ opcode ≠ ceeLeave := by
  rcases shortBranch_cases h with rfl | ⟨hlow, hhigh⟩
  · decide
  · rw [ceeBrS] at hlow
    rw [ceeBltUnS] at hhigh
    interval_cases opcode <;> decide

/-- `j` stands in the control flow as `i` does. -/
structure SameFlow (b : StackBehaviour) (i j : ILInstr) : Prop where
  ptr : j.ptr = i.ptr
  target : j.target = i.target
  pops : b.pops j = b.pops i
  pushes : b.pushes j = b.pushes i
  endsFlow : endsFlow j.opcode = endsFlow i.opcode
  branchTarget : (opCodeFlags j.opcode).branchTarget = (opCodeFlags i.opcode).branchTarget
  leave : j.opcode = ceeLeave ∨ j.opcode = ceeLeaveS ↔ i.opcode = ceeLeave ∨ i.opcode = ceeLeaveS

theorem Widens.sameFlow (b : StackBehaviour) {i j : ILInstr} (h : Widens i j) :
    SameFlow b i j := by
  rcases h with rfl | ⟨hshort, rfl⟩
  · exact ⟨rfl, rfl, rfl, rfl, rfl, rfl, Iff.rfl⟩
  · obtain ⟨hends, ⟨hpops, hfixed⟩, hpushes, ⟨hvar, hvarLong⟩, hleave, hneShort, hneLong⟩ :=
      longBranch_flow hshort
    obtain ⟨n, hn⟩ := Option.isSome_iff_exists.mp hfixed
    have hlong := opCodeFlags_longBranch (shortBranch_cases hshort)
    constructor
    case ptr => rfl
    case target => rfl
    case pops => rw [b.pops_fixed i n hn, b.pops_fixed i.widen n (hpops.trans hn)]
    case pushes =>
      rw [b.pushes_fixed i hvar, b.pushes_fixed i.widen hvarLong]
      exact hpushes
    case endsFlow => exact hends
    case branchTarget =>
      rw [ILInstr.widen, hlong, hshort]
      rfl
    case leave =>
      constructor
      · intro h
        rcases h with h | h
        · exact .inr (hleave.mp h)
        · exact absurd h hneShort
      · intro h
        rcases h with h | h
        · exact absurd h hneLong
        · exact .inl (hleave.mpr h)

/-! ### The depths of the exported code -/

/-- `t` has the list of `s` with some branches lengthened. -/
structure Lengthens (s t : ILRewriter) : Prop where
  instrs : List.Forall₂ Widens s.instrs t.instrs
  eh : t.eh = s.eh

theorem Lengthens.ptrs {s t : ILRewriter} (h : Lengthens s t) :
    t.instrs.map (·.ptr) = s.instrs.map (·.ptr) := by
  have hinstrs := h.instrs
  generalize s.instrs = is, t.instrs = js at hinstrs
  induction hinstrs with
  | nil => rfl
  | cons hij _ ih =>
      rw [List.map_cons, List.map_cons, ih]
      rcases hij with rfl | ⟨-, rfl⟩
      · rfl
      · rfl

/-- Every instruction comes from one of the list before. -/
theorem Lengthens.mem {s t : ILRewriter} (h : Lengthens s t) {j : ILInstr} (hj : j ∈ t.instrs) :
    ∃ i ∈ s.instrs, Widens i j := by
  have hinstrs := h.instrs
  generalize s.instrs = is, t.instrs = js at hinstrs hj
  induction hinstrs with
  | nil => cases hj
  | @cons i k is js hij _ ih =>
      rcases List.mem_cons.mp hj with rfl | hj
      · exact ⟨i, List.mem_cons_self, hij⟩
      · obtain ⟨m, hm, hmj⟩ := ih hj
        exact ⟨m, List.mem_cons_of_mem i hm, hmj⟩

/-- **Lengthening branches keeps the depths**: what is attained in the exported list was
attained in the list before. -/
theorem Lengthens.attained {b : StackBehaviour} {s t : ILRewriter} (h : Lengthens s t)
    {j : ILInstr} {d : ℕ} (hj : (stackDepths b t).Attained j d) :
    ∀ i ∈ s.instrs, Widens i j → (stackDepths b s).Attained i d := by
  have hnext := nextPtr_congr h.ptrs
  induction hj with
  | start hstart =>
      intro i hi hij
      have hptr := (hij.sameFlow b).ptr
      cases hstart with
      | method _ hhead =>
          rw [headPtr_congr h.ptrs, hptr] at hhead
          exact .start (.method i hi hhead)
      | handler e _ he hbegin =>
          rw [h.eh] at he
          rw [hptr] at hbegin
          exact .start (.handler i e hi he hbegin)
      | filter e _ he hflags hfilter =>
          rw [h.eh] at he
          rw [hptr] at hfilter
          exact .start (.filter i e hi he hflags hfilter)
  | step _ hstep ih =>
      intro i hi hij
      have hptr := (hij.sameFlow b).ptr
      cases hstep with
      | next _ _ hp _ hpops hends hlink =>
          obtain ⟨m, hm, hmp⟩ := h.mem hp
          have hfrom := hmp.sameFlow b
          rw [hfrom.pops] at hpops ⊢
          rw [hfrom.pushes]
          rw [hnext, hfrom.ptr, hptr] at hlink
          rw [hfrom.endsFlow] at hends
          exact .step (ih m hm hmp) (.next m i _ hm hi hpops hends hlink)
      | branch _ _ hp _ hpops hbranch hlong hshort htarget =>
          obtain ⟨m, hm, hmp⟩ := h.mem hp
          have hfrom := hmp.sameFlow b
          rw [hfrom.pops] at hpops ⊢
          rw [hfrom.pushes]
          rw [hfrom.target, hptr] at htarget
          rw [hfrom.branchTarget] at hbranch
          obtain ⟨hlong, hshort⟩ :=
            not_or.mp (mt hfrom.leave.mpr (not_or.mpr ⟨hlong, hshort⟩))
          exact .step (ih m hm hmp) (.branch m i _ hm hi hpops hbranch hlong hshort htarget)
      | leave _ _ hp _ hleave htarget =>
          obtain ⟨m, hm, hmp⟩ := h.mem hp
          have hfrom := hmp.sameFlow b
          rw [hfrom.target, hptr] at htarget
          exact .step (ih m hm hmp) (.leave m i _ hm hi (hfrom.leave.mp hleave) htarget)

/-! ### The bound -/

/-- No instruction pushes more than is counted for it. -/
theorem StackBehaviour.pushes_le (b : StackBehaviour) (i : ILInstr) :
    b.pushes i ≤ stackPushes i.opcode := by
  by_cases hvar : varPush i.opcode = true
  · have hcounted : stackPushes i.opcode = 1 := by
      simp only [varPush, Bool.or_eq_true, decide_eq_true_eq] at hvar
      rcases hvar with (h | h) | h
      · rw [h]
        rfl
      · rw [h]
        rfl
      · rw [h]
        rfl
    rw [hcounted]
    exact b.pushes_var i hvar
  · exact Nat.le_of_eq (b.pushes_fixed i (Bool.eq_false_of_not_eq_true hvar))

theorem stackDepths_bounded (b : StackBehaviour) {s : ILRewriter} {base : ℕ}
    (hhandlers : ∀ e ∈ s.eh, e.handlerDepth ≤ base) :
    (stackDepths b s).Bounded base fun i => stackPushes i.opcode where
  start := by
    intro i d h
    cases h with
    | method => exact Nat.zero_le _
    | handler e _ he => exact hhandlers e he
    | filter e _ he hflags =>
        have hdepth : e.handlerDepth = 1 := if_neg fun h => hflags h.1
        rw [← hdepth]
        exact hhandlers e he
  step := by
    intro i d j d' h
    have hpushes := b.pushes_le i
    cases h with
    | next => omega
    | branch => omega
    | leave => exact Nat.zero_le _

/-- The header and the list that `Export` leaves. -/
theorem export_header {u exported : ILRewriter} {newBody : MethodBody} {fill : ℕ → Byte}
    (htiny : u.fGenerateTinyHeader = false) (h : u.export fill = .ok (newBody, exported)) :
    newBody.maxStack = u.maxStack.setWidth 16 ∧ Lengthens u exported := by
  obtain ⟨⟨is, e⟩, hpasses, h⟩ := bind_eq_ok h
  have hwidens := exportPasses_widens hpasses
  dsimp only at h
  rw [if_neg (by rw [htiny]; exact Bool.false_ne_true)] at h
  split at h
  · cases h
  · cases h
    exact ⟨rfl, hwidens, rfl⟩

/-- A behaviour for code without calls, in a method that returns nothing. -/
def plainBehaviour : StackBehaviour where
  pops i := (stackPops i.opcode).getD 0
  pushes i := stackPushes i.opcode
  pops_fixed i n h := by rw [h, Option.getD_some]
  pushes_fixed _ _ := rfl
  pushes_var i h := by
    simp only [varPush, Bool.or_eq_true, decide_eq_true_eq] at h
    rcases h with (h | h) | h
    · rw [h]
      decide
    · rw [h]
      decide
    · rw [h]
      decide

def ceeLdnull : ℕ := 0x14
def ceePop : ℕ := 0x26

/-- The raw instructions of a code of `k` times `ldnull; pop`, and `ret`. -/
def ldnullPops : ℕ → List RawInstr
  | 0 => [⟨ceeRet, 0⟩]
  | k + 1 => ⟨ceeLdnull, 0⟩ :: ⟨ceePop, 0⟩ :: ldnullPops k

/-- A method body of `k` times `ldnull; pop`, and `ret`, with one slot on the stack. -/
def ldnullPopsBody (k : ℕ) : MethodBody where
  flags := corILMethodFatFormat
  maxStack := 1
  localVarSigTok := 0
  code := (List.replicate k [0x14, 0x26]).flatten ++ [0x2A]
  eh := []

theorem encodeAll_ldnullPops (k here : ℕ) (switchBase : BitVec 32) :
    encodeAll here switchBase (ldnullPops k) = (ldnullPopsBody k).code := by
  induction k generalizing here switchBase with
  | zero => rfl
  | succ k ih =>
      rw [ldnullPops, encodeAll, encodeAll, ih, ldnullPopsBody, ldnullPopsBody,
        List.replicate_succ, List.flatten_cons, List.append_assoc]
      rfl

theorem mem_ldnullPops {k : ℕ} {r : RawInstr} (h : r ∈ ldnullPops k) :
    r = ⟨ceeLdnull, 0⟩ ∨ r = ⟨ceePop, 0⟩ ∨ r = ⟨ceeRet, 0⟩ := by
  induction k with
  | zero => exact .inr (.inr (List.mem_singleton.mp h))
  | succ k ih =>
      rcases List.mem_cons.mp h with rfl | h
      · exact .inl rfl
      · rcases List.mem_cons.mp h with rfl | h
        · exact .inr (.inl rfl)
        · exact ih h

theorem length_ldnullPops (k : ℕ) : (ldnullPops k).length = 2 * k + 1 := by
  induction k with
  | zero => rfl
  | succ k ih =>
      rw [ldnullPops, List.length_cons, List.length_cons, ih]
      omega

/-- The opcode of the instruction with the number `n`. -/
def ldnullPopsOpcode (k n : ℕ) : ℕ :=
  if n % 2 = 0 then ceePop else if n = 2 * k + 1 then ceeRet else ceeLdnull

theorem ldnullPopsOpcode_succ (k n : ℕ) :
    ldnullPopsOpcode (k + 1) (n + 2) = ldnullPopsOpcode k n := by
  simp only [ldnullPopsOpcode, Nat.add_mod_right,
    show n + 2 = 2 * (k + 1) + 1 ↔ n = 2 * k + 1 by omega]

theorem getElem?_ldnullPops {k m : ℕ} {r : RawInstr} (h : (ldnullPops k)[m]? = some r) :
    r.opcode = ldnullPopsOpcode k (m + 1) := by
  induction k generalizing m with
  | zero =>
      cases m with
      | zero =>
          cases h
          rfl
      | succ m => cases h
  | succ k ih =>
      cases m with
      | zero =>
          cases h
          exact (if_neg (by decide)).trans (if_neg (by omega)) |>.symm
      | succ m =>
          cases m with
          | zero =>
              cases h
              rfl
          | succ m =>
              rw [ih h]
              exact (ldnullPopsOpcode_succ k (m + 1)).symm

/-- The address behind an instruction of an imported list is the next number. -/
theorem nextPtr_imported {rs : List RawInstr} {is : List ILInstr} (h : ImportedAs rs is)
    {i j : ILInstr} (hi : i ∈ is) (hnext : nextPtr is (.instr i.ptr) = .instr j.ptr) :
    j.ptr = i.ptr + 1 := by
  have hnumber {m : ℕ} {k : ILInstr} (hm : is[m]? = some k) : k.ptr = m + 1 := by
    obtain ⟨-, -, hptr, -⟩ := h.instrs m k hm
    exact hptr
  obtain ⟨m, hm⟩ := List.mem_iff_getElem?.mp hi
  obtain ⟨hlt, rfl⟩ := List.getElem?_eq_some_iff.mp hm
  have hsplit : is = is.take m ++ [is[m]] ++ is.drop (m + 1) := by
    rw [List.append_assoc, List.singleton_append, List.cons_getElem_drop_succ,
      List.take_append_drop]
  have hends : EndsAt (is.take m ++ [is[m]]) (.instr is[m].ptr) := by
    refine .inr ⟨is.take m, is[m], rfl, rfl, fun k hk => ?_⟩
    obtain ⟨n, hn⟩ := List.mem_iff_getElem?.mp hk
    rw [List.getElem?_take] at hn
    split at hn
    · rw [hnumber hn, hnumber hm]
      omega
    · cases hn
  have hhead : headPtr (is.drop (m + 1)) = .instr j.ptr := by
    rw [← nextPtr_append hends, ← hsplit]
    exact hnext
  cases hrest : is.drop (m + 1) with
  | nil =>
      rw [hrest] at hhead
      cases hhead
  | cons k rest =>
      rw [hrest] at hhead
      have hk : is[m + 1]? = some k := by
        rw [← List.head?_drop, hrest, List.head?_cons]
      rw [← InstrPtr.instr.inj hhead, hnumber hk, hnumber hm]

/-- An instruction that is not the `ret` turns the one depth into the other. -/
theorem depth_ldnullPops {k : ℕ} {i : ILInstr} (hop : i.opcode = ldnullPopsOpcode k i.ptr)
    (hends : endsFlow i.opcode = false) :
    (i.ptr + 1) % 2 - plainBehaviour.pops i + plainBehaviour.pushes i = (i.ptr + 1 + 1) % 2 := by
  change _ - (stackPops i.opcode).getD 0 + stackPushes i.opcode = _
  rw [ldnullPopsOpcode] at hop
  split at hop
  · have hpop : stackPops ceePop = some 1 ∧ stackPushes ceePop = 0 := by decide
    rw [hop, hpop.1, hpop.2, Option.getD_some]
    omega
  · split at hop
    · rw [hop] at hends
      cases hends
    · have hldnull : stackPops ceeLdnull = some 0 ∧ stackPushes ceeLdnull = 1 := by decide
      rw [hop, hldnull.1, hldnull.2, Option.getD_some]
      omega

/-- The stack is empty before each `ldnull` and has one slot before each `pop`. -/
theorem attained_ldnullPops {k : ℕ} {s : ILRewriter} (h : ImportedAs (ldnullPops k) s.instrs)
    (heh : s.eh = []) {i : ILInstr} {d : ℕ}
    (hi : (stackDepths plainBehaviour s).Attained i d) : d = (i.ptr + 1) % 2 := by
  have hopcode : ∀ i ∈ s.instrs, i.opcode = ldnullPopsOpcode k i.ptr := by
    intro i hi
    obtain ⟨m, hm⟩ := List.mem_iff_getElem?.mp hi
    obtain ⟨r, hr, hptr, hop, -⟩ := h.instrs m i hm
    rw [hop, getElem?_ldnullPops hr, hptr]
  have hplain : ∀ i ∈ s.instrs, (opCodeFlags i.opcode).branchTarget = false
      ∧ i.opcode ≠ ceeLeave ∧ i.opcode ≠ ceeLeaveS := by
    intro i hi
    rw [hopcode i hi, ldnullPopsOpcode]
    split_ifs <;> decide
  induction hi with
  | start hstart =>
      cases hstart with
      | method _ hhead =>
          obtain ⟨i₀, rest, hlist⟩ : ∃ i₀ rest, s.instrs = i₀ :: rest := by
            cases hs : s.instrs with
            | nil =>
                rw [hs] at hhead
                cases hhead
            | cons i₀ rest => exact ⟨i₀, rest, rfl⟩
          rw [hlist] at hhead
          obtain ⟨-, -, hptr, -⟩ := h.instrs 0 i₀ (by rw [hlist]; rfl)
          rw [← InstrPtr.instr.inj hhead, hptr]
      | handler e hi he =>
          rw [heh] at he
          cases he
      | filter e hi he =>
          rw [heh] at he
          cases he
  | step _ hstep ih =>
      cases hstep with
      | next _ _ hp _ hpops hends hlink =>
          rw [nextPtr_imported h hp hlink, ih]
          exact depth_ldnullPops (hopcode _ hp) hends
      | branch _ _ hp _ hpops hbranch =>
          rw [(hplain _ hp).1] at hbranch
          cases hbranch
      | leave _ _ hp _ hleave =>
          exact absurd hleave (not_or.mpr (hplain _ hp).2)

theorem totalPushes_ldnullPops {k : ℕ} {is : List ILInstr}
    (h : is.map (ILInstr.raw (offsetOf is)) = ldnullPops k) : totalPushes is = k := by
  have hpushes : totalPushes is = ((ldnullPops k).map fun r => stackPushes r.opcode).sum := by
    rw [← h, List.map_map]
    rfl
  rw [hpushes]
  clear h hpushes
  induction k with
  | zero => rfl
  | succ k ih =>
      have hldnull : stackPushes ceeLdnull = 1 ∧ stackPushes ceePop = 0 := by decide
      rw [ldnullPops, List.map_cons, List.map_cons, List.sum_cons, List.sum_cons, ih, hldnull.1,
        hldnull.2]
      omega

/-- The body is imported and exported, with one depth of the stack for each instruction. -/
theorem export_ldnullPops {k : ℕ} (hk : (2 * k + 1) * 10 < 2 ^ 32) (fill : ℕ → Byte) :
    ∃ t newBody exported, ILRewriter.init.importBody (ldnullPopsBody k) = .ok t
      ∧ t.export fill = .ok (newBody, exported) ∧ (stackDepths plainBehaviour t).Consistent
      ∧ totalPushes t.instrs = k ∧ t.eh = [] ∧ ImportedAs (ldnullPops k) t.instrs
      ∧ exported.instrs = t.instrs := by
  have hplain : ∀ r ∈ ldnullPops k, Normal r ∧ r.part = .plain
      ∧ opCodeFlags r.opcode ≠ .shortBranch ∧ (opCodeFlags r.opcode).branchTarget = false := by
    intro r hr
    rcases mem_ldnullPops hr with rfl | rfl | rfl
    · exact ⟨⟨by decide, by decide⟩, rfl, by decide, rfl⟩
    · exact ⟨⟨by decide, by decide⟩, rfl, by decide, rfl⟩
    · exact ⟨⟨by decide, by decide⟩, rfl, by decide, rfl⟩
  have hnormal : ∀ r ∈ ldnullPops k, Normal r := fun r hr => (hplain r hr).1
  have hblocks := blocks_plain fun r hr => (hplain r hr).2.1
  have hreach : Reaches 0 (ldnullPops k) :=
    reaches_of_no_shortBranch 0 fun r hr => (hplain r hr).2.2.1
  let s : ILRewriter := { ILRewriter.init with
                          maxStack := (1 : BitVec 16).setWidth 32
                          flags := corILMethodFatFormat &&& corILMethodInitLocals }
  obtain ⟨t, ht⟩ := importIL_progress (s := s) rfl rfl hnormal hblocks hreach fun r hr hbranch => by
    rw [(hplain r hr).2.2.2] at hbranch
    cases hbranch
  have himports := imports_encodeAll (s := s) rfl rfl hnormal hblocks hreach ht
  obtain ⟨hwf, hsettled, hraw⟩ := imported_wellFormed himports.instrs hnormal hblocks hreach
  obtain ⟨hedited, -⟩ := edited_imported himports hwf
  have heh : t.eh = [] := himports.header.eh
  have htiny : t.fGenerateTinyHeader = false := himports.header.fGenerateTinyHeader
  have hfits : Fits t := by
    refine hedited.fits ?_ ?_
    · rw [himports.nInstrs, length_ldnullPops]
      exact hk
    · rw [heh]
      decide
  obtain ⟨hsuccess, hbody⟩ := export_eq_ok hwf.toClosed htiny fill
  obtain ⟨⟨newBody, exported⟩, hexport⟩ := hsuccess.mpr hfits
  refine ⟨t, newBody, exported, ?_, hexport, ?_, ?_, heh, himports.instrs, ?_⟩
  · have himport : ({ ILRewriter.init with
          tkLocalVarSig := (ldnullPopsBody k).localVarSigTok
          maxStack := (ldnullPopsBody k).maxStack.setWidth 32
          flags := (ldnullPopsBody k).flags &&& corILMethodInitLocals }).importIL
        (ldnullPopsBody k).code = some t := by
      rw [← encodeAll_ldnullPops k 0 0]
      exact ht
    have hsame : { t with eh := [] } = t := by
      rw [← heh]
    rw [ILRewriter.importBody, himport]
    change t.importEH [] = _
    rw [ILRewriter.importEH, if_neg (not_not.mpr heh)]
    exact congrArg Except.ok hsame
  · intro i d e hd he
    rw [attained_ldnullPops himports.instrs heh hd, attained_ldnullPops himports.instrs heh he]
  · exact totalPushes_ldnullPops hraw
  · rw [(hbody newBody exported hexport).2, settle_of_settled hsettled]

/-- The first `pop` finds one slot on the stack. -/
theorem attained_pop {k : ℕ} {s : ILRewriter} (h : ImportedAs (ldnullPops (k + 1)) s.instrs) :
    ∃ i, (stackDepths plainBehaviour s).Attained i 1 := by
  have hlength := h.length
  rw [length_ldnullPops] at hlength
  obtain ⟨i₀, i₁, rest, hlist⟩ : ∃ i₀ i₁ rest, s.instrs = i₀ :: i₁ :: rest := by
    cases hs : s.instrs with
    | nil =>
        rw [hs] at hlength
        cases hlength
    | cons i₀ tail =>
        cases tail with
        | nil =>
            rw [hs, List.length_singleton] at hlength
            omega
        | cons i₁ rest => exact ⟨i₀, i₁, rest, rfl⟩
  obtain ⟨r, hr, -, hop, -⟩ := h.instrs 0 i₀ (by rw [hlist]; rfl)
  cases hr
  have hmem₀ : i₀ ∈ s.instrs := by
    rw [hlist]
    exact List.mem_cons_self
  have hmem₁ : i₁ ∈ s.instrs := by
    rw [hlist]
    exact List.mem_cons_of_mem _ List.mem_cons_self
  have hhead : headPtr s.instrs = .instr i₀.ptr := by
    rw [hlist]
    rfl
  have hnext : nextPtr s.instrs (.instr i₀.ptr) = .instr i₁.ptr := by
    rw [hlist, nextPtr, List.dropWhile_cons_of_neg (by simp)]
    rfl
  have hbehaviour : plainBehaviour.pops i₀ = 0 ∧ plainBehaviour.pushes i₀ = 1 := by
    change (stackPops i₀.opcode).getD 0 = 0 ∧ stackPushes i₀.opcode = 1
    rw [hop]
    decide
  have hstep : StackStep plainBehaviour s i₀ 0 i₁ (0 - plainBehaviour.pops i₀
      + plainBehaviour.pushes i₀) :=
    .next i₀ i₁ 0 hmem₀ hmem₁ (by rw [hbehaviour.1]) (by rw [hop]; decide) hnext
  rw [hbehaviour.1, hbehaviour.2] at hstep
  exact ⟨i₁, .step (.start (.method i₀ hmem₀ hhead)) hstep⟩

end AutoInstrumentation.IL
