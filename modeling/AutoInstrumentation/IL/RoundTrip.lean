import AutoInstrumentation.IL.Reimport
import Mathlib.Data.List.Perm.Subperm

/-!
# AutoInstrumentation.IL.RoundTrip

Importing, editing, exporting, and importing again.

An edit links a new instruction, or a new switch with its targets, into the list, at a
place that is not inside a switch. Edits keep the list well formed, provided that in the
end the branches go to instructions of the list. Then `Export` succeeds exactly when the
code of the settled list fits the buffer, whose size is computed in 32 bits, and what it
writes is imported to the same instructions.
-/

namespace AutoInstrumentation.IL

open AutoInstrumentation.Lib

/-! ### Edits -/

/-- An instruction from `NewILInstr` that is not in the list yet. -/
structure Fresh (s : ILRewriter) (i : ILInstr) : Prop where
  allocated : 1 ≤ i.ptr ∧ i.ptr ≤ s.nInstrs
  unlinked : ∀ j ∈ s.instrs, j.ptr ≠ i.ptr
  importable : Importable i.opcode

/-- The instruction at `p`, if there is one, is not a switch target: the place before it
is not inside a switch. -/
def Outside (is : List ILInstr) (p : InstrPtr) : Prop :=
  ∀ i ∈ is, p = .instr i.ptr → i.opcode ≠ ceeSwitchArg

/-- A new switch with its targets. -/
structure FreshSwitch (s : ILRewriter) (switch : ILInstr) (args : List ILInstr) : Prop where
  fresh : ∀ i ∈ switch :: args, Fresh s i
  nodup : ((switch :: args).map (·.ptr)).Nodup
  switch : switch.part = .switch args.length
  args : ∀ a ∈ args, a.part = .switchArg

/-- One edit of the instruction list. -/
inductive Edit : ILRewriter → ILRewriter → Prop
  | newILInstr (s : ILRewriter) : Edit s s.newILInstr.2
  | insertBefore (s : ILRewriter) (pWhere : InstrPtr) (pWhat : ILInstr) :
      Linked s.instrs pWhere → Outside s.instrs pWhere → Fresh s pWhat → pWhat.part = .plain →
      Edit s (s.insertBefore pWhere pWhat)
  | insertAfter (s : ILRewriter) (pWhere : InstrPtr) (pWhat : ILInstr) :
      Linked s.instrs pWhere → Outside s.instrs (nextPtr s.instrs pWhere) → Fresh s pWhat →
      pWhat.part = .plain → Edit s (s.insertAfter pWhere pWhat)
  /-- A switch and then its targets, each before the same instruction. -/
  | insertSwitchBefore (s : ILRewriter) (pWhere : InstrPtr) (switch : ILInstr)
      (args : List ILInstr) :
      Linked s.instrs pWhere → Outside s.instrs pWhere → FreshSwitch s switch args →
      Edit s ((switch :: args).foldl (fun s i => s.insertBefore pWhere i) s)
  /-- The targets of a switch from the last one on, and then the switch, each after the
  same instruction. -/
  | insertSwitchAfter (s : ILRewriter) (pWhere : InstrPtr) (switch : ILInstr)
      (args : List ILInstr) :
      Linked s.instrs pWhere → Outside s.instrs (nextPtr s.instrs pWhere) →
      FreshSwitch s switch args →
      Edit s ((switch :: args).foldr (fun i s => s.insertAfter pWhere i) s)

/-- Any number of edits. -/
def Edits : ILRewriter → ILRewriter → Prop := Relation.ReflTransGen Edit

/-- What an edit does: it puts `new`, which may be empty, between `pre` and `post`. -/
structure Splices (s t : ILRewriter) (pre new post : List ILInstr) : Prop where
  before : s.instrs = pre ++ post
  after : t.instrs = pre ++ new ++ post
  nInstrs : s.nInstrs ≤ t.nInstrs
  eh : t.eh = s.eh
  fGenerateTinyHeader : t.fGenerateTinyHeader = s.fGenerateTinyHeader
  fresh : ∀ i ∈ new, Fresh s i
  nodup : (new.map (·.ptr)).Nodup
  blocks : blocks 0 (new.map ILInstr.part) = true
  outside : ∀ i, post.head? = some i → i.opcode ≠ ceeSwitchArg

/-! ### The linked list -/

theorem linkBefore_append {p : InstrPtr} {what : ILInstr} {pre post : List ILInstr}
    (hpre : ∀ i ∈ pre, p ≠ .instr i.ptr) (hpost : headPtr post = p) :
    linkBefore p what (pre ++ post) = pre ++ what :: post := by
  induction pre with
  | nil =>
      cases post with
      | nil => rfl
      | cons j post =>
          rw [List.nil_append, linkBefore, if_pos (show p = .instr j.ptr from hpost.symm),
            List.nil_append]
  | cons i pre ih =>
      rw [List.cons_append, linkBefore, if_neg (hpre i List.mem_cons_self),
        ih fun j hj => hpre j (List.mem_cons_of_mem i hj), List.cons_append]

/-- A linked address splits the list in front of it. -/
theorem exists_split {is : List ILInstr} {p : InstrPtr} (h : Linked is p) :
    ∃ pre post, is = pre ++ post ∧ (∀ i ∈ pre, p ≠ .instr i.ptr) ∧ headPtr post = p := by
  induction is with
  | nil =>
      rcases h with rfl | ⟨i, hi, -⟩
      · exact ⟨[], [], rfl, (fun _ hi => nomatch hi), rfl⟩
      · cases hi
  | cons i is ih =>
      by_cases hp : p = .instr i.ptr
      · exact ⟨[], i :: is, rfl, (fun _ hi => nomatch hi), hp.symm⟩
      · have hrest : Linked is p := by
          rcases h with rfl | ⟨j, hj, rfl⟩
          · exact .inl rfl
          · rcases List.mem_cons.mp hj with rfl | hj
            · exact absurd rfl hp
            · exact .inr ⟨j, hj, rfl⟩
        obtain ⟨pre, post, rfl, hpre, hpost⟩ := ih hrest
        refine ⟨i :: pre, post, rfl, ?_, hpost⟩
        intro j hj
        rcases List.mem_cons.mp hj with rfl | hj
        · exact hp
        · exact hpre j hj

/-- `pre` ends at `p`: what is linked in after `p` comes behind it. -/
def EndsAt (pre : List ILInstr) (p : InstrPtr) : Prop :=
  pre = [] ∧ p = .il ∨ ∃ front i, pre = front ++ [i] ∧ p = .instr i.ptr
    ∧ ∀ j ∈ front, j.ptr ≠ i.ptr

theorem linkAfterInstr_append {n : ℕ} {what i : ILInstr} {front post : List ILInstr}
    (hfront : ∀ j ∈ front, j.ptr ≠ n) (hi : i.ptr = n) :
    linkAfterInstr n what (front ++ i :: post) = front ++ i :: what :: post := by
  induction front with
  | nil => rw [List.nil_append, linkAfterInstr, if_pos hi, List.nil_append]
  | cons j front ih =>
      rw [List.cons_append, linkAfterInstr, if_neg (hfront j List.mem_cons_self),
        ih fun k hk => hfront k (List.mem_cons_of_mem j hk), List.cons_append]

theorem linkAfter_append {p : InstrPtr} {what : ILInstr} {pre post : List ILInstr}
    (h : EndsAt pre p) : linkAfter p what (pre ++ post) = pre ++ what :: post := by
  rcases h with ⟨rfl, rfl⟩ | ⟨front, i, rfl, rfl, hfront⟩
  · rfl
  · rw [linkAfter, List.append_assoc, List.singleton_append, linkAfterInstr_append hfront rfl,
      List.append_assoc, List.singleton_append]

theorem nextPtr_append {p : InstrPtr} {pre post : List ILInstr} (h : EndsAt pre p) :
    nextPtr (pre ++ post) p = headPtr post := by
  rcases h with ⟨rfl, rfl⟩ | ⟨front, i, rfl, rfl, hfront⟩
  · rfl
  · have hdrop : (front ++ [i] ++ post).dropWhile (fun j => decide (j.ptr ≠ i.ptr))
        = i :: post := by
      rw [List.append_assoc, List.dropWhile_append_of_pos, List.singleton_append,
        List.dropWhile_cons_of_neg]
      · simp
      · exact fun j hj => decide_eq_true (hfront j hj)
    rw [nextPtr, hdrop, List.tail_cons]

theorem headPtr_congr {is js : List ILInstr} (h : js.map (·.ptr) = is.map (·.ptr)) :
    headPtr js = headPtr is := by
  cases is with
  | nil =>
      cases js with
      | nil => rfl
      | cons j js => cases h
  | cons i is =>
      cases js with
      | nil => cases h
      | cons j js => exact congrArg InstrPtr.instr (List.cons.inj h).1

theorem nextPtr_congr {is js : List ILInstr} (h : js.map (·.ptr) = is.map (·.ptr))
    (p : InstrPtr) : nextPtr js p = nextPtr is p := by
  cases p with
  | il => exact headPtr_congr h
  | instr n =>
      have hdrop (ks : List ILInstr) :
          (ks.dropWhile fun i => decide (i.ptr ≠ n)).map (·.ptr)
            = (ks.map (·.ptr)).dropWhile fun m => decide (m ≠ n) :=
        (List.dropWhile_map (f := ILInstr.ptr) (p := fun m => decide (m ≠ n))).symm
      exact headPtr_congr (by rw [List.map_tail, List.map_tail, hdrop, hdrop, h])

/-- A linked address splits the list behind it. -/
theorem exists_endsAt {is : List ILInstr} {p : InstrPtr} (hnodup : (is.map (·.ptr)).Nodup)
    (h : Linked is p) : ∃ pre post, is = pre ++ post ∧ EndsAt pre p := by
  rcases h with rfl | ⟨i, hi, rfl⟩
  · exact ⟨[], is, rfl, .inl ⟨rfl, rfl⟩⟩
  · obtain ⟨front, post, rfl⟩ := List.append_of_mem hi
    refine ⟨front ++ [i], post, by rw [List.append_assoc, List.singleton_append],
      .inr ⟨front, i, rfl, rfl, fun j hj heq => ?_⟩⟩
    rw [List.map_append, List.map_cons] at hnodup
    exact (List.nodup_append.mp hnodup).2.2 j.ptr (List.mem_map_of_mem hj) i.ptr
      List.mem_cons_self heq

theorem insertAll_before {s : ILRewriter} {p : InstrPtr} {pre post : List ILInstr}
    (new : List ILInstr) (hs : s.instrs = pre ++ post) (hpre : ∀ i ∈ pre, p ≠ .instr i.ptr)
    (hnew : ∀ i ∈ new, p ≠ .instr i.ptr) (hpost : headPtr post = p) :
    (new.foldl (fun s i => s.insertBefore p i) s).instrs = pre ++ new ++ post := by
  induction new generalizing s pre with
  | nil => rw [List.append_nil]; exact hs
  | cons i new ih =>
      have hstep : (s.insertBefore p i).instrs = pre ++ [i] ++ post := by
        change linkBefore p i s.instrs = _
        rw [hs, linkBefore_append hpre hpost, List.append_assoc, List.singleton_append]
      rw [List.foldl_cons, ih hstep _ fun j hj => hnew j (List.mem_cons_of_mem i hj)]
      · rw [List.append_assoc pre [i] new, List.singleton_append]
      · intro j hj
        rcases List.mem_append.mp hj with hj | hj
        · exact hpre j hj
        · rw [List.mem_singleton.mp hj]
          exact hnew i List.mem_cons_self

theorem insertAll_after {s : ILRewriter} {p : InstrPtr} {pre post : List ILInstr}
    (new : List ILInstr) (hs : s.instrs = pre ++ post) (h : EndsAt pre p) :
    (new.foldr (fun i s => s.insertAfter p i) s).instrs = pre ++ new ++ post := by
  induction new with
  | nil => rw [List.append_nil]; exact hs
  | cons i new ih =>
      change linkAfter p i (new.foldr (fun i s => s.insertAfter p i) s).instrs = _
      rw [ih, List.append_assoc, linkAfter_append h, List.append_assoc, List.cons_append]

theorem foldl_insertBefore_keeps (p : InstrPtr) (new : List ILInstr) (s : ILRewriter) :
    let t := new.foldl (fun s i => s.insertBefore p i) s
    t.nInstrs = s.nInstrs ∧ t.eh = s.eh ∧ t.fGenerateTinyHeader = s.fGenerateTinyHeader := by
  induction new generalizing s with
  | nil => exact ⟨rfl, rfl, rfl⟩
  | cons i new ih => exact ih (s.insertBefore p i)

theorem foldr_insertAfter_keeps (p : InstrPtr) (new : List ILInstr) (s : ILRewriter) :
    let t := new.foldr (fun i s => s.insertAfter p i) s
    t.nInstrs = s.nInstrs ∧ t.eh = s.eh ∧ t.fGenerateTinyHeader = s.fGenerateTinyHeader := by
  induction new with
  | nil => exact ⟨rfl, rfl, rfl⟩
  | cons i new ih => exact ih

theorem outside_head {is pre post : List ILInstr} {p : InstrPtr} (his : is = pre ++ post)
    (hpost : headPtr post = p) (h : Outside is p) :
    ∀ i, post.head? = some i → i.opcode ≠ ceeSwitchArg := by
  intro i hi
  cases post with
  | nil => cases hi
  | cons j post =>
      cases hi
      exact h i (by rw [his]; exact List.mem_append_right _ List.mem_cons_self) hpost.symm

theorem blocks_switch {switch : ILInstr} {args : List ILInstr}
    (hswitch : switch.part = .switch args.length) (hargs : ∀ a ∈ args, a.part = .switchArg) :
    blocks 0 ((switch :: args).map ILInstr.part) = true := by
  have hall : ∀ as : List ILInstr, (∀ a ∈ as, a.part = .switchArg) →
      blocks as.length (as.map ILInstr.part) = true := by
    intro as
    induction as with
    | nil => exact fun _ => rfl
    | cons a as ih =>
        intro has
        rw [List.map_cons, has a List.mem_cons_self, List.length_cons, blocks]
        exact ih fun b hb => has b (List.mem_cons_of_mem a hb)
  rw [List.map_cons, hswitch, blocks]
  exact hall args hargs

/-- **Every edit splices.** -/
theorem Edit.splices {s t : ILRewriter} (h : Edit s t) (hnodup : (s.instrs.map (·.ptr)).Nodup) :
    ∃ pre new post, Splices s t pre new post := by
  have fresh_ne {p : InstrPtr} {i : ILInstr} (hp : Linked s.instrs p) (hi : Fresh s i) :
      p ≠ .instr i.ptr := by
    rintro rfl
    rcases hp with hil | ⟨j, hj, heq⟩
    · cases hil
    · exact hi.unlinked j hj (InstrPtr.instr.inj heq).symm
  cases h with
  | newILInstr =>
      refine ⟨s.instrs, [], [], (List.append_nil _).symm, ?_, Nat.le_succ _, rfl, rfl,
        (fun _ hi => nomatch hi), List.nodup_nil, rfl, fun _ hi => nomatch hi⟩
      rw [List.append_nil, List.append_nil]
      rfl
  | insertBefore pWhere pWhat hlinked hout hfresh hplain =>
      obtain ⟨pre, post, hs, hpre, hpost⟩ := exists_split hlinked
      refine ⟨pre, [pWhat], post, hs, ?_, Nat.le_refl _, rfl, rfl, ?_, List.nodup_singleton _, ?_,
        outside_head hs hpost hout⟩
      · change linkBefore pWhere pWhat s.instrs = _
        rw [hs, linkBefore_append hpre hpost, List.append_assoc, List.singleton_append]
      · intro i hi
        rw [List.mem_singleton.mp hi]
        exact hfresh
      · rw [List.map_singleton, hplain]
        rfl
  | insertAfter pWhere pWhat hlinked hout hfresh hplain =>
      obtain ⟨pre, post, hs, hends⟩ := exists_endsAt hnodup hlinked
      refine ⟨pre, [pWhat], post, hs, ?_, Nat.le_refl _, rfl, rfl, ?_, List.nodup_singleton _, ?_,
        outside_head hs (nextPtr_append hends).symm (hs ▸ hout)⟩
      · change linkAfter pWhere pWhat s.instrs = _
        rw [hs, linkAfter_append hends, List.append_assoc, List.singleton_append]
      · intro i hi
        rw [List.mem_singleton.mp hi]
        exact hfresh
      · rw [List.map_singleton, hplain]
        rfl
  | insertSwitchBefore pWhere switch args hlinked hout hnew =>
      obtain ⟨pre, post, hs, hpre, hpost⟩ := exists_split hlinked
      obtain ⟨hn, heh, htiny⟩ := foldl_insertBefore_keeps pWhere (switch :: args) s
      exact ⟨pre, switch :: args, post, hs,
        insertAll_before _ hs hpre (fun i hi => fresh_ne hlinked (hnew.fresh i hi)) hpost,
        Nat.le_of_eq hn.symm, heh, htiny, hnew.fresh, hnew.nodup,
        blocks_switch hnew.switch hnew.args, outside_head hs hpost hout⟩
  | insertSwitchAfter pWhere switch args hlinked hout hnew =>
      obtain ⟨pre, post, hs, hends⟩ := exists_endsAt hnodup hlinked
      obtain ⟨hn, heh, htiny⟩ := foldr_insertAfter_keeps pWhere (switch :: args) s
      exact ⟨pre, switch :: args, post, hs, insertAll_after _ hs hends,
        Nat.le_of_eq hn.symm, heh, htiny, hnew.fresh, hnew.nodup,
        blocks_switch hnew.switch hnew.args,
        outside_head hs (nextPtr_append hends).symm (hs ▸ hout)⟩

/-! ### What edits keep -/

theorem blocks_append_iff {k : ℕ} {ps qs : List Part} (hqs : qs.head? ≠ some .switchArg) :
    blocks k (ps ++ qs) = true ↔ blocks k ps = true ∧ blocks 0 qs = true := by
  induction ps generalizing k with
  | nil =>
      rw [List.nil_append]
      cases k with
      | zero => exact ⟨fun h => ⟨rfl, h⟩, fun h => h.2⟩
      | succ k =>
          refine ⟨fun h => ?_, fun h => nomatch h.1⟩
          cases qs with
          | nil => cases h
          | cons q qs =>
              cases q with
              | plain => cases h
              | switch n => cases h
              | switchArg => exact absurd rfl hqs
  | cons p ps ih =>
      rw [List.cons_append]
      cases k with
      | zero =>
          cases p with
          | plain => exact ih
          | switch n => exact ih
          | switchArg => exact ⟨(fun h => nomatch h), fun h => nomatch h.1⟩
      | succ k =>
          cases p with
          | plain => exact ⟨(fun h => nomatch h), fun h => nomatch h.1⟩
          | switch n => exact ⟨(fun h => nomatch h), fun h => nomatch h.1⟩
          | switchArg => exact ih

/-- What holds of a rewriter that was edited since it was the imported `s`. -/
structure Edited (s t : ILRewriter) : Prop where
  nodup : (t.instrs.map (·.ptr)).Nodup
  allocated : ∀ i ∈ t.instrs, 1 ≤ i.ptr ∧ i.ptr ≤ t.nInstrs
  importable : ∀ i ∈ t.instrs, Importable i.opcode
  blocks : blocks 0 (t.instrs.map ILInstr.part) = true
  kept : ∀ i ∈ s.instrs, i ∈ t.instrs
  new : ∀ i ∈ t.instrs, i ∈ s.instrs ∨ s.nInstrs < i.ptr
  nInstrs : s.nInstrs ≤ t.nInstrs
  eh : t.eh = s.eh
  fGenerateTinyHeader : t.fGenerateTinyHeader = s.fGenerateTinyHeader

theorem head_part {post : List ILInstr} (h : ∀ i, post.head? = some i → i.opcode ≠ ceeSwitchArg) :
    (post.map ILInstr.part).head? ≠ some .switchArg := by
  rw [List.head?_map]
  intro heq
  obtain ⟨i, hi, hpart⟩ := Option.map_eq_some_iff.mp heq
  refine h i hi ?_
  rw [ILInstr.part, IL.part] at hpart
  split at hpart
  · cases hpart
  · split at hpart
    · assumption
    · cases hpart

/-- One edit keeps what holds. The addresses of the imported list are all in use, so that
a new one is larger. -/
theorem Edited.edit {s t u : ILRewriter} (hfull : ∀ n, 1 ≤ n → n ≤ s.nInstrs →
    ∃ i ∈ s.instrs, i.ptr = n) (h : Edited s t) (hedit : Edit t u) : Edited s u := by
  obtain ⟨pre, new, post, hs⟩ := hedit.splices h.nodup
  have hmem (i : ILInstr) : i ∈ u.instrs ↔ i ∈ t.instrs ∨ i ∈ new := by
    rw [hs.after, hs.before]
    simp only [List.mem_append]
    exact or_right_comm
  refine ⟨?_, ?_, ?_, ?_, ?_, ?_, ?_, ?_, ?_⟩
  · have hperm : (u.instrs.map (·.ptr)).Perm ((new ++ t.instrs).map (·.ptr)) := by
      rw [hs.after, hs.before, List.append_assoc]
      refine List.Perm.map _ ?_
      rw [← List.append_assoc new]
      exact (List.perm_append_comm.append_right post).trans (by rw [List.append_assoc])
        |>.symm.trans (by rw [List.append_assoc]) |>.symm
    rw [hperm.nodup_iff, List.map_append, List.nodup_append]
    refine ⟨hs.nodup, h.nodup, fun n hn m hm heq => ?_⟩
    obtain ⟨i, hi, rfl⟩ := List.mem_map.mp hn
    obtain ⟨j, hj, rfl⟩ := List.mem_map.mp hm
    exact (hs.fresh i hi).unlinked j hj heq.symm
  · intro i hi
    rcases (hmem i).mp hi with hi | hi
    · obtain ⟨hpos, hle⟩ := h.allocated i hi
      exact ⟨hpos, Nat.le_trans hle hs.nInstrs⟩
    · obtain ⟨hpos, hle⟩ := (hs.fresh i hi).allocated
      exact ⟨hpos, Nat.le_trans hle hs.nInstrs⟩
  · intro i hi
    rcases (hmem i).mp hi with hi | hi
    · exact h.importable i hi
    · exact (hs.fresh i hi).importable
  · have hout := head_part hs.outside
    have hblocks := h.blocks
    rw [hs.before, List.map_append, blocks_append_iff hout] at hblocks
    rw [hs.after, List.map_append, blocks_append_iff hout, List.map_append]
    refine ⟨?_, hblocks.2⟩
    by_cases hnew : (new.map ILInstr.part).head? = some .switchArg
    · have hempty := hs.blocks
      cases hm : new.map ILInstr.part with
      | nil => rw [hm] at hnew; cases hnew
      | cons p ps =>
          rw [hm] at hnew hempty
          cases hnew
          cases hempty
    · exact (blocks_append_iff hnew).mpr ⟨hblocks.1, hs.blocks⟩
  · exact fun i hi => (hmem i).mpr (.inl (h.kept i hi))
  · intro i hi
    rcases (hmem i).mp hi with hi | hi
    · exact h.new i hi
    · refine .inr (Nat.lt_of_not_le fun hle => ?_)
      have hfresh := hs.fresh i hi
      obtain ⟨j, hj, hptr⟩ := hfull i.ptr hfresh.allocated.1 hle
      exact hfresh.unlinked j (h.kept j hj) hptr
  · exact Nat.le_trans h.nInstrs hs.nInstrs
  · exact hs.eh.trans h.eh
  · exact hs.fGenerateTinyHeader.trans h.fGenerateTinyHeader

/-- Any number of edits keep what holds. -/
theorem Edited.edits {s t u : ILRewriter} (hfull : ∀ n, 1 ≤ n → n ≤ s.nInstrs →
    ∃ i ∈ s.instrs, i.ptr = n) (h : Edited s t) (hedits : Edits t u) : Edited s u := by
  induction hedits with
  | refl => exact h
  | tail _ hedit ih => exact ih.edit hfull hedit

/-! ### When `Export` has room -/

/-- The code of the settled list fits the output buffer, whose size `Export` computes in
32 bits, and the whole body fits 32 bits. -/
def Fits (s : ILRewriter) : Prop :=
  codeSize (settle s.instrs) ≤ s.nInstrs * 10 % 2 ^ 32
    ∧ fatSize (codeSize (settle s.instrs)) s.eh.length < 2 ^ 32

theorem instrSize_le (opcode : ℕ) : instrSize opcode ≤ 9 := by
  by_cases hlt : opcode < opCodeFlagsCount
  · have htable : ∀ o < opCodeFlagsCount, instrSize o ≤ 9 := by decide +kernel
    exact htable opcode hlt
  · have hge := Nat.le_of_not_lt hlt
    rw [instrSize, opCodeFlags_of_ge hge, opcodeBytes, if_pos (Nat.le_trans (by decide) hge)]
    decide

theorem codeSize_le (is : List ILInstr) : codeSize is ≤ 9 * is.length := by
  induction is with
  | nil => exact Nat.le_refl _
  | cons i is ih =>
      have := instrSize_le i.opcode
      rw [codeSize, List.length_cons]
      omega

theorem length_settle (is : List ILInstr) : (settle is).length = is.length :=
  settle_induction (P := fun js => js.length = is.length)
    (fun js h => by
      have := congrArg List.length (map_widenFar (·.ptr) (fun _ => rfl) (offsetOf js) 0 js)
      rwa [List.length_map, List.length_map, h] at this) is rfl

/-- Distinct addresses that were allocated are at most as many as were allocated. -/
theorem Edited.length_le {s t : ILRewriter} (h : Edited s t) : t.instrs.length ≤ t.nInstrs := by
  have hsub : t.instrs.map (·.ptr) ⊆ List.range' 1 t.nInstrs := by
    intro n hn
    obtain ⟨i, hi, rfl⟩ := List.mem_map.mp hn
    obtain ⟨hpos, hle⟩ := h.allocated i hi
    rw [List.mem_range'_1]
    omega
  have hlen := (List.subperm_of_subset h.nodup hsub).length_le
  rwa [List.length_map, List.length_range'] at hlen

/-- As long as ten times the number of instructions fits 32 bits, there is room. A
section holds less than `2 ^ 24` bytes of clauses. -/
theorem Edited.fits {s t : ILRewriter} (h : Edited s t) (hn : t.nInstrs * 10 < 2 ^ 32)
    (heh : t.eh.length * 24 < 2 ^ 24) : Fits t := by
  have hsize := codeSize_le (settle t.instrs)
  rw [length_settle] at hsize
  have hlen := h.length_le
  refine ⟨by rw [Nat.mod_eq_of_lt hn]; omega, ?_⟩
  rw [fatSize]
  split <;> omega

/-! ### The round trip -/

/-- Widening keeps the instructions, but for the long forms. -/
theorem settle_same (is : List ILInstr) :
    List.Forall₂ (fun i j => j.ptr = i.ptr ∧ j.target = i.target ∧ j.arg = i.arg
      ∧ (j.opcode = i.opcode ∨
        opCodeFlags i.opcode = .shortBranch ∧ j.opcode = longBranch i.opcode)) is (settle is) := by
  refine settle_induction (P := fun js => List.Forall₂ _ is js) (fun js h => ?_) is
    (List.forall₂_same.mpr fun i _ => ⟨rfl, rfl, rfl, .inl rfl⟩)
  have hround (offsets : InstrPtr → ℕ) (here : ℕ) : List.Forall₂ (fun i j => j.ptr = i.ptr
      ∧ j.target = i.target ∧ j.arg = i.arg ∧ (j.opcode = i.opcode ∨
        opCodeFlags i.opcode = .shortBranch ∧ j.opcode = longBranch i.opcode)) is
      (widenFar offsets here js) := by
    induction h generalizing here with
    | nil => exact .nil
    | @cons i j is js hij _ ih =>
        refine .cons ?_ (ih _)
        obtain ⟨hptr, htarget, harg, hopcode⟩ := hij
        split
        · next hfar =>
            refine ⟨hptr, htarget, harg, .inr ?_⟩
            rcases hopcode with hsame | ⟨hshort, hlong⟩
            · have hshort := hfar.1
              rw [hsame] at hshort
              refine ⟨hshort, ?_⟩
              rw [ILInstr.widen, hsame]
            · have hbranch := opCodeFlags_longBranch (shortBranch_cases hshort)
              rw [← hlong, hfar.1] at hbranch
              cases hbranch
        · exact ⟨hptr, htarget, harg, hopcode⟩
  exact hround _ 0

/-- A rewriter that has just been made, but for the header and the clauses. -/
structure New (s : ILRewriter) : Prop where
  instrs : s.instrs = []
  nInstrs : s.nInstrs = 0
  fGenerateTinyHeader : s.fGenerateTinyHeader = false

/-- `Export` of a list: it succeeds exactly when the settled list fits, and writes the code
of the settled list. -/
theorem export_eq_ok {t : ILRewriter} (hclosed : Closed t.instrs)
    (htiny : t.fGenerateTinyHeader = false) (fill : ℕ → Byte) :
    ((∃ r, t.export fill = .ok r) ↔ Fits t)
      ∧ ∀ body exported, t.export fill = .ok (body, exported) →
          body.code = code (settle t.instrs) ∧ exported.instrs = settle t.instrs := by
  have hspec {is : List ILInstr} {e : Emission}
      (h : exportPasses (t.nInstrs * 10 % 2 ^ 32) t.instrs
        { size := t.nInstrs * 10 % 2 ^ 32, get := fill } = .ok (is, e)) :
      is = settle t.instrs ∧ Exported is e ∧ codeSize is ≤ t.nInstrs * 10 % 2 ^ 32 :=
    exportPasses_spec hclosed rfl h
  have hstep {r : MethodBody × ILRewriter} (h : t.export fill = .ok r) :
      Fits t ∧ r.1.code = code (settle t.instrs) ∧ r.2.instrs = settle t.instrs := by
    obtain ⟨⟨is, e⟩, hpasses, hbody⟩ := bind_eq_ok h
    obtain ⟨rfl, hexported, hsize⟩ := hspec hpasses
    dsimp only at hbody
    rw [if_neg (by rw [htiny]; exact Bool.false_ne_true)] at hbody
    split at hbody
    · cases hbody
    · next hfat =>
        cases hbody
        rw [hexported.offset] at hfat
        exact ⟨⟨hsize, Nat.lt_of_not_le hfat⟩, hexported.code, rfl⟩
  refine ⟨⟨fun ⟨r, hr⟩ => (hstep hr).1, fun hfits => ?_⟩, fun body exported h => (hstep h).2⟩
  obtain ⟨⟨is, e⟩, hpasses⟩ : ∃ r, exportPasses (t.nInstrs * 10 % 2 ^ 32) t.instrs
      { size := t.nInstrs * 10 % 2 ^ 32, get := fill } = .ok r :=
    exportPasses_progress hclosed rfl hfits.1
  obtain ⟨rfl, hexported, -⟩ := hspec hpasses
  have hfat : ¬2 ^ 32 ≤ fatSize e.offset t.eh.length := by
    rw [hexported.offset]
    exact Nat.not_le.mpr hfits.2
  rw [ILRewriter.export]
  simp only [hpasses, bind, Except.bind, htiny, Bool.false_eq_true, if_false, if_neg hfat]
  exact ⟨_, rfl⟩

theorem ptrs_settle (is : List ILInstr) : (settle is).map (·.ptr) = is.map (·.ptr) :=
  settle_induction (P := fun js => js.map (·.ptr) = is.map (·.ptr))
    (fun js h => by rw [map_widenFar _ fun _ => rfl, h]) is rfl

/-- What is exported of a well-formed list is imported to the same instructions. -/
theorem reimport_settled {s : ILRewriter} (hnew : New s) {is : List ILInstr}
    (hwf : WellFormed is) (hsize : codeSize (settle is) < 2 ^ 32) :
    ∃ r, s.importIL (code (settle is)) = some r ∧ SameInstrs is r.instrs := by
  obtain ⟨r, hr, hsame⟩ := importIL_code hnew.instrs hnew.nInstrs hwf.settle (settled_settle is)
    hsize
  have hwiden := settle_same is
  refine ⟨r, hr, List.forall₂_iff_get.mpr ⟨?_, fun m hm hm' => ?_⟩⟩
  · rw [hwiden.length_eq, hsame.length_eq]
  · have hms : m < (settle is).length := hwiden.length_eq ▸ hm
    obtain ⟨-, htarget, harg, hopcode⟩ := hwiden.get hm hms
    obtain ⟨hop, hinstr⟩ := hsame.get hms hm'
    simp only [List.get_eq_getElem] at htarget harg hopcode hop hinstr ⊢
    refine ⟨?_, fun hplain => ?_, fun hbranch => ?_⟩
    · rw [hop]
      exact hopcode.imp_right fun ⟨hshort, hlong⟩ => ⟨shortBranch_cases hshort, hlong⟩
    · rcases hopcode with hsameOp | ⟨hshort, -⟩
      · rw [← harg, ← hsameOp]
        exact hinstr.operand (by rw [hsameOp]; exact hplain)
      · rw [hshort] at hplain
        cases hplain
    · have hbranch' : (opCodeFlags (settle is)[m].opcode).branchTarget = true := by
        rcases hopcode with hsameOp | ⟨hshort, hlong⟩
        · rw [hsameOp]
          exact hbranch
        · rw [hlong, opCodeFlags_longBranch (shortBranch_cases hshort)]
          rfl
      obtain ⟨hlinked, hposition⟩ := hinstr.target hbranch'
      refine ⟨hlinked, ?_⟩
      rw [hposition, htarget, position_congr (ptrs_settle is)]

/-- What an import leaves, as the start of the edits. -/
theorem edited_imported {s t : ILRewriter} {rs : List RawInstr} (h : Imports s rs t)
    (hwf : WellFormed t.instrs) :
    Edited t t ∧ ∀ n, 1 ≤ n → n ≤ t.nInstrs → ∃ i ∈ t.instrs, i.ptr = n := by
  have hnumber {m : ℕ} {i : ILInstr} (hm : t.instrs[m]? = some i) : i.ptr = m + 1 := by
    obtain ⟨-, -, hptr, -⟩ := h.instrs.instrs m i hm
    exact hptr
  refine ⟨⟨hwf.nodup, ?_, hwf.importable, hwf.blocks, fun _ hi => hi, fun _ hi => .inl hi,
    Nat.le_refl _, rfl, rfl⟩, ?_⟩
  · intro i hi
    obtain ⟨m, hm⟩ := List.mem_iff_getElem?.mp hi
    have hlt := (List.getElem?_eq_some_iff.mp hm).1
    rw [hnumber hm, h.nInstrs, ← h.instrs.length]
    omega
  · intro n hpos hle
    rw [h.nInstrs, ← h.instrs.length] at hle
    have hlt : n - 1 < t.instrs.length := by omega
    refine ⟨_, List.getElem_mem hlt, ?_⟩
    rw [hnumber (List.getElem?_eq_getElem hlt)]
    omega

/-- An edited list is well formed once its new branches go to instructions of the list. -/
theorem Edited.wellFormed {t u : ILRewriter} (h : Edited t u) (hwf : WellFormed t.instrs)
    (htargets : ∀ i ∈ u.instrs, t.nInstrs < i.ptr → (opCodeFlags i.opcode).branchTarget = true →
      Linked u.instrs i.target ∧ Outside u.instrs i.target) : WellFormed u.instrs where
  nodup := h.nodup
  importable := h.importable
  blocks := h.blocks
  targets := by
    intro i hi hbranch
    rcases h.new i hi with hold | hnew
    · rcases hwf.targets i hold hbranch with hil | ⟨j, hj, heq⟩
      · exact .inl hil
      · exact .inr ⟨j, h.kept j hj, heq⟩
    · exact (htargets i hi hnew hbranch).1
  notArg := by
    intro i hi hbranch j hj heq
    rcases h.new i hi with hold | hnew
    · rcases hwf.targets i hold hbranch with hil | ⟨k, hk, heq'⟩
      · rw [hil] at heq
        cases heq
      · have hptr : j.ptr = k.ptr := InstrPtr.instr.inj (heq.symm.trans heq')
        have hjk : j = k := List.inj_on_of_nodup_map h.nodup hj (h.kept k hk) hptr
        rw [hjk]
        exact hwf.notArg i hold hbranch k hk heq'
    · exact (htargets i hi hnew hbranch).2 j hj heq

/-- **Importing, editing, exporting and importing again.** Of every code that `ImportIL`
accepts and every edit of its list whose new branches go to instructions of the list,
`Export` writes a code that is imported to the same instructions, and writes the code
unchanged if nothing was linked in, exactly when the code of the settled list fits the
buffer. It fits whenever ten times the number of instructions is below `2 ^ 32`. -/
theorem export_importIL_iff {s t u : ILRewriter} {pIL : List Byte} (hnew : New s)
    (himport : s.importIL pIL = some t) (hedits : Edits t u)
    (htargets : ∀ i ∈ u.instrs, t.nInstrs < i.ptr → (opCodeFlags i.opcode).branchTarget = true →
      Linked u.instrs i.target ∧ Outside u.instrs i.target) (fill : ℕ → Byte) :
    ((∃ body exported, u.export fill = .ok (body, exported)
        ∧ (∃ r, s.importIL body.code = some r ∧ SameInstrs u.instrs r.instrs)
        ∧ (u.instrs = t.instrs → body.code = pIL)) ↔ Fits u)
      ∧ (u.nInstrs * 10 < 2 ^ 32 → u.eh.length * 24 < 2 ^ 24 → Fits u) := by
  obtain ⟨rs, hnormal, hblocks, hreach, hcode, himports⟩ :=
    importIL_eq_some hnew.instrs hnew.nInstrs himport
  obtain ⟨hwf, hsettled, hraw⟩ := imported_wellFormed himports.instrs hnormal hblocks hreach
  obtain ⟨hstart, hfull⟩ := edited_imported himports hwf
  have hedited := hstart.edits hfull hedits
  have hwfu := hedited.wellFormed hwf htargets
  have htiny : u.fGenerateTinyHeader = false := by
    rw [hedited.fGenerateTinyHeader, himports.header.fGenerateTinyHeader]
    exact hnew.fGenerateTinyHeader
  obtain ⟨hsuccess, hbody⟩ := export_eq_ok hwfu.toClosed htiny fill
  refine ⟨⟨?_, fun hfits => ?_⟩, fun hn heh => hedited.fits hn heh⟩
  · rintro ⟨body, exported, hexport, -⟩
    exact hsuccess.mp ⟨_, hexport⟩
  · obtain ⟨⟨body, exported⟩, hexport⟩ := hsuccess.mpr hfits
    obtain ⟨hbytes, -⟩ := hbody body exported hexport
    have hsize : codeSize (settle u.instrs) < 2 ^ 32 :=
      Nat.lt_of_le_of_lt hfits.1 (Nat.mod_lt _ (by decide))
    refine ⟨body, exported, hexport, ?_, fun hsame => ?_⟩
    · rw [hbytes]
      exact reimport_settled hnew hwfu hsize
    · rw [hbytes, hsame, settle_of_settled hsettled, code, hraw, hcode]

/-- The round trip of `br.s`, `ret` with a `nop` linked in between. -/
theorem export_importIL_nop_inserted : ∃ t u, ILRewriter.init.importIL [0x2B, 0x00, 0x2A] = some t
    ∧ Edits t u ∧ u.instrs.map (·.opcode) = [ceeBrS, ceeNop, ceeRet]
    ∧ ∃ body exported, u.export (fun _ => 0) = .ok (body, exported)
      ∧ ∃ r, ILRewriter.init.importIL body.code = some r ∧ SameInstrs u.instrs r.instrs := by
  obtain ⟨t, ht, hinstrs, hn, heh⟩ : ∃ t, ILRewriter.init.importIL [0x2B, 0x00, 0x2A] = some t
      ∧ t.instrs = [⟨1, ceeBrS, .instr 2, 2⟩, ⟨2, ceeRet, .il, 0⟩] ∧ t.nInstrs = 2 ∧ t.eh = [] :=
    ⟨_, rfl, by decide, rfl, rfl⟩
  let nop : ILInstr := ⟨3, ceeNop, .il, 0⟩
  let u := t.newILInstr.2.insertBefore (.instr 2) nop
  have huInstrs : u.instrs = [⟨1, ceeBrS, .instr 2, 2⟩, nop, ⟨2, ceeRet, .il, 0⟩] := by
    change linkBefore _ nop t.instrs = _
    rw [hinstrs]
    rfl
  have hedits : Edits t u := by
    refine (Relation.ReflTransGen.single (.newILInstr t)).tail (.insertBefore _ _ nop ?_ ?_ ?_ rfl)
    · change Linked t.instrs _
      rw [hinstrs]
      exact .inr ⟨⟨2, ceeRet, .il, 0⟩, by simp, rfl⟩
    · change Outside t.instrs _
      rw [hinstrs]
      simp [Outside, ceeRet, ceeSwitchArg]
    · refine ⟨⟨by decide, ?_⟩, ?_, by decide⟩
      · change 3 ≤ t.nInstrs + 1
        omega
      · change ∀ j ∈ t.instrs, _
        rw [hinstrs]
        simp [nop]
  have htargets : ∀ i ∈ u.instrs, t.nInstrs < i.ptr →
      (opCodeFlags i.opcode).branchTarget = true →
        Linked u.instrs i.target ∧ Outside u.instrs i.target := by
    rw [huInstrs, hn]
    intro i hi hlt hbranch
    simp only [List.mem_cons, List.not_mem_nil, or_false] at hi
    rcases hi with rfl | rfl | rfl
    · exact absurd hlt (by decide)
    · exact absurd hbranch (by decide)
    · exact absurd hlt (by decide)
  obtain ⟨hiff, hfits⟩ := export_importIL_iff ⟨rfl, rfl, rfl⟩ ht hedits htargets fun _ => 0
  have hfitsU : Fits u := by
    refine hfits ?_ ?_
    · change (t.nInstrs + 1) * 10 < 2 ^ 32
      rw [hn]
      decide
    · change t.eh.length * 24 < 2 ^ 24
      rw [heh]
      decide
  obtain ⟨body, exported, hexport, hreimport, -⟩ := hiff.mpr hfitsU
  exact ⟨t, u, ht, hedits, by rw [huInstrs]; rfl, body, exported, hexport, hreimport⟩

/-! ### A list that does not fit -/

/-- The raw instructions of a code of `k` times `nop`, and `ret`. -/
def nopsThenRet (k : ℕ) : List RawInstr := List.replicate k ⟨ceeNop, 0⟩ ++ [⟨ceeRet, 0⟩]

theorem encodeAll_nopsThenRet (k here : ℕ) (switchBase : BitVec 32) :
    encodeAll here switchBase (nopsThenRet k) = List.replicate k 0x00 ++ [0x2A] := by
  induction k generalizing here switchBase with
  | zero => rfl
  | succ k ih =>
      have hcons : nopsThenRet (k + 1) = ⟨ceeNop, 0⟩ :: nopsThenRet k := by
        rw [nopsThenRet, List.replicate_succ, List.cons_append, nopsThenRet]
      rw [hcons, encodeAll, ih, List.replicate_succ, List.cons_append]
      rfl

theorem blocks_plain {rs : List RawInstr} (h : ∀ r ∈ rs, r.part = .plain) :
    blocks 0 (rs.map RawInstr.part) = true := by
  induction rs with
  | nil => rfl
  | cons r rs ih =>
      rw [List.map_cons, h r List.mem_cons_self]
      exact ih fun a ha => h a (List.mem_cons_of_mem r ha)

theorem reaches_of_no_shortBranch {rs : List RawInstr} (here : ℕ)
    (h : ∀ r ∈ rs, opCodeFlags r.opcode ≠ .shortBranch) : Reaches here rs := by
  induction rs generalizing here with
  | nil => trivial
  | cons r rs ih =>
      exact ⟨fun hshort => absurd hshort (h r List.mem_cons_self),
        ih _ fun a ha => h a (List.mem_cons_of_mem r ha)⟩

/-- No body is exported of `k` times `nop`, and `ret`, when ten times the number of
instructions wraps around to less than that number. -/
theorem export_nopsThenRet {k : ℕ} (hk : (k + 1) * 10 % 2 ^ 32 < k + 1) :
    ∃ t, ILRewriter.init.importIL (List.replicate k 0x00 ++ [0x2A]) = some t
      ∧ ∀ fill r, t.export fill ≠ .ok r := by
  have hmem : ∀ r ∈ nopsThenRet k, r = ⟨ceeNop, 0⟩ ∨ r = ⟨ceeRet, 0⟩ := by
    intro r hr
    rcases List.mem_append.mp hr with hr | hr
    · exact .inl (List.eq_of_mem_replicate hr)
    · exact .inr (List.mem_singleton.mp hr)
  have hnormal : ∀ r ∈ nopsThenRet k, Normal r := by
    intro r hr
    rcases hmem r hr with rfl | rfl <;> exact ⟨by decide, by decide⟩
  have hblocks := blocks_plain fun r hr => by
    rcases hmem r hr with rfl | rfl <;> rfl
  have hreach : Reaches 0 (nopsThenRet k) := reaches_of_no_shortBranch 0 fun r hr => by
    rcases hmem r hr with rfl | rfl <;> decide
  obtain ⟨t, ht⟩ := importIL_progress (s := ILRewriter.init) rfl rfl hnormal hblocks hreach
    fun r hr hbranch => by
      rcases hmem r hr with rfl | rfl <;> cases hbranch
  have himports := imports_encodeAll (s := ILRewriter.init) rfl rfl hnormal hblocks hreach ht
  obtain ⟨hwf, -⟩ := imported_wellFormed himports.instrs hnormal hblocks hreach
  rw [encodeAll_nopsThenRet] at ht
  refine ⟨t, ht, fun fill r hr => ?_⟩
  obtain ⟨hroom, -⟩ :=
    (export_eq_ok hwf.toClosed himports.header.fGenerateTinyHeader fill).1.mp ⟨r, hr⟩
  have hlen : (nopsThenRet k).length = k + 1 := by
    rw [nopsThenRet, List.length_append, List.length_replicate, List.length_singleton]
  have hsize : ∀ is : List ILInstr, (∀ i ∈ is, Importable i.opcode) →
      is.length ≤ codeSize is := by
    intro is
    induction is with
    | nil => exact fun _ => Nat.le_refl _
    | cons i is ih =>
        intro h
        have hpos := (h i List.mem_cons_self).size_pos
        have hrest := ih fun j hj => h j (List.mem_cons_of_mem i hj)
        rw [List.length_cons, codeSize]
        omega
  have hmany := hsize t.instrs hwf.importable
  have hsettle := codeSize_le_settle t.instrs
  rw [himports.instrs.length, hlen] at hmany
  rw [himports.nInstrs, hlen] at hroom
  omega

/-- `nop`, 429496729 times, and `ret`: for 429496730 instructions the buffer is 4 bytes. -/
theorem export_importIL_overflow :
    ∃ t, ILRewriter.init.importIL (List.replicate 429496729 0x00 ++ [0x2A]) = some t
      ∧ ∀ fill r, t.export fill ≠ .ok r :=
  export_nopsThenRet (by norm_num)

end AutoInstrumentation.IL
