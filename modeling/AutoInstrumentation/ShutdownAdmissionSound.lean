import AutoInstrumentation.ShutdownAdmission

/-!
# AutoInstrumentation.ShutdownAdmissionSound

What the shutdown admission gate guarantees in every interleaving.

The invariant `Inv` says that the word is always the pair of the closing bit and
the number of outstanding operations (so neither ever spills into the other),
and that the tokens of the drained signal, one for each party about to raise it
and one for the raised signal, number one exactly when the gate is closed and
empty, and zero otherwise. The signal is therefore raised once, by whoever of
the last leaver and the closer sees the other's change, and never earlier.
-/

set_option linter.unusedSectionVars false

namespace AutoInstrumentation.ShutdownAdmission

open Lib Lib.System Lib.FlagWord

/-! ### The tests of the code on a packed word -/

theorem closingBit_eq : shutdownAdmissionClosingBit = flagBit 63 := by decide

theorem countMask_eq_mask : shutdownAdmissionCountMask = countMask 63 := by decide

theorem refuses_pack (b : Bool) {n : ℕ} (h : n < 2 ^ 63) :
    refuses (pack 63 b n) = true ↔ b = true ∨ n = 2 ^ 63 - 1 := by
  rw [refuses, closingBit_eq, countMask_eq_mask, Bool.or_eq_true, decide_eq_true_iff,
    decide_eq_true_iff]
  exact or_congr (pack_and_flagBit b n) (pack_and_countMask_eq_countMask b h)

theorem lastLeave_pack (b : Bool) {n : ℕ} (h : n < 2 ^ 63) :
    lastLeave (pack 63 b n) = true ↔ n = 1 ∧ b = true := by
  rw [lastLeave, closingBit_eq, countMask_eq_mask, Bool.and_eq_true, decide_eq_true_iff,
    decide_eq_true_iff]
  exact and_congr (pack_and_countMask_eq_ofNat b h (by decide)) (pack_and_flagBit b n)

theorem closedIdle_pack (b : Bool) {n : ℕ} (h : n < 2 ^ 63) :
    closedIdle (pack 63 b n) = true ↔ n = 0 := by
  rw [closedIdle, countMask_eq_mask, decide_eq_true_iff]
  exact pack_and_countMask_eq_ofNat b h (by decide)

/-! ### What one step does -/

variable {ι : Type} [DecidableEq ι]

@[simp] theorem setOp_gate (s : State ι) (i : ι) (p : Phase) :
    (s.setOp i p).shutdownAdmissionGate = s.shutdownAdmissionGate := rfl
@[simp] theorem setOp_drained (s : State ι) (i : ι) (p : Phase) :
    (s.setOp i p).shutdownAdmissionsDrained = s.shutdownAdmissionsDrained := rfl
@[simp] theorem setOp_closer (s : State ι) (i : ι) (p : Phase) :
    (s.setOp i p).closer = s.closer := rfl

/-- `step` as a relation, one constructor for each way a step goes. -/
inductive Moves (s : State ι) : Act ι → State ι → Prop
  | load {i : ι} : s.ops i = .created →
      Moves s (.load i) (s.setOp i (.testing s.shutdownAdmissionGate))
  | refuse {i : ι} {state : BitVec 64} : s.ops i = .testing state → refuses state = true →
      Moves s (.refuse i) (s.setOp i .refused)
  | exchange {i : ι} : s.ops i = .testing s.shutdownAdmissionGate →
      refuses s.shutdownAdmissionGate = false →
      Moves s (.exchange i)
        { s.setOp i .admitted with shutdownAdmissionGate := s.shutdownAdmissionGate + 1 }
  | exchangeFails {i : ι} {state : BitVec 64} : s.ops i = .testing state →
      Moves s (.exchangeFails i) (s.setOp i (.testing s.shutdownAdmissionGate))
  | leaveLast {i : ι} : s.ops i = .admitted → lastLeave s.shutdownAdmissionGate = true →
      Moves s (.leave i)
        { s.setOp i .raising with shutdownAdmissionGate := s.shutdownAdmissionGate - 1 }
  | leave {i : ι} : s.ops i = .admitted → lastLeave s.shutdownAdmissionGate = false →
      Moves s (.leave i)
        { s.setOp i .finished with shutdownAdmissionGate := s.shutdownAdmissionGate - 1 }
  | raise {i : ι} : s.ops i = .raising →
      Moves s (.raise i) { s.setOp i .notifying with shutdownAdmissionsDrained := true }
  | notify {i : ι} : s.ops i = .notifying →
      Moves s (.notify i) { s.setOp i .finished with closer := s.closer.notified }
  | closeIdle : s.closer = .running → closedIdle s.shutdownAdmissionGate = true →
      Moves s .close { s with
        closer := .raising
        shutdownAdmissionGate := s.shutdownAdmissionGate ||| shutdownAdmissionClosingBit }
  | closeBusy : s.closer = .running → closedIdle s.shutdownAdmissionGate = false →
      Moves s .close { s with
        closer := .waiting
        shutdownAdmissionGate := s.shutdownAdmissionGate ||| shutdownAdmissionClosingBit }
  | closeRaise : s.closer = .raising →
      Moves s .closeRaise { s with closer := .notifying, shutdownAdmissionsDrained := true }
  | closeNotify : s.closer = .notifying → Moves s .closeNotify { s with closer := .waiting }
  | testDrained : s.closer = .waiting → s.shutdownAdmissionsDrained = true →
      Moves s .test { s with closer := .returned }
  | testBlocks : s.closer = .waiting → s.shutdownAdmissionsDrained = false →
      Moves s .test { s with closer := .asleep }
  | wake : s.closer = .asleep → Moves s .wake { s with closer := .waiting }

/-- Every step of the code is one of these moves. -/
theorem moves_of_step {s t : State ι} {a : Act ι} (h : step s a = some t) : Moves s a t := by
  cases a with
  | load i =>
      cases hp : s.ops i <;> simp only [step, hp, reduceCtorEq, Option.some.injEq] at h
      exact h ▸ .load hp
  | refuse i =>
      cases hp : s.ops i <;> simp only [step, hp, reduceCtorEq] at h
      rename_i state
      cases hr : refuses state <;> simp only [hr, reduceCtorEq, if_true, if_false,
        Bool.false_eq_true, Option.some.injEq] at h
      exact h ▸ .refuse hp hr
  | exchange i =>
      cases hp : s.ops i <;> simp only [step, hp, reduceCtorEq] at h
      split at h
      · rename_i hc
        obtain ⟨hr, rfl⟩ := hc
        obtain rfl := Option.some.inj h
        exact .exchange hp (by simpa using hr)
      · simp at h
  | exchangeFails i =>
      cases hp : s.ops i <;> simp only [step, hp, reduceCtorEq] at h
      split at h
      · simp at h
      · exact Option.some.inj h ▸ .exchangeFails hp
  | leave i =>
      cases hp : s.ops i <;> simp only [step, hp, reduceCtorEq, Option.some.injEq] at h
      subst h
      cases hl : lastLeave s.shutdownAdmissionGate with
      | true => exact .leaveLast hp hl
      | false => exact .leave hp hl
  | raise i =>
      cases hp : s.ops i <;> simp only [step, hp, reduceCtorEq, Option.some.injEq] at h
      exact h ▸ .raise hp
  | notify i =>
      cases hp : s.ops i <;> simp only [step, hp, reduceCtorEq, Option.some.injEq] at h
      exact h ▸ .notify hp
  | close =>
      cases hc : s.closer <;> simp only [step, hc, reduceCtorEq, Option.some.injEq] at h
      subst h
      cases hi : closedIdle s.shutdownAdmissionGate with
      | true => exact .closeIdle hc hi
      | false => exact .closeBusy hc hi
  | closeRaise =>
      cases hc : s.closer <;> simp only [step, hc, reduceCtorEq, Option.some.injEq] at h
      exact h ▸ .closeRaise hc
  | closeNotify =>
      cases hc : s.closer <;> simp only [step, hc, reduceCtorEq, Option.some.injEq] at h
      exact h ▸ .closeNotify hc
  | test =>
      cases hc : s.closer <;> simp only [step, hc, reduceCtorEq, Option.some.injEq] at h
      subst h
      cases hd : s.shutdownAdmissionsDrained with
      | true => simpa only [hd, if_true] using Moves.testDrained hc hd
      | false => simpa only [hd, if_false, Bool.false_eq_true] using Moves.testBlocks hc hd
  | wake =>
      cases hc : s.closer <;> simp only [step, hc, reduceCtorEq, Option.some.injEq] at h
      exact h ▸ .wake hc

/-! ### The invariant -/

variable [Fintype ι]

/-- One for the closing thread while it is about to raise the signal. -/
def Closer.token : Closer → ℕ
  | .raising => 1
  | _ => 0

/-- The tokens of the drained signal: everyone about to raise it, and the raised
signal itself. -/
def State.tokens (s : State ι) : ℕ :=
  s.raisers + s.closer.token + s.shutdownAdmissionsDrained.toNat

structure Inv (s : State ι) : Prop where
  /-- The word is the closing bit and the number of outstanding operations. -/
  gate : s.shutdownAdmissionGate = pack 63 s.closed s.outstanding
  /-- The count fits below the closing bit. -/
  bound : s.outstanding < 2 ^ 63
  /-- One token when the gate is closed and empty, none otherwise. -/
  tokens : s.tokens = if s.closed = true ∧ s.outstanding = 0 then 1 else 0
  /-- The wait returns only on the raised signal. -/
  returned : s.closer = .returned → s.shutdownAdmissionsDrained = true
  /-- A blocked waiter whose signal is raised still has a notification coming. -/
  asleep : s.closer = .asleep → s.shutdownAdmissionsDrained = true → ∃ i, s.ops i = .notifying

@[simp] theorem outstanding_initial : (State.initial : State ι).outstanding = 0 :=
  countWhere_eq_zero.mpr fun _ => rfl

@[simp] theorem raisers_initial : (State.initial : State ι).raisers = 0 :=
  countWhere_eq_zero.mpr fun _ => rfl

theorem inv_initial : Inv (State.initial : State ι) where
  gate := by
    rw [outstanding_initial]
    exact (by decide : (0 : BitVec 64) = pack 63 false 0)
  bound := by
    rw [outstanding_initial]
    decide
  tokens := by
    rw [State.tokens, raisers_initial, outstanding_initial]
    rfl
  returned h := by simp [State.initial] at h
  asleep h := by simp [State.initial] at h

/-! ### Preservation -/

theorem outstanding_setOp_same {s : State ι} {i : ι} {p : Phase}
    (h : p.holds = (s.ops i).holds) : (s.setOp i p).outstanding = s.outstanding :=
  countWhere_update_same h

theorem raisers_setOp_same {s : State ι} {i : ι} {p : Phase}
    (h : p.raises = (s.ops i).raises) : (s.setOp i p).raisers = s.raisers :=
  countWhere_update_same h

/-- The gate's tests on the invariant's reading of the word. -/
theorem Inv.refuses {s : State ι} (hI : Inv s) :
    refuses s.shutdownAdmissionGate = true ↔
      s.closed = true ∨ s.outstanding = 2 ^ 63 - 1 := by
  rw [hI.gate]
  exact refuses_pack _ hI.bound

theorem Inv.lastLeave {s : State ι} (hI : Inv s) :
    lastLeave s.shutdownAdmissionGate = true ↔ s.outstanding = 1 ∧ s.closed = true := by
  rw [hI.gate]
  exact lastLeave_pack _ hI.bound

theorem Inv.closedIdle {s : State ι} (hI : Inv s) :
    closedIdle s.shutdownAdmissionGate = true ↔ s.outstanding = 0 := by
  rw [hI.gate]
  exact closedIdle_pack _ hI.bound

/-- While some party is about to raise the signal, the gate is closed and empty
and the signal is not raised yet. -/
theorem Inv.of_raiser {s : State ι} (hI : Inv s) (h : 0 < s.raisers + s.closer.token) :
    s.closed = true ∧ s.outstanding = 0 ∧ s.shutdownAdmissionsDrained = false ∧
      s.raisers + s.closer.token = 1 := by
  have htok := hI.tokens
  rw [State.tokens] at htok
  split at htok
  · rename_i hc
    refine ⟨hc.1, hc.2, ?_, by omega⟩
    rw [← Bool.toNat_eq_zero]
    omega
  · omega

/-- The raised signal means that the gate is closed and empty, with no raiser left. -/
theorem Inv.of_drained {s : State ι} (hI : Inv s) (h : s.shutdownAdmissionsDrained = true) :
    s.closed = true ∧ s.outstanding = 0 ∧ s.raisers = 0 ∧ s.closer.token = 0 := by
  have htok := hI.tokens
  rw [State.tokens, h, Bool.toNat_true] at htok
  split at htok
  · rename_i hc
    exact ⟨hc.1, hc.2, by omega, by omega⟩
  · omega

/-- An object that neither gains nor gives up a count, a token or a notification
keeps the invariant. -/
theorem Inv.setOp_quiet {s : State ι} (hI : Inv s) {i : ι} {p : Phase}
    (hh : p.holds = (s.ops i).holds) (hr : p.raises = (s.ops i).raises)
    (hn : s.ops i ≠ .notifying) : Inv (s.setOp i p) where
  gate := by
    rw [outstanding_setOp_same hh]
    exact hI.gate
  bound := by
    rw [outstanding_setOp_same hh]
    exact hI.bound
  tokens := by
    rw [State.tokens, raisers_setOp_same hr, outstanding_setOp_same hh]
    exact hI.tokens
  returned := hI.returned
  asleep := by
    intro ha hd
    obtain ⟨j, hj⟩ := hI.asleep ha hd
    have hji : j ≠ i := fun he => hn (he ▸ hj)
    exact ⟨j, by simpa [State.setOp, hji] using hj⟩

theorem asleep_setOp {s t : State ι} (hI : Inv s) {i : ι} {p : Phase} (hn : s.ops i ≠ .notifying)
    (hops : t.ops = Function.update s.ops i p) (hc : t.closer = s.closer)
    (hd : t.shutdownAdmissionsDrained = true → s.shutdownAdmissionsDrained = true)
    (ha : t.closer = .asleep) (h : t.shutdownAdmissionsDrained = true) :
    ∃ j, t.ops j = .notifying := by
  obtain ⟨j, hj⟩ := hI.asleep (hc ▸ ha) (hd h)
  have hji : j ≠ i := fun he => hn (he ▸ hj)
  exact ⟨j, by rw [hops, Function.update_of_ne hji, hj]⟩

/-- A successful compare-exchange admits one operation of an open, unfilled gate. -/
theorem Inv.exchange {s : State ι} (hI : Inv s) {i : ι} {state : BitVec 64}
    (hp : s.ops i = .testing state) (hr : ShutdownAdmission.refuses s.shutdownAdmissionGate = false) :
    Inv { s.setOp i .admitted with
      shutdownAdmissionGate := s.shutdownAdmissionGate + 1 } := by
  have hopen : ¬ (s.closed = true ∨ s.outstanding = 2 ^ 63 - 1) := fun h => by
    simp [hI.refuses.mpr h] at hr
  obtain ⟨hclosed, hfull⟩ := not_or.mp hopen
  have hb := hI.bound
  have hout : (s.setOp i .admitted).outstanding = s.outstanding + 1 :=
    countWhere_update_enter (by rw [hp]; rfl) rfl
  have hrai : (s.setOp i .admitted).raisers = s.raisers :=
    raisers_setOp_same (by rw [hp]; rfl)
  constructor
  case gate =>
    change _ = pack 63 s.closed (s.setOp i .admitted).outstanding
    rw [hout, hI.gate, pack_add_one _ (by omega)]
  case bound =>
    change (s.setOp i .admitted).outstanding < _
    omega
  case tokens =>
    have htok := hI.tokens
    change (s.setOp i .admitted).raisers + s.closer.token + s.shutdownAdmissionsDrained.toNat =
      if s.closed = true ∧ (s.setOp i .admitted).outstanding = 0 then 1 else 0
    rw [if_neg (fun h => hclosed h.1)] at htok ⊢
    rw [hrai]
    exact htok
  case returned => exact hI.returned
  case asleep => exact asleep_setOp hI (by simp [hp]) rfl rfl id

/-- What a leave does to the count. -/
theorem outstanding_leave {s : State ι} {i : ι} {p : Phase} (hp : s.ops i = .admitted)
    (hnot : p.holds = false) : (s.setOp i p).outstanding + 1 = s.outstanding :=
  countWhere_update_leave (by rw [hp]; rfl) hnot

theorem Inv.leaveLast {s : State ι} (hI : Inv s) {i : ι} (hp : s.ops i = .admitted)
    (hl : ShutdownAdmission.lastLeave s.shutdownAdmissionGate = true) :
    Inv { s.setOp i .raising with
      shutdownAdmissionGate := s.shutdownAdmissionGate - 1 } := by
  obtain ⟨hone, hclosed⟩ := hI.lastLeave.mp hl
  have hout := outstanding_leave (p := .raising) hp rfl
  have hrai : (s.setOp i .raising).raisers = s.raisers + 1 :=
    countWhere_update_enter (by rw [hp]; rfl) rfl
  have hb := hI.bound
  constructor
  case gate =>
    change _ = pack 63 s.closed (s.setOp i .raising).outstanding
    rw [hI.gate, ← hout, pack_sub_one _ (by omega)]
  case bound =>
    change (s.setOp i .raising).outstanding < _
    omega
  case tokens =>
    have htok := hI.tokens
    change (s.setOp i .raising).raisers + s.closer.token + s.shutdownAdmissionsDrained.toNat =
      if s.closed = true ∧ (s.setOp i .raising).outstanding = 0 then 1 else 0
    rw [State.tokens, if_neg (by omega)] at htok
    rw [if_pos ⟨hclosed, by omega⟩, hrai]
    omega
  case returned => exact hI.returned
  case asleep => exact asleep_setOp hI (by simp [hp]) rfl rfl id

theorem Inv.leave {s : State ι} (hI : Inv s) {i : ι} (hp : s.ops i = .admitted)
    (hl : ShutdownAdmission.lastLeave s.shutdownAdmissionGate = false) :
    Inv { s.setOp i .finished with
      shutdownAdmissionGate := s.shutdownAdmissionGate - 1 } := by
  have hmore : ¬ (s.outstanding = 1 ∧ s.closed = true) := fun h => by
    simp [hI.lastLeave.mpr h] at hl
  have hout := outstanding_leave (p := .finished) hp rfl
  have hrai : (s.setOp i .finished).raisers = s.raisers :=
    raisers_setOp_same (by rw [hp]; rfl)
  have hb := hI.bound
  constructor
  case gate =>
    change _ = pack 63 s.closed (s.setOp i .finished).outstanding
    rw [hI.gate, ← hout, pack_sub_one _ (by omega)]
  case bound =>
    change (s.setOp i .finished).outstanding < _
    omega
  case tokens =>
    have htok := hI.tokens
    change (s.setOp i .finished).raisers + s.closer.token + s.shutdownAdmissionsDrained.toNat =
      if s.closed = true ∧ (s.setOp i .finished).outstanding = 0 then 1 else 0
    rw [State.tokens, if_neg (by omega)] at htok
    rw [if_neg (fun h => hmore ⟨by omega, h.1⟩), hrai]
    exact htok
  case returned => exact hI.returned
  case asleep => exact asleep_setOp hI (by simp [hp]) rfl rfl id

/-- The last leaver turns its token into the raised signal. -/
theorem Inv.raise {s : State ι} (hI : Inv s) {i : ι} (hp : s.ops i = .raising) :
    Inv { s.setOp i .notifying with shutdownAdmissionsDrained := true } := by
  have hpos : 0 < s.raisers := countWhere_pos (i := i) (by rw [hp]; rfl)
  obtain ⟨hclosed, hzero, hd, hone⟩ := hI.of_raiser (by omega)
  have hout : (s.setOp i .notifying).outstanding = s.outstanding :=
    outstanding_setOp_same (by rw [hp]; rfl)
  have hrai : (s.setOp i .notifying).raisers + 1 = s.raisers :=
    countWhere_update_leave (by rw [hp]; rfl) rfl
  constructor
  case gate =>
    change _ = pack 63 s.closed (s.setOp i .notifying).outstanding
    rw [hout]
    exact hI.gate
  case bound =>
    change (s.setOp i .notifying).outstanding < _
    rw [hout]
    exact hI.bound
  case tokens =>
    change (s.setOp i .notifying).raisers + s.closer.token + 1 =
      if s.closed = true ∧ (s.setOp i .notifying).outstanding = 0 then 1 else 0
    rw [if_pos ⟨hclosed, by omega⟩]
    omega
  case returned => exact fun _ => rfl
  case asleep => exact fun _ _ => ⟨i, by simp [State.setOp]⟩

@[simp] theorem notified_token (c : Closer) : c.notified.token = c.token := by
  cases c <;> rfl

theorem notified_ne_asleep (c : Closer) : c.notified ≠ .asleep := by
  cases c <;> simp [Closer.notified]

theorem notified_eq_running (c : Closer) : c.notified = .running ↔ c = .running := by
  cases c <;> simp [Closer.notified]

theorem notified_eq_returned (c : Closer) : c.notified = .returned ↔ c = .returned := by
  cases c <;> simp [Closer.notified]

theorem Inv.notify {s : State ι} (hI : Inv s) {i : ι} (hp : s.ops i = .notifying) :
    Inv { s.setOp i .finished with closer := s.closer.notified } := by
  have hout : (s.setOp i .finished).outstanding = s.outstanding :=
    outstanding_setOp_same (by rw [hp]; rfl)
  have hrai : (s.setOp i .finished).raisers = s.raisers :=
    raisers_setOp_same (by rw [hp]; rfl)
  have hclosed : State.closed { s.setOp i .finished with closer := s.closer.notified } =
      s.closed := by
    simp [State.closed, notified_eq_running]
  constructor
  case gate =>
    rw [hclosed]
    change _ = pack 63 s.closed (s.setOp i .finished).outstanding
    rw [hout]
    exact hI.gate
  case bound =>
    change (s.setOp i .finished).outstanding < _
    rw [hout]
    exact hI.bound
  case tokens =>
    rw [hclosed]
    change (s.setOp i .finished).raisers + s.closer.notified.token +
        s.shutdownAdmissionsDrained.toNat =
      if s.closed = true ∧ (s.setOp i .finished).outstanding = 0 then 1 else 0
    rw [hrai, hout, notified_token]
    exact hI.tokens
  case returned => exact fun h => hI.returned ((notified_eq_returned _).mp h)
  case asleep => exact fun h => absurd h (notified_ne_asleep _)

/-- The `fetch_or`: a closed gate whose token is with the closer when nobody is
inside, and with the last leaver to come otherwise. -/
theorem Inv.close {s : State ι} (hI : Inv s) (hrun : s.closer = .running) {c : Closer}
    (hc : c ≠ .running ∧ c ≠ .asleep ∧ c ≠ .returned)
    (htoken : c.token = if s.outstanding = 0 then 1 else 0) :
    Inv { s with
      closer := c
      shutdownAdmissionGate := s.shutdownAdmissionGate ||| shutdownAdmissionClosingBit } := by
  have hopen : s.closed = false := by simp [State.closed, hrun]
  have hclosed : State.closed { s with
      closer := c
      shutdownAdmissionGate := s.shutdownAdmissionGate ||| shutdownAdmissionClosingBit } = true := by
    simp [State.closed, hc.1]
  constructor
  case gate =>
    rw [hclosed]
    change _ ||| _ = pack 63 true s.outstanding
    rw [hI.gate, closingBit_eq, pack_or_flagBit]
  case bound => exact hI.bound
  case tokens =>
    have htok := hI.tokens
    rw [State.tokens, hopen, hrun, if_neg (by simp)] at htok
    rw [hclosed]
    change s.raisers + c.token + s.shutdownAdmissionsDrained.toNat =
      if true = true ∧ s.outstanding = 0 then 1 else 0
    simp only [true_and, htoken]
    omega
  case returned => exact fun h => absurd h hc.2.2
  case asleep => exact fun h => absurd h hc.2.1

theorem Inv.closeRaise {s : State ι} (hI : Inv s) (hr : s.closer = .raising) :
    Inv { s with closer := .notifying, shutdownAdmissionsDrained := true } := by
  have htoken : s.closer.token = 1 := by rw [hr]; rfl
  obtain ⟨hclosed, hzero, hd, hone⟩ := hI.of_raiser (by omega)
  constructor
  case gate =>
    have hg := hI.gate
    rw [hclosed] at hg
    exact hg
  case bound => exact hI.bound
  case tokens =>
    change s.raisers + 0 + 1 = if true = true ∧ s.outstanding = 0 then 1 else 0
    rw [if_pos ⟨rfl, hzero⟩]
    omega
  case returned => exact fun _ => rfl
  case asleep => exact fun h => by simp at h

/-- The closing thread past the `fetch_or` moves without touching the gate. -/
theorem Inv.setCloser {s : State ι} (hI : Inv s) {c : Closer}
    (hfrom : s.closer ≠ .running ∧ s.closer ≠ .raising) (hto : c ≠ .running ∧ c ≠ .raising)
    (hret : c = .returned → s.shutdownAdmissionsDrained = true)
    (hasleep : c = .asleep → s.shutdownAdmissionsDrained = false) :
    Inv { s with closer := c } := by
  have hclosed : s.closed = true := by simp [State.closed, hfrom.1]
  have htoken : s.closer.token = 0 := by
    cases hs : s.closer <;> simp_all [Closer.token]
  have htoken' : c.token = 0 := by
    cases c <;> simp_all [Closer.token]
  have hclosed' : State.closed { s with closer := c } = true := by
    simp [State.closed, hto.1]
  constructor
  case gate =>
    have hg := hI.gate
    rw [hclosed] at hg
    rw [hclosed']
    exact hg
  case bound => exact hI.bound
  case tokens =>
    have htok := hI.tokens
    rw [State.tokens, htoken, hclosed] at htok
    rw [hclosed']
    change s.raisers + c.token + s.shutdownAdmissionsDrained.toNat =
      if true = true ∧ s.outstanding = 0 then 1 else 0
    rw [htoken']
    exact htok
  case returned => exact hret
  case asleep =>
    intro h hd
    rw [hasleep h] at hd
    exact absurd hd (by decide)

/-- Every step keeps the invariant. -/
theorem Inv.step {s t : State ι} {a : Act ι} (hI : Inv s)
    (h : ShutdownAdmission.step s a = some t) : Inv t := by
  cases moves_of_step h with
  | load hp => exact hI.setOp_quiet (by rw [hp]; rfl) (by rw [hp]; rfl) (by simp [hp])
  | refuse hp _ => exact hI.setOp_quiet (by rw [hp]; rfl) (by rw [hp]; rfl) (by simp [hp])
  | exchange hp hr => exact hI.exchange hp hr
  | exchangeFails hp => exact hI.setOp_quiet (by rw [hp]; rfl) (by rw [hp]; rfl) (by simp [hp])
  | leaveLast hp hl => exact hI.leaveLast hp hl
  | leave hp hl => exact hI.leave hp hl
  | raise hp => exact hI.raise hp
  | notify hp => exact hI.notify hp
  | closeIdle hc hi =>
      exact hI.close hc (by simp) (by rw [if_pos (hI.closedIdle.mp hi)]; rfl)
  | closeBusy hc hi =>
      have hpos : s.outstanding ≠ 0 := fun hz => by
        simp [hI.closedIdle.mpr hz] at hi
      exact hI.close hc (by simp) (by rw [if_neg hpos]; rfl)
  | closeRaise hc => exact hI.closeRaise hc
  | closeNotify hc => exact hI.setCloser (by simp [hc]) (by simp) (by simp) (by simp)
  | testDrained hc hd => exact hI.setCloser (by simp [hc]) (by simp) (fun _ => hd) (by simp)
  | testBlocks hc hd => exact hI.setCloser (by simp [hc]) (by simp) (by simp) (fun _ => hd)
  | wake hc => exact hI.setCloser (by simp [hc]) (by simp) (by simp) (by simp)

theorem inductive_inv : Inductive (gate ι) Inv where
  init s h := by
    obtain rfl := h
    exact inv_initial
  step _ _ _ hI h := hI.step h

/-! ### What the invariant gives -/

/-- The word read through the masks of the code. -/
theorem Inv.word {s : State ι} (hI : Inv s) :
    (s.shutdownAdmissionGate &&& shutdownAdmissionCountMask).toNat = s.outstanding ∧
      ((s.shutdownAdmissionGate &&& shutdownAdmissionClosingBit ≠ 0) ↔ s.closed = true) := by
  constructor
  · rw [hI.gate, countMask_eq_mask, pack_and_countMask, toNat_pack _ hI.bound]
    simp
  · rw [hI.gate, closingBit_eq]
    exact pack_and_flagBit _ _

/-- An admitted object is an outstanding one. -/
theorem outstanding_pos {s : State ι} {i : ι} (h : s.ops i = .admitted) : 0 < s.outstanding :=
  countWhere_pos (i := i) (by rw [h]; rfl)

/-- Nothing lowers the signal once it is raised. -/
theorem drained_step {s t : State ι} {a : Act ι} (h : ShutdownAdmission.step s a = some t)
    (hd : s.shutdownAdmissionsDrained = true) : t.shutdownAdmissionsDrained = true := by
  cases moves_of_step h <;> first | exact hd | rfl

theorem drained_run {s t : State ι} {l : List (Act ι)} (h : Run (gate ι) s l t)
    (hd : s.shutdownAdmissionsDrained = true) : t.shutdownAdmissionsDrained = true := by
  induction h with
  | nil => exact hd
  | cons hstep _ ih => exact ih (drained_step hstep hd)

/-- Only `close` changes whether the gate is closed. -/
theorem closed_step {s t : State ι} {a : Act ι} (h : ShutdownAdmission.step s a = some t)
    (ha : a ≠ .close) : t.closed = s.closed := by
  cases moves_of_step h with
  | closeIdle | closeBusy => exact absurd rfl ha
  | notify => simp [State.closed, notified_eq_running]
  | closeRaise hc | closeNotify hc | testDrained hc _ | testBlocks hc _ | wake hc =>
      simp [State.closed, hc]
  | _ => rfl

/-- The signal stands or is about to be raised exactly when the gate is closed
and empty. -/
theorem Inv.signalled_iff {s : State ι} (hI : Inv s) :
    (s.shutdownAdmissionsDrained = true ∨ 0 < s.raisers + s.closer.token) ↔
      s.closed = true ∧ s.outstanding = 0 := by
  constructor
  · rintro (hd | hr)
    · exact ⟨(hI.of_drained hd).1, (hI.of_drained hd).2.1⟩
    · exact ⟨(hI.of_raiser hr).1, (hI.of_raiser hr).2.1⟩
  · intro hc
    have htok := hI.tokens
    rw [if_pos hc, State.tokens] at htok
    cases hd : s.shutdownAdmissionsDrained with
    | true => exact .inl rfl
    | false =>
        rw [hd, Bool.toNat_false] at htok
        exact .inr (by omega)

/-- A raiser is an object whose next step raises the signal. -/
theorem exists_raise_of_raisers {s : State ι} (h : 0 < s.raisers) :
    ∃ i t, ShutdownAdmission.step s (.raise i) = some t ∧ t.shutdownAdmissionsDrained = true := by
  obtain ⟨i, hi⟩ := Finset.card_pos.mp h
  have hp : s.ops i = .raising := by
    have hr : Phase.raises (s.ops i) = true := by simpa using hi
    cases hs : s.ops i <;> simp_all [Phase.raises]
  exact ⟨i, _, by simp only [ShutdownAdmission.step, hp]; rfl, rfl⟩

/-- A waiter blocked on a closed, empty gate is about to be woken: the signal is
still to be raised, or it is raised and its notification is still to come. -/
theorem Inv.wakes {s : State ι} (hI : Inv s) (ha : s.closer = .asleep) (hc : s.closed = true)
    (hz : s.outstanding = 0) :
    (∃ i t, ShutdownAdmission.step s (.raise i) = some t ∧ t.shutdownAdmissionsDrained = true) ∨
      ∃ i t, s.shutdownAdmissionsDrained = true ∧
        ShutdownAdmission.step s (.notify i) = some t ∧ t.closer = .waiting := by
  rcases hI.signalled_iff.mpr ⟨hc, hz⟩ with hd | hr
  · obtain ⟨i, hi⟩ := hI.asleep ha hd
    refine .inr ⟨i, _, hd, by simp only [ShutdownAdmission.step, hi]; rfl, ?_⟩
    simp [ha, Closer.notified]
  · rw [ha] at hr
    exact .inl (exists_raise_of_raisers hr)

/-- **The shutdown gate.** In every reachable state of every interleaving:
* once `WaitForShutdownAdmissions` has returned, no operation is outstanding,
  now or after any further steps;
* the word is the closing bit above the number of outstanding operations, and
  only `close` touches the bit;
* the drained signal stands or is about to be raised, by exactly one party, iff
  the gate is closed and empty, and only such a party raises it;
* the wait returns from its test iff the signal stands, and a waiter blocked on
  a closed, empty gate has its wake-up still to come. -/
theorem waitForShutdownAdmissions_sound {s : State ι} (h : (gate ι).Reachable s) :
    (s.closer = .returned → ∀ l t, Run (gate ι) s l t → ∀ i, t.ops i ≠ .admitted) ∧
    ((s.shutdownAdmissionGate &&& shutdownAdmissionCountMask).toNat = s.outstanding ∧
      ((s.shutdownAdmissionGate &&& shutdownAdmissionClosingBit ≠ 0) ↔ s.closed = true) ∧
      ∀ a t, step s a = some t → a ≠ .close → t.closed = s.closed) ∧
    ((s.shutdownAdmissionsDrained = true ∨ 0 < s.raisers + s.closer.token) ↔
      s.closed = true ∧ s.outstanding = 0) ∧
    s.tokens ≤ 1 ∧
    (∀ a t, step s a = some t → t.shutdownAdmissionsDrained ≠ s.shutdownAdmissionsDrained →
      t.shutdownAdmissionsDrained = true ∧ t.closed = true ∧ t.outstanding = 0) ∧
    (∀ t, step s .test = some t →
      (t.closer = .returned ↔ s.closed = true ∧ s.outstanding = 0 ∧
        s.shutdownAdmissionsDrained = true)) ∧
    (s.closer = .asleep → s.closed = true → s.outstanding = 0 →
      (∃ i t, step s (.raise i) = some t ∧ t.shutdownAdmissionsDrained = true) ∨
        ∃ i t, s.shutdownAdmissionsDrained = true ∧ step s (.notify i) = some t ∧
          t.closer = .waiting) := by
  have hI : Inv s := inductive_inv.reachable h
  refine ⟨?_, ⟨hI.word.1, hI.word.2, fun a t hs ha => closed_step hs ha⟩, hI.signalled_iff, ?_, ?_,
    ?_, hI.wakes⟩
  · intro hr l t hrun i hi
    have hIt : Inv t := inductive_inv.run hrun hI
    have hdt := drained_run hrun (hI.returned hr)
    have hzero := (hIt.of_drained hdt).2.1
    have hpos := outstanding_pos hi
    omega
  · rw [hI.tokens]
    split <;> omega
  · intro a t hs hne
    have hIt := hI.step hs
    have hdt : t.shutdownAdmissionsDrained = true := by
      cases hd : s.shutdownAdmissionsDrained with
      | true => exact drained_step hs hd
      | false =>
          rw [hd] at hne
          simpa using hne
    exact ⟨hdt, (hIt.of_drained hdt).1, (hIt.of_drained hdt).2.1⟩
  · intro t hs
    cases moves_of_step hs with
    | testDrained _ hd =>
        exact ⟨fun _ => ⟨(hI.of_drained hd).1, (hI.of_drained hd).2.1, hd⟩, fun _ => rfl⟩
    | testBlocks _ hd => simp [hd]

/-- One operation is admitted before the close and is the last to leave. -/
theorem waitForShutdownAdmissions_sound_last_leave :
    ∃ s : State (Fin 1), s.closer = .returned ∧ s.tokens ≤ 1 ∧
      ∀ l t, Run (gate (Fin 1)) s l t → ∀ i, t.ops i ≠ .admitted := by
  let acts : List (Act (Fin 1)) :=
    [.load 0, .exchange 0, .close, .test, .leave 0, .raise 0, .notify 0, .test]
  let s : State (Fin 1) := (exec step .initial acts).get (by decide)
  have hs : (gate (Fin 1)).Reachable s := reachable_of_exec (l := acts) rfl (by simp [s])
  have hreturned : s.closer = .returned := by decide
  obtain ⟨hclosed, -, -, htokens, -⟩ := waitForShutdownAdmissions_sound hs
  exact ⟨s, hreturned, htokens, hclosed hreturned⟩

end AutoInstrumentation.ShutdownAdmission
