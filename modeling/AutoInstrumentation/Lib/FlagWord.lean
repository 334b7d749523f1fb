import Mathlib.Algebra.Ring.Nat
import Mathlib.Data.Finset.Filter
import Mathlib.Data.Fintype.Card
import Mathlib.Logic.Function.Basic

/-!
# AutoInstrumentation.Lib.FlagWord

A machine word that carries a flag in its top bit and a count in the others,
and the counting of the parties of a lock-free protocol.

`pack b n` is the word with flag `b` and count `n`. As long as the count fits,
the word operations lock-free code uses (mask, test, increment, decrement,
set the flag) are the obvious operations on the pair, so a proof about such a
word is a proof about a flag and a number.
-/

namespace AutoInstrumentation.Lib

namespace FlagWord

variable {w : ℕ}

/-- The flag: the top bit of a word of `w + 1` bits. -/
def flagBit (w : ℕ) : BitVec (w + 1) := BitVec.twoPow (w + 1) w

/-- The bits that hold the count: all but the flag. -/
def countMask (w : ℕ) : BitVec (w + 1) := ~~~flagBit w

/-- The word with flag `b` and count `n`. -/
def pack (w : ℕ) (b : Bool) (n : ℕ) : BitVec (w + 1) := BitVec.cons b (BitVec.ofNat w n)

theorem flagBit_eq : flagBit w = BitVec.cons true 0#w := by
  rw [flagBit, BitVec.true_cons_zero]

theorem countMask_eq : countMask w = BitVec.cons false (BitVec.allOnes w) := by
  rw [countMask, flagBit_eq, BitVec.not_cons]
  simp

theorem toNat_pack (b : Bool) {n : ℕ} (h : n < 2 ^ w) :
    (pack w b n).toNat = b.toNat * 2 ^ w + n := by
  rw [pack, BitVec.toNat_cons', BitVec.toNat_ofNat, Nat.mod_eq_of_lt h, Nat.shiftLeft_eq]

theorem pack_inj {b c : Bool} {m n : ℕ} (hm : m < 2 ^ w) (hn : n < 2 ^ w)
    (h : pack w b m = pack w c n) : b = c ∧ m = n := by
  have hmsb : b = c := by
    have := congrArg BitVec.msb h
    simpa only [pack, BitVec.msb_cons] using this
  subst hmsb
  have hnat := congrArg BitVec.toNat h
  rw [toNat_pack b hm, toNat_pack b hn] at hnat
  exact ⟨rfl, Nat.add_left_cancel hnat⟩

/-- Testing the flag reads it back. -/
@[simp] theorem pack_and_flagBit (b : Bool) (n : ℕ) :
    (pack w b n &&& flagBit w ≠ 0) ↔ b = true := by
  rw [pack, flagBit_eq, BitVec.cons_and_cons, BitVec.and_zero, Bool.and_true]
  cases b with
  | false => simp
  | true =>
      have hne : BitVec.cons true 0#w ≠ 0 := fun h => by
        have := congrArg BitVec.msb h
        simp at this
      exact ⟨fun _ => rfl, fun _ => hne⟩

/-- Masking reads the count back. -/
theorem pack_and_countMask (b : Bool) (n : ℕ) :
    pack w b n &&& countMask w = pack w false n := by
  rw [pack, countMask_eq, BitVec.cons_and_cons, Bool.and_false, BitVec.and_allOnes, pack]

theorem countMask_eq_pack : countMask w = pack w false (2 ^ w - 1) := by
  rw [countMask_eq, pack]
  congr 1
  apply BitVec.eq_of_toNat_eq
  have hpos : 0 < 2 ^ w := Nat.two_pow_pos w
  rw [BitVec.toNat_allOnes, BitVec.toNat_ofNat, Nat.mod_eq_of_lt (by omega)]

/-- The masked count is the mask itself exactly when the count is full. -/
theorem pack_and_countMask_eq_countMask (b : Bool) {n : ℕ} (h : n < 2 ^ w) :
    pack w b n &&& countMask w = countMask w ↔ n = 2 ^ w - 1 := by
  rw [pack_and_countMask, countMask_eq_pack]
  constructor
  · intro he
    exact (pack_inj h (by omega) he).2
  · rintro rfl
    rfl

/-- The masked count is the number `m` exactly when the count is. -/
theorem pack_and_countMask_eq_ofNat (b : Bool) {n m : ℕ} (hn : n < 2 ^ w) (hm : m < 2 ^ w) :
    pack w b n &&& countMask w = BitVec.ofNat (w + 1) m ↔ n = m := by
  have hm' : BitVec.ofNat (w + 1) m = pack w false m := by
    apply BitVec.eq_of_toNat_eq
    rw [toNat_pack false hm, BitVec.toNat_ofNat, Nat.mod_eq_of_lt (by rw [Nat.pow_succ]; omega)]
    simp
  rw [pack_and_countMask, hm']
  constructor
  · intro he
    exact (pack_inj hn hm he).2
  · rintro rfl
    rfl

/-- An increment that does not overflow the count leaves the flag alone. -/
theorem pack_add_one (b : Bool) {n : ℕ} (h : n + 1 < 2 ^ w) :
    pack w b n + 1 = pack w b (n + 1) := by
  apply BitVec.eq_of_toNat_eq
  rw [BitVec.toNat_add, toNat_pack b (by omega), toNat_pack b h]
  have hb : b.toNat ≤ 1 := Bool.toNat_le b
  have hone : (1 : BitVec (w + 1)).toNat = 1 := by
    rw [BitVec.ofNat_eq_ofNat, BitVec.toNat_ofNat]
    exact Nat.mod_eq_of_lt (Nat.one_lt_two_pow (Nat.succ_ne_zero w))
  have hflag : b.toNat * 2 ^ w ≤ 2 ^ w := by
    calc b.toNat * 2 ^ w ≤ 1 * 2 ^ w := Nat.mul_le_mul_right _ hb
      _ = 2 ^ w := Nat.one_mul _
  rw [hone, Nat.mod_eq_of_lt (by rw [Nat.pow_succ]; omega)]
  omega

/-- A decrement that does not borrow from the flag leaves it alone. -/
theorem pack_sub_one (b : Bool) {n : ℕ} (h : n + 1 < 2 ^ w) :
    pack w b (n + 1) - 1 = pack w b n := by
  rw [← pack_add_one b h, BitVec.add_sub_cancel]

/-- Setting the flag keeps the count. -/
theorem pack_or_flagBit (b : Bool) (n : ℕ) : pack w b n ||| flagBit w = pack w true n := by
  rw [pack, flagBit_eq, BitVec.cons_or_cons, Bool.or_true, BitVec.or_zero, pack]

end FlagWord

/-! ### Counting parties -/

section Count

variable {ι κ : Type} [Fintype ι] (p : κ → Bool) (f : ι → κ)

/-- How many parties of `f` are in a phase that satisfies `p`. -/
def countWhere : ℕ := (Finset.univ.filter fun i => p (f i) = true).card

variable {p f}

theorem countWhere_eq_zero : countWhere p f = 0 ↔ ∀ i, p (f i) = false := by
  simp [countWhere, Finset.filter_eq_empty_iff]

theorem countWhere_pos {i : ι} (h : p (f i) = true) : 0 < countWhere p f :=
  Finset.card_pos.mpr ⟨i, by simp [h]⟩

/-- When one party is in `p` and the count is one, no other party is. -/
theorem eq_of_countWhere_eq_one (h : countWhere p f = 1) {i j : ι} (hi : p (f i) = true)
    (hj : p (f j) = true) : i = j := by
  obtain ⟨k, hk⟩ := Finset.card_eq_one.mp h
  have hmem : ∀ l, p (f l) = true → l = k := fun l hl => by
    have : l ∈ Finset.univ.filter fun i => p (f i) = true := by simp [hl]
    simpa [hk] using this
  rw [hmem i hi, hmem j hj]

variable [DecidableEq ι]

/-- A party that stays on its side of `p` does not change the count. -/
theorem countWhere_update_same {i : ι} {x : κ} (h : p x = p (f i)) :
    countWhere p (Function.update f i x) = countWhere p f := by
  unfold countWhere
  congr 1
  ext j
  by_cases hj : j = i
  · subst hj
    simp [h]
  · simp [hj]

/-- A party that enters `p` adds one to the count. -/
theorem countWhere_update_enter {i : ι} {x : κ} (hf : p (f i) = false) (hx : p x = true) :
    countWhere p (Function.update f i x) = countWhere p f + 1 := by
  unfold countWhere
  rw [← Finset.card_insert_of_notMem (a := i) (by simp [hf])]
  congr 1
  ext j
  by_cases hj : j = i
  · subst hj
    simp [hx]
  · simp [hj]

/-- A party that leaves `p` takes one from the count. -/
theorem countWhere_update_leave {i : ι} {x : κ} (hf : p (f i) = true) (hx : p x = false) :
    countWhere p (Function.update f i x) + 1 = countWhere p f := by
  have hback : Function.update (Function.update f i x) i (f i) = f := by
    rw [Function.update_idem, Function.update_eq_self]
  have hstep := countWhere_update_enter (p := p) (f := Function.update f i x) (i := i) (x := f i)
    (by simpa using hx) hf
  rw [hback] at hstep
  exact hstep.symm

end Count

end AutoInstrumentation.Lib
