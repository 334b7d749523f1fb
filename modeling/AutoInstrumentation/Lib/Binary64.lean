import Mathlib.Algebra.Ring.Int.Defs
import Mathlib.Tactic.Ring

/-!
# AutoInstrumentation.Lib.Binary64

Floating-point numbers of 64 bits, with exact operations that are rounded to nearest, ties to
even.

A finite number is counted in units of the least positive number, `2 ^ -1074`. The two zeros
are one here. Every result is the rounding of a quotient of integers (`ofQuotient`), and the
two rules about it are that a quotient that needs no more digits than there are is exact
(`ofQuotient_exact`), and that no difference of two numbers is rounded to zero
(`ofQuotient_eq_zero`).
-/

namespace AutoInstrumentation.Lib

inductive Binary64
  | nan
  | infinity (negative : Bool)
  | finite (units : ℤ)
  deriving DecidableEq, Repr

namespace Binary64

/-- The number 1 is two to this in units. -/
def unitExponent : ℕ := 1074

/-- The units of the number 1. -/
def one : ℕ := 2 ^ unitExponent

/-! ### Rounding -/

/-- The quotient to the nearest integer, ties to even. -/
def halfEven (n : ℤ) (d : ℕ) : ℤ :=
  if 2 * (n % d) < d then n / d
  else if (d : ℤ) < 2 * (n % d) then n / d + 1
  else if n / d % 2 = 0 then n / d
  else n / d + 1

/-- The distance of the numbers that are as large as this, in units. -/
def ulp (magnitude : ℕ) : ℕ := 2 ^ (magnitude.log2 - 52)

/-- A quotient in units, rounded. -/
def ofQuotient (n : ℤ) (d : ℕ) : Binary64 :=
  let spacing := ulp (n.natAbs / d)
  let units := halfEven n (d * spacing) * spacing
  if units.natAbs < 2 ^ (1024 + unitExponent) then .finite units else .infinity (n < 0)

def ofInt (n : ℤ) : Binary64 := ofQuotient (n * one) 1

/-! ### Operations -/

def neg : Binary64 → Binary64
  | .nan => .nan
  | .infinity negative => .infinity (!negative)
  | .finite units => .finite (-units)

def add : Binary64 → Binary64 → Binary64
  | .nan, _ => .nan
  | _, .nan => .nan
  | .infinity l, .infinity r => if l = r then .infinity l else .nan
  | .infinity l, .finite _ => .infinity l
  | .finite _, .infinity r => .infinity r
  | .finite l, .finite r => ofQuotient (l + r) 1

def sub (l r : Binary64) : Binary64 := l.add r.neg

/-- A number is below zero. -/
def isNegative : Binary64 → Bool
  | .nan => false
  | .infinity negative => negative
  | .finite units => units < 0

def mul (l r : Binary64) : Binary64 :=
  match l, r with
  | .nan, _ => .nan
  | _, .nan => .nan
  | .finite a, .finite b => ofQuotient (a * b) one
  | l, r =>
      -- one of the factors is infinite
      if l = .finite 0 ∨ r = .finite 0 then .nan else .infinity (l.isNegative != r.isNegative)

/-- A quotient by a number that is not zero. -/
def div (l r : Binary64) : Binary64 :=
  match l, r with
  | .finite a, .finite b => ofQuotient (a * b.sign * one) b.natAbs
  | .finite _, .infinity _ => .finite 0
  | .infinity negative, .finite b => .infinity (negative != decide (b < 0))
  | _, _ => .nan

/-- The remainder by a number that is not zero, with the sign of the dividend. -/
def rem (l r : Binary64) : Binary64 :=
  match l, r with
  | .finite a, .finite b => .finite (a.tmod b)
  | .finite a, .infinity _ => .finite a
  | _, _ => .nan

def abs : Binary64 → Binary64
  | .nan => .nan
  | .infinity _ => .infinity false
  | .finite units => .finite units.natAbs

def lt : Binary64 → Binary64 → Bool
  | .finite l, .finite r => l < r
  | .infinity l, .infinity r => l && !r
  | .infinity l, .finite _ => l
  | .finite _, .infinity r => !r
  | _, _ => false

/-- The least positive number. -/
def epsilon : Binary64 := .finite 1

/-! ### Exact quotients -/

theorem ulp_pos (magnitude : ℕ) : 0 < ulp magnitude := Nat.two_pow_pos _

theorem halfEven_mul {d : ℕ} (hd : 0 < d) (k : ℤ) : halfEven (k * d) d = k := by
  have hne : (d : ℤ) ≠ 0 := by omega
  rw [halfEven, Int.mul_emod_left, Int.mul_ediv_cancel k hne, if_pos (by omega)]

/-- **A quotient is exact** if it is a multiple of the spacing of its size. -/
theorem ofQuotient_exact {m : ℤ} {d : ℕ} (hd : 0 < d) (hulp : (ulp m.natAbs : ℤ) ∣ m)
    (hsmall : m.natAbs < 2 ^ (1024 + unitExponent)) : ofQuotient (m * d) d = .finite m := by
  have hmagnitude : (m * d).natAbs / d = m.natAbs := by
    rw [Int.natAbs_mul, Int.natAbs_natCast]
    exact Nat.mul_div_cancel _ hd
  obtain ⟨k, hk⟩ := hulp
  have hpos : 0 < d * ulp m.natAbs := Nat.mul_pos hd (ulp_pos _)
  have hround : halfEven (m * d) (d * ulp m.natAbs) = k := by
    have hquotient : m * d = k * ((d * ulp m.natAbs : ℕ) : ℤ) := by
      nth_rewrite 1 [hk]
      push_cast
      ring
    rw [hquotient]
    exact halfEven_mul hpos k
  have hunits : k * (ulp m.natAbs : ℤ) = m := by
    rw [Int.mul_comm]
    exact hk.symm
  simp only [ofQuotient, hmagnitude, hround, hunits]
  exact if_pos hsmall

theorem one_pos : 0 < one := Nat.two_pow_pos _

theorem natAbs_mul_one_lt {n : ℤ} (hn : n.natAbs < 2 ^ 53) :
    (n * one).natAbs < 2 ^ (53 + unitExponent) := by
  rw [Int.natAbs_mul, Int.natAbs_natCast, Nat.pow_add, ← one]
  exact Nat.mul_lt_mul_of_pos_right hn one_pos

/-- The spacing of an integer of 53 digits is no more than 1. -/
theorem ulp_dvd {n : ℤ} (hn : n.natAbs < 2 ^ 53) : (ulp (n * one).natAbs : ℤ) ∣ n * one := by
  refine Dvd.dvd.mul_left (Int.natCast_dvd_natCast.mpr ?_) n
  rw [ulp, one]
  refine Nat.pow_dvd_pow 2 ?_
  by_cases hzero : (n * one).natAbs = 0
  · rw [← one, hzero, Nat.log2_zero, Nat.zero_sub]
    exact Nat.zero_le unitExponent
  · have hlog : (n * one).natAbs.log2 < 53 + unitExponent :=
      (Nat.log2_lt hzero).mpr (natAbs_mul_one_lt hn)
    rw [← one]
    omega

/-- **An integer of 53 digits is exact.** -/
theorem ofQuotient_integer {n : ℤ} {d : ℕ} (hd : 0 < d) (hn : n.natAbs < 2 ^ 53) :
    ofQuotient (n * one * d) d = .finite (n * one) := by
  refine ofQuotient_exact hd (ulp_dvd hn) ((natAbs_mul_one_lt hn).trans_le ?_)
  exact Nat.pow_le_pow_right (by decide) (Nat.add_le_add_right (by decide) _)

theorem ofInt_eq {n : ℤ} (hn : n.natAbs < 2 ^ 53) : ofInt n = .finite (n * one) := by
  have hexact := ofQuotient_integer (d := 1) (by decide) hn
  rw [Nat.cast_one, Int.mul_one] at hexact
  exact hexact

section Integers

variable {x y : ℤ} (hx : x.natAbs < 2 ^ 53) (hy : y.natAbs < 2 ^ 53)

include hx

theorem neg_ofInt : (ofInt x).neg = ofInt (-x) := by
  rw [ofInt_eq hx, ofInt_eq (by rwa [Int.natAbs_neg]), neg, Int.neg_mul]

include hy

/-- **Sums, differences and products** of integers of 53 digits are those of the integers,
rounded. -/
theorem add_ofInt : (ofInt x).add (ofInt y) = ofInt (x + y) := by
  rw [ofInt_eq hx, ofInt_eq hy, add, ofInt, Int.add_mul]

theorem sub_ofInt : (ofInt x).sub (ofInt y) = ofInt (x - y) := by
  have hneg : (-y).natAbs < 2 ^ 53 := by rwa [Int.natAbs_neg]
  rw [sub, neg_ofInt hy, add_ofInt hx hneg, Int.sub_eq_add_neg]

theorem mul_ofInt (hxy : (x * y).natAbs < 2 ^ 53) : (ofInt x).mul (ofInt y) = ofInt (x * y) := by
  have hproduct : x * one * (y * one) = x * y * one * one := by ring
  rw [ofInt_eq hx, ofInt_eq hy, ofInt_eq hxy, mul, hproduct]
  exact ofQuotient_integer one_pos hxy

theorem lt_ofInt : (ofInt x).lt (ofInt y) = decide (x < y) := by
  have hpos : (0 : ℤ) < one := Int.natCast_pos.mpr one_pos
  rw [ofInt_eq hx, ofInt_eq hy, lt]
  refine decide_eq_decide.mpr ⟨?_, ?_⟩
  · intro hlt
    exact Int.lt_of_mul_lt_mul_right hlt (Int.le_of_lt hpos)
  · intro hlt
    exact Int.mul_lt_mul_of_pos_right hlt hpos

theorem ofInt_inj : ofInt x = ofInt y ↔ x = y := by
  have hne : (one : ℤ) ≠ 0 := Int.natCast_ne_zero.mpr (Nat.ne_of_gt one_pos)
  rw [ofInt_eq hx, ofInt_eq hy, Binary64.finite.injEq]
  exact Int.mul_eq_mul_right_iff hne

end Integers

/-! ### Differences -/

theorem natAbs_of_halfEven_eq_zero {n : ℤ} {d : ℕ} (hd : 0 < d) (h : halfEven n d = 0) :
    2 * n.natAbs ≤ d := by
  have hne : (d : ℤ) ≠ 0 := by omega
  have hdiv := Int.mul_ediv_add_emod n d
  have hnonneg := Int.emod_nonneg n hne
  have hlt := Int.emod_lt_of_pos n (Int.natCast_pos.mpr hd)
  -- the quotient is 0 or -1, and the remainder is on its side of the half
  rw [halfEven] at h
  split at h
  · rw [h, Int.mul_zero, Int.zero_add] at hdiv
    omega
  · split at h
    · have hquotient : n / d = -1 := by omega
      rw [hquotient] at hdiv
      omega
    · split at h
      · rw [h, Int.mul_zero, Int.zero_add] at hdiv
        omega
      · have hquotient : n / d = -1 := by omega
        rw [hquotient] at hdiv
        omega

/-- **No integer of units is rounded to zero**, but for zero. -/
theorem ofQuotient_eq_zero {n : ℤ} : ofQuotient n 1 = .finite 0 ↔ n = 0 := by
  constructor
  · intro h
    simp only [ofQuotient, Nat.div_one, Nat.one_mul] at h
    split at h
    · have hpos := ulp_pos n.natAbs
      have hne : (ulp n.natAbs : ℤ) ≠ 0 := by omega
      have hzero := natAbs_of_halfEven_eq_zero hpos
        ((Int.mul_eq_zero.mp (Binary64.finite.inj h)).resolve_right hne)
      by_contra hn
      -- the spacing is not above the number
      have hspacing : ulp n.natAbs ≤ n.natAbs :=
        (Nat.pow_le_pow_right (by decide) (Nat.sub_le _ _)).trans
          (Nat.log2_self_le (Int.natAbs_ne_zero.mpr hn))
      omega
    · cases h
  · rintro rfl
    have hexact := ofQuotient_integer (n := 0) (d := 1) (by decide) (by decide)
    rwa [Int.zero_mul, Int.zero_mul] at hexact

/-- A difference is less than any positive number exactly for one finite number. -/
theorem abs_sub_lt_epsilon {l r : Binary64} :
    (l.sub r).abs.lt epsilon = true ↔ ∃ units, l = .finite units ∧ r = .finite units := by
  constructor
  · intro h
    cases l with
    | nan => cases h
    | infinity negative =>
        cases r with
        | nan => cases h
        | infinity negative' =>
            have hfar : ((infinity negative).sub (infinity negative')).abs.lt epsilon = false := by
              cases negative <;> cases negative' <;> rfl
            rw [hfar] at h
            cases h
        | finite units => cases h
    | finite units =>
        cases r with
        | nan => cases h
        | infinity negative => cases h
        | finite units' =>
            refine ⟨units, rfl, congrArg _ ?_⟩
            have hzero : ofQuotient (units + -units') 1 = .finite 0 := by
              rw [sub, neg, add] at h
              cases hround : ofQuotient (units + -units') 1 with
              | nan =>
                  rw [hround] at h
                  cases h
              | infinity negative =>
                  rw [hround] at h
                  cases h
              | finite difference =>
                  rw [hround] at h
                  have hlt : (difference.natAbs : ℤ) < 1 := of_decide_eq_true h
                  have hdifference : difference = 0 := by omega
                  rw [hdifference]
            have hdifference := ofQuotient_eq_zero.mp hzero
            omega
  · rintro ⟨units, rfl, rfl⟩
    have hzero : ofQuotient (units + -units) 1 = .finite 0 :=
      ofQuotient_eq_zero.mpr (Int.add_right_neg units)
    rw [sub, neg, add, hzero]
    rfl

end Binary64

end AutoInstrumentation.Lib
