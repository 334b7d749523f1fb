import Mathlib.Algebra.Ring.Nat
import Mathlib.Data.Nat.Notation

/-!
# AutoInstrumentation.Lib.Bytes

Words as bytes, and back.

`byteAt v k` is the byte of weight `256 ^ k`. The lemmas say that the bytes of a
word, each shifted to its place and added up, are that word, for the widths that
serializers write.
-/

namespace AutoInstrumentation.Lib

abbrev Byte := BitVec 8

/-- `(v >> (8 * k)) & 0xFF`. -/
def byteAt {w : ℕ} (v : BitVec w) (k : ℕ) : Byte := v.extractLsb' (8 * k) 8

theorem byteAt_toNat {w : ℕ} (v : BitVec w) (k : ℕ) :
    (byteAt v k).toNat = v.toNat / 2 ^ (8 * k) % 256 := by
  rw [byteAt, BitVec.extractLsb'_toNat, Nat.shiftRight_eq_div_pow]

/-- A byte widened to `w` bits and moved to place `k`. -/
def byteTo (w : ℕ) (b : Byte) (k : ℕ) : BitVec w := b.setWidth w <<< (8 * k)

theorem byteTo_toNat {w : ℕ} (b : Byte) {k : ℕ} (h : 8 * k + 8 ≤ w) :
    (byteTo w b k).toNat = b.toNat * 2 ^ (8 * k) := by
  have hb : b.toNat < 2 ^ 8 := b.isLt
  have hbound : b.toNat * 2 ^ (8 * k) < 2 ^ w :=
    calc b.toNat * 2 ^ (8 * k)
        < 2 ^ 8 * 2 ^ (8 * k) := Nat.mul_lt_mul_of_pos_right hb (Nat.two_pow_pos _)
      _ = 2 ^ (8 * k + 8) := by rw [Nat.pow_add, Nat.mul_comm]
      _ ≤ 2 ^ w := Nat.pow_le_pow_right (by decide) h
  have hfit : b.toNat < 2 ^ w := Nat.lt_of_le_of_lt (Nat.le_mul_of_pos_right _ (Nat.two_pow_pos _)) hbound
  rw [byteTo, BitVec.toNat_shiftLeft, BitVec.toNat_setWidth, Nat.mod_eq_of_lt hfit,
    Nat.shiftLeft_eq, Nat.mod_eq_of_lt hbound]

/-- The word of the lowest `k` bytes of `v`. -/
def lowBytes {w : ℕ} (v : BitVec w) (k : ℕ) : BitVec w := .ofNat w (v.toNat % 2 ^ (8 * k))

theorem lowBytes_zero {w : ℕ} (v : BitVec w) : lowBytes v 0 = 0#w := by
  rw [lowBytes, Nat.mul_zero, Nat.pow_zero, Nat.mod_one]

theorem lowBytes_all {w k : ℕ} (v : BitVec w) (h : w = 8 * k) : lowBytes v k = v := by
  rw [lowBytes, ← h, Nat.mod_eq_of_lt v.isLt, BitVec.ofNat_toNat, BitVec.setWidth_eq]

/-- Adding the next byte in its place. -/
theorem byteTo_add_lowBytes {w : ℕ} (v : BitVec w) (k : ℕ) (h : 8 * k + 8 ≤ w) :
    byteTo w (byteAt v k) k + lowBytes v k = lowBytes v (k + 1) := by
  apply BitVec.eq_of_toNat_eq
  have hsplit : v.toNat % 2 ^ (8 * (k + 1))
      = v.toNat / 2 ^ (8 * k) % 256 * 2 ^ (8 * k) + v.toNat % 2 ^ (8 * k) := by
    rw [Nat.mul_add, Nat.pow_add, Nat.mod_mul, Nat.add_comm, Nat.mul_comm]
  have hlow : v.toNat % 2 ^ (8 * k) < 2 ^ w :=
    Nat.lt_of_le_of_lt (Nat.mod_le _ _) v.isLt
  rw [BitVec.toNat_add, byteTo_toNat _ h, byteAt_toNat, lowBytes, lowBytes, BitVec.toNat_ofNat,
    BitVec.toNat_ofNat, Nat.mod_eq_of_lt hlow, hsplit]

theorem byteTo_zero {w : ℕ} (v : BitVec w) (h : 8 ≤ w) :
    byteTo w (byteAt v 0) 0 = lowBytes v 1 := by
  have := byteTo_add_lowBytes v 0 h
  rwa [lowBytes_zero, BitVec.add_zero] at this

theorem word16_of_bytes (v : BitVec 16) :
    byteTo 16 (byteAt v 1) 1 + byteTo 16 (byteAt v 0) 0 = v := by
  rw [byteTo_zero v (by decide), byteTo_add_lowBytes v 1 (by decide), lowBytes_all v rfl]

theorem word32_of_bytes (v : BitVec 32) :
    byteTo 32 (byteAt v 3) 3 + byteTo 32 (byteAt v 2) 2 + byteTo 32 (byteAt v 1) 1
      + byteTo 32 (byteAt v 0) 0 = v := by
  rw [BitVec.add_assoc, BitVec.add_assoc, byteTo_zero v (by decide),
    byteTo_add_lowBytes v 1 (by decide), byteTo_add_lowBytes v 2 (by decide),
    byteTo_add_lowBytes v 3 (by decide), lowBytes_all v rfl]

theorem word64_of_bytes (v : BitVec 64) :
    byteTo 64 (byteAt v 7) 7 + byteTo 64 (byteAt v 6) 6 + byteTo 64 (byteAt v 5) 5
      + byteTo 64 (byteAt v 4) 4 + byteTo 64 (byteAt v 3) 3 + byteTo 64 (byteAt v 2) 2
      + byteTo 64 (byteAt v 1) 1 + byteTo 64 (byteAt v 0) 0 = v := by
  simp only [BitVec.add_assoc]
  rw [byteTo_zero v (by decide),
    byteTo_add_lowBytes v 1 (by decide), byteTo_add_lowBytes v 2 (by decide),
    byteTo_add_lowBytes v 3 (by decide), byteTo_add_lowBytes v 4 (by decide),
    byteTo_add_lowBytes v 5 (by decide), byteTo_add_lowBytes v 6 (by decide),
    byteTo_add_lowBytes v 7 (by decide), lowBytes_all v rfl]

end AutoInstrumentation.Lib
