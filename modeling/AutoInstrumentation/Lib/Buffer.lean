import AutoInstrumentation.Lib.Bytes

/-!
# AutoInstrumentation.Lib.Buffer

A byte buffer of fixed size, words in little-endian order, and what a buffer holds.

`Buffer.write` fails when it would touch a byte outside the buffer, so that a program
over buffers shows where it overruns one. `Holds b off bs` says that `bs` stands at
offset `off`. A write makes it true at its own place and leaves it alone elsewhere, and
it splits along an append, which is how the content of a buffer that is filled in
several passes is put together.
-/

namespace AutoInstrumentation.Lib

/-! ### Little-endian words -/

/-- The number with the bytes `bs`, the lowest first. -/
def natOfBytes : List Byte → ℕ
  | [] => 0
  | b :: bs => b.toNat + 256 * natOfBytes bs

/-- The lowest `n` bytes of `v`, the lowest first. -/
def bytesOfNat : ℕ → ℕ → List Byte
  | 0, _ => []
  | n + 1, v => BitVec.ofNat 8 v :: bytesOfNat n (v / 256)

@[simp] theorem length_bytesOfNat (n v : ℕ) : (bytesOfNat n v).length = n := by
  induction n generalizing v with
  | zero => rfl
  | succ n ih => rw [bytesOfNat, List.length_cons, ih]

theorem natOfBytes_bytesOfNat (n v : ℕ) : natOfBytes (bytesOfNat n v) = v % 256 ^ n := by
  induction n generalizing v with
  | zero => rw [bytesOfNat, natOfBytes, Nat.pow_zero, Nat.mod_one]
  | succ n ih =>
      have hsplit : v % 256 ^ (n + 1) = v % 256 + 256 * (v / 256 % 256 ^ n) := by
        rw [Nat.pow_succ, Nat.mul_comm, Nat.mod_mul]
      rw [bytesOfNat, natOfBytes, ih, BitVec.toNat_ofNat, hsplit]

theorem bytesOfNat_natOfBytes (bs : List Byte) : bytesOfNat bs.length (natOfBytes bs) = bs := by
  induction bs with
  | nil => rfl
  | cons b bs ih =>
      have hb : b.toNat < 256 := b.isLt
      rw [List.length_cons, bytesOfNat, natOfBytes, Nat.add_mul_div_left _ _ (by decide),
        Nat.div_eq_of_lt hb, Nat.zero_add, ih]
      congr 1
      apply BitVec.eq_of_toNat_eq
      rw [BitVec.toNat_ofNat, Nat.add_mul_mod_self_left, Nat.mod_eq_of_lt hb]

theorem natOfBytes_lt (bs : List Byte) : natOfBytes bs < 256 ^ bs.length := by
  induction bs with
  | nil => decide
  | cons b bs ih =>
      have hb : b.toNat < 256 := b.isLt
      rw [natOfBytes, List.length_cons, Nat.pow_succ]
      omega

theorem bytesOfNat_mod (n v : ℕ) : bytesOfNat n (v % 256 ^ n) = bytesOfNat n v := by
  have h := bytesOfNat_natOfBytes (bytesOfNat n v)
  rwa [length_bytesOfNat, natOfBytes_bytesOfNat] at h

/-! ### Buffers -/

/-- A buffer of `size` bytes. -/
structure Buffer where
  size : ℕ
  get : ℕ → Byte

namespace Buffer

/-- The bytes `bs` put at offset `off`; `none` when they do not fit. -/
def write (b : Buffer) (off : ℕ) (bs : List Byte) : Option Buffer :=
  if off + bs.length ≤ b.size then
    some { b with get := fun k => if off ≤ k then (bs[k - off]?).getD (b.get k) else b.get k }
  else none

/-- The first `n` bytes. -/
def take (b : Buffer) (n : ℕ) : List Byte := (List.range n).map b.get

/-- `bs` stands at offset `off`. -/
def Holds (b : Buffer) (off : ℕ) (bs : List Byte) : Prop :=
  ∀ k (h : k < bs.length), b.get (off + k) = bs[k]

/-- `b` and `c` have the same bytes below `n`. -/
def SameBelow (b c : Buffer) (n : ℕ) : Prop := ∀ k < n, c.get k = b.get k

theorem write_eq_some {b : Buffer} {off : ℕ} {bs : List Byte} (h : off + bs.length ≤ b.size) :
    ∃ c, b.write off bs = some c := ⟨_, if_pos h⟩

theorem write_fits {b c : Buffer} {off : ℕ} {bs : List Byte} (h : b.write off bs = some c) :
    off + bs.length ≤ b.size := by
  rw [write] at h
  split at h
  · assumption
  · cases h

theorem write_nil {b : Buffer} {off : ℕ} (h : off ≤ b.size) : b.write off [] = some b := by
  rw [write, if_pos (by rwa [List.length_nil, Nat.add_zero])]
  simp only [List.getElem?_nil, Option.getD_none, ite_self]

section write

variable {b c : Buffer} {off : ℕ} {bs : List Byte} (h : b.write off bs = some c)

include h

theorem write_size : c.size = b.size := by
  rw [write] at h
  split at h
  · cases h
    rfl
  · cases h

theorem write_get (k : ℕ) :
    c.get k = if off ≤ k then (bs[k - off]?).getD (b.get k) else b.get k := by
  rw [write] at h
  split at h
  · cases h
    rfl
  · cases h

theorem write_below : b.SameBelow c off := by
  intro k hk
  rw [write_get h, if_neg (Nat.not_le.mpr hk)]

theorem write_holds : c.Holds off bs := by
  intro k hk
  rw [write_get h, if_pos (Nat.le_add_right _ _), Nat.add_sub_cancel_left,
    List.getElem?_eq_getElem hk, Option.getD_some]

/-- A write leaves what stands behind it. -/
theorem write_holds_behind {off' : ℕ} {cs : List Byte} (hoff : off + bs.length ≤ off')
    (hc : b.Holds off' cs) : c.Holds off' cs := by
  intro k hk
  have hout : bs[off' + k - off]? = none := List.getElem?_eq_none (by omega)
  rw [write_get h, if_pos (by omega), hout, Option.getD_none, hc k hk]

end write

theorem SameBelow.refl (b : Buffer) (n : ℕ) : b.SameBelow b n := fun _ _ => rfl

theorem SameBelow.trans {b c d : Buffer} {n : ℕ} (h : b.SameBelow c n) (h' : c.SameBelow d n) :
    b.SameBelow d n := fun k hk => (h' k hk).trans (h k hk)

theorem SameBelow.mono {b c : Buffer} {m n : ℕ} (h : b.SameBelow c n) (hmn : m ≤ n) :
    b.SameBelow c m := fun k hk => h k (Nat.lt_of_lt_of_le hk hmn)

theorem SameBelow.holds {b c : Buffer} {n off : ℕ} {bs : List Byte} (h : b.SameBelow c n)
    (hn : off + bs.length ≤ n) (hb : b.Holds off bs) : c.Holds off bs := by
  intro k hk
  rw [h _ (by omega), hb k hk]

theorem holds_nil (b : Buffer) (off : ℕ) : b.Holds off [] := fun _ hk => absurd hk (Nat.not_lt_zero _)

theorem holds_append {b : Buffer} {off : ℕ} {bs cs : List Byte} :
    b.Holds off (bs ++ cs) ↔ b.Holds off bs ∧ b.Holds (off + bs.length) cs := by
  constructor
  · intro h
    constructor
    · intro k hk
      rw [h k (by rw [List.length_append]; omega), List.getElem_append_left hk]
    · intro k hk
      rw [Nat.add_assoc, h (bs.length + k) (by rw [List.length_append]; omega),
        List.getElem_append_right (Nat.le_add_right _ _)]
      simp only [Nat.add_sub_cancel_left]
  · rintro ⟨hb, hc⟩ k hk
    rw [List.length_append] at hk
    by_cases hkb : k < bs.length
    · rw [hb k hkb, List.getElem_append_left hkb]
    · have hle : bs.length ≤ k := Nat.le_of_not_lt hkb
      rw [List.getElem_append_right hle, ← hc (k - bs.length) (by omega), Nat.add_assoc,
        Nat.add_sub_cancel' hle]

theorem Holds.take_eq {b : Buffer} {bs : List Byte} (h : b.Holds 0 bs) : b.take bs.length = bs := by
  apply List.ext_getElem
  · rw [take, List.length_map, List.length_range]
  · intro k _ hk
    have hget := h k hk
    rw [Nat.zero_add] at hget
    simp only [take, List.getElem_map, List.getElem_range, hget]

end Buffer

end AutoInstrumentation.Lib
