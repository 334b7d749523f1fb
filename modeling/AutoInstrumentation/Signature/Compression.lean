import AutoInstrumentation.Signature.ParseSound

/-!
# AutoInstrumentation.Signature.Compression

The compressed numbers and tokens of `cor.h`, as they are read from a signature and
written to one.
-/

namespace AutoInstrumentation.Signature

open Lib Lib.Cursor

/-- The checked `CorSigUncompressData`: the data and the bytes it takes. -/
def corSigUncompressData (bytes : List Byte) : Option (ℕ × ℕ) :=
  match bytes with
  | [] => none
  | b :: rest =>
      if b &&& 0x80 = 0 then some (b.toNat, 1)
      else if b &&& 0xc0 = 0x80 then
        match rest with
        | b₁ :: _ => some ((b &&& 0x3f).toNat * 2 ^ 8 + b₁.toNat, 2)
        | _ => none
      else if b &&& 0xe0 = 0xc0 then
        match rest with
        | b₁ :: b₂ :: b₃ :: _ =>
            some ((b &&& 0x1f).toNat * 2 ^ 24 + b₁.toNat * 2 ^ 16 + b₂.toNat * 2 ^ 8 + b₃.toNat, 4)
        | _ => none
      else none

/-- `CorSigCompressData`, of a length that it can encode. -/
def corSigCompressData (length : ℕ) : List Byte :=
  if length ≤ 0x7f then [.ofNat 8 length]
  else if length ≤ 0x3fff then [.ofNat 8 (length / 2 ^ 8) ||| 0x80, .ofNat 8 length]
  else
    [.ofNat 8 (length / 2 ^ 24) ||| 0xc0, .ofNat 8 (length / 2 ^ 16), .ofNat 8 (length / 2 ^ 8),
      .ofNat 8 length]

/-- `CorSigUncompressData` at the cursor. -/
def uncompressData : Cursor Byte ℕ := fun pbCur =>
  (corSigUncompressData pbCur).map fun data => (data.1, pbCur.drop data.2)

/-- `CorSigUncompressToken`: the table and the row. -/
def uncompressToken : Cursor Byte (ℕ × ℕ) := do
  let tk ← uncompressData
  pure (tk &&& 0x3, tk >>> 2)

theorem and_c0_eq_80_iff : ∀ b : Byte, b &&& 0xc0 = 0x80 ↔ 128 ≤ b.toNat ∧ b.toNat < 192 := by
  decide

theorem and_e0_eq_c0_iff : ∀ b : Byte, b &&& 0xe0 = 0xc0 ↔ 192 ≤ b.toNat ∧ b.toNat < 224 := by
  decide

/-- It reads every width of a compressed number. -/
theorem uncompressData_reads (n : Number) : Reads uncompressData n.bytes n.value := by
  intro rest
  cases n with
  | one n h =>
      have hone : n < 0x80 := h
      have hb : (BitVec.ofNat 8 n).toNat = n := by
        rw [BitVec.toNat_ofNat]
        omega
      simp only [uncompressData, Number.bytes, List.singleton_append, corSigUncompressData,
        and_80_eq_zero_iff, hb, if_pos hone]
      rfl
  | two n h =>
      have hb : (BitVec.ofNat 8 (0x80 + n / 2 ^ 8)).toNat = 0x80 + n / 2 ^ 8 := by
        rw [BitVec.toNat_ofNat]
        omega
      simp only [uncompressData, Number.bytes, List.cons_append, List.nil_append,
        corSigUncompressData, and_80_eq_zero_iff, and_c0_eq_80_iff, hb]
      rw [if_neg (by omega), if_pos (by omega), toNat_and_3f, hb, BitVec.toNat_ofNat]
      simp only [Option.map_some, List.drop_succ_cons, List.drop_zero, Number.value]
      congr 2
      omega
  | four n h =>
      have hb : (BitVec.ofNat 8 (0xc0 + n / 2 ^ 24)).toNat = 0xc0 + n / 2 ^ 24 := by
        rw [BitVec.toNat_ofNat]
        omega
      simp only [uncompressData, Number.bytes, List.cons_append, List.nil_append,
        corSigUncompressData, and_80_eq_zero_iff, and_c0_eq_80_iff, and_e0_eq_c0_iff, hb]
      rw [if_neg (by omega), if_neg (by omega), if_pos (by omega), toNat_and_1f, hb]
      simp only [Option.map_some, List.drop_succ_cons, List.drop_zero, Number.value,
        BitVec.toNat_ofNat]
      congr 2
      omega

/-- The shortest number of a value. -/
def Number.shortest (value : ℕ) (bound : value < 2 ^ 29) : Number :=
  if hone : value < 2 ^ 7 then .one value hone
  else if htwo : value < 2 ^ 14 then .two value htwo
  else .four value bound

theorem Number.value_shortest {value : ℕ} (bound : value < 2 ^ 29) :
    (Number.shortest value bound).value = value := by
  rw [Number.shortest]
  split
  · rfl
  · split <;> rfl

theorem or_80_eq_add : ∀ b : Byte, b.toNat < 0x40 → b ||| 0x80 = 0x80 + b := by decide

theorem or_c0_eq_add : ∀ b : Byte, b.toNat < 0x20 → b ||| 0xc0 = 0xc0 + b := by decide

/-- What is written is the shortest form. -/
theorem corSigCompressData_eq {length : ℕ} (bound : length < 2 ^ 29) :
    corSigCompressData length = (Number.shortest length bound).bytes := by
  rw [corSigCompressData, Number.shortest]
  by_cases hone : length < 2 ^ 7
  · rw [dif_pos hone, if_pos (by omega), Number.bytes]
  · rw [dif_neg hone, if_neg (by omega)]
    by_cases htwo : length < 2 ^ 14
    · have hb : (BitVec.ofNat 8 (length / 2 ^ 8)).toNat < 0x40 := by
        rw [BitVec.toNat_ofNat]
        omega
      rw [dif_pos htwo, if_pos (by omega), Number.bytes, or_80_eq_add _ hb, BitVec.ofNat_add]
      rfl
    · have hb : (BitVec.ofNat 8 (length / 2 ^ 24)).toNat < 0x20 := by
        rw [BitVec.toNat_ofNat]
        omega
      rw [dif_neg htwo, if_neg (by omega), Number.bytes, or_c0_eq_add _ hb, BitVec.ofNat_add]
      rfl

theorem length_corSigCompressData_le (length : ℕ) : (corSigCompressData length).length ≤ 4 := by
  rw [corSigCompressData]
  split
  · simp
  · split <;> simp

theorem length_corSigCompressData_pos (length : ℕ) : 0 < (corSigCompressData length).length := by
  rw [corSigCompressData]
  split
  · simp
  · split <;> simp

/-- A compressed length is read back. -/
theorem uncompressData_compress {length : ℕ} (bound : length < 2 ^ 29) :
    Reads uncompressData (corSigCompressData length) length := by
  have hreads := uncompressData_reads (Number.shortest length bound)
  rwa [Number.value_shortest, ← corSigCompressData_eq bound] at hreads

/-- What is uncompressed stands in the bytes it takes, whatever follows them. -/
theorem reads_of_corSigUncompressData {bytes : List Byte} {length size : ℕ}
    (h : corSigUncompressData bytes = some (length, size)) :
    size ≤ bytes.length ∧ Reads uncompressData (bytes.take size) length := by
  cases bytes with
  | nil => cases h
  | cons b rest =>
      simp only [corSigUncompressData] at h
      by_cases hone : b &&& 0x80 = 0
      · rw [if_pos hone] at h
        obtain ⟨rfl, rfl⟩ := Prod.mk.inj (Option.some.inj h)
        refine ⟨by simp, fun tail => ?_⟩
        simp only [uncompressData, List.take_succ_cons, List.cons_append, corSigUncompressData,
          if_pos hone]
        rfl
      rw [if_neg hone] at h
      by_cases htwo : b &&& 0xc0 = 0x80
      · rw [if_pos htwo] at h
        cases rest with
        | nil => cases h
        | cons b₁ rest =>
            obtain ⟨rfl, rfl⟩ := Prod.mk.inj (Option.some.inj h)
            refine ⟨by simp, fun tail => ?_⟩
            simp only [uncompressData, List.take_succ_cons, List.cons_append,
              corSigUncompressData, if_neg hone, if_pos htwo]
            rfl
      rw [if_neg htwo] at h
      by_cases hfour : b &&& 0xe0 = 0xc0
      · rw [if_pos hfour] at h
        rcases rest with _ | ⟨b₁, _ | ⟨b₂, _ | ⟨b₃, rest⟩⟩⟩
        · cases h
        · cases h
        · cases h
        · obtain ⟨rfl, rfl⟩ := Prod.mk.inj (Option.some.inj h)
          refine ⟨by simp, fun tail => ?_⟩
          simp only [uncompressData, List.take_succ_cons, List.cons_append, corSigUncompressData,
            if_neg hone, if_neg htwo, if_pos hfour]
          rfl
      · rw [if_neg hfour] at h
        cases h

/-- The uncompressed length takes the bytes that encode it. -/
theorem corSigUncompressData_of_reads {encodedLength : List Byte} {length : ℕ}
    (h : Reads uncompressData encodedLength length) (rest : List Byte) :
    corSigUncompressData (encodedLength ++ rest) = some (length, encodedLength.length) := by
  have hread := h rest
  rw [uncompressData] at hread
  obtain ⟨⟨data, size⟩, hdata, heq⟩ := Option.map_eq_some_iff.mp hread
  obtain ⟨rfl, hdrop⟩ := Prod.mk.inj heq
  have hsize := (reads_of_corSigUncompressData hdata).1
  have hlength := congrArg List.length hdrop
  simp only [List.length_drop, List.length_append] at hlength hsize
  rw [hdata, show size = encodedLength.length by omega]

/-- The token of a compressed number. -/
def Number.token (n : Number) : ℕ × ℕ := (n.value &&& 0x3, n.value >>> 2)

theorem uncompressToken_reads (n : Number) : Reads uncompressToken n.bytes n.token :=
  (uncompressData_reads n).bind_pure _

end AutoInstrumentation.Signature
