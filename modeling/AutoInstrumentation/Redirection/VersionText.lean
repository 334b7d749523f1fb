import AutoInstrumentation.Redirection.Version

/-!
# AutoInstrumentation.Redirection.VersionText

Versions that are written out and read back.

`VersionStr` writes four numbers without leading zeros, and `TryParseVersion` reads them
back, but that a build or revision of 65535, and a revision behind such a build, is read
as zero.
-/

namespace AutoInstrumentation.Redirection

open Lib

/-- No part stands for an unspecified one. -/
def AssemblyMetadata.isSpecified (v : AssemblyMetadata) : Bool :=
  [v.usMajorVersion, v.usMinorVersion, v.usBuildNumber, v.usRevisionNumber].all
    (·.toNat ≠ unspecifiedVersionComponent)

/-! ### One number -/

theorem digit_toNat {n : ℕ} (h : n < 10) : (digit n).toNat = zeroDigit.toNat + n := by
  have hzero : zeroDigit.toNat = 48 := rfl
  simp only [digit, BitVec.toNat_add, BitVec.toNat_ofNat, hzero]
  omega

theorem isDigit_digit {n : ℕ} (h : n < 10) : isDigit (digit n) = true := by
  have hdigit := digit_toNat h
  have hlow : zeroDigit ≤ digit n := by
    rw [BitVec.le_def, hdigit]
    omega
  have hhigh : digit n ≤ 0x39 := by
    rw [BitVec.le_def, hdigit]
    show 48 + n ≤ 57
    omega
  simp only [isDigit, Bool.and_eq_true, decide_eq_true_eq]
  exact ⟨hlow, hhigh⟩

theorem digitsValue_cons (n : ℕ) (c : Byte) (text : List Byte) :
    digitsValue n (c :: text) = digitsValue (10 * n + (c.toNat - zeroDigit.toNat)) text := by
  simp only [digitsValue, List.foldl_cons]

/-- Digits in front count with their power of ten, so that the value of `toDigits` is that
of its number in front of the text. -/
theorem digitsValue_toDigits (bufferSize res : ℕ) (hres : res < 10 ^ bufferSize)
    (text : List Byte) (h : bufferSize ≠ 0) :
    digitsValue 0 (toDigits bufferSize res text) = digitsValue res text := by
  induction bufferSize generalizing res text with
  | zero => exact absurd rfl h
  | succ bufferSize ih =>
      have hmod : res % 10 < 10 := Nat.mod_lt res (by omega)
      have hdigit : (digit (res % 10)).toNat - zeroDigit.toNat = res % 10 := by
        rw [digit_toNat hmod]
        omega
      rw [toDigits]
      by_cases hdiv : res / 10 = 0
      · rw [if_neg (by simpa using hdiv), digitsValue_cons, hdigit]
        congr 1
        omega
      · have hbuffer : bufferSize ≠ 0 := by
          intro hzero
          subst hzero
          omega
        have hlt : res / 10 < 10 ^ bufferSize := by
          rw [pow_succ] at hres
          omega
        rw [if_pos hdiv, ih (res / 10) hlt _ hbuffer, digitsValue_cons, hdigit]
        congr 1
        omega

theorem toDigits_isDigit (bufferSize res : ℕ) (text : List Byte) (h : text.all isDigit = true) :
    (toDigits bufferSize res text).all isDigit = true := by
  induction bufferSize generalizing res text with
  | zero => exact h
  | succ bufferSize ih =>
      have hcons : (digit (res % 10) :: text).all isDigit = true := by
        rw [List.all_cons, isDigit_digit (Nat.mod_lt res (by omega)), h]
        rfl
      rw [toDigits]
      split
      · exact ih (res / 10) _ hcons
      · exact hcons

theorem toDigits_ne_nil (bufferSize res : ℕ) (text : List Byte) (h : text ≠ [] ∨ bufferSize ≠ 0) :
    toDigits bufferSize res text ≠ [] := by
  induction bufferSize generalizing res text with
  | zero => exact h.resolve_right (by simp)
  | succ bufferSize ih =>
      rw [toDigits]
      split
      · exact ih (res / 10) _ (Or.inl (List.cons_ne_nil _ _))
      · exact List.cons_ne_nil _ _

theorem partStr_isDigit (value : BitVec 16) : (partStr value).all isDigit = true :=
  toDigits_isDigit 24 value.toNat [] rfl

theorem partStr_ne_nil (value : BitVec 16) : partStr value ≠ [] :=
  toDigits_ne_nil 24 value.toNat [] (Or.inr (by omega))

theorem digitsValue_partStr (value : BitVec 16) : digitsValue 0 (partStr value) = value.toNat := by
  have hlt : value.toNat < 10 ^ 24 := lt_trans value.isLt (by decide)
  exact digitsValue_toDigits 24 value.toNat hlt [] (by omega)

/-- A number that is written out is read back. -/
theorem tryParseComponent_partStr (value : BitVec 16) :
    tryParseComponent (partStr value) = some value := by
  have hlt := value.isLt
  rw [tryParseComponent, if_neg, digitsValue_partStr, BitVec.ofNat_toNat, BitVec.setWidth_eq]
  rw [digitsValue_partStr, partStr_isDigit]
  simp only [partStr_ne_nil, not_true_eq_false, false_or, unspecifiedVersionComponent]
  omega

/-! ### The version -/

theorem takeWhile_partStr (value : BitVec 16) {rest : List Byte}
    (hrest : rest = [] ∨ ∃ more, rest = dot :: more) :
    (partStr value ++ rest).takeWhile (· != dot) = partStr value := by
  have hdigits : ∀ c ∈ partStr value, (c != dot) = true := by
    intro c hc
    have hdigit := List.all_eq_true.mp (partStr_isDigit value) c hc
    rw [bne_iff_ne]
    intro heq
    subst heq
    exact absurd hdigit (by decide)
  rw [List.takeWhile_append_of_pos hdigits]
  rcases hrest with rfl | ⟨more, rfl⟩
  · simp
  · simp

/-- The last turn of the loop, over a number that is written out. -/
theorem parseComponents_partStr {index remaining : ℕ} {unspecified : Bool} {value : BitVec 16}
    (hvalue : value.toNat ≠ unspecifiedVersionComponent) :
    parseComponents index unspecified (remaining + 1) (partStr value)
      = some [if unspecified then 0 else value] := by
  have hbeq : (value.toNat == unspecifiedVersionComponent) = false := by simpa using hvalue
  have htake := takeWhile_partStr value (Or.inl rfl)
  rw [List.append_nil] at htake
  rw [parseComponents, htake, tryParseComponent_partStr]
  simp [hvalue, hbeq]

/-- A turn of the loop over a number with a dot behind it. -/
theorem parseComponents_partStr_dot {index remaining : ℕ} {unspecified : Bool}
    {value : BitVec 16} (hvalue : value.toNat ≠ unspecifiedVersionComponent)
    (rest : List Byte) :
    parseComponents index unspecified (remaining + 1) (partStr value ++ dot :: rest)
      = (parseComponents (index + 1) unspecified remaining rest).map
          ((if unspecified then 0 else value) :: ·) := by
  have hbeq : (value.toNat == unspecifiedVersionComponent) = false := by simpa using hvalue
  have htake := takeWhile_partStr value (Or.inr ⟨rest, rfl⟩)
  rw [parseComponents, htake, tryParseComponent_partStr]
  simp [hvalue, hbeq]

/-- **A version that is written out is read back.** -/
theorem tryParseVersion_versionStr {v : AssemblyMetadata} (h : v.isSpecified = true) :
    tryParseVersion v.versionStr = some v := by
  simp only [AssemblyMetadata.isSpecified, List.all_cons, List.all_nil, Bool.and_true,
    Bool.and_eq_true, decide_eq_true_eq] at h
  obtain ⟨hmajor, hminor, hbuild, hrevision⟩ := h
  rw [tryParseVersion, AssemblyMetadata.versionStr, parseComponents_partStr_dot hmajor,
    parseComponents_partStr_dot hminor, parseComponents_partStr_dot hbuild,
    parseComponents_partStr hrevision]
  rfl

/-- What a version is written with. -/
theorem versionStr_chars (v : AssemblyMetadata) :
    ∀ c ∈ v.versionStr, isDigit c = true ∨ c = dot := by
  intro c hc
  have hpart : ∀ value : BitVec 16, c ∈ partStr value → isDigit c = true :=
    fun value hmem => List.all_eq_true.mp (partStr_isDigit value) c hmem
  simp only [AssemblyMetadata.versionStr, List.mem_append, List.mem_cons] at hc
  rcases hc with hc | rfl | hc | rfl | hc | rfl | hc
  all_goals first | exact Or.inl (hpart _ hc) | exact Or.inr rfl

theorem versionStr_ne_nil (v : AssemblyMetadata) : v.versionStr ≠ [] := by
  simp [AssemblyMetadata.versionStr, partStr_ne_nil]

end AutoInstrumentation.Redirection
