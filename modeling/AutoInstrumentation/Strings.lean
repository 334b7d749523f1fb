import AutoInstrumentation.Cel.Lexer
import Mathlib.Data.List.DropRight

/-!
# AutoInstrumentation.Strings

The parts of `string` that read the white space of Unicode, and the upper case of ASCII.
-/

namespace AutoInstrumentation

open AutoInstrumentation.Cel (WChar WString code Unicode)

/-- `string.IsNullOrWhiteSpace`. -/
def isNullOrWhiteSpace (unicode : Unicode) : Option WString → Bool
  | none => true
  | some s => s.all unicode.isWhiteSpace

/-- `string.Trim`. -/
def trim (unicode : Unicode) (s : WString) : WString :=
  (s.dropWhile unicode.isWhiteSpace).rdropWhile unicode.isWhiteSpace

/-- The upper case of an ASCII character. -/
def asciiUpper (c : WChar) : WChar := if code 'a' ≤ c ∧ c ≤ code 'z' then c - 0x20 else c

/-- A character that is no letter is the upper case of itself only. -/
theorem asciiUpper_eq_iff {c d : WChar}
    (h : ¬(code 'A' ≤ d ∧ d ≤ code 'Z') ∧ ¬(code 'a' ≤ d ∧ d ≤ code 'z')) :
    asciiUpper c = d ↔ c = d := by
  rw [show code 'a' = 0x61 from rfl, show code 'z' = 0x7A from rfl, show code 'A' = 0x41 from rfl,
    show code 'Z' = 0x5A from rfl] at h
  rw [asciiUpper, show code 'a' = 0x61 from rfl, show code 'z' = 0x7A from rfl]
  split
  · constructor
    · intro heq
      bv_omega
    · intro heq
      bv_omega
  · exact Iff.rfl

end AutoInstrumentation
