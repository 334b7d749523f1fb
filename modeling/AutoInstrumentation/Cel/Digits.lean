import AutoInstrumentation.Cel.Lexer
import Mathlib.Tactic.IntervalCases

/-!
# AutoInstrumentation.Cel.Digits

Natural numbers in decimal digits.
-/

namespace AutoInstrumentation.Cel

/-- The value of a text of ASCII digits. -/
def digitsValue (digits : WString) : ℕ :=
  digits.foldl (fun n c => 10 * n + (c - code '0').toNat) 0

def isAsciiDigit (c : WChar) : Bool := code '0' ≤ c && c ≤ code '9'

/-- A number as the invariant culture writes it. -/
def naturalText (n : ℕ) : WString := (Nat.toDigits 10 n).map code

theorem isAsciiDigit_code {c : Char} (h : c.isDigit = true) :
    isAsciiDigit (code c) = true ∧ (code c - code '0').toNat = c.toNat - 48 ∧
      code c ≠ code '-' ∧ code c ≠ code '.' := by
  have hlower : 48 ≤ c.toNat := by simpa using (Char.isDigit_iff_toNat.mp h).1
  have hupper : c.toNat ≤ 57 := by simpa using (Char.isDigit_iff_toNat.mp h).2
  generalize hn : c.toNat = n at *
  simp only [code, hn]
  interval_cases n <;> decide

theorem naturalText_isAsciiDigit (n : ℕ) : (naturalText n).all isAsciiDigit = true := by
  rw [List.all_eq_true]
  intro c hc
  obtain ⟨d, hd, rfl⟩ := List.mem_map.mp hc
  exact (isAsciiDigit_code (Nat.isDigit_of_mem_toDigits (by omega) (by omega) hd)).1

theorem naturalText_ne_nil (n : ℕ) : naturalText n ≠ [] := by
  rw [naturalText, Ne, List.map_eq_nil_iff]
  exact Nat.toDigits_ne_nil

theorem digitsValue_naturalText (n : ℕ) : digitsValue (naturalText n) = n := by
  have hfold : ∀ (ds : List Char) (k : ℕ), (∀ d ∈ ds, d.isDigit = true) →
      (ds.map code).foldl (fun n c => 10 * n + (c - code '0').toNat) k
        = Nat.ofDigitChars 10 ds k := by
    intro ds
    induction ds with
    | nil => intro k _; rfl
    | cons d ds ih =>
        intro k h
        rw [List.map_cons, List.foldl_cons, Nat.ofDigitChars_cons,
          (isAsciiDigit_code (h d List.mem_cons_self)).2.1]
        exact ih _ fun e he => h e (List.mem_cons_of_mem d he)
  rw [digitsValue, naturalText,
    hfold _ 0 fun d hd => Nat.isDigit_of_mem_toDigits (by omega) (by omega) hd]
  exact Nat.ofDigitChars_toDigits (by omega) (by omega)

/-! ### Digits among the characters -/

theorem exists_of_range {a b c : WChar} (hlower : a ≤ c) (hupper : c ≤ b) :
    ∃ n, a.toNat ≤ n ∧ n ≤ b.toNat ∧ c = BitVec.ofNat 16 n :=
  ⟨c.toNat, hlower, hupper, (BitVec.ofNat_toNat 16 c).symm⟩

theorem asciiCategory_control {c : WChar} (hlower : 0x09 ≤ c) (hupper : c ≤ 0x0d) :
    c < 0x80 ∧ asciiCategory c = .other := by
  obtain ⟨n, hl, hu, rfl⟩ := exists_of_range hlower hupper
  change 9 ≤ n at hl
  change n ≤ 13 at hu
  interval_cases n <;> decide

theorem asciiCategory_digit {c : WChar} (h : isAsciiDigit c = true) :
    c < 0x80 ∧ asciiCategory c = .decimalDigitNumber := by
  rw [isAsciiDigit, Bool.and_eq_true, decide_eq_true_iff, decide_eq_true_iff] at h
  obtain ⟨n, hl, hu, rfl⟩ := exists_of_range h.1 h.2
  change 48 ≤ n at hl
  change n ≤ 57 at hu
  interval_cases n <;> decide

namespace Unicode

variable {unicode : Unicode}

theorem isWhiteSpace_eq_false {c : WChar}
    (h : unicode.category c = .letter ∨ unicode.category c = .decimalDigitNumber) :
    unicode.isWhiteSpace c = false := by
  have hne : unicode.category c ≠ .separator ∧ unicode.category c ≠ .other := by
    rcases h with h | h <;> rw [h] <;> decide
  have hcontrol : ¬(0x09 ≤ c ∧ c ≤ 0x0d) := by
    rintro ⟨hlower, hupper⟩
    obtain ⟨hascii, hcategory⟩ := asciiCategory_control hlower hupper
    exact hne.2 ((unicode.ascii c hascii).trans hcategory)
  have hnextLine : c ≠ 0x85 := by
    rintro rfl
    exact hne.2 unicode.nextLine
  simp only [isWhiteSpace, Bool.or_eq_false_iff, Bool.and_eq_false_imp, beq_eq_false_iff_ne,
    decide_eq_true_iff, decide_eq_false_iff_not]
  exact ⟨⟨hne.1, fun hlower hupper => hcontrol ⟨hlower, hupper⟩⟩, hnextLine⟩

theorem category_digit {c : WChar} (h : isAsciiDigit c = true) :
    unicode.category c = .decimalDigitNumber :=
  (unicode.ascii c (asciiCategory_digit h).1).trans (asciiCategory_digit h).2

theorem isDigit_ascii {c : WChar} (h : isAsciiDigit c = true) : unicode.isDigit c = true := by
  rw [isDigit, category_digit h]
  rfl

end Unicode

end AutoInstrumentation.Cel
