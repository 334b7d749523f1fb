import AutoInstrumentation.Cel.Digits
import AutoInstrumentation.Strings
import Mathlib.Data.List.Lex
import Mathlib.Order.Fin.Basic

/-!
# AutoInstrumentation.AssemblyBinding.Versions

`System.Version`, and its text.

The runtime's parser takes more than it writes: components may have leading zeros, a sign,
white space around them and null characters behind them.
-/

namespace AutoInstrumentation.AssemblyBinding

open AutoInstrumentation.Cel (WChar WString code Unicode isAsciiDigit digitsValue naturalText)

/-! ### Versions -/

/-- An `int` that is not negative. -/
abbrev Component := Fin (2 ^ 31)

instance component_neZero : NeZero (2 ^ 31) := ⟨by decide⟩

/-- `System.Version`: major, minor, and possibly build and revision. -/
structure Version where
  components : List Component
  length : 2 ≤ components.length ∧ components.length ≤ 4
  deriving DecidableEq

namespace Version

theorem components_injective : Function.Injective components := by
  rintro ⟨components, _⟩ ⟨components', _⟩ h
  cases h
  rfl

/-- `CompareTo`, by the components from the first on; a component that is not defined comes
before those that are. -/
instance : LinearOrder Version := LinearOrder.lift' components components_injective

theorem le_def {v w : Version} : v ≤ w ↔ v.components ≤ w.components := Iff.rfl

theorem lt_def {v w : Version} : v < w ↔ v.components < w.components := Iff.rfl

/-- `ToString`. -/
def toText (v : Version) : WString :=
  [code '.'].intercalate (v.components.map fun c => naturalText c.val)

end Version

/-! ### Parsing -/

/-- The white space of numbers. -/
def isNumberWhite (c : WChar) : Bool := c == 0x20 || (0x09 ≤ c && c ≤ 0x0D)

/-- `int.TryParse` with `NumberStyles.Integer` and the invariant culture, of a component,
which must not be negative. -/
def tryParseComponent (component : WString) : Option Component :=
  let text := component.dropWhile isNumberWhite
  let negative := text.head? = some (code '-')
  let unsigned := if negative ∨ text.head? = some (code '+') then text.tail else text
  let digits := unsigned.takeWhile isAsciiDigit
  let rest := (unsigned.dropWhile isAsciiDigit).dropWhile isNumberWhite
  if digits = [] ∨ ¬rest.all (· == 0) then none
  else if negative ∧ digitsValue digits ≠ 0 then none
  else if h : digitsValue digits < 2 ^ 31 then some ⟨digitsValue digits, h⟩
  else none

/-- `new Version(version)`, which throws where it has no result. -/
def parseVersion (version : WString) : Option Version :=
  match (version.splitOn (code '.')).mapM tryParseComponent with
  | none => none
  | some components =>
      if h : 2 ≤ components.length ∧ components.length ≤ 4 then some ⟨components, h⟩ else none

/-- `TryParseVersion`. -/
def tryParseVersion (unicode : Unicode) (versionString : Option WString) : Option Version :=
  if isNullOrWhiteSpace unicode versionString then none
  else parseVersion (versionString.getD [])

/-! ### The text of a version -/

theorem isAsciiDigit_facts {c : WChar} (h : isAsciiDigit c = true) :
    isNumberWhite c = false ∧ c ≠ code '-' ∧ c ≠ code '+' ∧ c ≠ code '.' := by
  have hrange : code '0' ≤ c ∧ c ≤ code '9' := by simpa [isAsciiDigit] using h
  rw [show code '0' = 0x30 from rfl, show code '9' = 0x39 from rfl] at hrange
  rw [show code '-' = 0x2D from rfl, show code '+' = 0x2B from rfl, show code '.' = 0x2E from rfl]
  refine ⟨?_, ?_, ?_, ?_⟩
  · simp only [isNumberWhite, Bool.or_eq_false_iff, beq_eq_false_iff_ne, Bool.and_eq_false_iff,
      decide_eq_false_iff_not]
    constructor
    · bv_omega
    · bv_omega
  all_goals bv_omega

theorem tryParseComponent_naturalText (c : Component) :
    tryParseComponent (naturalText c.val) = some c := by
  have hdigits := List.all_eq_true.mp (Cel.naturalText_isAsciiDigit c.val)
  obtain ⟨first, rest, htext⟩ := List.exists_cons_of_ne_nil (Cel.naturalText_ne_nil c.val)
  have hfirst : first ∈ naturalText c.val := by
    rw [htext]
    exact List.mem_cons_self
  obtain ⟨hwhite, hminus, hplus, -⟩ := isAsciiDigit_facts (hdigits first hfirst)
  have hstart : (naturalText c.val).dropWhile isNumberWhite = naturalText c.val := by
    rw [htext, List.dropWhile_cons_of_neg (by rw [hwhite]; exact Bool.false_ne_true)]
  have hhead : (naturalText c.val).head? = some first := by rw [htext]; rfl
  have htake : (naturalText c.val).takeWhile isAsciiDigit = naturalText c.val :=
    List.takeWhile_eq_self_iff.mpr hdigits
  have hdrop : (naturalText c.val).dropWhile isAsciiDigit = [] :=
    List.dropWhile_eq_nil_iff.mpr hdigits
  rw [tryParseComponent]
  simp only [hstart, hhead, Option.some.injEq, hminus, hplus, or_self, if_false, htake, hdrop,
    Cel.naturalText_ne_nil, List.dropWhile_nil, List.all_nil, not_true, false_and,
    Cel.digitsValue_naturalText, c.isLt, dif_pos]

/-- **A version is read back.** -/
theorem parseVersion_toText (v : Version) : parseVersion v.toText = some v := by
  have hsplit : v.toText.splitOn (code '.') = v.components.map fun c => naturalText c.val := by
    refine List.splitOn_intercalate _ ?_ ?_
    · intro text htext
      obtain ⟨c, -, rfl⟩ := List.mem_map.mp htext
      intro hpoint
      have hdigit := List.all_eq_true.mp (Cel.naturalText_isAsciiDigit c.val) _ hpoint
      exact (isAsciiDigit_facts hdigit).2.2.2 rfl
    · intro hnil
      have hlength := v.length.1
      rw [List.map_eq_nil_iff.mp hnil] at hlength
      cases hlength
  have hparse (components : List Component) :
      (components.map fun c => naturalText c.val).mapM tryParseComponent = some components := by
    induction components with
    | nil => rfl
    | cons c components ih =>
        rw [List.map_cons, List.mapM_cons, tryParseComponent_naturalText, ih]
        rfl
  rw [parseVersion, hsplit, hparse v.components]
  exact dif_pos v.length

/-- The characters of a version. -/
theorem isAsciiDigit_or_of_mem_toText {v : Version} {c : WChar} (h : c ∈ v.toText) :
    isAsciiDigit c = true ∨ c = code '.' := by
  have hmem (components : List Component)
      (h : c ∈ [code '.'].intercalate (components.map fun c => naturalText c.val)) :
      isAsciiDigit c = true ∨ c = code '.' := by
    induction components with
    | nil => cases h
    | cons d components ih =>
        have hdigits := List.all_eq_true.mp (Cel.naturalText_isAsciiDigit d.val) c
        cases components with
        | nil => exact .inl (hdigits (by simpa [List.intercalate] using h))
        | cons e components =>
            have hparts : c ∈ naturalText d.val ∨ c = code '.'
                ∨ c ∈ [code '.'].intercalate
                  ((e :: components).map fun c => naturalText c.val) := by
              simpa [List.intercalate] using h
            rcases hparts with hdigit | hpoint | hrest
            · exact .inl (hdigits hdigit)
            · exact .inr hpoint
            · exact ih hrest
  exact hmem v.components h

theorem toText_injective : Function.Injective Version.toText := by
  intro v w h
  have hparse := parseVersion_toText v
  rw [h, parseVersion_toText] at hparse
  exact (Option.some.inj hparse).symm

theorem isNullOrWhiteSpace_toText (unicode : Unicode) (v : Version) :
    isNullOrWhiteSpace unicode (some v.toText) = false := by
  obtain ⟨c, components, hcomponents⟩ : ∃ c components, v.components = c :: components := by
    refine List.exists_cons_of_ne_nil fun hnil => ?_
    have hlength := v.length.1
    rw [hnil] at hlength
    cases hlength
  obtain ⟨first, rest, htext⟩ := List.exists_cons_of_ne_nil (Cel.naturalText_ne_nil c.val)
  have hdigit : isAsciiDigit first = true := by
    refine List.all_eq_true.mp (Cel.naturalText_isAsciiDigit c.val) first ?_
    rw [htext]
    exact List.mem_cons_self
  have hfirst : first ∈ v.toText := by
    rw [Version.toText, hcomponents, List.map_cons, htext]
    cases components with
    | nil => simp [List.intercalate]
    | cons d components => simp [List.intercalate]
  refine List.all_eq_false.mpr ⟨first, hfirst, ?_⟩
  rw [Unicode.isWhiteSpace_eq_false (.inr (Unicode.category_digit hdigit))]
  exact Bool.false_ne_true

theorem tryParseVersion_toText (unicode : Unicode) (v : Version) :
    tryParseVersion unicode (some v.toText) = some v := by
  rw [tryParseVersion, isNullOrWhiteSpace_toText]
  exact parseVersion_toText v

end AutoInstrumentation.AssemblyBinding
