import AutoInstrumentation.Lib.Dictionary
import AutoInstrumentation.Strings

/-!
# AutoInstrumentation.Configurations.OtlpHeaders

`OtlpSettings.CombineHeaders`: the headers of an exporter, from a list in one string and
from structured headers.
-/

namespace AutoInstrumentation.Configurations

open AutoInstrumentation.Lib
open AutoInstrumentation.Cel (WString code Unicode)

/-- `StringComparer.OrdinalIgnoreCase`, by the upper case of strings. No other character
than `=` has the upper case `=`. -/
structure OrdinalIgnoreCase where
  upper : WString → WString
  equalsSign : ∀ s, code '=' ∈ upper s ↔ code '=' ∈ s

/-- A header of the file-based configuration. -/
structure Header where
  name : Option WString
  value : Option WString

/-- The pair that a part of the list stands for, if it is taken. -/
def takePair (pair : WString) : Option (WString × WString) :=
  match pair.splitOn (code '=') with
  | [key, value] => if key ≠ [] ∧ value ≠ [] then some (key, value) else none
  | _ => none

/-- The pairs that are taken of `headersList`. -/
def pairsOfList (unicode : Unicode) (headersList : Option WString) : List (WString × WString) :=
  if isNullOrWhiteSpace unicode headersList then []
  else (((headersList.getD []).splitOn (code ',')).filter (· ≠ [])).filterMap takePair

/-- The pair of a structured header, if it is taken. -/
def takeHeader (unicode : Unicode) (header : Option Header) : Option (WString × WString) :=
  match header with
  | some ⟨some name, some value⟩ =>
      if isNullOrWhiteSpace unicode (some name) || isNullOrWhiteSpace unicode (some value) then none
      else some (name, value)
  | _ => none

/-- `$"{kvp.Key}={kvp.Value}"`. -/
def printPair (kvp : WString × WString) : WString := kvp.1 ++ code '=' :: kvp.2

/-- `CombineHeaders`. -/
def combineHeaders (unicode : Unicode) (comparer : OrdinalIgnoreCase)
    (headers : Option (List (Option Header))) (headersList : Option WString) : Option WString :=
  let headerDict : Dictionary comparer.upper WString :=
    (Dictionary.empty.setAll (pairsOfList unicode headersList)).setAll
      ((headers.getD []).filterMap (takeHeader unicode))
  if headerDict.entries = [] then none
  else some ([code ','].intercalate (headerDict.entries.map printPair))

/-! ### The OTLP format -/

/-- A pair at its first `=`. -/
def splitPair (pair : WString) : WString × WString :=
  (pair.takeWhile (· ≠ code '='), (pair.dropWhile (· ≠ code '=')).tail)

/-- The pairs of a list of headers: it is split at the commas, and each pair at its
first `=`. -/
def parseHeaders (headers : WString) : List (WString × WString) :=
  ((headers.splitOn (code ',')).filter (code '=' ∈ ·)).map splitPair

/-- The pairs of a list of headers with a name and a value. -/
def listHeaders (headersList : Option WString) : List (WString × WString) :=
  (parseHeaders (headersList.getD [])).filter fun p => p.1 ≠ [] ∧ p.2 ≠ []

/-- The structured headers with a name and a value. -/
def structuredHeaders (headers : Option (List (Option Header))) : List (WString × WString) :=
  (headers.getD []).filterMap fun header =>
    match header with
    | some ⟨some name, some value⟩ => if name ≠ [] ∧ value ≠ [] then some (name, value) else none
    | _ => none

/-- **The combined headers are the union of both inputs**: each name occurs once, with the
value that was given last for it, a structured header's before one of the list. -/
def IsUnion (comparer : OrdinalIgnoreCase) (headers : Option (List (Option Header)))
    (headersList : Option WString) (combined : Option WString) : Prop :=
  let result := parseHeaders (combined.getD [])
  (result.map fun p => comparer.upper p.1).Nodup
    ∧ ∀ name, lastValue comparer.upper result name =
        lastValue comparer.upper (listHeaders headersList ++ structuredHeaders headers) name

end AutoInstrumentation.Configurations
