import AutoInstrumentation.Lib.Bytes
import Mathlib.Data.List.DropRight

/-!
# AutoInstrumentation.ReflectionName.Parser

The parser of `type_name_assembly_reference_parser.cpp`.

A `Span` is kept with the text it covers, so that a function that takes the whole type
name and a span takes the span here, and a loop that moves a position through a span
runs over the text that is left of it. Positions that a search returns count from the
start of the text it was given. A collector is a function of the vector `references`
that it appends to: what it pushed before a failure stays in the vector.

The nesting of generic arguments is counted down: `levels` is what is left of
`max_generic_nesting_depth`. The loops take fuel; the length of the text is enough
(`collectTypeLoop_fuel`, `collectGenericLoop_fuel`, `qualifierLoop_fuel`).
-/

namespace AutoInstrumentation.ReflectionName

open Lib

/-! ### Characters -/

def backslash : Byte := 0x5c
def comma : Byte := 0x2c
def equals : Byte := 0x3d
def openBracket : Byte := 0x5b
def closeBracket : Byte := 0x5d
def singleQuote : Byte := 0x27
def doubleQuote : Byte := 0x22

def isQuote (c : Byte) : Bool := c == singleQuote || c == doubleQuote

def isAsciiSpace (c : Byte) : Bool :=
  c == 0x20 || c == 0x09 || c == 0x0a || c == 0x0b || c == 0x0c || c == 0x0d

def toAsciiLower (c : Byte) : Byte := if 0x41 ≤ c ∧ c ≤ 0x5a then c - 0x41 + 0x61 else c

def equalsIgnoreAsciiCase (left right : List Byte) : Bool :=
  left.map toAsciiLower == right.map toAsciiLower

/-- `"Version"`. -/
def versionKey : List Byte := [0x56, 0x65, 0x72, 0x73, 0x69, 0x6f, 0x6e]

/-! ### Spans -/

/-- A part of the type name: where it begins, and its text. -/
structure Span where
  start : ℕ
  text : List Byte
  deriving DecidableEq, Repr

namespace Span

/-- The position behind the span. -/
def finish (s : Span) : ℕ := s.start + s.text.length

/-- The first `n` characters. -/
def upTo (s : Span) (n : ℕ) : Span := ⟨s.start, s.text.take n⟩

/-- All but the first `n` characters. -/
def after (s : Span) (n : ℕ) : Span := ⟨s.start + n, s.text.drop n⟩

def trimmed (s : Span) : Span :=
  ⟨s.start + (s.text.takeWhile isAsciiSpace).length,
    (s.text.dropWhile isAsciiSpace).rdropWhile isAsciiSpace⟩

end Span

structure ParsedAssemblyReference where
  assemblyName : List Byte
  insertVersionAt : ℕ
  versionSpan : Option Span
  deriving DecidableEq, Repr

/-! ### Searches -/

/-- The outcome of a search: `false`, or `true` with a position or without one. -/
abbrev Found := Option (Option ℕ)

/-- The outcome of a search that began `n` characters earlier. -/
def Found.shift (n : ℕ) (r : Found) : Found := r.map (Option.map (· + n))

/-- The active quote behind a quote character. -/
def toggleQuote (activeQuote : Option Byte) (quote : Byte) : Option Byte :=
  if activeQuote = none then some quote
  else if activeQuote = some quote then none
  else activeQuote

/-- `TryFindUnescaped`. -/
def findUnescaped (expected : Byte) : Option Byte → List Byte → Found
  | activeQuote, [] => if activeQuote = none then some none else none
  | activeQuote, c :: text =>
      if c = backslash then
        match text with
        | [] => none
        | _ :: text => Found.shift 2 (findUnescaped expected activeQuote text)
      else if isQuote c then
        Found.shift 1 (findUnescaped expected (toggleQuote activeQuote c) text)
      else if c = openBracket ∨ c = closeBracket then
        if activeQuote = none then none
        else Found.shift 1 (findUnescaped expected activeQuote text)
      else if activeQuote = none ∧ c = expected then some (some 0)
      else Found.shift 1 (findUnescaped expected activeQuote text)

/-- `TryFindTopLevelSeparator`. -/
def findTopLevelSeparator (separator : Byte) : Option Byte → ℕ → List Byte → Found
  | activeQuote, depth, [] => if activeQuote = none ∧ depth = 0 then some none else none
  | activeQuote, depth, c :: text =>
      if c = backslash then
        match text with
        | [] => none
        | _ :: text => Found.shift 2 (findTopLevelSeparator separator activeQuote depth text)
      else if isQuote c then
        Found.shift 1 (findTopLevelSeparator separator (toggleQuote activeQuote c) depth text)
      else if c = openBracket then
        Found.shift 1 (findTopLevelSeparator separator activeQuote
          (if activeQuote = none then depth + 1 else depth) text)
      else if c = closeBracket then
        if activeQuote = none then
          if depth = 0 then none
          else Found.shift 1 (findTopLevelSeparator separator activeQuote (depth - 1) text)
        else Found.shift 1 (findTopLevelSeparator separator activeQuote depth text)
      else if activeQuote = none ∧ c = separator ∧ depth = 0 then some (some 0)
      else Found.shift 1 (findTopLevelSeparator separator activeQuote depth text)

/-- The loop of `FindClosingBracket`. -/
def findClosing : Option Byte → ℕ → List Byte → Option ℕ
  | _, _, [] => none
  | activeQuote, depth, c :: text =>
      if c = backslash then
        match text with
        | [] => none
        | _ :: text => (findClosing activeQuote depth text).map (· + 2)
      else if isQuote c then
        (findClosing (toggleQuote activeQuote c) depth text).map (· + 1)
      else if c = openBracket then
        (findClosing activeQuote (if activeQuote = none then depth + 1 else depth) text).map (· + 1)
      else if c = closeBracket ∧ activeQuote = none then
        if depth - 1 = 0 then some 0
        else (findClosing activeQuote (depth - 1) text).map (· + 1)
      else (findClosing activeQuote depth text).map (· + 1)

/-! The searches one character at a time. -/

section Steps

variable {expected separator c : Byte} {activeQuote : Option Byte} {depth : ℕ} {text : List Byte}

theorem findUnescaped_escape (expected c : Byte) (activeQuote : Option Byte) (text : List Byte) :
    findUnescaped expected activeQuote (backslash :: c :: text)
      = Found.shift 2 (findUnescaped expected activeQuote text) := rfl

theorem findUnescaped_quote (hq : isQuote c = true) (hb : c ≠ backslash) :
    findUnescaped expected activeQuote (c :: text)
      = Found.shift 1 (findUnescaped expected (toggleQuote activeQuote c) text) := by
  rw [findUnescaped.eq_def]
  simp only [if_neg hb, if_pos hq]

theorem findUnescaped_plain (hq : isQuote c = false) (hb : c ≠ backslash) :
    findUnescaped expected activeQuote (c :: text)
      = if c = openBracket ∨ c = closeBracket then
          if activeQuote = none then none
          else Found.shift 1 (findUnescaped expected activeQuote text)
        else if activeQuote = none ∧ c = expected then some (some 0)
        else Found.shift 1 (findUnescaped expected activeQuote text) := by
  rw [findUnescaped.eq_def]
  simp only [if_neg hb, hq, Bool.false_eq_true, if_false]

theorem findTopLevelSeparator_escape (separator c : Byte) (activeQuote : Option Byte) (depth : ℕ)
    (text : List Byte) : findTopLevelSeparator separator activeQuote depth (backslash :: c :: text)
      = Found.shift 2 (findTopLevelSeparator separator activeQuote depth text) := rfl

theorem findTopLevelSeparator_quote (hq : isQuote c = true) (hb : c ≠ backslash) :
    findTopLevelSeparator separator activeQuote depth (c :: text)
      = Found.shift 1 (findTopLevelSeparator separator (toggleQuote activeQuote c) depth text) := by
  rw [findTopLevelSeparator.eq_def]
  simp only [if_neg hb, if_pos hq]

theorem findTopLevelSeparator_plain (hq : isQuote c = false) (hb : c ≠ backslash) :
    findTopLevelSeparator separator activeQuote depth (c :: text)
      = if c = openBracket then
          Found.shift 1 (findTopLevelSeparator separator activeQuote
            (if activeQuote = none then depth + 1 else depth) text)
        else if c = closeBracket then
          if activeQuote = none then
            if depth = 0 then none
            else Found.shift 1 (findTopLevelSeparator separator activeQuote (depth - 1) text)
          else Found.shift 1 (findTopLevelSeparator separator activeQuote depth text)
        else if activeQuote = none ∧ c = separator ∧ depth = 0 then some (some 0)
        else Found.shift 1 (findTopLevelSeparator separator activeQuote depth text) := by
  rw [findTopLevelSeparator.eq_def]
  simp only [if_neg hb, hq, Bool.false_eq_true, if_false]

theorem findClosing_escape (c : Byte) (activeQuote : Option Byte) (depth : ℕ) (text : List Byte) :
    findClosing activeQuote depth (backslash :: c :: text)
      = (findClosing activeQuote depth text).map (· + 2) := rfl

theorem findClosing_quote (hq : isQuote c = true) (hb : c ≠ backslash) :
    findClosing activeQuote depth (c :: text)
      = (findClosing (toggleQuote activeQuote c) depth text).map (· + 1) := by
  rw [findClosing.eq_def]
  simp only [if_neg hb, if_pos hq]

theorem findClosing_plain (hq : isQuote c = false) (hb : c ≠ backslash) :
    findClosing activeQuote depth (c :: text)
      = if c = openBracket then
          (findClosing activeQuote (if activeQuote = none then depth + 1 else depth) text).map
            (· + 1)
        else if c = closeBracket ∧ activeQuote = none then
          if depth - 1 = 0 then some 0
          else (findClosing activeQuote (depth - 1) text).map (· + 1)
        else (findClosing activeQuote depth text).map (· + 1) := by
  rw [findClosing.eq_def]
  simp only [if_neg hb, hq, Bool.false_eq_true, if_false]

end Steps

/-- `FindClosingBracket`, of a text that begins with the opening bracket. -/
def findClosingBracket : List Byte → Option ℕ
  | [] => none
  | c :: text => if c = openBracket then (findClosing none 1 text).map (· + 1) else none

/-- `TryGetUnquoted`. -/
def tryGetUnquoted (entry : Span) : Option Span :=
  match entry.text with
  | [] => some entry
  | quote :: _ =>
      if isQuote quote then
        if entry.text.length < 2 ∨ entry.text.getLast? ≠ some quote then none
        else some ⟨entry.start + 1, entry.text.tail.dropLast⟩
      else if entry.text.any isQuote then none
      else some entry

/-- `TryGetNextQualifierPart`: the part, and what remains. -/
def tryGetNextQualifierPart (remaining : Span) : Option (Span × Span) :=
  match findUnescaped comma none remaining.text with
  | none => none
  | some none => some (remaining.trimmed, remaining.after remaining.text.length)
  | some (some position) =>
      some ((remaining.upTo position).trimmed, remaining.after (position + 1))

def unescape : List Byte → List Byte
  | [] => []
  | [c] => [c]
  | c :: d :: text => if c = backslash then d :: unescape text else c :: unescape (d :: text)

/-! ### Collectors -/

/-- A function that appends to `references` and returns whether it succeeded. -/
abbrev Collector := List ParsedAssemblyReference → Bool × List ParsedAssemblyReference

namespace Collector

def succeed : Collector := fun references => (true, references)

def fail : Collector := fun references => (false, references)

def push (reference : ParsedAssemblyReference) : Collector := fun references =>
  (true, references ++ [reference])

/-- `if (!first) return false;`, then the second. -/
def andThen (first second : Collector) : Collector := fun references =>
  match first references with
  | (true, references) => second references
  | (false, references) => (false, references)

end Collector

/-- What a turn of the loop over the qualifiers does to the reference. -/
def readQualifier (qualifier : Span) (reference : ParsedAssemblyReference) :
    Option ParsedAssemblyReference :=
  match findUnescaped equals none qualifier.text with
  | none => none
  | some position =>
      match tryGetUnquoted (qualifier.upTo (position.getD qualifier.text.length)).trimmed with
      | none => none
      | some key =>
          match position with
          | none => some reference
          | some position =>
              if reference.versionSpan = none ∧ equalsIgnoreAsciiCase key.text versionKey then
                match tryGetUnquoted (qualifier.after (position + 1)).trimmed with
                | none => none
                | some value => some { reference with versionSpan := some value }
              else some reference

/-- The loop over the qualifiers. -/
def qualifierLoop : ℕ → Span → ParsedAssemblyReference → Option ParsedAssemblyReference
  | 0, _, _ => none
  | fuel + 1, qualification, reference =>
      if qualification.text = [] then some reference
      else
        match tryGetNextQualifierPart qualification with
        | none => none
        | some (qualifier, qualification) =>
            match readQualifier qualifier reference with
            | none => none
            | some reference => qualifierLoop fuel qualification reference

def parseAssemblyQualification (qualification : Span) : Collector :=
  match tryGetNextQualifierPart qualification with
  | none => .fail
  | some (assemblyName, qualification) =>
      if assemblyName.text = [] then .succeed
      else
        match tryGetUnquoted assemblyName with
        | none => .fail
        | some unquoted =>
            let reference :=
              { assemblyName := unescape unquoted.text
                insertVersionAt := assemblyName.finish
                versionSpan := none }
            match qualifierLoop (qualification.text.length + 1) qualification reference with
            | none => .fail
            | some reference => .push reference

/-- The argument that an entry of the list stands for: its own brackets are taken off. -/
def unbracketed (argument : Span) : Option Span :=
  if argument.text.head? = some openBracket then
    match findClosingBracket argument.text with
    | none => none
    | some closing =>
        if closing + 1 ≠ argument.text.length then none
        else some ⟨argument.start + 1, argument.text.tail.dropLast⟩
  else some argument

/-- The loop of `CollectGenericTypeArgumentAssemblyReferences`. -/
def collectGenericLoop (collectType : Span → Collector) : ℕ → Span → Collector
  | 0, _ => .fail
  | fuel + 1, arguments =>
      if arguments.text = [] then .succeed
      else
        match findTopLevelSeparator comma none 0 arguments.text with
        | none => .fail
        | some separator =>
            let length := separator.getD arguments.text.length
            let argument := (arguments.upTo length).trimmed
            let arguments := arguments.after (length + 1)
            if argument.text = [] then collectGenericLoop collectType fuel arguments
            else
              match unbracketed argument with
              | none => .fail
              | some argument =>
                  (collectType argument).andThen (collectGenericLoop collectType fuel arguments)

def collectGenericTypeArguments (collectType : Span → Collector) (arguments : Span) : Collector :=
  collectGenericLoop collectType (arguments.text.length + 1) arguments

/-- The loop over the type name proper. `nested` collects the generic arguments in a pair
of brackets; there is none at the maximum nesting depth. -/
def collectTypeLoop (nested : Option (Span → Collector)) : ℕ → Span → Collector
  | 0, _ => .fail
  | fuel + 1, rest =>
      match rest.text with
      | [] => .succeed
      | c :: text =>
          if c = backslash then
            if text = [] then .fail else collectTypeLoop nested fuel (rest.after 2)
          else if c = openBracket then
            match findClosingBracket rest.text, nested with
            | some closing, some collectArguments =>
                (collectArguments ⟨rest.start + 1, text.take (closing - 1)⟩).andThen
                  (collectTypeLoop nested fuel (rest.after (closing + 1)))
            | _, _ => .fail
          else collectTypeLoop nested fuel (rest.after 1)

/-- The body of `CollectTypeAssemblyReferences`. -/
def collectTypeBody (nested : Option (Span → Collector)) (type : Span) : Collector :=
  let type := type.trimmed
  if type.text = [] then .succeed
  else
    match findTopLevelSeparator comma none 0 type.text with
    | none => .fail
    | some none => collectTypeLoop nested (type.text.length + 1) type
    | some (some separator) =>
        (collectTypeLoop nested (separator + 1) (type.upTo separator)).andThen
          (parseAssemblyQualification (type.after (separator + 1)))

/-- `CollectTypeAssemblyReferences`, with `levels` more levels of nesting allowed. -/
def collectType : ℕ → Span → Collector
  | 0 => collectTypeBody none
  | levels + 1 => collectTypeBody (some (collectGenericTypeArguments (collectType levels)))

def maxGenericNestingDepth : ℕ := 64

/-- `ParseTypeNameAssemblyReferences`: the result and the references it leaves. -/
def parseTypeNameAssemblyReferences (typeName : List Byte) :
    Bool × List ParsedAssemblyReference :=
  match collectType maxGenericNestingDepth ⟨0, typeName⟩ [] with
  | (true, references) => (true, references)
  | (false, _) => (false, [])

end AutoInstrumentation.ReflectionName
