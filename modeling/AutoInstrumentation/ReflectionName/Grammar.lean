import AutoInstrumentation.ReflectionName.Parser

/-!
# AutoInstrumentation.ReflectionName.Grammar

Assembly-qualified type names as syntax trees.

`TypeName` is the grammar of reflection type names: identifiers with escaped
delimiters, nested types, generic arguments with or without brackets of their own,
pointers, byrefs and arrays, and an assembly qualification whose simple name may be
quoted or escaped. Whitespace around the parts is part of the tree. `text` is the name
that a tree stands for, and `references` are its assembly references with their places
in that text.
-/

namespace AutoInstrumentation.ReflectionName

open Lib

def plus : Byte := 0x2b
def ampersand : Byte := 0x26
def star : Byte := 0x2a

/-- The characters that are written behind a backslash. -/
def isDelimiter (c : Byte) : Bool :=
  c ∈ [backslash, comma, plus, ampersand, star, openBracket, closeBracket, equals, singleQuote,
    doubleQuote, (0x2e : Byte), (0x2f : Byte)]

/-- Whitespace between parts. -/
def isBlank (text : List Byte) : Bool := text.all isAsciiSpace

/-! ### Items -/

/-- A character of a name: itself, or a delimiter behind a backslash. -/
inductive Item
  | plain (c : Byte)
  | escaped (c : Byte)
  deriving DecidableEq, Repr

namespace Item

def text : Item → List Byte
  | plain c => [c]
  | escaped c => [backslash, c]

def value : Item → Byte
  | plain c | escaped c => c

/-- Plain characters are those that `plainOk` allows; escapes are of delimiters. -/
def wellFormed (plainOk : Byte → Bool) : Item → Bool
  | plain c => plainOk c
  | escaped c => isDelimiter c

/-- An escaped quote. -/
def isEscapedQuote : Item → Bool
  | plain _ => false
  | escaped c => isQuote c

def isSpace : Item → Bool
  | plain c => isAsciiSpace c
  | escaped _ => false

end Item

def itemsText (items : List Item) : List Byte := items.flatMap Item.text

/-- No whitespace at either end: it would be taken for whitespace between parts. -/
def isSolid (items : List Item) : Bool :=
  items.head?.any (!·.isSpace) && items.getLast?.any (!·.isSpace)

/-! ### Assembly qualifications -/

/-- An entry of a display name, bare or in quotes. -/
structure Entry where
  quote : Option Byte
  items : List Item
  deriving DecidableEq, Repr

namespace Entry

def text (e : Entry) : List Byte :=
  match e.quote with
  | none => itemsText e.items
  | some q => q :: (itemsText e.items ++ [q])

def value (e : Entry) : List Byte := e.items.map Item.value

/-- Where the items of the entry begin, if the entry begins at `start`. -/
def innerStart (e : Entry) (start : ℕ) : ℕ := if e.quote = none then start else start + 1

/-- The plain characters of a bare entry. -/
def bareOk (c : Byte) : Bool :=
  !(c == backslash || c == comma || c == openBracket || c == closeBracket || isQuote c)

def wellFormed (e : Entry) : Bool :=
  match e.quote with
  | none => isSolid e.items && e.items.all (Item.wellFormed bareOk)
  | some q => isQuote q && e.items.all (Item.wellFormed fun c => !(c == backslash || c == q))

/-- All items are plain, and none of them is an equals sign or a quote. -/
def isSimple (e : Entry) : Bool :=
  e.items.all fun item => match item with
    | .plain c => !(c == equals || isQuote c)
    | .escaped _ => false

end Entry

/-- `, key = value`, with whitespace wherever it may stand. -/
structure Property where
  beforeComma : List Byte
  beforeKey : List Byte
  key : Entry
  beforeEquals : List Byte
  beforeValue : List Byte
  value : Entry
  deriving DecidableEq, Repr

namespace Property

/-- The text between the comma and the value. -/
def head (p : Property) : List Byte :=
  p.beforeKey ++ p.key.text ++ p.beforeEquals ++ [equals] ++ p.beforeValue

def text (p : Property) : List Byte := p.beforeComma ++ comma :: (p.head ++ p.value.text)

def isVersion (p : Property) : Bool := equalsIgnoreAsciiCase p.key.value versionKey

/-- Keys are simple, and so is a version. -/
def wellFormed (p : Property) : Bool :=
  isBlank p.beforeComma && isBlank p.beforeKey && isBlank p.beforeEquals && isBlank p.beforeValue
    && p.key.wellFormed && p.key.isSimple && p.value.wellFormed
    && (!p.isVersion || p.value.isSimple)

/-- The span of the items of the value, if the property begins at `start`. -/
def valueSpan (p : Property) (start : ℕ) : Span :=
  ⟨p.value.innerStart (start + p.beforeComma.length + 1 + p.head.length), itemsText p.value.items⟩

end Property

def propertiesText (properties : List Property) : List Byte := properties.flatMap Property.text

/-- The value of the version property, if the properties begin at `start`. -/
def versionSpan : ℕ → List Property → Option Span
  | _, [] => none
  | start, p :: properties =>
      if p.isVersion then some (p.valueSpan start)
      else versionSpan (start + p.text.length) properties

/-- `, name` and the properties. -/
structure Qualification where
  beforeComma : List Byte
  beforeName : List Byte
  name : Entry
  properties : List Property
  deriving DecidableEq, Repr

namespace Qualification

def text (q : Qualification) : List Byte :=
  q.beforeComma ++ comma :: (q.beforeName ++ q.name.text ++ propertiesText q.properties)

def wellFormed (q : Qualification) : Bool :=
  isBlank q.beforeComma && isBlank q.beforeName && q.name.wellFormed && q.name.items ≠ []
    && q.properties.all Property.wellFormed

/-- The reference, if the qualification begins at `start`: a version goes behind the name. -/
def reference (q : Qualification) (start : ℕ) : ParsedAssemblyReference :=
  let nameEnd := start + q.beforeComma.length + 1 + q.beforeName.length + q.name.text.length
  { assemblyName := q.name.value
    insertVersionAt := nameEnd
    versionSpan := versionSpan nameEnd q.properties }

/-- An escaped quote stands in the simple name, outside quotes. -/
def hasBareQuote (q : Qualification) : Bool :=
  q.name.quote = none && q.name.items.any Item.isEscapedQuote

end Qualification

/-! ### Type names -/

/-- The plain characters of a type identifier. A period separates namespaces. -/
def identifierOk (c : Byte) : Bool :=
  !(c == backslash || c == comma || c == plus || c == ampersand || c == star
    || c == openBracket || c == closeBracket)

/-- A type and the types nested in it. -/
structure Names where
  outer : List Item
  nested : List (List Item)
  deriving DecidableEq, Repr

namespace Names

def text (n : Names) : List Byte :=
  itemsText n.outer ++ n.nested.flatMap fun items => plus :: itemsText items

def wellFormed (n : Names) : Bool :=
  (n.outer :: n.nested).all fun items => isSolid items && items.all (Item.wellFormed identifierOk)

/-- No identifier contains a quote that is not escaped. -/
def quoteFree (n : Names) : Bool :=
  (n.outer :: n.nested).all fun items => items.all fun item => match item with
    | .plain c => !isQuote c
    | .escaped _ => true

end Names

/-- `*`, `&`, or an array with its dimensions, each of them empty or a star. -/
inductive Suffix
  | pointer
  | byRef
  | array (dimension : Bool) (dimensions : List Bool)
  deriving DecidableEq, Repr

namespace Suffix

def dimensionText (bounded : Bool) : List Byte := if bounded then [star] else []

def dimensionsText (dimension : Bool) (dimensions : List Bool) : List Byte :=
  dimensionText dimension ++ dimensions.flatMap fun d => comma :: dimensionText d

def text : Suffix → List Byte
  | pointer => [star]
  | byRef => [ampersand]
  | array dimension dimensions =>
      openBracket :: (dimensionsText dimension dimensions ++ [closeBracket])

def isArray : Suffix → Bool
  | array _ _ => true
  | _ => false

end Suffix

def suffixesText (suffixes : List Suffix) : List Byte := suffixes.flatMap Suffix.text

mutual

/-- A type name, with the whitespace before and behind it. -/
inductive TypeName
  | mk (before : List Byte) (names : Names) (arguments : List Argument) (suffixes : List Suffix)
      (assembly : Option Qualification) (behind : List Byte)

/-- A generic argument, with or without brackets of its own. -/
inductive Argument
  | bare (type : TypeName)
  | bracketed (before : List Byte) (type : TypeName) (behind : List Byte)

end

def assemblyText : Option Qualification → List Byte
  | none => []
  | some q => q.text

mutual

def TypeName.text : TypeName → List Byte
  | .mk before names arguments suffixes assembly behind =>
      before ++ (names.text ++ listText arguments ++ suffixesText suffixes
        ++ assemblyText assembly) ++ behind

def Argument.text : Argument → List Byte
  | .bare type => type.text
  | .bracketed before type behind =>
      before ++ (openBracket :: (type.text ++ [closeBracket])) ++ behind

/-- The list of generic arguments in its brackets; a type that is not generic has none. -/
def listText : List Argument → List Byte
  | [] => []
  | argument :: arguments =>
      openBracket :: (argument.text ++ moreText arguments ++ [closeBracket])

/-- The arguments behind the first. -/
def moreText : List Argument → List Byte
  | [] => []
  | argument :: arguments => comma :: (argument.text ++ moreText arguments)

end

mutual

/-- The references of a type name that begins at `start`, in order. -/
def TypeName.references (start : ℕ) : TypeName → List ParsedAssemblyReference
  | .mk before names arguments suffixes assembly _ =>
      argumentsReferences (start + before.length + names.text.length + 1) arguments
        ++ (assembly.map fun q => q.reference (start + before.length
          + (names.text ++ listText arguments ++ suffixesText suffixes).length)).toList

def Argument.references (start : ℕ) : Argument → List ParsedAssemblyReference
  | .bare type => type.references start
  | .bracketed before type _ => type.references (start + before.length + 1)

/-- The references of arguments that follow each other with a comma between them. -/
def argumentsReferences (start : ℕ) : List Argument → List ParsedAssemblyReference
  | [] => []
  | argument :: arguments =>
      argument.references start ++ argumentsReferences (start + argument.text.length + 1) arguments

end

mutual

/-- How deep generic arguments are nested. -/
def TypeName.genericDepth : TypeName → ℕ
  | .mk _ _ arguments _ _ _ => if arguments.isEmpty then 0 else argumentsGenericDepth arguments + 1

def Argument.genericDepth : Argument → ℕ
  | .bare type => type.genericDepth
  | .bracketed _ type _ => type.genericDepth

def argumentsGenericDepth : List Argument → ℕ
  | [] => 0
  | argument :: arguments => max argument.genericDepth (argumentsGenericDepth arguments)

end

mutual

/-- How deep brackets are nested, those of arrays included. -/
def TypeName.bracketDepth : TypeName → ℕ
  | .mk _ _ arguments suffixes _ _ =>
      max (if arguments.isEmpty then 0 else argumentsBracketDepth arguments + 1)
        (if suffixes.any Suffix.isArray then 1 else 0)

def Argument.bracketDepth : Argument → ℕ
  | .bare type => type.bracketDepth
  | .bracketed _ type _ => type.bracketDepth

def argumentsBracketDepth : List Argument → ℕ
  | [] => 0
  | argument :: arguments => max argument.bracketDepth (argumentsBracketDepth arguments)

end

mutual

/-- What the productions say in words; an argument without brackets of its own has no
assembly qualification. -/
def TypeName.wellFormed : TypeName → Bool
  | .mk before names arguments _ assembly behind =>
      isBlank before && names.wellFormed && argumentsWellFormed arguments
        && assembly.all Qualification.wellFormed && isBlank behind

def Argument.wellFormed : Argument → Bool
  | .bare (.mk before names arguments suffixes assembly behind) =>
      assembly.isNone && (TypeName.mk before names arguments suffixes assembly behind).wellFormed
  | .bracketed before type behind => isBlank before && type.wellFormed && isBlank behind

def argumentsWellFormed : List Argument → Bool
  | [] => true
  | argument :: arguments => argument.wellFormed && argumentsWellFormed arguments

end

mutual

/-- No type identifier contains a quote that is not escaped. -/
def TypeName.quoteFree : TypeName → Bool
  | .mk _ names arguments _ _ _ => names.quoteFree && argumentsQuoteFree arguments

def Argument.quoteFree : Argument → Bool
  | .bare type => type.quoteFree
  | .bracketed _ type _ => type.quoteFree

def argumentsQuoteFree : List Argument → Bool
  | [] => true
  | argument :: arguments => argument.quoteFree && argumentsQuoteFree arguments

end

mutual

/-- An escaped quote stands in some simple name, outside quotes. -/
def TypeName.hasBareQuote : TypeName → Bool
  | .mk _ _ arguments _ assembly _ =>
      argumentsHaveBareQuote arguments || assembly.any Qualification.hasBareQuote

def Argument.hasBareQuote : Argument → Bool
  | .bare type => type.hasBareQuote
  | .bracketed _ type _ => type.hasBareQuote

def argumentsHaveBareQuote : List Argument → Bool
  | [] => false
  | argument :: arguments => argument.hasBareQuote || argumentsHaveBareQuote arguments

end

end AutoInstrumentation.ReflectionName
