import AutoInstrumentation.Cel.Lexer
import AutoInstrumentation.Lib.Table

/-!
# AutoInstrumentation.NamingHelper

The caches of the names and identifiers of functions (`NameCache` and `NamingHelper` in
`continuous_profiler.cpp`).

A cache is a list of entries, the most recently used one first, and a map from keys to the
nodes of the list. A node of the list is told from others by a number, as an iterator is.
-/

namespace AutoInstrumentation.Naming

open Lib
open AutoInstrumentation.Cel (WString code)

/-- A node of `list_`. -/
structure Node (κ ν : Type) where
  id : ℕ
  key : κ
  value : ν
  deriving DecidableEq

/-- The members of `NameCache`. `nextId` numbers the next node: the code has no such
counter. -/
structure NameCache (κ ν : Type) where
  maxSize : ℕ
  defaultValue : ν
  list : List (Node κ ν)
  map : Table κ ℕ
  nextId : ℕ

namespace NameCache

variable {κ ν : Type}

/-- The constructor. -/
def empty (maxSize : ℕ) (defaultValue : ν) : NameCache κ ν where
  maxSize := maxSize
  defaultValue := defaultValue
  list := []
  map := .empty
  nextId := 0

def clear (c : NameCache κ ν) : NameCache κ ν := { c with list := [], map := .empty }

variable [DecidableEq κ] [DecidableEq ν]

/-- `Get`: the node that is found is moved to the front. -/
def get (c : NameCache κ ν) (key : κ) : ν × NameCache κ ν :=
  match c.map.find key with
  | none => (c.defaultValue, c)
  | some it =>
      match c.list.find? (·.id = it) with
      -- an iterator to no node, which is never in the map
      | none => (c.defaultValue, c)
      | some node => (node.value, { c with list := node :: c.list.erase node })

/-- A node in front, with the map at it. -/
def pushFront (c : NameCache κ ν) (key : κ) (value : ν) : NameCache κ ν where
  maxSize := c.maxSize
  defaultValue := c.defaultValue
  list := ⟨c.nextId, key, value⟩ :: c.list
  map := c.map.set key c.nextId
  nextId := c.nextId + 1

/-- `Put`: the value of the entry that is evicted, or the default. -/
def put (c : NameCache κ ν) (key : κ) (value : ν) : ν × NameCache κ ν :=
  let c := c.pushFront key value
  if c.maxSize < c.map.size then
    match c.list.getLast? with
    | none => (c.defaultValue, c)
    | some lru =>
        (lru.value, { c with map := c.map.erase lru.key, list := c.list.dropLast })
  else (c.defaultValue, c)

end NameCache

/-! ### NamingHelper -/

structure FunctionIdentifier where
  functionToken : BitVec 32
  moduleId : BitVec 64
  isValid : Bool
  nativeIp : BitVec 64
  deriving DecidableEq

namespace FunctionIdentifier

def managed (token : BitVec 32) (mod : BitVec 64) (valid : Bool) : FunctionIdentifier :=
  ⟨token, mod, valid, 0⟩

def managedInvalid : FunctionIdentifier := ⟨0, 0, false, 0⟩

def isNative (id : FunctionIdentifier) : Bool :=
  id.isValid && id.functionToken = 0 && id.nativeIp ≠ 0

end FunctionIdentifier

def kMaxFunctionNameCacheSize : ℕ := 5000

def kVolatileFunctionIdentifierCacheSize : ℕ := 2000

def defaultFunctionIdentifier : FunctionIdentifier := ⟨0, 0, false, 0⟩

def unknownNativeFunction : WString :=
  "Unknown_Native_Function(unknown)".toList.map code

/-- The caches of `NamingHelper`; a name is a pointer, which may be null. The misses are
counted in the statistics of the capture. -/
structure NamingHelper where
  stackWalker : Bool
  functionNameCache : NameCache FunctionIdentifier (Option WString)
  functionIdentifierCache : NameCache (BitVec 64) FunctionIdentifier
  nameCacheMisses : ℕ

namespace NamingHelper

def initial (stackWalker : Bool) : NamingHelper where
  stackWalker := stackWalker
  functionNameCache := .empty kMaxFunctionNameCacheSize none
  functionIdentifierCache := .empty kVolatileFunctionIdentifierCacheSize defaultFunctionIdentifier
  nameCacheMisses := 0

/-- `Lookup`, with the name that the stack walker resolves, if it does, and the name that
`GetFunctionName` makes. -/
def lookup (helper : NamingHelper) (id : FunctionIdentifier) (symbol : Option WString)
    (functionName : WString) : Option WString × NamingHelper :=
  let (answer, cache) := helper.functionNameCache.get id
  let helper := { helper with functionNameCache := cache }
  match answer with
  | some name => (some name, helper)
  | none =>
      let owned :=
        if helper.stackWalker && id.isNative then symbol.getD unknownNativeFunction
        else functionName
      (some owned, { helper with
        functionNameCache := (helper.functionNameCache.put id (some owned)).2
        nameCacheMisses := helper.nameCacheMisses + 1 })

/-- `ResolveManagedFunctionIdentifier`, with the token and the module that `GetFunctionInfo2`
finds, if it does. -/
def resolveManagedFunctionIdentifier (functionId : BitVec 64)
    (info : Option (BitVec 32 × BitVec 64)) : FunctionIdentifier :=
  if functionId = 0 then .managed 0 0 true
  else
    match info with
    | none => .managedInvalid
    | some (token, mod) => .managed token mod true

/-- `LookupManagedFunction`. -/
def lookupManagedFunction (helper : NamingHelper) (functionId : BitVec 64)
    (info : Option (BitVec 32 × BitVec 64)) : FunctionIdentifier × NamingHelper :=
  let (cachedIdentifier, cache) := helper.functionIdentifierCache.get functionId
  let helper := { helper with functionIdentifierCache := cache }
  if cachedIdentifier.isValid then (cachedIdentifier, helper)
  else
    let resolvedIdentifier := resolveManagedFunctionIdentifier functionId info
    (resolvedIdentifier, { helper with
      functionIdentifierCache :=
        (helper.functionIdentifierCache.put functionId resolvedIdentifier).2 })

def clearFunctionIdentifierCache (helper : NamingHelper) : NamingHelper :=
  { helper with functionIdentifierCache := helper.functionIdentifierCache.clear }

end NamingHelper

/-- What is asked of the helper, with what it finds out then. -/
inductive Act
  | lookup (id : FunctionIdentifier) (symbol : Option WString) (functionName : WString)
  | lookupManagedFunction (functionId : BitVec 64) (info : Option (BitVec 32 × BitVec 64))
  | clearFunctionIdentifierCache

def step (helper : NamingHelper) : Act → NamingHelper
  | .lookup id symbol functionName => (helper.lookup id symbol functionName).2
  | .lookupManagedFunction functionId info => (helper.lookupManagedFunction functionId info).2
  | .clearFunctionIdentifierCache => helper.clearFunctionIdentifierCache

/-- The helper behind a sequence of requests. -/
def after (stackWalker : Bool) (acts : List Act) : NamingHelper :=
  acts.foldl step (.initial stackWalker)

end AutoInstrumentation.Naming
