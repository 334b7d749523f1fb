import AutoInstrumentation.Cel.Lexer
import AutoInstrumentation.Lib.Table

/-!
# AutoInstrumentation.NativeWalk.SymbolResolver

The classification of modules by `NativeSymbolResolver` (`native_symbol_resolver.cpp`): a
module is a system module if its path begins with the system directory.

The classification of an image base is cached. `IsSystemModule` reads the path of a module
only if the cache does not know its image base; `IsSystemModuleFromPath` is given a path.
-/

namespace AutoInstrumentation.NativeWalk

open Lib
open AutoInstrumentation.Cel (WString code)

/-- A path that `GetModuleFileNameW` gives: it is not empty. -/
structure ModulePath where
  chars : WString
  chars_ne : chars ≠ []

def maxPath : ℕ := 260

/-- The path in the buffer, cut off for the terminator. -/
def ModulePath.buffer (path : ModulePath) : WString := path.chars.take (maxPath - 1)

theorem ModulePath.buffer_ne (path : ModulePath) : path.buffer ≠ [] := by
  rw [ModulePath.buffer]
  intro h
  rcases List.take_eq_nil_iff.mp h with hlength | hchars
  · cases hlength
  · exact path.chars_ne hchars

/-- What the resolver asks the system for; there is no path where `GetModuleFileNameW`
fails. -/
structure ModuleLoader where
  moduleFileName : BitVec 64 → Option ModulePath
  towlower : WString → WString

structure ModuleInfo where
  baseName : WString
  isSystem : Bool

/-- The members of the resolver. The system directory is in lower case. -/
structure NativeSymbolResolver where
  sysDir : WString
  moduleCache : Table (BitVec 64) ModuleInfo

def kMaxModuleCacheSize : ℕ := 256

namespace NativeSymbolResolver

variable (loader : ModuleLoader)

/-- What `ClassifyAndCache` makes of a path: the name behind the last backslash, and
whether the path begins with the system directory. -/
def classify (resolver : NativeSymbolResolver) (modulePath : WString) : ModuleInfo where
  baseName := (modulePath.reverse.takeWhile (· ≠ code '\\')).reverse
  isSystem := !resolver.sysDir.isEmpty
    && resolver.sysDir.isPrefixOf (loader.towlower modulePath)

/-- `ClassifyAndCache`. -/
def classifyAndCache (resolver : NativeSymbolResolver) (imageBase : BitVec 64)
    (modulePath : WString) : Option ModuleInfo × NativeSymbolResolver :=
  if modulePath = [] then (none, resolver)
  else
    match resolver.moduleCache.find imageBase with
    | some info => (some info, resolver)
    | none =>
        let info := resolver.classify loader modulePath
        let moduleCache :=
          if kMaxModuleCacheSize ≤ resolver.moduleCache.size then .empty else resolver.moduleCache
        (some info, { resolver with moduleCache := moduleCache.tryEmplace imageBase info })

/-- `FetchClassification`. -/
def fetchClassification (resolver : NativeSymbolResolver) (imageBase : BitVec 64) :
    Option ModuleInfo × NativeSymbolResolver :=
  match resolver.moduleCache.find imageBase with
  | some info => (some info, resolver)
  | none =>
      match loader.moduleFileName imageBase with
      | none => (none, resolver)
      | some path => resolver.classifyAndCache loader imageBase path.buffer

/-- `IsSystemModule`. -/
def isSystemModule (resolver : NativeSymbolResolver) (imageBase : BitVec 64) :
    Option Bool × NativeSymbolResolver :=
  let fetched := resolver.fetchClassification loader imageBase
  (fetched.1.map ModuleInfo.isSystem, fetched.2)

/-- `IsSystemModuleFromPath`. -/
def isSystemModuleFromPath (resolver : NativeSymbolResolver) (imageBase : BitVec 64)
    (modulePath : WString) : Option Bool × NativeSymbolResolver :=
  if modulePath = [] then (none, resolver)
  else
    match resolver.moduleCache.find imageBase with
    | some info => (some info.isSystem, resolver)
    | none =>
        let classified := resolver.classifyAndCache loader imageBase modulePath
        (some (classified.1.elim false ModuleInfo.isSystem), classified.2)

variable {loader} {resolver : NativeSymbolResolver} {imageBase : BitVec 64}

/-- Given the path that it would read, the resolver classifies a module as without it. -/
theorem isSystemModuleFromPath_eq {path : ModulePath}
    (h : loader.moduleFileName imageBase = some path) :
    resolver.isSystemModuleFromPath loader imageBase path.buffer
      = resolver.isSystemModule loader imageBase := by
  rw [isSystemModuleFromPath, if_neg path.buffer_ne, isSystemModule, fetchClassification]
  cases hfind : resolver.moduleCache.find imageBase with
  | some info => rfl
  | none =>
      rw [h]
      simp only [classifyAndCache, if_neg path.buffer_ne, hfind]
      rfl

/-- Without a path only the cache tells of a module. -/
theorem isSystemModule_of_no_path (h : loader.moduleFileName imageBase = none) :
    resolver.isSystemModule loader imageBase
      = ((resolver.moduleCache.find imageBase).map ModuleInfo.isSystem, resolver) := by
  rw [isSystemModule, fetchClassification]
  cases resolver.moduleCache.find imageBase with
  | some info => rfl
  | none =>
      rw [h]

end NativeSymbolResolver

end AutoInstrumentation.NativeWalk
