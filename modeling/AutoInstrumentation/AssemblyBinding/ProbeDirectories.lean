import AutoInstrumentation.Lib.Distinct
import AutoInstrumentation.Strings

/-!
# AutoInstrumentation.AssemblyBinding.ProbeDirectories

`AssemblyBindingUpdater.GetProbeDirectories`: the directories in which an application domain
looks for its assemblies.

What `System.IO.Path` computes is a parameter; a call that throws has no result.
-/

namespace AutoInstrumentation.AssemblyBinding

open AutoInstrumentation.Lib
open AutoInstrumentation.Cel (WChar WString code Unicode)

/-! ### Paths -/

/-- A directory separator, the alternate one included. -/
def isSeparator (c : WChar) : Bool := c == code '\\' || c == code '/'

/-- `TrimEnd(Path.DirectorySeparatorChar, Path.AltDirectorySeparatorChar)`. -/
def trimSeparators (path : WString) : WString := path.rdropWhile isSeparator

def bin : WString := [code 'b', code 'i', code 'n']

def webConfig : WString :=
  [code 'w', code 'e', code 'b', code '.', code 'c', code 'o', code 'n', code 'f', code 'i',
    code 'g']

/-- `System.IO.Path`, and `StringComparison.OrdinalIgnoreCase` by the upper case of
characters. -/
structure Paths where
  upper : WChar → WChar
  getFullPath : WString → Option WString
  combine : WString → WString → Option WString
  isPathRooted : WString → Option Bool
  getFileName : WString → Option WString
  isSeparator_upper : ∀ c, isSeparator (upper c) = isSeparator c
  /-- A full path is its own full path. -/
  getFullPath_getFullPath : ∀ {path fullPath},
    getFullPath path = some fullPath → getFullPath fullPath = some fullPath
  /-- The child of a directory is not the directory. -/
  combine_bin : ∀ {path fullPath child fullChild},
    getFullPath path = some fullPath → combine path bin = some child →
      getFullPath child = some fullChild →
        (trimSeparators fullChild).map upper ≠ (trimSeparators fullPath).map upper

namespace Paths

variable (paths : Paths)

/-- What is compared of a path. -/
def fold (path : WString) : WString := path.map paths.upper

/-- `Equals` with `StringComparison.OrdinalIgnoreCase`. -/
def equals (s t : WString) : Bool := paths.fold s == paths.fold t

/-- `StartsWith` with `StringComparison.OrdinalIgnoreCase`. -/
def startsWith (s start : WString) : Bool := (paths.fold start).isPrefixOf (paths.fold s)

end Paths

/-! ### Directories -/

/-- The fields of `AppDomainSetup` that decide where assemblies are probed. -/
structure AppDomainSetup where
  applicationBase : Option WString
  configurationFile : Option WString
  privateBinPath : Option WString
  privateBinPathProbe : Option WString
  disallowApplicationBaseProbing : Bool

/-- `ResolveApplicationBase`. A fallback is stored in the setup. -/
def resolveApplicationBase (unicode : Unicode) (creatorApplicationBase : Option WString)
    (appDomainSetup : AppDomainSetup) : AppDomainSetup × Option WString :=
  if isNullOrWhiteSpace unicode appDomainSetup.applicationBase then
    if isNullOrWhiteSpace unicode creatorApplicationBase then
      (appDomainSetup, creatorApplicationBase)
    else ({ appDomainSetup with applicationBase := creatorApplicationBase }, creatorApplicationBase)
  else (appDomainSetup, appDomainSetup.applicationBase)

section Directories

variable (paths : Paths)

/-- `IsWebApplication`. -/
def isWebApplication (appDomainSetup : AppDomainSetup) : Option Bool :=
  match appDomainSetup.configurationFile with
  | none => some false
  | some configurationFile => do
      let fileName ← paths.getFileName configurationFile
      return paths.equals fileName webConfig

/-- `IsPathUnderApplicationBase`. -/
def isPathUnderApplicationBase (applicationBase path : WString) : Option Bool := do
  let normalizedApplicationBase := trimSeparators (← paths.getFullPath applicationBase)
  let normalizedPath := trimSeparators (← paths.getFullPath path)
  return paths.equals normalizedPath normalizedApplicationBase
    || paths.startsWith normalizedPath (normalizedApplicationBase ++ [code '\\'])

/-- A turn of the loop of `ResolveProbeDirectories`: the directories that are added. -/
def resolveProbeDirectory (applicationBase trimmedPath : WString) : Option (List WString) := do
  if ← paths.isPathRooted trimmedPath then
    let fullPath ← paths.getFullPath trimmedPath
    if ← isPathUnderApplicationBase paths applicationBase fullPath then return [fullPath]
    else return []
  else return [← paths.combine applicationBase trimmedPath]

/-- The loop of `ResolveProbeDirectories`. -/
def resolveProbeDirectories (unicode : Unicode) (applicationBase : WString) :
    List WString → Option (List WString)
  | [] => some []
  | privatePath :: privatePaths =>
      let trimmedPath := trim unicode privatePath
      if trimmedPath = [] then resolveProbeDirectories unicode applicationBase privatePaths
      else do
        let added ← resolveProbeDirectory paths applicationBase trimmedPath
        return added ++ (← resolveProbeDirectories unicode applicationBase privatePaths)

/-- The directories of a list of private paths, if there is one. -/
def resolvePrivatePaths (unicode : Unicode) (applicationBase : WString)
    (privatePaths : Option WString) : Option (List WString) :=
  if isNullOrWhiteSpace unicode privatePaths then some []
  else
    resolveProbeDirectories paths unicode applicationBase
      (((privatePaths.getD []).splitOn (code ';')).filter (· ≠ []))

/-- The loop over the `probing` elements. -/
def resolveProbingElements (unicode : Unicode) (applicationBase : WString) :
    List (Option WString) → Option (List WString)
  | [] => some []
  | privatePath :: probing => do
      let added ← resolvePrivatePaths paths unicode applicationBase privatePath
      return added ++ (← resolveProbingElements unicode applicationBase probing)

/-- The directory `bin` of a web application. -/
def resolveWebDirectory (applicationBase : WString) (appDomainSetup : AppDomainSetup) :
    Option (List WString) := do
  if ← isWebApplication paths appDomainSetup then return [← paths.combine applicationBase bin]
  else return []

/-- `DistinctDirectories`. -/
def distinctDirectories (directories : List WString) : Option (List WString) := do
  return distinct paths.fold (← directories.mapM paths.getFullPath)

/-- `GetProbeDirectories`, with the private path of each `probing` element. -/
def getProbeDirectories (unicode : Unicode) (creatorApplicationBase : Option WString)
    (probing : List (Option WString)) (appDomainSetup : AppDomainSetup) :
    Option (List WString × AppDomainSetup) :=
  if appDomainSetup.disallowApplicationBaseProbing then some ([], appDomainSetup)
  else
    let (appDomainSetup, resolved) :=
      resolveApplicationBase unicode creatorApplicationBase appDomainSetup
    let applicationBase := resolved.getD []
    if applicationBase = [] then some ([], appDomainSetup)
    else do
      let base := if appDomainSetup.privateBinPathProbe = none then [applicationBase] else []
      let web ← resolveWebDirectory paths applicationBase appDomainSetup
      let privateBin ←
        resolvePrivatePaths paths unicode applicationBase appDomainSetup.privateBinPath
      let probed ← resolveProbingElements paths unicode applicationBase probing
      let directories ← distinctDirectories paths (base ++ web ++ privateBin ++ probed)
      return (directories, appDomainSetup)

end Directories

end AutoInstrumentation.AssemblyBinding
