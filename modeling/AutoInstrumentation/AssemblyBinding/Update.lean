import AutoInstrumentation.AssemblyBinding.ProbeDirectories
import AutoInstrumentation.AssemblyBinding.Versions
import Mathlib.Data.List.MinMax

/-!
# AutoInstrumentation.AssemblyBinding.Update

`AssemblyBindingUpdater.ModifyAssemblyBinding`: the binding policy of a configuration,
brought in line with the assemblies of the profiler.

A configuration is a tree of elements. What throws has no result: then the update is given
up, and the configuration stays as it was.
-/

namespace AutoInstrumentation.AssemblyBinding

open AutoInstrumentation.Lib
open AutoInstrumentation.Cel (WChar WString code Unicode isAsciiDigit)

/-! ### Elements -/

/-- The names that are read or written, and all others. -/
inductive XName
  | configuration | runtime | assemblyBinding | dependentAssembly | assemblyIdentity
  | bindingRedirect | codeBase | probing
  | name | publicKeyToken | culture | newVersion | oldVersion | version | href | privatePath
  | other (text : WString)
  deriving DecidableEq

/-- Elements, and the nodes that are none: texts, comments. -/
inductive XNode
  | element (elementName : XName) (attributes : List (XName × WString)) (nodes : List XNode)
  | other (text : WString)

namespace XNode

def isElement (n : XName) : XNode → Bool
  | element m _ _ => m == n
  | other _ => false

/-- `Attribute(..)?.Value`. -/
def attributeValue (n : XName) : XNode → Option WString
  | element _ attributes _ => attributes.lookup n
  | other _ => none

def nodes : XNode → List XNode
  | element _ _ nodes => nodes
  | other _ => []

def withNodes (nodes : List XNode) : XNode → XNode
  | element n attributes _ => element n attributes nodes
  | other text => other text

/-- `Add`. -/
def add (added : List XNode) (x : XNode) : XNode := x.withNodes (x.nodes ++ added)

/-- `Elements`, by their name. -/
def elements (n : XName) (x : XNode) : List XNode := x.nodes.filter (isElement n)

end XNode

/-- `Elements(name)` of several elements. -/
def elementsOf (n : XName) (xs : List XNode) : List XNode := xs.flatMap (·.elements n)

/-! ### Assemblies -/

/-- `AssemblyCatalog.AssemblyInfo`. -/
structure AssemblyInfo where
  token : WString
  version : Version
  fileVersion : Option Version
  name : WString
  path : WString

/-- What `AssemblyName.GetAssemblyName` reads of a file. -/
structure AssemblyName where
  name : Option WString
  /-- `ToPublicKeyTokenString` -/
  token : WString
  version : Option Version

/-- The runtime and the file system. -/
structure Host where
  paths : Paths
  unicode : Unicode
  creatorApplicationBase : Option WString
  fileExists : WString → Bool
  getAssemblyName : WString → Option AssemblyName
  readFileVersion : WString → Option Version
  /-- `new Uri(path).AbsoluteUri` -/
  absoluteUri : WString → Option WString
  /-- A URI begins with its scheme. -/
  absoluteUri_nonblank : ∀ {path uri},
    absoluteUri path = some uri → isNullOrWhiteSpace unicode (some uri) = false
  /-- Only a digit is the upper case of a digit, and only the point that of the point. -/
  upper_eq_iff : ∀ {c d}, isAsciiDigit d = true ∨ d = code '.' → (paths.upper c = d ↔ c = d)

/-- `AssemblyCatalog`: a dictionary by the name, with `StringComparer.OrdinalIgnoreCase`. -/
structure AssemblyCatalog (paths : Paths) where
  assemblies : List AssemblyInfo
  distinct : (assemblies.map fun a => paths.fold a.name).Nodup

inductive CandidateSource
  | profiler | codeBase | probe | existingRedirect
  deriving DecidableEq

structure AssemblyCandidate where
  source : CandidateSource
  assemblyVersion : Version
  fileVersion : Option Version
  codeBaseUri : Option WString
  deriving DecidableEq

/-- `HasCodeBase`. -/
def AssemblyCandidate.hasCodeBase (unicode : Unicode) (c : AssemblyCandidate) : Bool :=
  !isNullOrWhiteSpace unicode c.codeBaseUri

/-! ### Candidates -/

section candidates

variable (host : Host)

/-- `string.Equals` with `StringComparison.OrdinalIgnoreCase`. -/
def Host.equals (s : Option WString) (t : WString) : Bool := s.any fun s => host.paths.equals s t

/-- `MatchesAssembly`, of a `dependentAssembly` element. -/
def matchesAssembly (assemblyInfo : AssemblyInfo) (x : XNode) : Bool :=
  x.isElement .dependentAssembly &&
    match (x.elements .assemblyIdentity).head? with
    | none => false
    | some identity =>
        host.equals (identity.attributeValue .name) assemblyInfo.name
          && host.equals (identity.attributeValue .publicKeyToken) assemblyInfo.token

def dllExtension : WString := [code '.', code 'd', code 'l', code 'l']

/-- `EnumerateProbeCandidatePaths`. -/
def enumerateProbeCandidatePaths (assemblyName probeDirectory : WString) :
    List (Option WString) :=
  [host.paths.combine probeDirectory (assemblyName ++ dllExtension),
    (host.paths.combine probeDirectory assemblyName).bind fun directory =>
      host.paths.combine directory (assemblyName ++ dllExtension)]

/-- The candidate in a file that has been found. -/
def inspectProbingCandidate (assemblyInfo : AssemblyInfo) (candidatePath : WString) :
    Option AssemblyCandidate :=
  match host.getAssemblyName candidatePath with
  | none => none
  | some assemblyName =>
      if ¬host.equals assemblyName.name assemblyInfo.name
          ∨ ¬host.equals (some assemblyName.token) assemblyInfo.token then none
      else
        match assemblyName.version, host.absoluteUri candidatePath with
        | some version, some uri =>
            some ⟨.probe, version, host.readFileVersion candidatePath, some uri⟩
        | _, _ => none

/-- The loop of `TryResolveProbingCandidate`: the first file that exists decides. -/
def firstProbingHit (assemblyInfo : AssemblyInfo) :
    List (Option WString) → Option (Option AssemblyCandidate)
  | [] => some none
  | none :: _ => none
  | some candidatePath :: candidatePaths =>
      if host.fileExists candidatePath then
        some (inspectProbingCandidate host assemblyInfo candidatePath)
      else firstProbingHit assemblyInfo candidatePaths

/-- `TryResolveProbingCandidate`. -/
def tryResolveProbingCandidate (probeDirectories : List WString) (assemblyInfo : AssemblyInfo) :
    Option (Option AssemblyCandidate) :=
  firstProbingHit host assemblyInfo
    (probeDirectories.flatMap (enumerateProbeCandidatePaths host assemblyInfo.name))

/-- The target of a `bindingRedirect` element. -/
def newVersion (redirect : XNode) : Option Version :=
  tryParseVersion host.unicode (redirect.attributeValue .newVersion)

/-- `TryResolveEffectiveRedirectVersion`. -/
def tryResolveEffectiveRedirectVersion (existingRedirects : List XNode) : Option Version :=
  match existingRedirects with
  | [] => none
  | [redirect] => newVersion host redirect
  | _ =>
      match existingRedirects.mapM (newVersion host) with
      | none => none
      | some parsedVersions =>
          match distinct id parsedVersions with
          | [version] => some version
          | _ => none

/-- The candidate of a `codeBase` element. -/
def codeBaseCandidate (codeBase : XNode) : Option AssemblyCandidate :=
  match tryParseVersion host.unicode (codeBase.attributeValue .version),
      codeBase.attributeValue .href with
  | some version, some href =>
      if isNullOrWhiteSpace host.unicode (some href) then none
      else some ⟨.codeBase, version, none, some href⟩
  | _, _ => none

/-- `CollectCandidates`. -/
def collectCandidates (assemblyInfo : AssemblyInfo) (matchingAssemblies : List XNode)
    (effectiveRedirectVersion : Option Version) (probeDirectories : List WString) :
    Option (List AssemblyCandidate) := do
  let uri ← host.absoluteUri assemblyInfo.path
  let probingCandidate ← tryResolveProbingCandidate host probeDirectories assemblyInfo
  return ⟨.profiler, assemblyInfo.version, assemblyInfo.fileVersion, some uri⟩
    :: (elementsOf .codeBase matchingAssemblies).filterMap (codeBaseCandidate host)
    ++ probingCandidate.toList
    ++ effectiveRedirectVersion.toList.map fun version => ⟨.existingRedirect, version, none, none⟩

end candidates

/-! ### The selected candidate -/

/-- `new Version(0, 0, 0, 0)`. -/
def Version.zero : Version := ⟨[0, 0, 0, 0], by decide⟩

/-- The profiler's candidate or the one that is probed, which have the same version. -/
def compareFileVersions (profilerCandidate : AssemblyCandidate)
    (probingCandidate : Option AssemblyCandidate) : AssemblyCandidate :=
  match probingCandidate with
  | none => profilerCandidate
  | some probingCandidate =>
      match profilerCandidate.fileVersion, probingCandidate.fileVersion with
      | some profilerVersion, some probingVersion =>
          if profilerVersion < probingVersion then probingCandidate else profilerCandidate
      | _, _ => profilerCandidate

/-- `SelectCandidate`. -/
def selectCandidate (candidates : List AssemblyCandidate) : Option AssemblyCandidate :=
  let existingRedirect := (candidates.filter (·.source = .existingRedirect)).argmax
    (·.assemblyVersion)
  let highestNonRedirectVersion := ((candidates.filter (·.source ≠ .existingRedirect)).map
    (·.assemblyVersion)).max?.getD .zero
  match existingRedirect.filter (highestNonRedirectVersion < ·.assemblyVersion) with
  | some existingRedirect => some existingRedirect
  | none =>
      let topCandidates := candidates.filter (·.assemblyVersion = highestNonRedirectVersion)
      let first (source : CandidateSource) := topCandidates.find? (·.source = source)
      match first .codeBase, first .profiler, first .probe with
      | some codeBaseCandidate, _, _ => some codeBaseCandidate
      | none, some profilerCandidate, probingCandidate =>
          some (compareFileVersions profilerCandidate probingCandidate)
      | none, none, probingCandidate => probingCandidate

/-! ### Writing -/

def neutralCulture : WString :=
  [code 'n', code 'e', code 'u', code 't', code 'r', code 'a', code 'l']

/-- `CreateDependentAssembly`. -/
def createDependentAssembly (assemblyInfo : AssemblyInfo) : XNode :=
  .element .dependentAssembly [] [.element .assemblyIdentity
    [(.name, assemblyInfo.name), (.publicKeyToken, assemblyInfo.token),
      (.culture, neutralCulture)] []]

def codeBaseElement (c : AssemblyCandidate) : XNode :=
  .element .codeBase [(.version, c.assemblyVersion.toText), (.href, c.codeBaseUri.getD [])] []

/-- All versions up to one are redirected to it. -/
def redirectElement (version : Version) : XNode :=
  .element .bindingRedirect
    [(.oldVersion, Version.zero.toText ++ code '-' :: version.toText),
      (.newVersion, version.toText)] []

section writing

variable (host : Host)

/-- The entry that `RewriteDependentAssembly` adds. -/
def rewrittenDependentAssembly (assemblyInfo : AssemblyInfo)
    (selectedCandidate : AssemblyCandidate) : XNode :=
  (createDependentAssembly assemblyInfo).add
    (redirectElement selectedCandidate.assemblyVersion
      :: if selectedCandidate.hasCodeBase host.unicode then [codeBaseElement selectedCandidate]
        else [])

/-- `RewriteDependentAssembly`. -/
def rewriteDependentAssembly (assemblyBinding : List XNode) (assemblyInfo : AssemblyInfo)
    (selectedCandidate : AssemblyCandidate) : List XNode :=
  assemblyBinding.filter (!matchesAssembly host assemblyInfo ·)
    ++ [rewrittenDependentAssembly host assemblyInfo selectedCandidate]

/-- The versions of the `codeBase` elements, as they are written. -/
def existingVersions (matchingAssemblies : List XNode) : List WString :=
  ((elementsOf .codeBase matchingAssemblies).filterMap (·.attributeValue .version)).filter
    fun version => !isNullOrWhiteSpace host.unicode (some version)

/-- The loop of `EnsureCandidateCodeBases`: the elements that are added. -/
def missingCodeBases : List AssemblyCandidate → List WString → List XNode
  | [], _ => []
  | candidate :: candidates, existing =>
      let versionString := candidate.assemblyVersion.toText
      if !candidate.hasCodeBase host.unicode
          || existing.any (host.paths.equals · versionString) then
        missingCodeBases candidates existing
      else codeBaseElement candidate :: missingCodeBases candidates (versionString :: existing)

/-- The nodes with something added to the first one with `p`. -/
def addToFirst (p : XNode → Bool) (added : List XNode) : List XNode → List XNode
  | [] => []
  | x :: xs => if p x then x.add added :: xs else x :: addToFirst p added xs

/-- `EnsureCandidateCodeBases`. -/
def ensureCandidateCodeBases (assemblyBinding : List XNode) (assemblyInfo : AssemblyInfo)
    (candidates : List AssemblyCandidate) : List XNode :=
  let matchingAssemblies := assemblyBinding.filter (matchesAssembly host assemblyInfo)
  let added := missingCodeBases host candidates (existingVersions host matchingAssemblies)
  if matchingAssemblies = [] then
    assemblyBinding ++ [(createDependentAssembly assemblyInfo).add added]
  else addToFirst (matchesAssembly host assemblyInfo) added assemblyBinding

end writing

/-! ### The update -/

section update

variable (host : Host) (disallowBindingRedirects : Bool)

/-- Only `codeBase` elements are added, because redirects must not be changed, or because the
existing ones contradict each other. -/
def keepsPolicy (existingRedirects : List XNode) : Prop :=
  disallowBindingRedirects = true ∨
    1 < existingRedirects.length
      ∧ tryResolveEffectiveRedirectVersion host existingRedirects = none

instance (existingRedirects : List XNode) :
    Decidable (keepsPolicy host disallowBindingRedirects existingRedirects) :=
  inferInstanceAs (Decidable (_ ∨ _))

/-- A turn of the loop of `ModifyAssemblyBinding`. -/
def modifyAssembly (probeDirectories : List WString) (assemblyBinding : List XNode)
    (assemblyInfo : AssemblyInfo) : Option (List XNode) := do
  let matchingAssemblies := assemblyBinding.filter (matchesAssembly host assemblyInfo)
  let existingRedirects := elementsOf .bindingRedirect matchingAssemblies
  let candidates ← collectCandidates host assemblyInfo matchingAssemblies
    (tryResolveEffectiveRedirectVersion host existingRedirects) probeDirectories
  if keepsPolicy host disallowBindingRedirects existingRedirects then
    return ensureCandidateCodeBases host assemblyBinding assemblyInfo candidates
  else
    return rewriteDependentAssembly host assemblyBinding assemblyInfo
      (← selectCandidate candidates)

/-- The private paths of the `probing` elements. -/
def probingPaths (assemblyBinding : List XNode) : List (Option WString) :=
  (assemblyBinding.filter (·.isElement .probing)).map (·.attributeValue .privatePath)

/-- `ModifyAssemblyBinding`. -/
def modifyAssemblyBinding (catalog : AssemblyCatalog host.paths)
    (appDomainSetup : AppDomainSetup) (assemblyBinding : List XNode) :
    Option (List XNode × AppDomainSetup) := do
  let (probeDirectories, appDomainSetup) ← getProbeDirectories host.paths host.unicode
    host.creatorApplicationBase (probingPaths assemblyBinding) appDomainSetup
  let assemblyBinding ← catalog.assemblies.foldlM
    (modifyAssembly host disallowBindingRedirects probeDirectories) assemblyBinding
  return (assemblyBinding, appDomainSetup)

/-- An update of the first element with a name, which has to be there. -/
def modifyFirst {σ : Type} (n : XName) (f : List XNode → Option (List XNode × σ)) :
    List XNode → Option (List XNode × σ)
  | [] => none
  | x :: xs =>
      if x.isElement n then do
        let (nodes, s) ← f x.nodes
        return (x.withNodes nodes :: xs, s)
      else do
        let (xs, s) ← modifyFirst n f xs
        return (x :: xs, s)

/-- An update of the first element with a name, which is added where there is none. -/
def modifyFirstOrAdd {σ : Type} (n : XName) (f : List XNode → Option (List XNode × σ))
    (xs : List XNode) : Option (List XNode × σ) :=
  if xs.any (·.isElement n) then modifyFirst n f xs
  else modifyFirst n f (xs ++ [.element n [] []])

/-- `ModifyAssemblyRedirectConfig`, of a document that has been loaded.
`ResolveOrAddAssemblyBinding` finds the section that is updated. -/
def modifyAssemblyRedirectConfig (catalog : AssemblyCatalog host.paths)
    (appDomainSetup : AppDomainSetup) (config : List XNode) :
    Option (List XNode × AppDomainSetup) :=
  modifyFirst .configuration (modifyFirstOrAdd .runtime (modifyFirstOrAdd .assemblyBinding
    (modifyAssemblyBinding host disallowBindingRedirects catalog appDomainSetup))) config

end update

end AutoInstrumentation.AssemblyBinding
