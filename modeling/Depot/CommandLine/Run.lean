import Depot.CommandLine.Arguments
import Depot.CommandLine.Failure
import Depot.CommandLine.Help
import Depot.Json.Resolution
import Depot.Store.File

/-!
# Running a command

The whole program as a function of its arguments, the environment and the file tree. The
answer is what is printed, the exit code and the file tree afterwards.
-/

namespace Depot.CommandLine

open Text

def programVersion : String := "0.1.0"

/-- What the program is run in. The time is the one that is written into resolutions. -/
structure Setting where
  files : FileTree
  environment : Environment
  time : String

structure Result where
  exit : Nat
  out : String
  err : String
  files : FileTree

/-- What a command prints, and the files that it leaves. -/
structure Done where
  out : String
  err : String
  success : Bool
  files : FileTree

abbrev Run (α : Type) := Except Failure α

def orFail {ε α : Type} (messages : ε → List String) : Except ε α → Run α
  | .ok a => .ok a
  | .error e => .error (chain (messages e))

def homeVariable : String := "HOME"

/-- The current directory as a path. -/
def currentPath (t : FileTree) : String := "/" ++ join "/" t.current

def source (s : Setting) : ConfigSource :=
  ⟨s.files, s.environment,
    ((s.environment.lookup homeVariable).filter (· ≠ "")).map Config.globalFile⟩

def loadConfig (s : Setting) (i : Invocation) : Run Config :=
  orFail (fun e => "Failed to load configuration" :: configChain e)
    (match i.config with
      | some path => Config.loadPath (source s) path
      | none => Config.loadFrom (source s) (currentPath s.files))

def parseCoordinate (t : String) : Run Coordinate :=
  orFail (fun e => ["Invalid coordinate '" ++ t ++ "'", e.message]) (Coordinate.parse t)

def noRootMessage : String :=
  "No store root configured: pass --root, set STRATA_STORE_ROOT, or add [store] root to strata.toml"

def storeRoot (i : Invocation) (c : Config) : Run String :=
  match i.root <|> c.storeRoot with
  | some root => .ok root
  | none => .error ⟨noRootMessage, []⟩

def settingChain (f : SettingFault) : List String := [f.message]

/-- The repository in the store root. Scopes from the command line replace the configured
ones. -/
def openRepository (s : Setting) (i : Invocation) (c : Config) (scopes : List String) :
    Run (Repository FileStore) := do
  let root ← storeRoot i c
  let options ← orFail settingChain c.resolveOptions
  if scopes.isEmpty then return .new ⟨root, s.files⟩ options
  else
    let chosen ← orFail settingChain (parseScopes scopes)
    return .new ⟨root, s.files⟩ (options.withScopes chosen)

def Setting.done (s : Setting) (out : String) : Done := ⟨out, "", true, s.files⟩

/-- Depth, coordinate and place of each file. The columns are as wide as the coordinate with
the most bytes. -/
def resolutionLines (r : CachedResolution) : String :=
  let width := (r.classpath.map fun e => e.coordinate.text.utf8ByteSize).foldl max 0
  String.join ((r.resolution.entries.zip r.classpath).map fun (e, f) =>
    line (padLeft 3 (ofNat e.depth) ++ "  " ++ padRight width f.coordinate.text ++ "  " ++
      f.locator.text))

def runResolve (s : Setting) (i : Invocation) (c : Config) (coordinates scopes : List String)
    (json : Bool) : Run Done := do
  let roots ← coordinates.mapM parseCoordinate
  let repository ← openRepository s i c scopes
  let r ← orFail (fun e => "Failed to resolve dependencies" :: packageChain e)
    (repository.classpath roots).1
  let reports := String.join (r.resolution.conflicts.map fun c => line c.report)
  let out := if json then line (Json.ofCached s.time r).text else resolutionLines r
  return { s.done out with err := reports }

def dependencyLine (d : Dependency) : String :=
  d.coordinate.text ++ "  " ++ d.scope.name ++ "  " ++ d.kind.name ++
    if d.exclusions.isEmpty then ""
    else "  excludes " ++ join ", " (d.exclusions.toList.map ArtifactKey.text)

def runDeps (s : Setting) (i : Invocation) (c : Config) (coordinate : String) (json : Bool) :
    Run Done := do
  let x ← parseCoordinate coordinate
  let repository ← openRepository s i c []
  let ds ← orFail
    (fun e => ("Failed to read dependencies of " ++ x.text) :: packageChain (.ofFetch e))
    (repository.dependencies x)
  return s.done (
    if json then line (Json.array (ds.map Json.ofDependency)).text
    else if ds.isEmpty then line (x.text ++ " has no dependencies.")
    else String.join (ds.map fun d => line (dependencyLine d)))

def runExists (s : Setting) (i : Invocation) (c : Config) (coordinates : List String) :
    Run Done := do
  let xs ← coordinates.mapM parseCoordinate
  let repository ← openRepository s i c []
  let present ← orFail storeChain (repository.existsAny xs)
  let out := String.join (xs.map fun x =>
    line ((if x ∈ present then "present  " else "missing  ") ++ x.text))
  return { s.done out with success := decide (∀ x ∈ xs, x ∈ present) }

def parseSignature (t : String) : Run Signature :=
  match Signature.parse? t with
  | some g => .ok g
  | none => .error ⟨"Unknown signature kind '" ++ t ++ "', expected md5, sha1 or pgp", []⟩

def runLocate (s : Setting) (i : Invocation) (c : Config) (coordinate : String)
    (kind signature : Option String) : Run Done := do
  let x ← parseCoordinate coordinate
  let g ← signature.mapM parseSignature
  let repository ← openRepository s i c []
  let l ← orFail storeChain (repository.locate x (some (Kind.ofType kind)) g)
  return s.done (line l.text)

/-- The file is read before the store is opened. -/
def readInput (s : Setting) (file : String) : Run Bytes :=
  orFail (fun e => ["Failed to read " ++ file, FileError.message e]) (s.files.read file)

/-- What is to be stored, and where. -/
structure Put where
  coordinate : Coordinate
  kind : Kind
  bytes : Bytes
  repository : Repository FileStore

def preparePut (s : Setting) (i : Invocation) (c : Config) (coordinate file : String)
    (kind : Option String) : Run Put := do
  let x ← parseCoordinate coordinate
  let b ← readInput s file
  return ⟨x, Kind.ofType kind, b, ← openRepository s i c []⟩

/-- A write that fails may leave files too. -/
def Put.run (s : Setting) (p : Put) : Run Done × FileTree :=
  let (l, repository) := p.repository.writeArtifact p.coordinate p.kind p.bytes
  let files := repository.store.tree
  let failed := "Failed to store " ++ p.kind.name ++ " of " ++ p.coordinate.text
  let stored (l : Locator) : Done :=
    { s.done (line ("Stored " ++ ofNat p.bytes.length ++ " bytes at " ++ l.text)) with files }
  ((orFail (fun e => failed :: storeChain e) l).map stored, files)

def unchanged (s : Setting) (r : Run Done) : Run Done × FileTree := (r, s.files)

def runCommand (s : Setting) (i : Invocation) (c : Config) : Run Done × FileTree :=
  match i.command with
  | .resolve cs scopes json => unchanged s (runResolve s i c cs scopes json)
  | .deps x json => unchanged s (runDeps s i c x json)
  | .exists cs => unchanged s (runExists s i c cs)
  | .locate x kind signature => unchanged s (runLocate s i c x kind signature)
  | .put x file kind =>
    match preparePut s i c x file kind with
    | .error f => unchanged s (.error f)
    | .ok p => p.run s

def runInvocation (s : Setting) (i : Invocation) : Result :=
  match loadConfig s i with
  | .error f => ⟨1, "", f.text, s.files⟩
  | .ok c =>
    match runCommand s i c with
    | (.error f, files) => ⟨1, "", f.text, files⟩
    | (.ok d, _) => ⟨if d.success then 0 else 1, d.out, d.err, d.files⟩

def versionText : Option CommandName → String
  | none => programName ++ " " ++ programVersion
  | some c => programName ++ "-" ++ c.text ++ " " ++ programVersion

/-- Run the program. -/
def run (s : Setting) (args : List String) : Result :=
  let json := s.environment.lookup jsonVariable
  match parse json args with
  | .error .usage => ⟨2, "", usageText, s.files⟩
  | .error (.help t full) =>
    ⟨0, (Page.ofTopic json full t).text (showsCodes s.environment) full, "", s.files⟩
  | .error (.version c) => ⟨0, line (versionText c), "", s.files⟩
  | .ok i => runInvocation s i

end Depot.CommandLine
