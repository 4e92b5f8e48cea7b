import Depot.Config.Document
import Depot.FileTree
import Depot.Repository

/-!
# Loading a configuration

The global file lies under the home directory, the project file in the nearest directory above
the current one that has it. The project goes over the global settings, and four variables of
the environment go over both. A variable that is blank is not set. A file that cannot be looked at
counts for none, but one that can be looked at and not be read is an error.
-/

namespace Depot

open Text

inductive ConfigError where
  | notFound (path : String)
  | io (error : FileError)
  | invalidDocument (path : String)
  | setting (fault : SettingFault)
  deriving DecidableEq, Repr

/-- The wording of an invalid document is left to the reader of the answer. -/
def ConfigError.message : ConfigError → String
  | .notFound p => "Configuration file not found: " ++ p
  | .io e => "Failed to read configuration file: " ++ e.message
  | .invalidDocument p => "Invalid TOML syntax in " ++ p ++ ": <toml>"
  | .setting f => f.message

/-- Variables by name. -/
abbrev Environment := List (String × String)

/-- Where a configuration is loaded from. Without a home directory there is no global file. -/
structure ConfigSource where
  files : FileTree
  environment : Environment
  globalPath : Option String

structure Config where
  settings : Settings
  projectRoot : Option String
  deriving DecidableEq, Repr

namespace Config

def projectFile : String := "strata.toml"

def globalFile (home : String) : String := Path.join (Path.join home ".strata") "config.toml"

/-- A relative root is taken from the directory of the file that sets it. -/
def rebase (path : String) (s : Settings) : Settings :=
  match s.store, Path.parent? path with
  | some ⟨some root⟩, some base => { s with store := some ⟨some (Path.join base root)⟩ }
  | _, _ => s

def readText (files : FileTree) (path : String) : Except ConfigError String :=
  match files.read path with
  | .error .noEntry => .error (.notFound path)
  | .error e => .error (.io e)
  | .ok b =>
    match Utf8.decode b with
    | .ok s => .ok s
    | .error _ => .error (.io .notText)

def validated (s : Settings) : Except ConfigError Settings :=
  match s.validate with
  | .ok () => .ok s
  | .error f => .error (.setting f)

/-- The settings of one file, valid on their own. -/
def loadFile (files : FileTree) (path : String) : Except ConfigError Settings := do
  let text ← readText files path
  match Settings.ofText? text with
  | none => .error (.invalidDocument path)
  | some s => validated (rebase path s)

/-- The nearest directory from the start upward in which a project file can be seen. The fuel is at
least the number of directories. -/
def findProjectWith (files : FileTree) : Nat → String → Option String
  | 0, _ => none
  | fuel + 1, dir =>
    if files.isFile (Path.join dir projectFile) then some dir
    else (Path.parent? dir).bind (findProjectWith files fuel)

def findProject (files : FileTree) (start : String) : Option String :=
  findProjectWith files (start.length + 1) start

/-- Without a global file there are no global settings. -/
def loadGlobal (files : FileTree) : Option String → Except ConfigError Settings
  | none => .ok .empty
  | some path => if files.isThere path then loadFile files path else .ok .empty

/-- The value of a variable that is not blank. -/
def value? (env : Environment) (name : String) : Option String :=
  (env.lookup name).filter fun v => trim v ≠ ""

def storeRootVariable : String := "STRATA_STORE_ROOT"
def scopesVariable : String := "STRATA_SCOPES"
def maxFetchesVariable : String := "STRATA_MAX_FETCHES"
def logVariable : String := "STRATA_LOG"

/-- Names between commas; empty ones are dropped. -/
def scopeNames (s : String) : List String :=
  ((split ',' s).map trim).filter (· ≠ "")

/-- A natural number of 64 bits, with an optional plus sign. -/
def count? (s : String) : Option Nat := do
  let ds := match (trim s).toList with
    | '+' :: rest => rest
    | cs => cs
  let n ← digits? ds
  guard (n < Nat.pow 2 64)
  return n

def overlay (value : Option Settings) (s : Settings) : Settings :=
  match value with
  | none => s
  | some upper => s.merge upper

/-- Lay the variables over settings. -/
def withEnvironment (env : Environment) (s : Settings) : Except ConfigError Settings := do
  let s := overlay ((value? env storeRootVariable).map .ofRoot) s
  let s := overlay ((value? env scopesVariable).map fun v => .ofScopes (scopeNames v)) s
  let s ← match value? env maxFetchesVariable with
    | none => .ok s
    | some v =>
      match count? v with
      | some n => .ok (s.merge (.ofMaxFetches n))
      | none => .error (.setting (.badCount maxFetchesVariable v))
  return overlay ((value? env logVariable).map .ofFilter) s

/-- Put the layers together. -/
def finish (source : ConfigSource) (projectRoot : Option String) (project : Settings) :
    Except ConfigError Config := do
  let globals ← loadGlobal source.files source.globalPath
  let s ← withEnvironment source.environment (globals.merge project)
  return ⟨← validated s, projectRoot⟩

/-- Load the configuration for a directory. -/
def loadFrom (source : ConfigSource) (start : String) : Except ConfigError Config := do
  match findProject source.files start with
  | none => finish source none .empty
  | some dir => finish source (some dir) (← loadFile source.files (Path.join dir projectFile))

/-- Load the configuration with a given project file. -/
def loadPath (source : ConfigSource) (path : String) : Except ConfigError Config := do
  let project ← loadFile source.files path
  finish source (Path.parent? path) project

def storeRoot (c : Config) : Option String := c.settings.root

def scopes (c : Config) : Except SettingFault ScopeSet :=
  match c.settings.scopes with
  | some names => parseScopes names
  | none => .ok .runtimeSet

def maxFetches (c : Config) : Nat := c.settings.maxFetches.getD ResolveOptions.default.maxFetches

def logFilter (c : Config) : String := c.settings.filter.getD "warn"

def resolveOptions (c : Config) : Except SettingFault ResolveOptions :=
  c.scopes.map fun s => (ResolveOptions.default.withScopes s).withMaxFetches c.maxFetches

end Config

end Depot
