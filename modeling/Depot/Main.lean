import Depot.CommandLine.Run
import Std.Time.Format

/-!
# The program

Reads the files that a command can look at into a file tree, runs the command on it, and
writes the files that are new or changed. Nothing is decided here.
-/

namespace Depot.Main

/-- The segments of an absolute path. -/
def segments (path : String) : List String := (Text.split '/' path).filter (· ≠ "")

def addDirectory (path : List String) (t : FileTree) : FileTree :=
  (List.range (path.length + 1)).foldl (fun t n =>
    let above := path.take n
    if (t.find? above).isSome then t else t.set above .directory {}) t

/-- A file with the directories above it. -/
def addFile (path : List String) (b : Bytes) (m : Refusals) (t : FileTree) : FileTree :=
  (addDirectory path.dropLast t).set path (.file b) m

/-- A directory at which something is refused. -/
def addRefusing (path : List String) (m : Refusals) (t : FileTree) : FileTree :=
  (addDirectory path t).set path .directory m

/-- Why a call was refused, if that is why it failed. -/
def refusal? : IO.Error → Option Refusal
  | .permissionDenied .. => some .permission
  | .hardwareFault .. => some .damaged
  | _ => none

/-- Read a file, but no directory. One that cannot be read is put down as such, and one that cannot
even be seen as lying in a closed directory. -/
def gatherFile (path : String) (t : FileTree) : IO FileTree := do
  let place := (← IO.currentDir) / path
  let names := segments place.toString
  try
    let b ← IO.FS.readBinFile place
    return addFile names b.toList {} t
  catch e =>
    match refusal? e with
    | none => return t
    | some why =>
      if ← place.pathExists then return addFile names [] { read := some why } t
      else return addRefusing names.dropLast { search := some why } t

/-- Read a file or a directory with everything in it. -/
partial def gather (path : String) (t : FileTree) : IO FileTree := do
  let place := (← IO.currentDir) / path
  if ← place.isDir then
    let names := segments place.toString
    try
      let entries ← place.readDir
      entries.foldlM (fun t e => gather e.path.toString t) (addDirectory names t)
    catch e => return addRefusing names { read := refusal? e } t
  else gatherFile path t

def variableNames : List String :=
  [CommandLine.homeVariable, CommandLine.jsonVariable, CommandLine.forceVariable,
    CommandLine.noColourVariable, Config.storeRootVariable,
    Config.scopesVariable, Config.maxFetchesVariable, Config.logVariable]

def environment : IO Environment := do
  let values ← variableNames.mapM fun name => do return (name, ← IO.getEnv name)
  return values.filterMap fun (name, value) => value.map (name, ·)

/-- A directory and all above it. -/
def upward : Nat → String → List String
  | 0, _ => []
  | fuel + 1, dir =>
    dir :: match Path.parent? dir with
      | some above => upward fuel above
      | none => []

/-- The configuration files that may be looked at. -/
def configFiles (start : String) (env : Environment) (i : CommandLine.Invocation) : List String :=
  (upward (start.length + 1) start).map (Path.join · Config.projectFile) ++
    ((env.lookup CommandLine.homeVariable).map Config.globalFile).toList ++ i.config.toList

def inputFiles : CommandLine.Command → List String
  | .put _ file _ => [file]
  | _ => []

/-- The files for one command: configuration and input first, then the store. -/
def gatherAll (start : String) (env : Environment) (args : List String) : IO FileTree := do
  let t := addDirectory (segments start) .empty
  let t : FileTree := { t with current := segments start }
  match CommandLine.parse (env.lookup CommandLine.jsonVariable) args with
  | .error _ => return t
  | .ok i =>
    let t ← (configFiles start env i ++ inputFiles i.command).foldlM (fun t p => gatherFile p t) t
    match CommandLine.loadConfig ⟨t, env, ""⟩ i with
    | .error _ => return t
    | .ok c =>
      match CommandLine.storeRoot i c with
      | .error _ => return t
      | .ok root => gather root t

def absolute (path : List String) : String := "/" ++ Text.join "/" path

/-- Write what is new or changed: directories before what lies in them, files under another
name first. -/
def writeBack (before after : FileTree) : IO Unit := do
  let fresh := after.nodes.filter fun n => before.find? n.1 ≠ some n.2
  for (path, node) in fresh.mergeSort (fun a b => a.1.length ≤ b.1.length) do
    match node with
    | .directory => IO.FS.createDirAll (absolute path)
    | .file b =>
      let side := absolute path ++ ".part"
      IO.FS.writeBinFile side ⟨b.toArray⟩
      IO.FS.rename side (absolute path)

/-- The time in universal time, to the nanosecond. -/
def timestamp : IO String := do
  let t ← Std.Time.Timestamp.now
  let utc := Std.Time.DateTime.ofTimestamp t Std.Time.TimeZone.ZoneRules.UTC
  return utc.toPlainDateTime.format "uuuu-MM-dd'T'HH:mm:ss.SSSSSSSSS'Z'"

end Depot.Main

open Depot Depot.Main in
def main (args : List String) : IO UInt32 := do
  let start := (← IO.currentDir).toString
  let env ← environment
  let files ← gatherAll start env args
  let r := CommandLine.run ⟨files, env, ← timestamp⟩ args
  writeBack files r.files
  (← IO.getStdout).putStr r.out
  (← IO.getStderr).putStr r.err
  return r.exit.toUInt32
