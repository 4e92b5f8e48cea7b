import Depot.Element
import Depot.Dependency

/-!
# Manifests

What a package says about itself: its own coordinate and what it depends on. A wrong identity
makes the whole manifest useless; a wrong entry is left out and noted.
-/

namespace Depot

open Text

inductive ManifestError where
  | notText (fault : Utf8.Fault)
  | invalidDocument
  | noProject (requested : Coordinate)
  | invalidIdentity (error : CoordinateError)
  | missingIdentity (requested : Coordinate) (field : Field)
  | identityMismatch (requested declared : Coordinate)
  deriving DecidableEq, Repr

/-- The wording of an invalid document is left to the reader of the answer. -/
def ManifestError.message : ManifestError → String
  | .notText fault => "Malformed manifest: manifest is not UTF-8: " ++ fault.message
  | .invalidDocument => "Malformed manifest: <toml>"
  | .noProject c => "Malformed manifest: no project section for " ++ c.text
  | .invalidIdentity e => "Malformed manifest: invalid project identity: " ++ e.message
  | .missingIdentity c f => "Manifest for " ++ c.text ++ " declares no " ++ f.name
  | .identityMismatch c d =>
    "Manifest identity mismatch: requested " ++ c.text ++ ", manifest declares " ++ d.text

/-- Why an entry is no dependency. -/
inductive EntryFault where
  | missing (fields : List Field)
  | coordinate (error : CoordinateError)
  | kind (extension : String)
  deriving DecidableEq, Repr

def EntryFault.message : EntryFault → String
  | .missing fs => "missing " ++ join ", " (fs.map Field.name)
  | .coordinate e => e.message
  | .kind e => "invalid type '" ++ e ++ "'"

/-- What was left out: a whole entry, or one exclusion of an entry. -/
inductive Skipped where
  | dependency (index : Nat) (fault : EntryFault)
  | exclusion (dependency index : Nat)
  deriving DecidableEq, Repr

structure Manifest where
  identity : Coordinate
  dependencies : List Dependency
  skipped : List Skipped
  deriving DecidableEq, Repr

namespace Manifest

def fieldText? (e : Element) (f : Field) : Option String := e.childText? f.name

def identityField (requested : Coordinate) (project : Element) (f : Field) :
    Except ManifestError String :=
  match fieldText? project f with
  | some t => .ok t
  | none => .error (.missingIdentity requested f)

def declaredIdentity (requested : Coordinate) (project : Element) :
    Except ManifestError Coordinate := do
  let g ← identityField requested project .group
  let a ← identityField requested project .artifact
  let v ← identityField requested project .version
  match Coordinate.build g a v (fieldText? project .classifier) with
  | .ok c => .ok c
  | .error e => .error (.invalidIdentity e)

/-- The fields of a coordinate that an entry must have. -/
def required : List Field := [.group, .artifact, .version]

def entryCoordinate (entry : Element) : Except EntryFault Coordinate :=
  match fieldText? entry .group, fieldText? entry .artifact, fieldText? entry .version with
  | some g, some a, some v =>
    match Coordinate.build g a v (fieldText? entry .classifier) with
    | .ok c => .ok c
    | .error e => .error (.coordinate e)
  | _, _, _ => .error (.missing (required.filter fun f => (fieldText? entry f).isNone))

def entryKind (entry : Element) : Except EntryFault Kind :=
  let kind := Kind.ofType (entry.childText? "type")
  if kind.isStorable then .ok kind else .error (.kind kind.extension)

def exclusionKey? (e : Element) : Option ArtifactKey := do
  return ⟨← fieldText? e .group, ← fieldText? e .artifact⟩

/-- The complete exclusions of an entry. -/
def entryExclusions (entry : Element) : OrderedSet ArtifactKey :=
  .ofList ((entry.named "exclusion").filterMap exclusionKey?)

def entryDependency (entry : Element) : Except EntryFault Dependency := do
  let c ← entryCoordinate entry
  let k ← entryKind entry
  return ⟨c, Scope.parseOrDefault (entry.childText? "scope"), k, entryExclusions entry⟩

/-- The incomplete exclusions of an entry, by index. -/
def skippedExclusions (index : Nat) (entry : Element) : List Skipped :=
  (entry.named "exclusion").zipIdx.filterMap fun (e, i) =>
    if (exclusionKey? e).isNone then some (.exclusion index i) else none

/-- What one entry gives: at most one dependency, and what is left out. -/
def contribution (index : Nat) (entry : Element) : List Dependency × List Skipped :=
  match entryDependency entry with
  | .ok d => ([d], skippedExclusions index entry)
  | .error fault => ([], [.dependency index fault])

def contributions (root : Element) : List (List Dependency × List Skipped) :=
  (root.named "dependency").zipIdx.map fun (e, i) => contribution i e

/-- Read the manifest of a coordinate, which must be the one that it declares. -/
def ofElement (requested : Coordinate) (root : Element) : Except ManifestError Manifest :=
  match root.child? "project" with
  | none => .error (.noProject requested)
  | some project =>
    match declaredIdentity requested project with
    | .error e => .error e
    | .ok identity =>
      if identity = requested then
        .ok ⟨identity, (contributions root).flatMap (·.1), (contributions root).flatMap (·.2)⟩
      else .error (.identityMismatch requested identity)

def ofBytes (requested : Coordinate) (bytes : Bytes) : Except ManifestError Manifest :=
  match Toml.decode bytes with
  | .error (.notText fault) => .error (.notText fault)
  | .error .invalid => .error .invalidDocument
  | .ok root => ofElement requested root

end Manifest

end Depot
