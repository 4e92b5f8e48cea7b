import Depot.Json.Basic
import Depot.Dependency

/-!
# Dependencies in JSON

A coordinate is its text. A dependency is an object with the four fields by name, or an array
of the four in order; names of scopes and kinds are exact.
-/

namespace Depot.Json

/-- Not a value of the shape; a text that is no coordinate keeps its error. -/
inductive ShapeError where
  | shape
  | coordinate (error : CoordinateError)
  deriving DecidableEq, Repr

def toCoordinate : Json → Except ShapeError Coordinate
  | .string s =>
    match Coordinate.parse s with
    | .ok c => .ok c
    | .error e => .error (.coordinate e)
  | _ => .error .shape

/-- The name of a choice: a text, or an object with that single field and nothing in it. -/
def choice? : Json → Option String
  | .string s => some s
  | .object [(s, .null)] => some s
  | _ => none

def toScope? (v : Json) : Option Scope := do Scope.ofName? (← choice? v)

def plainKinds : List Kind := [.jar, .source, .manifest, .metadata]

def toKind? : Json → Option Kind
  | .object [("other", .string e)] => some (.other e)
  | v => do
    let s ← choice? v
    plainKinds.find? (fun k => k.name = s)

/-- The values of the fields in order, from an object that has them all or from an array of
exactly so many. -/
def record? (names : List String) : Json → Option (List Json)
  | .object fields => names.mapM (field? fields)
  | .array vs => if vs.length = names.length then some vs else none
  | _ => none

def toArtifactKey? (v : Json) : Option ArtifactKey := do
  match ← record? ["group", "artifact"] v with
  | [.string g, .string a] => return ⟨g, a⟩
  | _ => failure

def toExclusions? : Json → Option (OrderedSet ArtifactKey)
  | .array vs => return .ofList (← vs.mapM toArtifactKey?)
  | _ => none

def toDependency? (v : Json) : Option Dependency := do
  match ← record? ["coordinate", "scope", "kind", "exclusions"] v with
  | [c, s, k, es] =>
    match toCoordinate c with
    | .ok c => return ⟨c, ← toScope? s, ← toKind? k, ← toExclusions? es⟩
    | .error _ => failure
  | _ => failure

def ofArtifactKey (k : ArtifactKey) : Json :=
  .object [("group", .string k.group), ("artifact", .string k.artifact)]

def ofKind : Kind → Json
  | .other e => .object [("other", .string e)]
  | k => .string k.name

def ofDependency (d : Dependency) : Json :=
  .object [("coordinate", .string d.coordinate.text), ("scope", .string d.scope.name),
    ("kind", ofKind d.kind), ("exclusions", .array (d.exclusions.toList.map ofArtifactKey))]

end Depot.Json
