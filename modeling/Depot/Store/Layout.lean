import Depot.Coordinate
import Depot.Kind

/-!
# Layout

Where the files of a coordinate lie in a store. The segments of the group are directories,
then come the artifact, the version and the file. Metadata lies beside the versions, and
without a kind the place is the directory of the version.
-/

namespace Depot

open Text

structure Place where
  segments : List String
  directory : Bool
  deriving DecidableEq, Repr

/-- A slash before every segment, and one at the end of a directory. -/
def Place.path (p : Place) : String :=
  String.join (p.segments.map ("/" ++ ·)) ++ if p.directory then "/" else ""

/-- A kind that the layout has no file name for. -/
structure LayoutFault where
  coordinate : Coordinate
  extension : String
  deriving DecidableEq, Repr

def LayoutFault.message (f : LayoutFault) : String :=
  "artifact type '" ++ f.extension ++ "' of " ++ f.coordinate.text ++
    " is not a valid file extension"

namespace Layout

def artifactSegments (c : Coordinate) : List String := split '.' c.group ++ [c.artifact]

def versionSegments (c : Coordinate) : List String := artifactSegments c ++ [c.version]

/-- The manifest is one file for all classifiers of a version. -/
def manifestName (c : Coordinate) : String := c.artifact ++ "-" ++ c.version ++ ".toml"

def baseName (c : Coordinate) : String :=
  c.artifact ++ "-" ++ c.version ++
    match c.classifier with
    | none => ""
    | some k => "-" ++ k

def signed (name : String) : Option Signature → String
  | none => name
  | some s => name ++ s.suffix

def place (c : Coordinate) (kind : Option Kind) (signature : Option Signature) :
    Except LayoutFault Place :=
  match kind with
  | none => .ok ⟨versionSegments c, true⟩
  | some .metadata => .ok ⟨artifactSegments c ++ [signed "metadata.toml" signature], false⟩
  | some .manifest => .ok ⟨versionSegments c ++ [signed (manifestName c) signature], false⟩
  | some .source =>
    .ok ⟨versionSegments c ++ [signed (baseName c ++ "-sources.jar") signature], false⟩
  | some .jar => .ok ⟨versionSegments c ++ [signed (baseName c ++ ".jar") signature], false⟩
  | some (.other e) =>
    if Kind.isExtension e then
      .ok ⟨versionSegments c ++ [signed (baseName c ++ "." ++ e) signature], false⟩
    else .error ⟨c, e⟩

def path (c : Coordinate) (kind : Option Kind) (signature : Option Signature) :
    Except LayoutFault String :=
  (place c kind signature).map Place.path

end Layout

end Depot
