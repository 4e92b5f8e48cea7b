import Depot.Text
import Depot.OrderedSet

/-!
# Coordinates

A package is named by group, artifact and version, and one file of it by a classifier as
well. A coordinate can only be built from parts that are safe as path segments, and the
proofs of that are fields of the structure, so nothing downstream checks them again.
-/

namespace Depot

open Text

inductive Field where
  | group
  | artifact
  | version
  | classifier
  deriving DecidableEq, Repr

def Field.name : Field → String
  | .group => "group"
  | .artifact => "artifact"
  | .version => "version"
  | .classifier => "classifier"

/-- Why a text cannot be a part of a coordinate. -/
inductive PartFault where
  | separator
  | blank
  | relativeSegment
  | emptySegment
  deriving DecidableEq, Repr

def PartFault.message : PartFault → String
  | .separator => "must not contain ':', '/' or '\\'"
  | .blank => "must not contain whitespace"
  | .relativeSegment => "must not be a relative path segment"
  | .emptySegment => "must not contain empty '.'-separated segments"

inductive CoordinateError where
  | missing (field : Field)
  | invalid (field : Field) (value : String) (fault : PartFault)
  | malformed (text : String)
  deriving DecidableEq, Repr

def CoordinateError.message : CoordinateError → String
  | .missing f => "Missing required identifier: " ++ f.name
  | .invalid f v fault => "Invalid " ++ f.name ++ " '" ++ v ++ "': " ++ fault.message
  | .malformed t =>
    "Malformed coordinate '" ++ t ++ "': expected group:artifact:version[:classifier]"

def isSeparator (c : Char) : Bool := c == ':' || c == '/' || c == '\\'

/-- A text that can stand alone between two slashes, and between two colons. -/
structure IsPart (s : String) : Prop where
  nonempty : s ≠ ""
  no_separator : s.toList.any isSeparator = false
  no_blank : s.toList.any isBlank = false
  not_relative : s ≠ "." ∧ s ≠ ".."

/-- A group becomes one directory for each of its segments. -/
structure IsGroup (s : String) : Prop extends IsPart s where
  segments : "" ∉ split '.' s

instance (s : String) : Decidable (IsPart s) :=
  decidable_of_iff (s ≠ "" ∧ s.toList.any isSeparator = false ∧ s.toList.any isBlank = false ∧
      s ≠ "." ∧ s ≠ "..")
    ⟨fun ⟨a, b, c, d⟩ => ⟨a, b, c, d⟩, fun ⟨a, b, c, d⟩ => ⟨a, b, c, d⟩⟩

instance (s : String) : Decidable (IsGroup s) :=
  decidable_of_iff (IsPart s ∧ "" ∉ split '.' s) ⟨fun ⟨a, b⟩ => ⟨a, b⟩, fun ⟨a, b⟩ => ⟨a, b⟩⟩

/-- Trim a text and check that it can be a part. -/
def part (f : Field) (raw : String) : Except CoordinateError { s : String // IsPart s } :=
  let s := trim raw
  if empty : s = "" then .error (.missing f)
  else if sep : s.toList.any isSeparator then .error (.invalid f s .separator)
  else if blank : s.toList.any isBlank then .error (.invalid f s .blank)
  else if rel : s = "." ∨ s = ".." then .error (.invalid f s .relativeSegment)
  else .ok ⟨s, empty, by simpa using sep, by simpa using blank, by simpa using rel⟩

def groupPart (raw : String) : Except CoordinateError { s : String // IsGroup s } := do
  let s ← part .group raw
  if h : "" ∈ split '.' s.val then .error (.invalid .group s.val .emptySegment)
  else .ok ⟨s.val, s.property, h⟩

structure Coordinate where
  group : String
  artifact : String
  version : String
  classifier : Option String
  group_ok : IsGroup group
  artifact_ok : IsPart artifact
  version_ok : IsPart version
  classifier_ok : ∀ c ∈ classifier, IsPart c
  deriving DecidableEq, Repr

/-- Group and artifact: what an exclusion names. -/
structure ArtifactKey where
  group : String
  artifact : String
  deriving DecidableEq, Repr

/-- What a resolution holds at most once: everything but the version. -/
structure Identity where
  group : String
  artifact : String
  classifier : Option String
  deriving DecidableEq, Repr

def ArtifactKey.text (k : ArtifactKey) : String := k.group ++ ":" ++ k.artifact

def classifierText : Option String → String
  | none => ""
  | some c => ":" ++ c

def Identity.text (i : Identity) : String :=
  i.group ++ ":" ++ i.artifact ++ classifierText i.classifier

namespace Coordinate

def new (group artifact version : String) : Except CoordinateError Coordinate := do
  let g ← groupPart group
  let a ← part .artifact artifact
  let v ← part .version version
  return ⟨g.val, a.val, v.val, none, g.property, a.property, v.property, by simp⟩

def withClassifier (c : Coordinate) (classifier : String) :
    Except CoordinateError Coordinate := do
  let k ← part .classifier classifier
  return { c with
    classifier := some k.val
    classifier_ok := fun x h => by
      have : k.val = x := by simpa using h
      exact this ▸ k.property }

/-- The classifier, where there is one, is checked last. -/
def build (group artifact version : String) (classifier : Option String) :
    Except CoordinateError Coordinate := do
  let c ← new group artifact version
  match classifier with
  | none => return c
  | some k => c.withClassifier k

/-- Read `group:artifact:version` with an optional fourth part. -/
def parse (s : String) : Except CoordinateError Coordinate :=
  match split ':' (trim s) with
  | [g, a, v] => build g a v none
  | [g, a, v, k] => build g a v (some k)
  | _ => .error (.malformed s)

def text (c : Coordinate) : String :=
  c.group ++ ":" ++ c.artifact ++ ":" ++ c.version ++ classifierText c.classifier

def artifactKey (c : Coordinate) : ArtifactKey := ⟨c.group, c.artifact⟩

def identity (c : Coordinate) : Identity := ⟨c.group, c.artifact, c.classifier⟩

/-- The files of one version share a manifest, which is named without a classifier. -/
def manifestOf (c : Coordinate) : Coordinate :=
  { c with classifier := none, classifier_ok := by simp }

@[simp] theorem manifestOf_manifestOf (c : Coordinate) : c.manifestOf.manifestOf = c.manifestOf := rfl

@[ext] theorem ext {c d : Coordinate} (hg : c.group = d.group) (ha : c.artifact = d.artifact)
    (hv : c.version = d.version) (hc : c.classifier = d.classifier) : c = d := by
  cases c; cases d; simp_all

/-- Group, artifact, version, and no classifier before any classifier. -/
def order : Coordinate → Coordinate → Ordering :=
  compareLex (compareOn group) <| compareLex (compareOn artifact) <|
    compareLex (compareOn version) (compareOn classifier)

instance : Ord Coordinate := ⟨order⟩

instance : Std.TransOrd Coordinate := by
  change Std.TransCmp order; unfold order; infer_instance

theorem eq_of_order {c d : Coordinate} (h : order c d = .eq) : c = d := by
  simp only [order, compareLex, compareOn, Ordering.then_eq_eq, Std.compare_eq_iff_eq] at h
  exact ext h.1 h.2.1 h.2.2.1 h.2.2.2

instance : Std.LawfulEqOrd Coordinate := ⟨eq_of_order⟩

end Coordinate

def ArtifactKey.order : ArtifactKey → ArtifactKey → Ordering :=
  compareLex (compareOn group) (compareOn artifact)

instance : Ord ArtifactKey := ⟨ArtifactKey.order⟩

instance : Std.TransOrd ArtifactKey := by
  change Std.TransCmp ArtifactKey.order; unfold ArtifactKey.order; infer_instance

theorem ArtifactKey.eq_of_order {a b : ArtifactKey} (h : order a b = .eq) : a = b := by
  simp only [order, compareLex, compareOn, Ordering.then_eq_eq, Std.compare_eq_iff_eq] at h
  cases a; cases b; simp_all

instance : Std.LawfulEqOrd ArtifactKey := ⟨ArtifactKey.eq_of_order⟩

def Identity.order : Identity → Identity → Ordering :=
  compareLex (compareOn group) (compareLex (compareOn artifact) (compareOn classifier))

instance : Ord Identity := ⟨Identity.order⟩

instance : Std.TransOrd Identity := by
  change Std.TransCmp Identity.order; unfold Identity.order; infer_instance

theorem Identity.eq_of_order {a b : Identity} (h : order a b = .eq) : a = b := by
  simp only [order, compareLex, compareOn, Ordering.then_eq_eq, Std.compare_eq_iff_eq] at h
  cases a; cases b; simp_all

instance : Std.LawfulEqOrd Identity := ⟨Identity.eq_of_order⟩

end Depot
