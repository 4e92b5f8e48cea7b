import Depot.Text

/-!
# Kinds and signatures

What a stored file is: the jar, its sources, the manifest of a version, the metadata of an
artifact, or a file known by its extension only. A signature is a second file beside it.
-/

namespace Depot

open Text

inductive Kind where
  | jar
  | source
  | manifest
  | metadata
  | other (extension : String)
  deriving DecidableEq, Repr

namespace Kind

/-- The name in manifests and messages. -/
def name : Kind → String
  | jar => "jar"
  | source => "source"
  | manifest => "manifest"
  | metadata => "metadata"
  | other e => e

def extension : Kind → String
  | jar => "jar"
  | source => "jar"
  | manifest => "toml"
  | metadata => "toml"
  | other e => e

/-- Metadata describes all versions of an artifact, everything else belongs to one. -/
def versioned : Kind → Bool
  | metadata => false
  | _ => true

/-- Nothing or blanks mean a jar; a text that names no kind is an extension. -/
def ofType : Option String → Kind
  | none => jar
  | some t =>
    let t := lower (trim t)
    if t = "" ∨ t = "jar" then jar
    else if t = "source" ∨ t = "sources" then source
    else if t = "manifest" ∨ t = "pom" then manifest
    else if t = "metadata" then metadata
    else other t

def rank : Kind → Nat
  | jar => 0
  | source => 1
  | manifest => 2
  | metadata => 3
  | other _ => 4

/-- The named kinds first, then the others by their extension. -/
def order : Kind → Kind → Ordering := compareLex (compareOn rank) (compareOn name)

instance : Ord Kind := ⟨order⟩

instance : Std.TransOrd Kind := by
  change Std.TransCmp order; unfold order; infer_instance

/-- An extension that is safe at the end of a file name. -/
def isExtension (e : String) : Bool :=
  !e.isEmpty && !startsWith e "." &&
    e.toList.all fun c => c.isAlphanum || c == '.' || c == '-' || c == '_'

/-- Whether the layout has a place for the kind. -/
def isStorable : Kind → Bool
  | other e => isExtension e
  | _ => true

end Kind

inductive Signature where
  | md5
  | sha1
  | pgp
  deriving DecidableEq, Repr

namespace Signature

def name : Signature → String
  | md5 => "md5"
  | sha1 => "sha1"
  | pgp => "pgp"

def suffix : Signature → String
  | md5 => ".md5"
  | sha1 => ".sha1"
  | pgp => ".asc"

def parse? (s : String) : Option Signature :=
  match lower (trim s) with
  | "md5" => some md5
  | "sha1" => some sha1
  | "pgp" | "asc" => some pgp
  | _ => none

end Signature

end Depot
