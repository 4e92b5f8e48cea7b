import Depot.Manifest
import Depot.Store.Locator
import Depot.Resolution.Conflict

/-!
# Resolutions

What a resolution is, how it can fail, and the catalog of manifests that it is computed from.
A catalog answers every coordinate, but only finitely many identities are declared in it; this
is why a resolution ends.
-/

namespace Depot

open Text

/-- A package that was selected, its distance from the nearest root, and the entry whose
manifest brought it in. -/
structure Entry where
  coordinate : Coordinate
  depth : Nat
  kind : Kind
  parent : Option Coordinate
  deriving DecidableEq, Repr

def Entry.identity (e : Entry) : Identity := e.coordinate.identity

structure Resolution where
  entries : List Entry
  conflicts : List Conflict
  deriving DecidableEq, Repr

namespace Resolution

def empty : Resolution := ⟨[], []⟩

def coordinates (r : Resolution) : List Coordinate := r.entries.map Entry.coordinate

def contains (r : Resolution) (c : Coordinate) : Bool := r.entries.any (·.coordinate = c)

/-- The entry that was selected for an identity. -/
def get? (r : Resolution) (i : Identity) : Option Entry := r.entries.find? (·.identity = i)

/-- Whether the manifest of a coordinate was read for some entry. -/
def dependsOn (r : Resolution) (c : Coordinate) : Bool :=
  r.entries.any (·.coordinate.manifestOf = c.manifestOf)

end Resolution

/-- Why a manifest could not be had. -/
inductive FetchError where
  | store (error : StoreError)
  | manifest (error : ManifestError)
  deriving DecidableEq, Repr

/-- How a failed fetch is told apart when the branch below an entry is given up. -/
inductive BranchReason where
  | unreachable (error : StoreError)
  | invalidCoordinate (reason : String)
  | identityMismatch (requested declared : Coordinate)
  | malformed (error : ManifestError)
  deriving DecidableEq, Repr

namespace BranchReason

def ofStore : StoreError → BranchReason
  | .invalidCoordinate r => .invalidCoordinate r
  | e => .unreachable e

def ofManifest : ManifestError → BranchReason
  | .identityMismatch c d => .identityMismatch c d
  | e => .malformed e

def message : BranchReason → String
  | .unreachable e => "manifest unreachable: " ++ e.message
  | .invalidCoordinate r => "cannot map to a store location: " ++ r
  | .identityMismatch _ d => "manifest declares " ++ d.text
  | .malformed e => e.message

def outage? : BranchReason → Option String
  | .unreachable (.unavailable r) => some r
  | _ => none

end BranchReason

def FetchError.reason : FetchError → BranchReason
  | .store e => .ofStore e
  | .manifest e => .ofManifest e

/-- The reason, if the store as a whole does not answer. -/
def FetchError.outage? (e : FetchError) : Option String := e.reason.outage?

theorem FetchError.outage?_manifest (e : ManifestError) : (FetchError.manifest e).outage? = none := by
  cases e <;> rfl

theorem FetchError.outage?_eq_some_iff {e : FetchError} {r : String} :
    e.outage? = some r ↔ e = .store (.unavailable r) := by
  cases e with
  | store e => cases e <;> simp [outage?, reason, BranchReason.ofStore, BranchReason.outage?]
  | manifest e => simp [outage?_manifest]

/-- An entry below which nothing is known. -/
structure BranchFailure where
  coordinate : Coordinate
  error : FetchError
  deriving DecidableEq, Repr

def BranchFailure.reason (f : BranchFailure) : BranchReason := f.error.reason

def BranchFailure.message (f : BranchFailure) : String :=
  f.coordinate.text ++ ": " ++ f.reason.message

inductive ResolveError where
  | noRoots
  | storeUnavailable (coordinate : Coordinate) (reason : String)
  | unresolved (failures : List BranchFailure) (reached : Resolution)
  deriving DecidableEq, Repr

def ResolveError.message : ResolveError → String
  | .noRoots => "Invalid argument: at least one root coordinate is required"
  | .storeUnavailable c r =>
    "Store unavailable while resolving " ++ c.text ++ ": " ++ (StoreError.unavailable r).message
  | .unresolved fs _ =>
    "Resolution failed for " ++ ofNat fs.length ++ " coordinate(s): " ++
      join "; " (fs.map BranchFailure.message)

/-- The manifests that describe coordinates. In a store that does not change while it is read,
a classifier makes no difference. -/
structure Catalog where
  fetch : Coordinate → Except FetchError Manifest
  finite : ∃ ids : List Identity, ∀ c m, fetch c = .ok m →
    ∀ d ∈ m.dependencies, d.coordinate.identity ∈ ids

namespace Catalog

def Declares (cat : Catalog) (i : Identity) : Prop :=
  ∃ c m d, cat.fetch c = .ok m ∧ d ∈ m.dependencies ∧ d.coordinate.identity = i

theorem declares_finite (cat : Catalog) : ∃ ids : List Identity, ∀ i, cat.Declares i → i ∈ ids := by
  obtain ⟨ids, h⟩ := cat.finite
  refine ⟨ids, ?_⟩
  rintro i ⟨c, m, d, hm, hd, rfl⟩
  exact h c m hm d hd

/-- A list with every declared identity in it. -/
noncomputable def declared (cat : Catalog) : List Identity := cat.declares_finite.choose

theorem mem_declared {cat : Catalog} {i : Identity} (h : cat.Declares i) : i ∈ cat.declared :=
  cat.declares_finite.choose_spec i h

end Catalog

end Depot
