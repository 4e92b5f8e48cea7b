import Depot.Cache
import Depot.Resolution.Levels

/-!
# Repositories

A store with a cache of resolutions, and what a program asks of both. Writing a manifest
through the repository takes the resolutions out of the cache that may have read it.
-/

namespace Depot

/-- Which dependencies are followed, and how many manifests are fetched at a time. -/
structure ResolveOptions where
  scopes : ScopeSet
  maxFetches : Nat
  deriving DecidableEq, Repr

namespace ResolveOptions

def default : ResolveOptions := ⟨.runtimeSet, 8⟩

def withScopes (s : ScopeSet) (o : ResolveOptions) : ResolveOptions := { o with scopes := s }

/-- At least one fetch at a time. -/
def withMaxFetches (n : Nat) (o : ResolveOptions) : ResolveOptions :=
  { o with maxFetches := max n 1 }

end ResolveOptions

structure Repository (σ : Type) where
  store : σ
  options : ResolveOptions
  cache : Cache

namespace Repository

variable {σ : Type} [ArtifactStore σ]

def new (store : σ) (options : ResolveOptions) : Repository σ := ⟨store, options, .empty⟩

def «exists» (r : Repository σ) (c : Coordinate) : Except StoreError Bool :=
  ArtifactStore.exists r.store c

/-- Those with content, among coordinates asked in their order. -/
def existing (s : σ) : List Coordinate → Except StoreError (List Coordinate)
  | [] => .ok []
  | c :: cs =>
    match ArtifactStore.exists s c with
    | .error e => .error e
    | .ok found => (existing s cs).map fun rest => if found then c :: rest else rest

/-- The coordinates with content, in order and without repetition. -/
def existsAny (r : Repository σ) (cs : List Coordinate) : Except StoreError (List Coordinate) :=
  existing r.store (OrderedSet.ofList cs).toList

def followed (o : ResolveOptions) (m : Manifest) : List Dependency :=
  m.dependencies.filter fun d => decide (d.scope ∈ o.scopes)

/-- What the manifest of a coordinate declares in the scopes that are followed. -/
def dependencies (r : Repository σ) (c : Coordinate) : Except FetchError (List Dependency) :=
  ((ArtifactStore.catalog r.store).fetch c).map (followed r.options)

/-- The closure of roots, without looking into the cache. -/
def resolve (r : Repository σ) (roots : List Coordinate) : Except ResolveError Resolution :=
  (Depot.resolve (ArtifactStore.catalog r.store) r.options.scopes roots).outcome

/-- The places of the files of a resolution that did not fail. -/
def assembled (s : σ) (o : Except ResolveError Resolution) :
    Except PackageError (Resolution × Classpath) :=
  match o with
  | .error e => .error (.resolve e)
  | .ok x =>
    match Classpath.assemble s x.entries with
    | .error e => .error (.store e)
    | .ok cp => .ok (x, cp)

/-- The resolution and the classpath of roots, from the cache if it has them. -/
def classpath (r : Repository σ) (roots : List Coordinate) : Outcome × Repository σ :=
  if roots.isEmpty then (.error (.resolve .noRoots), r)
  else
    let k := RootKey.ofRoots roots
    match r.cache.start 0 k with
    | (.hit x, cache) => (.ok x, { r with cache })
    | (.joined slot _, cache) =>
      let (o, cache) := cache.complete 0 slot k (assembled r.store (r.resolve k.toList))
      (o, { r with cache })

/-- The manifest of a coordinate changed. The answer is the number of keys taken out. -/
def manifestChanged (r : Repository σ) (c : Coordinate) : Nat × Repository σ :=
  let (n, cache) := r.cache.invalidate c
  (n, { r with cache })

def locate (r : Repository σ) (c : Coordinate) (kind : Option Kind)
    (signature : Option Signature) : Except StoreError Locator :=
  ArtifactStore.locate r.store c kind signature

/-- Locate a place for writing. -/
def prepare (r : Repository σ) (c : Coordinate) (kind : Option Kind)
    (signature : Option Signature) : Except StoreError Locator × Repository σ :=
  let (l, store) := ArtifactStore.prepare r.store c kind signature
  (l, { r with store })

def write (r : Repository σ) (l : Locator) (b : Bytes) : Except StoreError Unit × Repository σ :=
  let (u, store) := ArtifactStore.write r.store l b
  (u, { r with store })

/-- Prepare a place and write to it. -/
def writeAt (r : Repository σ) (c : Coordinate) (kind : Option Kind)
    (signature : Option Signature) (b : Bytes) : Except StoreError Locator × Repository σ :=
  match r.prepare c kind signature with
  | (.error e, r) => (.error e, r)
  | (.ok l, r) =>
    match r.write l b with
    | (.error e, r) => (.error e, r)
    | (.ok (), r) => (.ok l, r)

def readArtifact (r : Repository σ) (c : Coordinate) (kind : Kind) : Except StoreError Bytes := do
  ArtifactStore.read r.store (← r.locate c (some kind) none)

/-- Store a file of a coordinate. -/
def writeArtifact (r : Repository σ) (c : Coordinate) (kind : Kind) (b : Bytes) :
    Except StoreError Locator × Repository σ :=
  match r.writeAt c (some kind) none b with
  | (.error e, r) => (.error e, r)
  | (.ok l, r) => (.ok l, if kind = .manifest then (r.manifestChanged c).2 else r)

/-- Whether there is a signature beside a file. What is in it is not looked at. -/
def hasSignature (r : Repository σ) (c : Coordinate) (kind : Kind) (signature : Signature) :
    Except StoreError Bool := do
  ArtifactStore.hasContent r.store (← r.locate c (some kind) (some signature))

end Repository

end Depot
