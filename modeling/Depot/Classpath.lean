import Depot.Store.Basic

/-!
# Classpaths

The places of the files of a resolution, in its order. Nothing is read to find them.
-/

namespace Depot

structure ClasspathEntry where
  coordinate : Coordinate
  kind : Kind
  locator : Locator
  deriving DecidableEq, Repr

abbrev Classpath := List ClasspathEntry

namespace Classpath

variable {σ : Type} [ArtifactStore σ]

/-- The place of the file of one entry. -/
def locateEntry (s : σ) (e : Entry) : Except StoreError ClasspathEntry :=
  match ArtifactStore.locate s e.coordinate (some e.kind) none with
  | .ok l => .ok ⟨e.coordinate, e.kind, l⟩
  | .error err => .error err

/-- The places of all files, or the first error. -/
def assemble (s : σ) : List Entry → Except StoreError Classpath
  | [] => .ok []
  | e :: es =>
    match locateEntry s e with
    | .error err => .error err
    | .ok x => (assemble s es).map (x :: ·)

end Classpath

/-- Why the files of a classpath could not be loaded. -/
inductive LoadError where
  | artifact (entry : ClasspathEntry)
  | store (error : StoreError)
  deriving DecidableEq, Repr

def LoadError.message : LoadError → String
  | .artifact e =>
    "Failed to load " ++ e.coordinate.text ++ ": no " ++ e.kind.name ++ " artifact at " ++
      e.locator.text
  | .store e => e.message

/-- The bytes of the files of a classpath, in its order. -/
structure Bundle where
  artifacts : List (ClasspathEntry × Bytes)
  deriving DecidableEq, Repr

def Bundle.size (b : Bundle) : Nat := b.artifacts.foldl (fun n a => n + a.2.length) 0

namespace Bundle

variable {σ : Type} [ArtifactStore σ]

def readEntry (s : σ) (e : ClasspathEntry) : Except LoadError (ClasspathEntry × Bytes) :=
  match ArtifactStore.read s e.locator with
  | .ok b => .ok (e, b)
  | .error (.notFound _) => .error (.artifact e)
  | .error err => .error (.store err)

def readAll (s : σ) : Classpath → Except LoadError (List (ClasspathEntry × Bytes))
  | [] => .ok []
  | e :: es =>
    match readEntry s e with
    | .error err => .error err
    | .ok x => (readAll s es).map (x :: ·)

/-- Read all files, or tell the first that cannot be read. -/
def load (s : σ) (cp : Classpath) : Except LoadError Bundle := (readAll s cp).map Bundle.mk

/-- The places that loading reads: up to the first that cannot be read. -/
def reads (s : σ) : Classpath → List Locator
  | [] => []
  | e :: es =>
    match readEntry s e with
    | .error _ => [e.locator]
    | .ok _ => e.locator :: reads s es

end Bundle

end Depot
