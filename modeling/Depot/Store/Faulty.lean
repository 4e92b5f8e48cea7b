import Depot.Store.Basic

/-!
# Faulty stores

A store around another one in which chosen calls on chosen paths fail.
-/

namespace Depot

inductive StoreCall where
  | locate
  | hasContent
  | read
  | write
  deriving DecidableEq, Repr

/-- How a call fails. Some failures tell the locator of the call. -/
inductive Fault where
  | unavailable (reason : String)
  | invalidCoordinate (reason : String)
  | io (text : String)
  | notFound
  | readOnly
  | foreign
  deriving DecidableEq, Repr

def Fault.error (l : Locator) : Fault → StoreError
  | .unavailable r => .unavailable r
  | .invalidCoordinate r => .invalidCoordinate r
  | .io t => .io (.other t)
  | .notFound => .notFound l
  | .readOnly => .readOnlyLocator l
  | .foreign => .foreignLocator l

structure FaultyStore (σ : Type) where
  inner : σ
  faults : List ((StoreCall × String) × Fault)

namespace FaultyStore

variable {σ : Type} [ArtifactStore σ]

/-- Let a call on a path fail from now on, or answer again. -/
def setFault (s : FaultyStore σ) (call : StoreCall) (path : String) (fault : Option Fault) :
    FaultyStore σ :=
  let others := s.faults.filter (·.1 ≠ (call, path))
  { s with faults := match fault with
      | none => others
      | some f => ((call, path), f) :: others }

def check (s : FaultyStore σ) (call : StoreCall) (l : Locator) : Except StoreError Unit :=
  match s.faults.lookup (call, l.path) with
  | some f => .error (f.error l)
  | none => .ok ()

/-- A place is looked for before the call fails. -/
def checkLocated (s : FaultyStore σ) (l : Except StoreError Locator) :
    Except StoreError Locator := do
  let l ← l
  s.check .locate l
  return l

def read (s : FaultyStore σ) (l : Locator) : Except StoreError Bytes :=
  match s.check .read l with
  | .error e => .error e
  | .ok () => ArtifactStore.read s.inner l

def write (s : FaultyStore σ) (l : Locator) (b : Bytes) : Except StoreError Unit × FaultyStore σ :=
  match s.check .write l with
  | .error e => (.error e, s)
  | .ok () =>
    let (r, inner) := ArtifactStore.write s.inner l b
    (r, { s with inner })

theorem contents_finite (s : FaultyStore σ) :
    ∃ bs : List Bytes, ∀ l b, s.read l = .ok b → b ∈ bs := by
  obtain ⟨bs, h⟩ := ArtifactStore.contents_finite s.inner
  refine ⟨bs, fun l b hr => ?_⟩
  unfold read at hr
  split at hr
  · simp at hr
  · exact h l b hr

instance : ArtifactStore (FaultyStore σ) where
  locate s c k g := s.checkLocated (ArtifactStore.locate s.inner c k g)
  prepare s c k g :=
    let (l, inner) := ArtifactStore.prepare s.inner c k g
    (s.checkLocated l, { s with inner })
  hasContent s l := do
    s.check .hasContent l
    ArtifactStore.hasContent s.inner l
  read := read
  write := write
  contents_finite := contents_finite

end FaultyStore

end Depot
