import Depot.Resolution.Basic
import Depot.Store.Layout

/-!
# Stores

What a resolver and a repository ask of a store. A store holds finitely many contents, so the
manifests in it form a catalog.
-/

namespace Depot

/-- Looking something up leaves the store as it is; `prepare` locates a place for writing and
may make directories for it. -/
class ArtifactStore (σ : Type) where
  locate : σ → Coordinate → Option Kind → Option Signature → Except StoreError Locator
  prepare : σ → Coordinate → Option Kind → Option Signature → Except StoreError Locator × σ
  hasContent : σ → Locator → Except StoreError Bool
  read : σ → Locator → Except StoreError Bytes
  write : σ → Locator → Bytes → Except StoreError Unit × σ
  contents_finite : ∀ s, ∃ bs : List Bytes, ∀ l b, read s l = .ok b → b ∈ bs

namespace Manifest

/-- What a document declares does not depend on the coordinate that was asked for. -/
def declaredIn (bytes : Bytes) : List Identity :=
  match Toml.decode bytes with
  | .error _ => []
  | .ok root => ((contributions root).flatMap (·.1)).map fun d => d.coordinate.identity

theorem dependencies_ofElement {c : Coordinate} {root : Element} {m : Manifest}
    (h : ofElement c root = .ok m) : m.dependencies = (contributions root).flatMap (·.1) := by
  unfold ofElement at h
  split at h
  · simp at h
  · split at h
    · simp at h
    · split at h
      · simp only [Except.ok.injEq] at h
        subst h; rfl
      · simp at h

theorem mem_declaredIn {c : Coordinate} {bytes : Bytes} {m : Manifest}
    (h : ofBytes c bytes = .ok m) :
    ∀ d ∈ m.dependencies, d.coordinate.identity ∈ declaredIn bytes := by
  unfold ofBytes at h
  unfold declaredIn
  split at h
  · simp at h
  · simp at h
  · rename_i root hr
    intro d hd
    rw [dependencies_ofElement h] at hd
    simp only [hr]
    exact List.mem_map_of_mem hd

end Manifest

namespace ArtifactStore

variable {σ : Type} [ArtifactStore σ]

/-- Where the manifest of a coordinate lies, whatever its classifier. -/
def manifestLocator (s : σ) (c : Coordinate) : Except StoreError Locator :=
  locate s c.manifestOf (some .manifest) none

/-- Read and parse the manifest of a coordinate at a place. -/
def fetchAt (s : σ) (c : Coordinate) (l : Locator) : Except FetchError Manifest :=
  match read s l with
  | .error e => .error (.store e)
  | .ok bytes =>
    match Manifest.ofBytes c.manifestOf bytes with
    | .error e => .error (.manifest e)
    | .ok m => .ok m

/-- Locate, read and parse the manifest of a coordinate. -/
def fetchVia (place : Coordinate → Except StoreError Locator) (s : σ) (c : Coordinate) :
    Except FetchError Manifest :=
  match place c with
  | .error e => .error (.store e)
  | .ok l => fetchAt s c l

theorem fetchVia_finite (place : Coordinate → Except StoreError Locator) (s : σ) :
    ∃ ids : List Identity, ∀ c m, fetchVia place s c = .ok m →
      ∀ d ∈ m.dependencies, d.coordinate.identity ∈ ids := by
  obtain ⟨bs, hbs⟩ := contents_finite s
  refine ⟨bs.flatMap Manifest.declaredIn, fun c m h d hd => ?_⟩
  unfold fetchVia at h
  split at h
  · simp at h
  · unfold fetchAt at h
    split at h
    · simp at h
    · rename_i bytes hb
      split at h
      · simp at h
      · rename_i hm
        simp only [Except.ok.injEq] at h
        subst h
        exact List.mem_flatMap.mpr ⟨bytes, hbs _ _ hb, Manifest.mem_declaredIn hm d hd⟩

/-- The manifests of a store when their places are given. -/
def catalogVia (place : Coordinate → Except StoreError Locator) (s : σ) : Catalog :=
  ⟨fetchVia place s, fetchVia_finite place s⟩

/-- The manifests that the store answers now. -/
def catalog (s : σ) : Catalog := catalogVia (manifestLocator s) s

/-- A version exists if there is anything in its directory. -/
def «exists» (s : σ) (c : Coordinate) : Except StoreError Bool := do
  hasContent s (← locate s c none none)

end ArtifactStore

end Depot
