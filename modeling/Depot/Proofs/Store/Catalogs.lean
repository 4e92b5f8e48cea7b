import Depot.Proofs.Resolution.Trace
import Depot.Proofs.Store.Manifests

/-!
# Catalogs of stores

What the catalog of a store can be relied on for: the files of one version share their manifest,
a memory store that is online reports no outage, and putting or removing the manifest of one
coordinate changes what is fetched for that coordinate and for no other.
-/

namespace Depot

namespace Catalog

/-- A classifier makes no difference. -/
def Steady (cat : Catalog) : Prop := ∀ c, cat.fetch c = cat.fetch c.manifestOf

/-- The second catalog may differ from the first in the manifest of a coordinate: it may have one
where the other has none, have another one, or have none. -/
def SameBut (c : Coordinate) (cat cat' : Catalog) : Prop :=
  ∀ d : Coordinate, c.manifestOf ≠ d.manifestOf → cat'.fetch d = cat.fetch d

end Catalog

theorem ArtifactStore.steady_catalog {σ : Type} [ArtifactStore σ] (s : σ) : (catalog s).Steady :=
  fun _ => rfl

namespace MemoryStore

variable {s : MemoryStore}

/-- An online store has a content or has none. -/
theorem read_of_available (online : s.available = true) (l : Locator) {e : StoreError}
    (h : ArtifactStore.read s l = .error e) : e = .foreignLocator l ∨ e = .notFound l := by
  change s.read l = .error e at h
  unfold read owned at h
  simp only [MemoryStore.online, online, if_true, bind, Except.bind] at h
  split at h
  · rename_i heq
    split at heq
    · simp at heq
    · cases heq
      cases h
      exact .inl rfl
  · split at h
    · simp at h
    · cases h
      exact .inr rfl

theorem manifestLocator_of_available (online : s.available = true) (c : Coordinate) :
    ArtifactStore.manifestLocator s c = .ok ⟨scheme, Layout.manifestPath c.manifestOf, false⟩ := by
  change s.locate c.manifestOf (some .manifest) none false = _
  simp only [locate, MemoryStore.online, online, if_true, locator, Layout.path_manifest]
  rfl

/-- All that can go wrong with a manifest in an online store: there is none, or it is not one. -/
theorem fetch_error_of_available (online : s.available = true) {c : Coordinate} {e : FetchError}
    (h : (ArtifactStore.catalog s).fetch c = .error e) :
    (∃ l, e = .store (.foreignLocator l) ∨ e = .store (.notFound l)) ∨ ∃ m, e = .manifest m := by
  change ArtifactStore.fetchVia (ArtifactStore.manifestLocator s) s c = .error e at h
  simp only [ArtifactStore.fetchVia, manifestLocator_of_available online, ArtifactStore.fetchAt] at h
  split at h
  · rename_i hr
    cases h
    have failed := read_of_available online _ hr
    exact .inl ⟨_, failed.imp (congrArg FetchError.store) (congrArg FetchError.store)⟩
  · split at h
    · cases h
      exact .inr ⟨_, rfl⟩
    · simp at h

theorem answers_of_available (online : s.available = true) (c : Coordinate) :
    (ArtifactStore.catalog s).Answers c := by
  intro e h
  obtain ⟨l, rfl | rfl⟩ | ⟨m, rfl⟩ := fetch_error_of_available online h
  · rfl
  · rfl
  · exact FetchError.outage?_manifest m

theorem sameBut_putManifest (s : MemoryStore) (c : Coordinate) (b : Bytes) :
    Catalog.SameBut c (ArtifactStore.catalog s) (ArtifactStore.catalog (s.putManifest c b).2) :=
  fun _ hd => fetch_insert (Layout.path_manifest c) (fun ha => hd ha.2) b

theorem sameBut_erase (s : MemoryStore) (c : Coordinate) :
    Catalog.SameBut c (ArtifactStore.catalog s)
      (ArtifactStore.catalog
        { s with contents := s.contents.erase (Layout.manifestPath c) }) :=
  fun _ hd => fetch_erase hd

end MemoryStore

namespace Sample

/-- The manifest of a package that needs another one or none. -/
def document (c : Coordinate) (needed : Option Coordinate) : Bytes :=
  let fields (c : Coordinate) : String :=
    "group = '" ++ c.group ++ "'\nartifact = '" ++ c.artifact ++ "'\nversion = '" ++ c.version ++
      "'\n"
  Utf8.encode ("[project]\n" ++ fields c ++
    match needed with
    | none => ""
    | some d => "[[dependency]]\n" ++ fields d)

end Sample

end Depot
