import Depot.Proofs.Cache.Locality

/-!
# Writes that the cache is not told of

A file of another kind than a manifest is stored without a word to the cache. That is safe as long
as the file does not lie where a manifest does. One such file does: without a classifier and with
the extension of manifests it lies where the manifest of its version lies. To store it does to the
store what storing the manifest does, and the cache keeps what the old manifest gave.
-/

namespace Depot

theorem Catalog.eq_of_fetch {cat cat' : Catalog} (h : ∀ c, cat.fetch c = cat'.fetch c) :
    cat = cat' := by
  obtain ⟨fetch, finite⟩ := cat
  obtain ⟨fetch', finite'⟩ := cat'
  obtain rfl : fetch = fetch' := funext h
  rfl

theorem Layout.path_of_isManifestFile {c : Coordinate} {kind : Kind} (h : IsManifestFile c kind) :
    path c (some kind) none = path c (some .manifest) none := by
  rcases h with rfl | ⟨rfl, unclassified⟩
  · rfl
  · have name : baseName c ++ "." ++ "toml" = manifestName c := by
      simp [baseName, manifestName, unclassified, String.append_assoc]
    have extension : Kind.isExtension "toml" = true := by decide +kernel
    simp only [path, place, extension, if_true, signed, name]

namespace Repository

variable {r : Repository MemoryStore} {c : Coordinate} {kind kind' : Kind} {b : Bytes} {l : Locator}

/-- Two kinds that have one path are written alike. -/
theorem writeAt_congr (same : Layout.path c (some kind) none = Layout.path c (some kind') none) :
    r.writeAt c (some kind) none b = r.writeAt c (some kind') none b := by
  have located : ArtifactStore.prepare r.store c (some kind) none =
      ArtifactStore.prepare r.store c (some kind') none := by
    change (r.store.locate c (some kind) none true, r.store) =
      (r.store.locate c (some kind') none true, r.store)
    simp only [MemoryStore.locate, MemoryStore.locator, same]
  simp only [writeAt, prepare, located]

/-- What a write makes of the repository, if the file is not stored as a manifest. -/
theorem writeArtifact_of_ne (stored : (r.writeArtifact c kind b).1 = .ok l)
    (other : kind ≠ .manifest) : Layout.path c (some kind) none = .ok l.path ∧
      (r.writeArtifact c kind b).2 =
        { r with store := { r.store with contents := r.store.contents.insert l.path b } } := by
  rcases writeArtifact_eq r c kind b with ⟨e, hr⟩ | ⟨l', hp, hr⟩
  · rw [hr] at stored
    cases stored
  · rw [hr] at stored ⊢
    cases stored
    exact ⟨hp, by simp only [other, if_false]⟩

/-- Written as a manifest, a file that lies where a manifest does differs only in what the cache is
told. -/
theorem writeArtifact_manifest (stored : (r.writeArtifact c kind b).1 = .ok l)
    (other : kind ≠ .manifest) (disguised : Layout.IsManifestFile c kind) :
    r.writeArtifact c .manifest b =
      (.ok l, ((r.writeArtifact c kind b).2.manifestChanged c).2) := by
  unfold writeArtifact at stored ⊢
  rw [← writeAt_congr (Layout.path_of_isManifestFile disguised)]
  split at stored
  · cases stored
  · cases stored
    simp only [other, if_true, if_false]

/-- Stores with the same manifests give the same resolutions. -/
theorem resolve_congr {s : MemoryStore}
    (same : ∀ x, (ArtifactStore.catalog s).fetch x = (ArtifactStore.catalog r.store).fetch x)
    (roots : List Coordinate) :
    ({ r with store := s } : Repository MemoryStore).resolve roots = r.resolve roots := by
  unfold resolve
  rw [Catalog.eq_of_fetch same]

/-- A file that is not stored as a manifest leaves the cache as it is, and all manifests but the one
that lies in the same place. If none lies there, every resolution is what it was, and what was fresh
stays fresh. If one does, the store is the same as if the manifest had been written, and only then
is a cached resolution left that should have been taken out. -/
theorem writeArtifact_unannounced (stored : (r.writeArtifact c kind b).1 = .ok l)
    (other : kind ≠ .manifest) :
    let r' := (r.writeArtifact c kind b).2
    r'.cache = r.cache ∧
    (∀ x, ¬ (Layout.IsManifestFile c kind ∧ c.manifestOf = x.manifestOf) →
      (ArtifactStore.catalog r'.store).fetch x = (ArtifactStore.catalog r.store).fetch x) ∧
    (¬ Layout.IsManifestFile c kind →
      (∀ roots, r'.resolve roots = r.resolve roots) ∧ ∀ x, r'.Fresh x ↔ r.Fresh x) ∧
    (Layout.IsManifestFile c kind →
      r.writeArtifact c .manifest b = (.ok l, (r'.manifestChanged c).2)) := by
  intro r'
  obtain ⟨path, written⟩ := writeArtifact_of_ne stored other
  have elsewhere : ∀ x, ¬ (Layout.IsManifestFile c kind ∧ c.manifestOf = x.manifestOf) →
      (ArtifactStore.catalog r'.store).fetch x = (ArtifactStore.catalog r.store).fetch x := by
    intro x apart
    simp only [r', written]
    exact MemoryStore.fetch_insert path apart b
  refine ⟨by simp only [r', written], elsewhere, ?_, writeArtifact_manifest stored other⟩
  intro unseen
  have resolves : ∀ roots, r'.resolve roots = r.resolve roots := by
    intro roots
    have same := fun x => elsewhere x fun h => unseen h.1
    simp only [r', written] at same ⊢
    exact resolve_congr same roots
  refine ⟨resolves, fun x => ?_⟩
  have assembles : Classpath.assemble r'.store x.resolution.entries =
      Classpath.assemble r.store x.resolution.entries :=
    MemoryStore.assemble_congr (by simp only [r', written]) _
  constructor
  · exact fun h => ⟨(resolves _).symm.trans h.resolution, assembles.symm.trans h.classpath⟩
  · exact fun h => ⟨(resolves _).trans h.resolution, assembles.trans h.classpath⟩

end Repository

namespace Sample

/-- `lib` needs nothing. -/
def plain : Repository MemoryStore :=
  .new (MemoryStore.empty.putManifest lib (document lib none)).2 .default

theorem resolve_plain : plain.resolve (RootKey.ofRoots [lib]).toList = .ok onlyLib := by
  apply Queue.outcome_of_run (n := 2)
  · decide +kernel
  · decide +kernel

theorem assemble_plain : Classpath.assemble plain.store onlyLib.entries =
    .ok [⟨lib, .jar, ⟨"mem", "/org/demo/lib/1/lib-1.jar", false⟩⟩] := by decide +kernel

/-- The classpath of `lib` has been asked for. -/
def informed : Repository MemoryStore := (plain.classpath [lib]).2

theorem exists_informed :
    ∃ x ∈ informed.cache.held, x.key = .ofRoots [lib] ∧ informed.Fresh x := by
  have coherent : plain.Coherent := Repository.coherent_new _ _
  obtain ⟨x, hx⟩ := coherent.exists_classpath (by simp) resolve_plain assemble_plain
  obtain ⟨hk, -⟩ := coherent.fresh_of_classpath hx
  have held := coherent.held_of_classpath hx
  exact ⟨x, held, hk, (coherent.classpath [lib]).fresh x held⟩

/-- The manifest of `lib` is overwritten by an empty file of another kind. -/
def overwritten : Repository MemoryStore := (informed.writeArtifact lib (.other "toml") []).2

theorem write_overwritten : (informed.writeArtifact lib (.other "toml") []).1 =
    .ok ⟨"mem", "/org/demo/lib/1/lib-1.toml", true⟩ := by rfl

theorem resolve_overwritten : overwritten.resolve (RootKey.ofRoots [lib]).toList =
    .error (.unresolved [⟨lib, .manifest (.noProject lib)⟩] onlyLib) := by
  apply Queue.outcome_of_run (n := 2)
  · decide +kernel
  · decide +kernel

theorem write_jar : (informed.writeArtifact lib .jar []).1 =
    .ok ⟨"mem", "/org/demo/lib/1/lib-1.jar", true⟩ := by rfl

end Sample

namespace Repository

open Sample

/-- A jar is stored beside the manifest and a cached resolution stays fresh. A file with the
extension of manifests is stored as the manifest would be. -/
theorem writeArtifact_unannounced_sample :
    (∃ x ∈ informed.cache.held, (informed.writeArtifact lib .jar []).2.Fresh x) ∧
    informed.writeArtifact lib .manifest [] =
      (.ok ⟨"mem", "/org/demo/lib/1/lib-1.toml", true⟩, (overwritten.manifestChanged lib).2) := by
  obtain ⟨x, held, -, fresh⟩ := exists_informed
  obtain ⟨-, -, safe, -⟩ := writeArtifact_unannounced write_jar (by decide)
  obtain ⟨-, -, -, same⟩ := writeArtifact_unannounced write_overwritten (by decide)
  refine ⟨⟨x, held, ?_⟩, same (.inr ⟨rfl, rfl⟩)⟩
  refine ((safe ?_).2 x).mpr fresh
  rintro (h | ⟨h, -⟩) <;> cases h

/-- A write that is not of a manifest has changed one, and the cache holds what a run over its key
does not give any more. -/
theorem stale_after_writeArtifact : ∃ x ∈ overwritten.cache.held,
    (informed.writeArtifact lib (.other "toml") []).1 =
      .ok ⟨"mem", "/org/demo/lib/1/lib-1.toml", true⟩ ∧
    Kind.other "toml" ≠ .manifest ∧ informed.Fresh x ∧ ¬ overwritten.Fresh x ∧
    (ArtifactStore.catalog overwritten.store).fetch lib ≠
      (ArtifactStore.catalog informed.store).fetch lib := by
  obtain ⟨x, held, hk, fresh⟩ := exists_informed
  have kept : overwritten.cache = informed.cache := by
    rw [overwritten, (writeArtifact_of_ne write_overwritten (by decide)).2]
  have stale : ¬ overwritten.Fresh x := by
    intro h
    have resolved := h.resolution
    rw [hk, resolve_overwritten] at resolved
    cases resolved
  refine ⟨x, kept ▸ held, write_overwritten, by decide, fresh, stale, ?_⟩
  decide +kernel

end Repository

end Depot
