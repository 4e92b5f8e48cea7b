import Depot.Proofs.Cache.Coherence

/-!
# What a resolution depends on

A run passes by many coordinates: versions that lose against an earlier one, packages that their
path excludes, dependencies in other scopes, files with a classifier. Their manifests make no
difference to its outcome. Only the manifests of the entries do, and so a resolution stays what it
is when the manifest of some other coordinate is added, replaced or removed.
-/

namespace Depot

section Catalogs

variable {cat cat' : Catalog} {scopes : ScopeSet}

/-- Two catalogs that agree on the manifests of the entries give the same outcome. -/
theorem outcome_eq_of_manifests (steady : cat.Steady) (steady' : cat'.Steady)
    {roots : List Coordinate} {r : Resolution} (h : (resolve cat scopes roots).Reached r)
    (same : ∀ e ∈ r.entries,
      cat'.fetch e.coordinate.manifestOf = cat.fetch e.coordinate.manifestOf) :
    (resolve cat' scopes roots).outcome = (resolve cat scopes roots).outcome := by
  symm
  apply outcome_congr h
  intro e he
  calc cat.fetch e.coordinate
    _ = cat.fetch e.coordinate.manifestOf := steady e.coordinate
    _ = cat'.fetch e.coordinate.manifestOf := (same e he).symm
    _ = cat'.fetch e.coordinate := (steady' e.coordinate).symm

/-- The manifest of a coordinate that a resolution does not depend on makes no difference to it. -/
theorem outcome_sameBut {x : CachedResolution} {c : Coordinate}
    (h : (resolve cat scopes x.key.toList).outcome = .ok x.resolution)
    (apart : x.dependsOn c = false) (same : Catalog.SameBut c cat cat') :
    (resolve cat' scopes x.key.toList).outcome = .ok x.resolution := by
  have reached : (resolve cat scopes x.key.toList).Reached x.resolution := .inl h
  rw [← h]
  symm
  apply outcome_congr reached
  intro e he
  exact (same e.coordinate (Repository.manifestOf_ne_of_dependsOn apart he)).symm

end Catalogs

namespace Repository

open Operation

variable {r : Repository MemoryStore} {x : CachedResolution} {c : Coordinate}

/-- What a call gets is in the cache when it has returned. -/
theorem Coherent.held_of_classpath (h : r.Coherent) {roots : List Coordinate}
    (hx : (r.classpath roots).1 = .ok x) : x ∈ (r.classpath roots).2.cache.held := by
  by_cases named : roots = []
  · subst named
    simp [Repository.classpath] at hx
  · rcases classpath_cases h.rest named with ⟨y, hy, -, hc⟩ | hc
    · rw [hc] at hx ⊢
      cases hx
      exact hy
    · rw [hc, classpathRun, h.rest.complete_create] at hx ⊢
      simp only at hx
      simp [Cache.held, hx, Cache.AtRest.remains, Slot.completed?]

theorem Fresh.resolve_putManifest (h : r.Fresh x) (apart : x.dependsOn c = false) (b : Bytes) :
    (step r (.putManifest c b)).resolve x.key.toList = .ok x.resolution :=
  outcome_sameBut h.resolution apart (MemoryStore.sameBut_putManifest r.store c b)

theorem Fresh.resolve_removeManifest (h : r.Fresh x) (apart : x.dependsOn c = false) :
    (step r (.removeManifest c)).resolve x.key.toList = .ok x.resolution := by
  change (r.removeManifest c).resolve x.key.toList = .ok x.resolution
  rcases removeManifest_cases r c with hr | hr
  · rw [hr]
    exact h.resolution
  · rw [hr]
    exact outcome_sameBut h.resolution apart (MemoryStore.sameBut_erase r.store c)

end Repository

/-- Two catalogs that agree on the manifests of the entries that a run left behind give the same
outcome. So what the cache holds stays what a run over its key gives, in whatever way the manifest
of a coordinate changes that it does not depend on. -/
theorem resolve_depends_on_entries :
    (∀ (cat cat' : Catalog), cat.Steady → cat'.Steady →
      ∀ (scopes : ScopeSet) (roots : List Coordinate) (r : Resolution),
        (resolve cat scopes roots).Reached r →
        (∀ e ∈ r.entries,
          cat'.fetch e.coordinate.manifestOf = cat.fetch e.coordinate.manifestOf) →
        (resolve cat' scopes roots).outcome = (resolve cat scopes roots).outcome) ∧
    (∀ (cat cat' : Catalog) (scopes : ScopeSet) (x : CachedResolution) (c : Coordinate),
      (resolve cat scopes x.key.toList).outcome = .ok x.resolution → x.dependsOn c = false →
      Catalog.SameBut c cat cat' →
      (resolve cat' scopes x.key.toList).outcome = .ok x.resolution) ∧
    (∀ (store : MemoryStore) (options : ResolveOptions) (ops : List Operation),
      (∀ op ∈ ops, op.Tracked) →
      let r := Operation.run (.new store options) ops
      ∀ x ∈ r.cache.held, ∀ c, x.dependsOn c = false →
        (∀ b, (Operation.step r (.putManifest c b)).resolve x.key.toList =
          r.resolve x.key.toList) ∧
        (Operation.step r (.removeManifest c)).resolve x.key.toList = r.resolve x.key.toList) := by
  refine ⟨?_, ?_, ?_⟩
  · intro cat cat' steady steady' scopes roots r reached same
    exact outcome_eq_of_manifests steady steady' reached same
  · intro cat cat' scopes x c resolved apart same
    exact outcome_sameBut resolved apart same
  · intro store options ops tracked r x held c apart
    have fresh := ((Repository.coherent_new store options).run tracked).fresh x held
    rw [fresh.resolution]
    exact ⟨fun b => fresh.resolve_putManifest apart b, fresh.resolve_removeManifest apart⟩

namespace Sample

/-- A store like the one of `repository` in which `core` needs `util`. -/
def changed : MemoryStore := (repository.store.putManifest core (document core (some util))).2

theorem sameBut_changed : Catalog.SameBut core (ArtifactStore.catalog repository.store)
    (ArtifactStore.catalog changed) :=
  MemoryStore.sameBut_putManifest repository.store core _

theorem core_ne_lib : core.manifestOf ≠ lib.manifestOf := by decide +kernel

/-- `lib` needs nothing now, so `core` is none of its business. -/
def onlyLib : Resolution := ⟨[⟨lib, 0, .jar, none⟩], []⟩

theorem tracked_operations_classpath : ∀ op ∈ operations ++ [.classpath [lib]], op.Tracked := by
  intro op hop
  rcases List.mem_append.mp hop with hop | hop
  · exact tracked_operations op hop
  · rw [List.mem_singleton.mp hop]
    trivial

/-- When the classpath of `lib` has been asked for, the cache holds the resolution of `lib`. -/
theorem exists_held : ∃ x, x ∈ (Operation.run (.new .empty .default)
      (operations ++ [.classpath [lib]])).cache.held ∧
    x.key = .ofRoots [lib] ∧ x.resolution = onlyLib := by
  have coherent := (Repository.coherent_new MemoryStore.empty .default).run tracked_operations
  obtain ⟨x, hx⟩ := coherent.exists_classpath (by simp) resolve_repository assemble_repository
  obtain ⟨hk, fresh⟩ := coherent.fresh_of_classpath hx
  have same := fresh.resolution.symm.trans (hk ▸ resolve_repository)
  refine ⟨x, ?_, hk, Except.ok.inj same⟩
  rw [Operation.run, List.foldl_append]
  exact coherent.held_of_classpath hx

end Sample

theorem resolve_depends_on_entries_sample :
    (resolve (ArtifactStore.catalog Sample.changed) .runtimeSet [Sample.lib]).outcome =
        .ok Sample.onlyLib ∧
      ∃ x ∈ (Operation.run (.new .empty .default)
          (Sample.operations ++ [.classpath [Sample.lib]])).cache.held,
        x.dependsOn Sample.core = false ∧
        (resolve (ArtifactStore.catalog Sample.changed) .runtimeSet x.key.toList).outcome =
          .ok x.resolution ∧
        (Operation.step (Operation.run (.new .empty .default)
          (Sample.operations ++ [.classpath [Sample.lib]]))
            (.removeManifest Sample.core)).resolve x.key.toList =
          (Operation.run (.new .empty .default)
            (Sample.operations ++ [.classpath [Sample.lib]])).resolve x.key.toList := by
  obtain ⟨entries_suffice, unaffected, held_unaffected⟩ := resolve_depends_on_entries
  obtain ⟨x, hx, hk, hr⟩ := Sample.exists_held
  have apart : x.dependsOn Sample.core = false := by
    rw [CachedResolution.dependsOn, hr]
    decide +kernel
  have resolved : (resolve (ArtifactStore.catalog Sample.repository.store) .runtimeSet
      x.key.toList).outcome = .ok x.resolution := by
    rw [hk, hr]
    exact Sample.resolve_repository
  refine ⟨?_, x, hx, apart, ?_, ?_⟩
  · have before : (resolve (ArtifactStore.catalog Sample.repository.store) .runtimeSet
        [Sample.lib]).outcome = .ok Sample.onlyLib := Sample.resolve_repository
    rw [← before]
    apply entries_suffice _ _ (ArtifactStore.steady_catalog _) (ArtifactStore.steady_catalog _)
    · exact .inl before
    · intro e he
      rw [List.mem_singleton.mp he]
      exact Sample.sameBut_changed _ Sample.core_ne_lib
  · exact unaffected _ _ _ x Sample.core resolved apart Sample.sameBut_changed
  · exact (held_unaffected _ _ _ Sample.tracked_operations_classpath x hx Sample.core apart).2

end Depot
