import Depot.Proofs.Cache.Coherence
import Depot.Proofs.Cache.Keys
import Depot.Proofs.Resolution.RootOrder
import Depot.Store.File

/-!
# The classpath and the resolution of roots

A call for a classpath runs over the key of the roots, which has them in order and once each. What
it selects is what a resolution over the key selects, and a classpath can be assembled whenever that
succeeds. A resolution over the roots as they are given may select other versions.
-/

namespace Depot

/-- Every kind of file that the layout has a name for has a path. -/
theorem Layout.exists_path {kind : Kind} (storable : kind.isStorable = true) (c : Coordinate)
    (g : Option Signature) : ∃ p, path c (some kind) g = .ok p := by
  cases kind with
  | jar | source | manifest | metadata => exact ⟨_, rfl⟩
  | other e =>
    have extension : Kind.isExtension e = true := storable
    simp only [path, place, extension, if_true, Except.map]
    exact ⟨_, rfl⟩

namespace Manifest

theorem storable_of_entryDependency {entry : Element} {d : Dependency}
    (h : entryDependency entry = .ok d) : d.kind.isStorable = true := by
  obtain ⟨c, -, h⟩ := exists_ok_of_bind h
  obtain ⟨kind, hk, h⟩ := exists_ok_of_bind h
  cases h
  simp only [entryKind] at hk
  split at hk
  · cases hk
    assumption
  · cases hk

/-- The files that a manifest declares can be stored. -/
theorem storable_of_ofBytes {c : Coordinate} {bytes : Bytes} {m : Manifest}
    (h : ofBytes c bytes = .ok m) : ∀ d ∈ m.dependencies, d.kind.isStorable = true := by
  unfold ofBytes at h
  split at h
  · cases h
  · cases h
  · rename_i root hr
    rw [dependencies_ofElement h]
    intro d hd
    obtain ⟨pair, listed, hd⟩ := List.mem_flatMap.mp hd
    obtain ⟨⟨entry, i⟩, -, rfl⟩ := List.mem_map.mp listed
    unfold contribution at hd
    cases he : entryDependency entry with
    | error fault => simp [he] at hd
    | ok d' =>
      simp only [he, List.mem_singleton] at hd
      exact hd ▸ storable_of_entryDependency he

end Manifest

/-- A store that can tell where one manifest lies can tell where any file lies. -/
def ArtifactStore.Places {σ : Type} [ArtifactStore σ] (s : σ) : Prop :=
  ∀ c l, locate s c (some .manifest) none = .ok l →
    ∀ d kind, kind.isStorable = true → ∃ l', locate s d (some kind) none = .ok l'

theorem MemoryStore.places (s : MemoryStore) : ArtifactStore.Places s := by
  intro c l located d kind storable
  obtain ⟨p, path⟩ := Layout.exists_path storable d none
  refine ⟨⟨scheme, p, false⟩, ?_⟩
  change s.locate d (some kind) none false = _
  simp only [locate, (path_of_locate located).1, locator, path]
  rfl

theorem FileStore.places (s : FileStore) : ArtifactStore.Places s := by
  intro c l located d kind storable
  obtain ⟨p, path⟩ := Layout.exists_path storable d none
  obtain ⟨u, rooted, -⟩ := exists_ok_of_bind located
  refine ⟨⟨scheme, p, false⟩, ?_⟩
  change s.locator d (some kind) none false = _
  simp only [locator, rooted, path]
  rfl

section Assembly

variable {σ : Type} [ArtifactStore σ] {s : σ}

open ArtifactStore

theorem fetch_eq_ok {c : Coordinate} {m : Manifest} (h : (catalog s).fetch c = .ok m) :
    ∃ l bytes, manifestLocator s c = .ok l ∧ read s l = .ok bytes ∧
      Manifest.ofBytes c.manifestOf bytes = .ok m := by
  change fetchVia (manifestLocator s) s c = .ok m at h
  unfold fetchVia at h
  cases hl : manifestLocator s c with
  | error e => simp [hl] at h
  | ok l =>
    simp only [hl, fetchAt] at h
    cases hb : read s l with
    | error e => simp [hb] at h
    | ok bytes =>
      cases hm : Manifest.ofBytes c.manifestOf bytes with
      | error e => simp [hb, hm] at h
      | ok m' =>
        simp only [hb, hm, Except.ok.injEq] at h
        subst h
        exact ⟨l, bytes, rfl, hb, hm⟩

/-- The files of the packages that a run selects can be stored. -/
theorem storable_entries {scopes : ScopeSet} {roots : List Coordinate} {y : Resolution}
    (h : (resolve (catalog s) scopes roots).Reached y) :
    ∀ e ∈ y.entries, e.kind.isStorable = true := by
  obtain ⟨-, items, explored, rfl⟩ := exists_explored h
  have storable : ∀ p ∈ items, p.kind.isStorable = true := by
    refine explored.forall_mem (fun _ _ => rfl) fun p _ _ q hq => ?_
    obtain ⟨m, hm, d, hd, -, rfl⟩ := mem_offspring.mp hq
    obtain ⟨l, bytes, -, -, parsed⟩ := fetch_eq_ok hm
    exact Manifest.storable_of_ofBytes parsed d hd
  intro e he
  rw [entries_met] at he
  obtain ⟨p, hp, rfl⟩ := List.mem_map.mp he
  exact storable p (Resolution.mem_of_mem_meetAll hp)

theorem exists_assemble (places : Places s) {c : Coordinate} {l : Locator}
    (located : locate s c (some .manifest) none = .ok l) {es : List Entry}
    (storable : ∀ e ∈ es, e.kind.isStorable = true) : ∃ cp, Classpath.assemble s es = .ok cp := by
  induction es with
  | nil => exact ⟨[], rfl⟩
  | cons e es ih =>
    obtain ⟨l', hl⟩ := places c l located e.coordinate e.kind (storable e List.mem_cons_self)
    obtain ⟨cp, hc⟩ := ih fun f hf => storable f (List.mem_cons_of_mem e hf)
    simp only [Classpath.assemble, Classpath.locateEntry, hl, hc]
    exact ⟨_, rfl⟩

/-- A resolution that succeeds has a classpath. -/
theorem exists_classpath_of_resolve (places : Places s) {scopes : ScopeSet}
    {roots : List Coordinate} {y : Resolution}
    (h : (resolve (catalog s) scopes roots).outcome = .ok y) :
    ∃ cp, Classpath.assemble s y.entries = .ok cp := by
  have reached : (resolve (catalog s) scopes roots).Reached y := .inl h
  obtain ⟨named, items, explored, rfl⟩ := exists_explored reached
  obtain ⟨c, hc⟩ := List.exists_mem_of_ne_nil _ named
  -- the manifest of the first root was located
  obtain ⟨e, he, -⟩ := explored.complete.rooted c hc
  rw [explored.outcome_eq named, Resolution.outcome_eq_ok_iff] at h
  obtain ⟨m, hm⟩ := Catalog.failure?_eq_none_iff.mp (List.filterMap_eq_nil_iff.mp h.1 e he)
  obtain ⟨l, -, located, -⟩ := fetch_eq_ok hm
  exact exists_assemble places located (storable_entries reached)

end Assembly

namespace Repository

section

variable {σ : Type} [ArtifactStore σ] {r : Repository σ} {roots : List Coordinate}

/-- How the classpath of roots goes with their resolution if the cache has nothing for them: it is
that of a resolution over the key. The order in which the roots are given makes no difference if it
is the order of the key, or if the resolution over either is calm. -/
structure Canonical (r : Repository σ) (roots : List Coordinate) : Prop where
  succeeds : ∀ y, (∃ x, (r.classpath roots).1 = .ok x ∧ x.resolution = y) ↔
    r.resolve (RootKey.ofRoots roots).toList = .ok y
  fails : ∀ e, (r.classpath roots).1 = .error e ↔
    ∃ e', r.resolve (RootKey.ofRoots roots).toList = .error e' ∧ e = .resolve e'
  ordered : firsts roots = (RootKey.ofRoots roots).toList →
    r.resolve roots = r.resolve (RootKey.ofRoots roots).toList
  calm : ∀ y, r.resolve roots = .ok y → y.Calm (ArtifactStore.catalog r.store) r.options.scopes →
    ∃ x, (r.classpath roots).1 = .ok x ∧ x.resolution.coordinates.Perm y.coordinates
  calm_key : ∀ x, (r.classpath roots).1 = .ok x →
    x.resolution.Calm (ArtifactStore.catalog r.store) r.options.scopes →
    ∃ y, r.resolve roots = .ok y ∧ x.resolution.coordinates.Perm y.coordinates

/-- A call that finds no resolution in the cache runs over the key. -/
theorem classpath_of_absent (named : roots ≠ [])
    (absent : r.cache.get? (.ofRoots roots) = none) : ∃ number,
      (r.classpath roots).1 = Cache.outcomeOf number (.ofRoots roots)
        (assembled r.store (r.resolve (RootKey.ofRoots roots).toList)) := by
  have hn : roots.isEmpty = false := by simpa using named
  cases hs : r.cache.start 0 (.ofRoots roots) with
  | mk started cache =>
    cases started with
    | hit x =>
      obtain ⟨s, found, completed⟩ := Cache.mapped?_of_hit hs
      have there := Cache.get?_eq_some_iff.mpr ⟨s, found, completed⟩
      rw [absent] at there
      cases there
    | joined slot runs => exact ⟨slot, by simp [classpath, hn, hs, Cache.complete]⟩

theorem firsts_key (roots : List Coordinate) :
    firsts (RootKey.ofRoots roots).toList = (RootKey.ofRoots roots).toList := by
  refine firsts_of_nodup ((RootKey.ofRoots roots).increasing.imp ?_)
  rintro c d lt rfl
  have eq : compare c c = .eq := Std.ReflCmp.compare_self
  rw [eq] at lt
  cases lt

theorem canonical_of_places (places : ArtifactStore.Places r.store) (named : roots ≠ [])
    (absent : r.cache.get? (.ofRoots roots) = none) : r.Canonical roots := by
  obtain ⟨number, answer⟩ := classpath_of_absent named absent
  have succeeds : ∀ y, (∃ x, (r.classpath roots).1 = .ok x ∧ x.resolution = y) ↔
      r.resolve (RootKey.ofRoots roots).toList = .ok y := by
    intro y
    rw [answer]
    constructor
    · rintro ⟨x, hx, rfl⟩
      obtain ⟨hk, fresh⟩ := fresh_of_outcomeOf hx
      exact hk ▸ fresh.resolution
    · intro hr
      obtain ⟨cp, hc⟩ := exists_classpath_of_resolve places hr
      refine ⟨⟨number, .ofRoots roots, y, cp⟩, ?_, rfl⟩
      simp [assembled, hr, hc, Cache.outcomeOf, Except.map]
  refine ⟨succeeds, ?_, ?_, ?_, ?_⟩
  · intro e
    rw [answer]
    cases hr : r.resolve (RootKey.ofRoots roots).toList with
    | error e' => simp [assembled, Cache.outcomeOf, Except.map, eq_comm]
    | ok y =>
      obtain ⟨cp, hc⟩ := exists_classpath_of_resolve places hr
      simp [assembled, hc, Cache.outcomeOf, Except.map]
  · intro same
    exact outcome_of_firsts named (same.trans (firsts_key roots).symm)
  · intro y hr calm
    obtain ⟨y', hk, -, perm⟩ := calm.perm hr fun _ => RootKey.mem_ofRoots.symm
    obtain ⟨x, hx, rfl⟩ := (succeeds y').mpr hk
    exact ⟨x, hx, perm.symm⟩
  · intro x hx calm
    have hk := (succeeds x.resolution).mp ⟨x, hx, rfl⟩
    obtain ⟨y, hr, -, perm⟩ := calm.perm hk fun _ => RootKey.mem_ofRoots
    exact ⟨y, hr, perm⟩

end

/-- In both stores the classpath of roots is that of a resolution over their key, whatever order and
repetition they come in, and one is there exactly if that resolution succeeds. -/
theorem classpath_canonical :
    (∀ (r : Repository MemoryStore) (roots : List Coordinate), roots ≠ [] →
      r.cache.get? (.ofRoots roots) = none → r.Canonical roots) ∧
    (∀ (r : Repository FileStore) (roots : List Coordinate), roots ≠ [] →
      r.cache.get? (.ofRoots roots) = none → r.Canonical roots) :=
  ⟨fun r _ named absent => canonical_of_places (MemoryStore.places r.store) named absent,
    fun r _ named absent => canonical_of_places (FileStore.places r.store) named absent⟩

end Repository

namespace Sample

/-- `lib` and two versions of `core`, none of which needs anything. -/
def shelf : Repository MemoryStore :=
  .new (((MemoryStore.empty.putManifest core (document core none)).2.putManifest nextCore
    (document nextCore none)).2.putManifest lib (document lib none)).2 .default

/-- No directory at all. -/
def nowhere : Repository FileStore := .new ⟨"/nowhere", .empty⟩ .default

theorem resolve_newest_first : shelf.resolve [nextCore, core] =
    .ok ⟨[⟨nextCore, 0, .jar, none⟩], [⟨nextCore, 0, [⟨"1", 0, none⟩]⟩]⟩ := by
  apply Queue.outcome_of_run (n := 3)
  · decide +kernel
  · decide +kernel

theorem resolve_key_of_cores : shelf.resolve (RootKey.ofRoots [nextCore, core]).toList =
    .ok ⟨[⟨core, 0, .jar, none⟩], [⟨core, 0, [⟨"2", 0, none⟩]⟩]⟩ := by
  apply Queue.outcome_of_run (n := 3)
  · decide +kernel
  · decide +kernel

def libFirst : Resolution := ⟨[⟨lib, 0, .jar, none⟩, ⟨core, 0, .jar, none⟩], []⟩

theorem resolve_libFirst : shelf.resolve [lib, core] = .ok libFirst := by
  apply Queue.outcome_of_run (n := 3)
  · decide +kernel
  · decide +kernel

theorem calm_libFirst :
    libFirst.Calm (ArtifactStore.catalog shelf.store) shelf.options.scopes := by
  refine ⟨rfl, fun e he m hm d hd _ => ?_⟩
  have bare : ∀ e ∈ libFirst.entries, ((ArtifactStore.catalog shelf.store).fetch
      e.coordinate).map Manifest.dependencies = .ok [] := by decide +kernel
  have none := bare e he
  simp only [hm, Except.map, Except.ok.injEq] at none
  simp [none] at hd

theorem resolve_nowhere : nowhere.resolve (RootKey.ofRoots [lib]).toList =
    .error (.storeUnavailable lib "store root /nowhere does not exist") := by
  apply Queue.outcome_of_run (n := 2)
  · decide +kernel
  · decide +kernel

end Sample

namespace Repository

open Sample

theorem classpath_canonical_sample :
    (∃ x, (shelf.classpath [lib, core]).1 = .ok x ∧
      x.resolution.coordinates.Perm [lib, core]) ∧
    (nowhere.classpath [lib]).1 =
      .error (.resolve (.storeUnavailable lib "store root /nowhere does not exist")) := by
  have canonical := classpath_canonical.1 shelf [lib, core] (by simp) rfl
  have canonical' := classpath_canonical.2 nowhere [lib] (by simp) rfl
  exact ⟨canonical.calm libFirst resolve_libFirst calm_libFirst,
    (canonical'.fails _).mpr ⟨_, resolve_nowhere, rfl⟩⟩

/-- With the newer version first, a resolution selects it, and the classpath has the older one. -/
theorem classpath_ne_resolve :
    shelf.cache.get? (.ofRoots [nextCore, core]) = none ∧
    (∃ y, shelf.resolve [nextCore, core] = .ok y ∧ y.coordinates = [nextCore]) ∧
    ∃ x, (shelf.classpath [nextCore, core]).1 = .ok x ∧ x.resolution.coordinates = [core] := by
  have canonical : shelf.Canonical [nextCore, core] :=
    canonical_of_places (MemoryStore.places _) (by simp) rfl
  obtain ⟨x, hx, selected⟩ := (canonical.succeeds _).mpr resolve_key_of_cores
  exact ⟨rfl, ⟨_, resolve_newest_first, rfl⟩, x, hx, by rw [selected]; rfl⟩

end Repository

end Depot
