import Depot.Proofs.Cache.Rest
import Depot.Proofs.Resolution.Queue
import Depot.Proofs.Store.Catalogs

/-!
# Coherence of cached resolutions

Whatever the cache holds is what a run over its key would give now, with the classpath that would
be assembled now. Each operation keeps it so: a write touches one path, the manifest at that path
is read for some entries or for none, and in the first case the resolution is taken out.
-/

namespace Depot

namespace Repository

section

variable {σ : Type} [ArtifactStore σ]

/-- A run over the key and the assembly of its classpath would give this now. -/
structure Fresh (r : Repository σ) (x : CachedResolution) : Prop where
  resolution : r.resolve x.key.toList = .ok x.resolution
  classpath : Classpath.assemble r.store x.resolution.entries = .ok x.classpath

theorem Fresh.with_cache {r : Repository σ} {x : CachedResolution} (h : r.Fresh x) (m : Cache) :
    { r with cache := m }.Fresh x :=
  ⟨h.resolution, h.classpath⟩

/-- Nobody is in a call, and no resolution in the cache is stale. -/
structure Coherent (r : Repository σ) : Prop where
  rest : r.cache.AtRest
  fresh : ∀ x ∈ r.cache.held, r.Fresh x

variable {r : Repository σ} {roots : List Coordinate}

theorem coherent_new (store : σ) (options : ResolveOptions) : (new store options).Coherent :=
  ⟨Cache.atRest_empty, by simp [new, Cache.held_empty]⟩

/-- What a run hands out is fresh when it is handed out. -/
theorem fresh_of_outcomeOf {number : Nat} {k : RootKey} {x : CachedResolution}
    (h : Cache.outcomeOf number k (assembled r.store (r.resolve k.toList)) = .ok x) :
    x.key = k ∧ r.Fresh x := by
  unfold Cache.outcomeOf assembled at h
  cases hr : r.resolve k.toList with
  | error e => simp [hr, Except.map] at h
  | ok y =>
    cases hc : Classpath.assemble r.store y.entries with
    | error e => simp [hr, hc, Except.map] at h
    | ok cp =>
      simp only [hr, hc, Except.map, Except.ok.injEq] at h
      subst h
      exact ⟨rfl, hr, hc⟩

/-- The run of a call that finds nothing in the cache. -/
def classpathRun (r : Repository σ) (roots : List Coordinate) : Outcome × Cache :=
  (r.cache.create 0 (.ofRoots roots)).2.complete 0 r.cache.next (.ofRoots roots)
    (assembled r.store (r.resolve (RootKey.ofRoots roots).toList))

/-- A call for a classpath is a hit or a run, and leaves the store alone. -/
theorem classpath_cases (h : r.cache.AtRest) (named : roots ≠ []) :
    (∃ x ∈ r.cache.held, x.key = .ofRoots roots ∧
      r.classpath roots = (.ok x, { r with cache := { r.cache with hits := r.cache.hits + 1 } })) ∨
    r.classpath roots = ((r.classpathRun roots).1, { r with cache := (r.classpathRun roots).2 }) := by
  have hn : roots.isEmpty = false := by simpa using named
  unfold classpath
  rcases h.start_cases 0 (RootKey.ofRoots roots) with ⟨x, hx, hk, hs⟩ | hs
  · refine .inl ⟨x, hx, hk, ?_⟩
    simp [hn, hs]
  · refine .inr ?_
    simp [hn, hs, Cache.create, classpathRun]

/-- From a coherent repository a call gets nothing stale, be it a hit or a miss. -/
theorem Coherent.fresh_of_classpath (h : r.Coherent) {x : CachedResolution}
    (hx : (r.classpath roots).1 = .ok x) : x.key = .ofRoots roots ∧ r.Fresh x := by
  by_cases named : roots = []
  · subst named
    simp [Repository.classpath] at hx
  · rcases classpath_cases h.rest named with ⟨y, hy, hk, hc⟩ | hc
    · rw [hc] at hx
      cases hx
      exact ⟨hk, h.fresh x hy⟩
    · rw [hc, classpathRun, h.rest.complete_create] at hx
      exact fresh_of_outcomeOf hx

/-- And it gets something whenever the store could give it now. -/
theorem Coherent.exists_classpath (h : r.Coherent) (named : roots ≠ []) {y : Resolution}
    {cp : Classpath} (hr : r.resolve (RootKey.ofRoots roots).toList = .ok y)
    (hc : Classpath.assemble r.store y.entries = .ok cp) :
    ∃ x, (r.classpath roots).1 = .ok x := by
  rcases classpath_cases h.rest named with ⟨x, _, _, ha⟩ | ha
  · exact ⟨x, by rw [ha]⟩
  · rw [ha, classpathRun, h.rest.complete_create]
    simp only [assembled, hr, hc]
    exact ⟨_, rfl⟩

theorem Coherent.classpath (h : r.Coherent) (roots : List Coordinate) :
    (r.classpath roots).2.Coherent := by
  by_cases named : roots = []
  · subst named
    exact h
  · rcases classpath_cases h.rest named with ⟨y, hy, hk, hc⟩ | hc
    · rw [hc]
      exact ⟨⟨h.rest.holds, h.rest.numbered⟩, fun x hx => (h.fresh x hx).with_cache _⟩
    · rw [hc]
      constructor
      · exact h.rest.create 0 _ _
      · intro x hx
        rcases h.rest.held_create hx with hx | ho
        · exact (h.fresh x hx).with_cache _
        · exact (fresh_of_outcomeOf ho).2.with_cache _

theorem Coherent.manifestChanged (h : r.Coherent) (c : Coordinate) :
    (r.manifestChanged c).2.Coherent :=
  ⟨h.rest.invalidate c, fun x hx => (h.fresh x (h.rest.held_invalidate hx).1).with_cache _⟩

theorem Coherent.clear (h : r.Coherent) : { r with cache := r.cache.clear }.Coherent := by
  constructor
  · exact h.rest.clear
  · simp [Cache.held, h.rest.slots_clear]

end

section Memory

variable {r : Repository MemoryStore} {s : MemoryStore} {x : CachedResolution}

/-- Another content of the store makes nothing stale whose manifests it has in common. -/
theorem Fresh.congr (h : r.Fresh x) (available : s.available = r.store.available)
    (same : ∀ e ∈ x.resolution.entries, (ArtifactStore.catalog s).fetch e.coordinate =
      (ArtifactStore.catalog r.store).fetch e.coordinate) (m : Cache) :
    ({ r with store := s, cache := m } : Repository MemoryStore).Fresh x := by
  constructor
  · have reached : (Depot.resolve (ArtifactStore.catalog r.store) r.options.scopes
        x.key.toList).Reached x.resolution := .inl h.resolution
    exact (outcome_congr reached fun e he => (same e he).symm).symm.trans h.resolution
  · exact (MemoryStore.assemble_congr available _).trans h.classpath

/-- A content that no manifest is read from. -/
theorem Coherent.unnoticed (h : r.Coherent) (available : s.available = r.store.available)
    (same : ∀ c, (ArtifactStore.catalog s).fetch c = (ArtifactStore.catalog r.store).fetch c) :
    ({ r with store := s } : Repository MemoryStore).Coherent :=
  ⟨h.rest, fun x hx => (h.fresh x hx).congr available (fun e _ => same e.coordinate) r.cache⟩

theorem manifestOf_ne_of_dependsOn {c : Coordinate} (h : x.dependsOn c = false) {e : Entry}
    (he : e ∈ x.resolution.entries) : c.manifestOf ≠ e.coordinate.manifestOf := by
  intro heq
  have hd := List.any_eq_false.mp h e he
  simp [heq] at hd

/-- A content that is the manifest of a coordinate, if the repository is told so. -/
theorem Coherent.announced (h : r.Coherent) (available : s.available = r.store.available)
    {c : Coordinate}
    (same : Catalog.SameBut c (ArtifactStore.catalog r.store) (ArtifactStore.catalog s)) :
    (({ r with store := s } : Repository MemoryStore).manifestChanged c).2.Coherent := by
  constructor
  · exact h.rest.invalidate c
  · intro x hx
    obtain ⟨hx, hc⟩ := h.rest.held_invalidate hx
    refine (h.fresh x hx).congr available ?_ _
    exact fun e he => same e.coordinate (manifestOf_ne_of_dependsOn hc he)

/-- Storing a file fails and changes nothing, or it puts one content where the layout has it; the
cache is told of manifests and of nothing else. -/
theorem writeArtifact_eq (r : Repository MemoryStore) (c : Coordinate) (kind : Kind) (b : Bytes) :
    (∃ e, r.writeArtifact c kind b = (.error e, r)) ∨
    ∃ l, Layout.path c (some kind) none = .ok l.path ∧
      r.writeArtifact c kind b = (.ok l,
        let put := { r with store := { r.store with contents := r.store.contents.insert l.path b } }
        if kind = .manifest then (put.manifestChanged c).2 else put) := by
  unfold writeArtifact writeAt prepare write
  cases hl : r.store.locate c (some kind) none true with
  | error e =>
    left
    simp [ArtifactStore.prepare, hl]
  | ok l =>
    have hp := (MemoryStore.path_of_locate hl).2.1
    cases hw : r.store.checkWrite l with
    | error e =>
      left
      simp [ArtifactStore.prepare, hl, ArtifactStore.write, MemoryStore.write, hw]
    | ok u =>
      right
      refine ⟨l, hp, ?_⟩
      simp [ArtifactStore.prepare, hl, ArtifactStore.write, MemoryStore.write, hw]

theorem writeArtifact_cases (r : Repository MemoryStore) (c : Coordinate) (kind : Kind) (b : Bytes) :
    (r.writeArtifact c kind b).2 = r ∨
    ∃ p, Layout.path c (some kind) none = .ok p ∧
      (r.writeArtifact c kind b).2 =
        let put := { r with store := { r.store with contents := r.store.contents.insert p b } }
        if kind = .manifest then (put.manifestChanged c).2 else put := by
  rcases writeArtifact_eq r c kind b with ⟨e, hr⟩ | ⟨l, hp, hr⟩
  · exact .inl (by rw [hr])
  · exact .inr ⟨l.path, hp, by rw [hr]⟩

theorem Coherent.writeArtifact (h : r.Coherent) {c : Coordinate} {kind : Kind} (b : Bytes)
    (tracked : ¬ (kind = .other "toml" ∧ c.classifier = none)) :
    (r.writeArtifact c kind b).2.Coherent := by
  rcases writeArtifact_cases r c kind b with hr | ⟨p, hp, hr⟩
  · rw [hr]
    exact h
  · rw [hr]
    by_cases hk : kind = .manifest
    · simp only [hk, if_true]
      apply h.announced
      · rfl
      · exact fun d hd => MemoryStore.fetch_insert hp (fun ha => hd ha.2) b
    · simp only [hk, if_false]
      apply h.unnoticed
      · rfl
      · exact fun d => MemoryStore.fetch_insert hp (fun ha => ha.1.elim hk tracked) b

theorem Coherent.putManifest (h : r.Coherent) (c : Coordinate) (b : Bytes) :
    (({ r with store := (r.store.putManifest c b).2 } : Repository MemoryStore).manifestChanged
      c).2.Coherent := by
  apply h.announced
  · rfl
  · exact MemoryStore.sameBut_putManifest r.store c b

/-- Take the manifest of a coordinate out of the store, if it can be located. -/
def removeManifest (r : Repository MemoryStore) (c : Coordinate) : Repository MemoryStore :=
  match r.locate c (some .manifest) none with
  | .error _ => r
  | .ok l =>
    match r.store.remove l with
    | .error _ => r
    | .ok (_, store) => { r with store }

theorem removeManifest_cases (r : Repository MemoryStore) (c : Coordinate) :
    r.removeManifest c = r ∨
    r.removeManifest c = { r with
      store := { r.store with contents := r.store.contents.erase (Layout.manifestPath c) } } := by
  unfold removeManifest
  cases hl : r.locate c (some .manifest) none with
  | error e => exact .inl rfl
  | ok l =>
    have hp : Layout.path c (some .manifest) none = .ok l.path := (MemoryStore.path_of_locate hl).2.1
    rw [Layout.path_manifest, Except.ok.injEq] at hp
    simp only
    cases hm : r.store.remove l with
    | error e => exact .inl rfl
    | ok removed =>
      obtain ⟨found, store⟩ := removed
      right
      rw [hp, ← MemoryStore.eq_of_remove hm]

theorem Coherent.removeManifest (h : r.Coherent) (c : Coordinate) :
    ((r.removeManifest c).manifestChanged c).2.Coherent := by
  rcases removeManifest_cases r c with hr | hr
  · rw [hr]
    exact h.manifestChanged c
  · rw [hr]
    apply h.announced
    · rfl
    · exact MemoryStore.sameBut_erase r.store c

end Memory

end Repository

/-- What a program does with a repository over a memory store. Manifests may be put and removed in
the store itself, if the repository is told at once. -/
inductive Operation where
  | classpath (roots : List Coordinate)
  | resolve (roots : List Coordinate)
  | «exists» (c : Coordinate)
  | dependencies (c : Coordinate)
  | writeArtifact (c : Coordinate) (kind : Kind) (b : Bytes)
  | manifestChanged (c : Coordinate)
  | putManifest (c : Coordinate) (b : Bytes)
  | removeManifest (c : Coordinate)
  | clear
  deriving DecidableEq, Repr

namespace Operation

/-- No manifest is written as a file of some other kind, behind the back of the cache. -/
def Tracked : Operation → Prop
  | .writeArtifact c kind _ => ¬ (kind = .other "toml" ∧ c.classifier = none)
  | _ => True

/-- What an operation makes of the repository. To look something up leaves it as it is. -/
def step (r : Repository MemoryStore) : Operation → Repository MemoryStore
  | .classpath roots => (r.classpath roots).2
  | .resolve _ => r
  | .exists _ => r
  | .dependencies _ => r
  | .writeArtifact c kind b => (r.writeArtifact c kind b).2
  | .manifestChanged c => (r.manifestChanged c).2
  | .putManifest c b =>
    (({ r with store := (r.store.putManifest c b).2 } : Repository MemoryStore).manifestChanged c).2
  | .removeManifest c => ((r.removeManifest c).manifestChanged c).2
  | .clear => { r with cache := r.cache.clear }

def run (r : Repository MemoryStore) (ops : List Operation) : Repository MemoryStore :=
  ops.foldl step r

end Operation

namespace Repository

open Operation

variable {r : Repository MemoryStore}

theorem Coherent.step (h : r.Coherent) {op : Operation} (tracked : op.Tracked) :
    (step r op).Coherent := by
  cases op with
  | classpath roots => exact h.classpath roots
  | resolve roots => exact h
  | «exists» c => exact h
  | dependencies c => exact h
  | writeArtifact c kind b => exact h.writeArtifact b tracked
  | manifestChanged c => exact h.manifestChanged c
  | putManifest c b => exact h.putManifest c b
  | removeManifest c => exact h.removeManifest c
  | clear => exact h.clear

theorem Coherent.run (h : r.Coherent) {ops : List Operation} (tracked : ∀ op ∈ ops, op.Tracked) :
    (run r ops).Coherent := by
  induction ops generalizing r with
  | nil => exact h
  | cons op ops ih =>
    have now := h.step (tracked op List.mem_cons_self)
    exact ih now fun op hop => tracked op (List.mem_cons_of_mem _ hop)

end Repository

namespace Sample

/-- `lib` is resolved while it needs `core`, and then it needs nothing any more. -/
def operations : List Operation :=
  [.putManifest core (document core none),
    .writeArtifact lib .manifest (document lib (some core)), .classpath [lib],
    .writeArtifact lib .manifest (document lib none), .writeArtifact lib .jar []]

theorem tracked_operations : ∀ op ∈ operations, op.Tracked := by
  simp [operations, Operation.Tracked]

def repository : Repository MemoryStore := Operation.run (.new .empty .default) operations

theorem resolve_repository :
    repository.resolve (RootKey.ofRoots [lib]).toList = .ok ⟨[⟨lib, 0, .jar, none⟩], []⟩ := by
  apply Queue.outcome_of_run (n := 2)
  · decide +kernel
  · decide +kernel

theorem assemble_repository : Classpath.assemble repository.store [⟨lib, 0, .jar, none⟩] =
    .ok [⟨lib, .jar, ⟨"mem", "/org/demo/lib/1/lib-1.jar", false⟩⟩] := by decide +kernel

end Sample

namespace Repository

open Operation

/-- After whatever a program did with a repository, a call for a classpath answers the resolution
and the classpath that the store gives at that moment, whether the cache had them or not. It fails
only if the store gives none. -/
theorem classpath_fresh (store : MemoryStore) (options : ResolveOptions) {ops : List Operation}
    (tracked : ∀ op ∈ ops, op.Tracked) (roots : List Coordinate) :
    (∀ x, ((run (new store options) ops).classpath roots).1 = .ok x →
      x.key = .ofRoots roots ∧ (run (new store options) ops).Fresh x) ∧
    (roots ≠ [] → ∀ y cp,
      (run (new store options) ops).resolve (RootKey.ofRoots roots).toList = .ok y →
      Classpath.assemble (run (new store options) ops).store y.entries = .ok cp →
      ∃ x, ((run (new store options) ops).classpath roots).1 = .ok x) := by
  have coherent := (coherent_new store options).run tracked
  constructor
  · intro x answered
    exact coherent.fresh_of_classpath answered
  · intro named y cp hr hc
    exact coherent.exists_classpath named hr hc

theorem classpath_fresh_sample :
    (∀ op ∈ Sample.operations, op.Tracked) ∧
      ∃ x, (Sample.repository.classpath [Sample.lib]).1 = .ok x ∧
        x.key = .ofRoots [Sample.lib] ∧
        x.resolution = ⟨[⟨Sample.lib, 0, .jar, none⟩], []⟩ ∧
        Classpath.assemble Sample.repository.store x.resolution.entries = .ok x.classpath := by
  obtain ⟨never_stale, answered⟩ :=
    classpath_fresh .empty .default Sample.tracked_operations [Sample.lib]
  obtain ⟨x, hx⟩ := answered (by simp) _ _ Sample.resolve_repository Sample.assemble_repository
  obtain ⟨hk, fresh⟩ := never_stale x hx
  refine ⟨Sample.tracked_operations, x, hx, hk, ?_, fresh.classpath⟩
  have same := fresh.resolution.symm.trans (hk ▸ Sample.resolve_repository)
  exact Except.ok.inj same

end Repository

end Depot
