import Mathlib.Data.List.Forall2
import Depot.Proofs.Cache.Canonical
import Depot.Proofs.Store.Containment

/-!
# Classpaths of resolutions

The type of a dependency is checked when its manifest is read, and whatever passes the check is the
extension of a file that the layout has a name for. So a memory store that is online has a place for
every file of a resolution, and a classpath that is not in the cache fails only as its resolution
does.
-/

namespace Depot

/-- The file of an entry is to be found there in a memory store: where the layout puts it, and not to
be written. -/
structure Entry.LiesAt (e : Entry) (x : ClasspathEntry) : Prop where
  coordinate : x.coordinate = e.coordinate
  kind : x.kind = e.kind
  scheme : x.locator.scheme = MemoryStore.scheme
  path : Layout.path e.coordinate (some e.kind) none = .ok x.locator.path
  read_only : x.locator.writable = false
  file : x.locator.directory = false

/-- A classpath has the place of each entry, in their order. -/
theorem Classpath.assemble_eq_ok_iff {σ : Type} [ArtifactStore σ] {s : σ} {es : List Entry}
    {cp : Classpath} :
    assemble s es = .ok cp ↔ List.Forall₂ (fun e x => locateEntry s e = .ok x) es cp := by
  induction es generalizing cp with
  | nil => cases cp <;> simp [assemble]
  | cons e es ih =>
    simp only [assemble, List.forall₂_cons_left_iff]
    cases locateEntry s e with
    | error err => simp
    | ok x =>
      cases rest : assemble s es with
      | error err => simp [← ih, rest, Except.map]
      | ok cp' => simpa [← ih, rest, Except.map] using eq_comm

namespace MemoryStore

variable {s : MemoryStore}

theorem liesAt_of_locateEntry {e : Entry} {x : ClasspathEntry}
    (h : Classpath.locateEntry s e = .ok x) : e.LiesAt x := by
  unfold Classpath.locateEntry at h
  split at h
  · rename_i l located
    cases h
    obtain ⟨-, path, scheme, writable⟩ := path_of_locate located
    exact ⟨rfl, rfl, scheme, path, writable, Layout.not_endsWith_slash path⟩
  · cases h

theorem forall₂_of_assemble {es : List Entry} {cp : Classpath}
    (h : Classpath.assemble s es = .ok cp) : List.Forall₂ Entry.LiesAt es cp :=
  (Classpath.assemble_eq_ok_iff.mp h).imp fun _ _ => liesAt_of_locateEntry

theorem exists_assemble_of_reached (online : s.available = true) {scopes : ScopeSet}
    {roots : List Coordinate} {y : Resolution}
    (h : (resolve (ArtifactStore.catalog s) scopes roots).Reached y) :
    ∃ cp, Classpath.assemble s y.entries = .ok cp := by
  obtain ⟨named, -⟩ := exists_explored h
  obtain ⟨c, -⟩ := List.exists_mem_of_ne_nil _ named
  exact exists_assemble (places s) (manifestLocator_of_available online c) (storable_entries h)

end MemoryStore

/-- A place was asked for that the layout does not have. -/
def FetchError.Unplaced : FetchError → Prop
  | .store (.invalidCoordinate _) => True
  | _ => False

/-- So it was for a file, or for the manifest of a branch that failed. -/
def PackageError.Unplaced : PackageError → Prop
  | .store (.invalidCoordinate _) => True
  | .resolve (.unresolved failures _) => ∃ f ∈ failures, f.error.Unplaced
  | _ => False

theorem MemoryStore.not_unplaced_of_resolve {s : MemoryStore} (online : s.available = true)
    {scopes : ScopeSet} {roots : List Coordinate} {e : ResolveError}
    (h : (resolve (ArtifactStore.catalog s) scopes roots).outcome = .error e) :
    ¬ (PackageError.resolve e).Unplaced := by
  cases e with
  | noRoots | storeUnavailable => exact id
  | unresolved fs y =>
    rintro ⟨f, hf, unplaced⟩
    obtain ⟨named, items, explored, -⟩ := exists_explored (.inr ⟨fs, h⟩)
    -- what failed is the manifest of an entry, and that has a place
    rw [explored.outcome_eq named, Resolution.outcome_eq_unresolved_iff] at h
    obtain ⟨-, rfl, -⟩ := h
    obtain ⟨e, -, failed⟩ := List.mem_filterMap.mp hf
    have fetched := (Catalog.failure?_eq_some_iff.mp failed).2
    obtain ⟨l, h | h⟩ | ⟨m, h⟩ := fetch_error_of_available online fetched <;>
      simp [h, FetchError.Unplaced] at unplaced

namespace Repository

variable {r : Repository MemoryStore} {roots : List Coordinate}

/-- Without roots, too, a classpath that is not in the cache fails as the resolution fails. -/
theorem classpath_error_iff (absent : r.cache.get? (.ofRoots roots) = none) (e : PackageError) :
    (r.classpath roots).1 = .error e ↔
      ∃ e', r.resolve (RootKey.ofRoots roots).toList = .error e' ∧ e = .resolve e' := by
  by_cases named : roots = []
  · subst named
    have none : r.resolve (RootKey.ofRoots []).toList = .error .noRoots := rfl
    simp [none, classpath, eq_comm]
  · exact (canonical_of_places (MemoryStore.places r.store) named absent).fails e

theorem fresh_of_absent (absent : r.cache.get? (.ofRoots roots) = none) {x : CachedResolution}
    (h : (r.classpath roots).1 = .ok x) : x.key = .ofRoots roots ∧ r.Fresh x := by
  by_cases named : roots = []
  · subst named
    cases h
  · obtain ⟨number, answer⟩ := classpath_of_absent named absent
    exact fresh_of_outcomeOf (answer ▸ h)

/-- Whatever an online store holds, what a resolution leaves behind can be made a classpath, whether
it succeeded or reached it around failed branches: the places of its files, one for each entry. So a
classpath that is not in the cache is answered exactly if its resolution succeeds, and fails with the
error of the resolution otherwise. That there is no place for a coordinate is no such error. -/
theorem classpath_assembled (online : r.store.available = true) :
    (∀ scopes roots y, (Depot.resolve (ArtifactStore.catalog r.store) scopes roots).Reached y →
      ∃ cp, Classpath.assemble r.store y.entries = .ok cp ∧
        List.Forall₂ Entry.LiesAt y.entries cp) ∧
    ∀ roots, r.cache.get? (.ofRoots roots) = none →
      (∀ e, (r.classpath roots).1 = .error e ↔
        ∃ e', r.resolve (RootKey.ofRoots roots).toList = .error e' ∧ e = .resolve e') ∧
      (∀ e, (r.classpath roots).1 = .error e → ¬ e.Unplaced) ∧
      ∀ x, (r.classpath roots).1 = .ok x →
        r.resolve (RootKey.ofRoots roots).toList = .ok x.resolution ∧
        List.Forall₂ Entry.LiesAt x.resolution.entries x.classpath := by
  refine ⟨fun scopes roots y reached => ?_, fun roots absent => ⟨classpath_error_iff absent, ?_, ?_⟩⟩
  · obtain ⟨cp, assembled⟩ := MemoryStore.exists_assemble_of_reached online reached
    exact ⟨cp, assembled, MemoryStore.forall₂_of_assemble assembled⟩
  · intro e failed
    obtain ⟨e', resolved, rfl⟩ := (classpath_error_iff absent e).mp failed
    exact MemoryStore.not_unplaced_of_resolve online resolved
  · intro x answered
    obtain ⟨key, fresh⟩ := fresh_of_absent absent answered
    exact ⟨key ▸ fresh.resolution, MemoryStore.forall₂_of_assemble fresh.classpath⟩

open Sample in
/-- A run that failed at `lib`, and a classpath of two versions of `core`. -/
theorem classpath_assembled_sample :
    (∃ cp, Classpath.assemble gappy aroundLib.entries = .ok cp ∧
      List.Forall₂ Entry.LiesAt aroundLib.entries cp) ∧
    ∃ x, (shelf.classpath [nextCore, core]).1 = .ok x ∧
      List.Forall₂ Entry.LiesAt [⟨core, 0, .jar, none⟩] x.classpath := by
  obtain ⟨assembled, -⟩ := classpath_assembled (r := .new gappy .default) rfl
  obtain ⟨-, answered⟩ := classpath_assembled (r := shelf) rfl
  obtain ⟨fails, -, succeeds⟩ := answered [nextCore, core] rfl
  refine ⟨assembled .runtimeSet [lib, core] aroundLib (.inr ⟨_, outcome_gappy⟩), ?_⟩
  cases answer : (shelf.classpath [nextCore, core]).1 with
  | error e =>
    obtain ⟨e', failed, -⟩ := (fails e).mp answer
    cases failed.symm.trans resolve_key_of_cores
  | ok x =>
    obtain ⟨resolved, places⟩ := succeeds x answer
    rw [resolve_key_of_cores, Except.ok.injEq] at resolved
    rw [← resolved] at places
    exact ⟨x, rfl, places⟩

end Repository

end Depot
