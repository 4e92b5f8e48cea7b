import Depot.Repository
import Depot.Store.Memory
import Depot.Proofs.Store.Paths

/-!
# Manifests in a memory store

Which writes a manifest notices. Putting or removing a content changes one path; the manifest
of a coordinate is read from one path and nowhere else; and the place of a file depends on no
content at all.
-/

namespace Depot

/-- Entries can be left out by their keys: the others are still found. -/
theorem lookup_filter_key {α β : Type} [BEq α] [LawfulBEq α] (f : α → Bool) (k : α)
    (es : List (α × β)) :
    (es.filter fun e => f e.1).lookup k = if f k = true then es.lookup k else none := by
  induction es with
  | nil => simp
  | cons e es ih =>
    obtain ⟨i, v⟩ := e
    rw [List.filter_cons, List.lookup_cons]
    by_cases here : k = i
    · subst here
      by_cases left : f k = true <;> simp [left, ih]
    · have apart : (k == i) = false := beq_eq_false_iff_ne.mpr here
      by_cases left : f i = true <;> simp [left, apart, ih, List.lookup_cons]

namespace Contents

theorem lookup_insertList {j k : String} (h : j ≠ k) (v : Bytes) (es : List (String × Bytes)) :
    (insertList k v es).lookup j = es.lookup j := by
  have hj : (j == k) = false := beq_eq_false_iff_ne.mpr h
  induction es with
  | nil => simp [insertList, h]
  | cons e es ih =>
    obtain ⟨i, w⟩ := e
    unfold insertList
    cases hc : compare k i with
    | lt => simp [List.lookup_cons, hj]
    | eq =>
      have he := Std.LawfulEqCmp.eq_of_compare hc
      subst he
      simp [List.lookup_cons, hj]
    | gt => simp [List.lookup_cons, ih]

theorem find?_insert_self (k : String) (v : Bytes) (m : Contents) : (m.insert k v).find? k = some v := by
  unfold insert find?
  simp only
  induction m.toList with
  | nil => simp [insertList]
  | cons e es ih =>
    obtain ⟨i, w⟩ := e
    unfold insertList
    cases hc : compare k i with
    | lt | eq => simp
    | gt =>
      have apart : (k == i) = false := by
        rw [beq_eq_false_iff_ne]
        rintro rfl
        cases Std.ReflCmp.compare_self.symm.trans hc
      simp [List.lookup_cons, apart, ih]

theorem find?_insert_of_ne {j k : String} (h : j ≠ k) (v : Bytes) (m : Contents) :
    (m.insert k v).find? j = m.find? j :=
  lookup_insertList h v m.toList

theorem find?_erase_of_ne {j k : String} (h : j ≠ k) (m : Contents) :
    (m.erase k).find? j = m.find? j := by
  unfold erase find?
  rw [lookup_filter_key (· ≠ k) j m.toList]
  simp [h]

end Contents

theorem map_eq_ok {ε α β : Type} {x : Except ε α} {f : α → β} {b : β} :
    x.map f = .ok b ↔ ∃ a, x = .ok a ∧ f a = b := by
  cases x <;> simp [Except.map]

/-- A sequence of steps succeeds if its first step does and then the rest. -/
theorem bind_eq_ok {ε α β : Type} {x : Except ε α} {f : α → Except ε β} {b : β} :
    (x >>= f) = .ok b ↔ ∃ a, x = .ok a ∧ f a = .ok b := by
  cases x <;> simp [bind, Except.bind]

theorem exists_ok_of_bind {ε α β : Type} {x : Except ε α} {f : α → Except ε β} {b : β}
    (h : (x >>= f) = .ok b) : ∃ a, x = .ok a ∧ f a = .ok b := bind_eq_ok.mp h

/-- Where the manifest of a coordinate lies. -/
def Layout.manifestPath (c : Coordinate) : String :=
  (Place.mk (versionSegments c ++ [manifestName c]) false).path

theorem Layout.path_manifest (c : Coordinate) :
    path c (some .manifest) none = .ok (manifestPath c) := rfl

namespace MemoryStore

variable {s t : MemoryStore}

/-- Finding a place takes nothing but the store being online. -/
theorem locate_congr (same : s.available = t.available) (c : Coordinate) (kind : Option Kind)
    (g : Option Signature) : ArtifactStore.locate s c kind g = ArtifactStore.locate t c kind g := by
  show s.locate c kind g false = t.locate c kind g false
  simp only [locate, online, same]

theorem assemble_congr (same : s.available = t.available) (es : List Entry) :
    Classpath.assemble s es = Classpath.assemble t es := by
  induction es with
  | nil => rfl
  | cons e es ih => simp only [Classpath.assemble, Classpath.locateEntry, locate_congr same, ih]

theorem path_of_locate {c : Coordinate} {kind : Option Kind} {g : Option Signature}
    {writable : Bool} {l : Locator} (h : s.locate c kind g writable = .ok l) :
    s.online = .ok () ∧ Layout.path c kind g = .ok l.path ∧ l.scheme = scheme ∧
      l.writable = writable := by
  obtain ⟨_, online, h⟩ := exists_ok_of_bind h
  unfold locator at h
  cases hp : Layout.path c kind g with
  | error f => simp [hp] at h
  | ok p =>
    simp only [hp, Except.ok.injEq] at h
    subst h
    exact ⟨online, rfl, rfl, rfl⟩

theorem eq_of_remove {l : Locator} {found : Bool} (h : s.remove l = .ok (found, t)) :
    t = { s with contents := s.contents.erase l.path } := by
  obtain ⟨_, -, h⟩ := exists_ok_of_bind h
  obtain ⟨_, -, h⟩ := exists_ok_of_bind h
  cases h
  rfl

theorem read_congr (same : s.available = t.available) {l : Locator}
    (content : s.contents.find? l.path = t.contents.find? l.path) :
    ArtifactStore.read s l = ArtifactStore.read t l := by
  show s.read l = t.read l
  simp only [read, online, same, content]

/-- The manifest of a coordinate is read from one path. -/
theorem fetch_congr (same : s.available = t.available) {c : Coordinate}
    (content : s.contents.find? (Layout.manifestPath c) = t.contents.find? (Layout.manifestPath c)) :
    (ArtifactStore.catalog s).fetch c = (ArtifactStore.catalog t).fetch c := by
  simp only [ArtifactStore.catalog, ArtifactStore.catalogVia, ArtifactStore.fetchVia,
    ArtifactStore.manifestLocator, locate_congr same]
  cases hl : ArtifactStore.locate t c.manifestOf (some .manifest) none with
  | error e => rfl
  | ok l =>
    have hp : Layout.path c.manifestOf (some .manifest) none = .ok l.path := (path_of_locate hl).2.1
    rw [Layout.path_manifest, Except.ok.injEq] at hp
    simp only [ArtifactStore.fetchAt, read_congr same (hp ▸ content)]

/-- Contents with one path put in or taken out hold the manifests that lie elsewhere. -/
theorem fetch_insert {c x : Coordinate} {kind : Kind} {p : String}
    (hp : Layout.path c (some kind) none = .ok p)
    (apart : ¬ (Layout.IsManifestFile c kind ∧ c.manifestOf = x.manifestOf)) (b : Bytes) :
    (ArtifactStore.catalog { s with contents := s.contents.insert p b }).fetch x =
      (ArtifactStore.catalog s).fetch x := by
  have other : Layout.manifestPath x ≠ p := by
    rintro rfl
    exact apart (Layout.isManifestFile_of_path hp (Layout.path_manifest x))
  apply fetch_congr
  · rfl
  · exact Contents.find?_insert_of_ne other b s.contents

theorem fetch_erase {c x : Coordinate} (apart : c.manifestOf ≠ x.manifestOf) :
    (ArtifactStore.catalog { s with contents := s.contents.erase (Layout.manifestPath c) }).fetch x =
      (ArtifactStore.catalog s).fetch x := by
  have other : Layout.manifestPath x ≠ Layout.manifestPath c := fun h =>
    apart (Layout.isManifestFile_of_path (Layout.path_manifest c) (h ▸ Layout.path_manifest x)).2
  apply fetch_congr
  · rfl
  · exact Contents.find?_erase_of_ne other s.contents

end MemoryStore

end Depot
