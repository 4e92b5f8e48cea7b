import Depot.Proofs.Store.Existence
import Depot.Proofs.Store.Isolation

/-!
# Packages do not share paths

A path tells the group and the artifact that it belongs to, and the version as well unless it is
that of metadata. Metadata cannot be taken for a file of a version, since the name of such a file
has a hyphen and that of metadata has none. So whatever is written for one package, all files of
other packages are read as before.
-/

namespace Depot

namespace Layout

/-- What may lie in one place: metadata of one artifact, or anything else of one version. -/
structure SamePackage (c c' : Coordinate) (kind kind' : Option Kind) : Prop where
  group : c.group = c'.group
  artifact : c.artifact = c'.artifact
  version : (kind = some .metadata ∧ kind' = some .metadata) ∨
    (kind ≠ some .metadata ∧ kind' ≠ some .metadata ∧ c.version = c'.version)

variable {c c' : Coordinate} {kind kind' : Kind} {g g' : Option Signature} {dir : List String}
  {name name' : String}

theorem versioned_iff : kind.versioned = true ↔ kind ≠ .metadata := by
  cases kind <;> simp [Kind.versioned]

theorem samePackage_of_versionSegments {kind kind' : Option Kind}
    (h : versionSegments c = versionSegments c') (versioned : kind ≠ some .metadata)
    (versioned' : kind' ≠ some .metadata) : SamePackage c c' kind kind' := by
  obtain ⟨directory, version⟩ := List.append_inj' h rfl
  obtain ⟨group, artifact⟩ := eq_of_artifactSegments directory
  exact ⟨group, artifact, .inr ⟨versioned, versioned', List.singleton_inj.mp version⟩⟩

theorem home_eq (placed : place c (some kind) g = .ok ⟨dir ++ [name], false⟩) :
    home c kind = dir := by
  have at_path : path c (some kind) g = .ok (Place.mk (dir ++ [name]) false).path := by
    rw [path, placed]
    rfl
  obtain ⟨last, placed', -⟩ := exists_place_of_path at_path
  have same := placed'.symm.trans placed
  simp only [Except.ok.injEq, Place.mk.injEq, and_true] at same
  exact (List.append_inj' same rfl).1

/-- A hyphen stands between the artifact and the version. -/
theorem hyphen_mem_iff (placed : place c (some kind) g = .ok ⟨dir ++ [name], false⟩) :
    '-' ∈ name.toList ↔ kind.versioned = true := by
  have last : ∀ {ss : List String} {file : String},
      (⟨ss ++ [file], false⟩ : Place) = ⟨dir ++ [name], false⟩ → file = name := by
    intro ss file same
    simp only [Place.mk.injEq, and_true] at same
    exact List.singleton_inj.mp (List.append_inj' same rfl).2
  have versioned : ∀ {ss : List String} {z : String},
      (⟨ss ++ [signed (baseName c ++ z) g], false⟩ : Place) = ⟨dir ++ [name], false⟩ →
      '-' ∈ name.toList := by
    intro ss z same
    rw [← last same]
    apply mem_signed
    rw [String.toList_append]
    exact List.mem_append_left _ (hyphen_mem_baseName c)
  cases kind with
  | jar | source => exact iff_of_true (versioned (Except.ok.inj placed)) rfl
  | other e =>
    simp only [place, String.append_assoc] at placed
    split at placed
    · exact iff_of_true (versioned (Except.ok.inj placed)) rfl
    · cases placed
  | manifest =>
    refine iff_of_true ?_ rfl
    rw [← last (Except.ok.inj placed)]
    exact mem_signed (by simp [manifestName]) g
  | metadata =>
    refine iff_of_false ?_ (by decide)
    rw [← last (Except.ok.inj placed)]
    cases g with
    | none => decide
    | some g => cases g <;> decide

/-- Files in one directory are of one package if their names tell alike whether they are of a
version. -/
theorem samePackage_of_place (placed : place c (some kind) g = .ok ⟨dir ++ [name], false⟩)
    (placed' : place c' (some kind') g' = .ok ⟨dir ++ [name'], false⟩)
    (alike : '-' ∈ name.toList ↔ '-' ∈ name'.toList) :
    SamePackage c c' (some kind) (some kind') := by
  rw [hyphen_mem_iff placed, hyphen_mem_iff placed', versioned_iff, versioned_iff] at alike
  have together : home c kind = home c' kind' := (home_eq placed).trans (home_eq placed').symm
  by_cases metadata : kind = .metadata
  · obtain rfl := metadata
    obtain rfl : kind' = .metadata := by simpa using alike
    obtain ⟨group, artifact⟩ := eq_of_artifactSegments together
    exact ⟨group, artifact, .inl ⟨rfl, rfl⟩⟩
  · have metadata' := alike.mp metadata
    rw [home, home, if_pos (versioned_iff.mpr metadata), if_pos (versioned_iff.mpr metadata')]
      at together
    exact samePackage_of_versionSegments together (by simpa using metadata) (by simpa using metadata')

theorem samePackage_of_path {kind kind' : Option Kind} {p : String} (h : path c kind g = .ok p)
    (h' : path c' kind' g' = .ok p) : SamePackage c c' kind kind' := by
  obtain ⟨q, placed, -⟩ := exists_place h
  have placed' : place c' kind' g' = .ok q := (place_eq_of_path_eq h h').symm.trans placed
  have sort : kind.isNone = kind'.isNone :=
    (directory_place placed).symm.trans (directory_place placed')
  cases kind with
  | none =>
    obtain rfl : kind' = none := by simpa using sort
    cases placed
    exact samePackage_of_versionSegments (congrArg Place.segments (Except.ok.inj placed')).symm
      (by simp) (by simp)
  | some kind =>
    obtain ⟨kind', rfl⟩ := Option.isSome_iff_exists.mp (show kind'.isSome = true by simpa using sort)
    obtain ⟨name, named, -⟩ := exists_place_of_path h
    cases placed.symm.trans named
    exact samePackage_of_place placed placed' Iff.rfl

/-- The name under which a file is written first is in no other package either. -/
theorem samePackage_of_side {p : String} (h : path c (some kind) g = .ok p)
    (h' : path c' (some kind') g' = .ok (p ++ ".part")) :
    SamePackage c c' (some kind) (some kind') := by
  obtain ⟨name, placed, rfl⟩ := exists_place_of_path h
  rw [Place.path_append] at h'
  obtain ⟨q, placed', at_path⟩ := exists_place h'
  have parts : ∀ s ∈ home c kind ++ [name ++ ".part"], IsPart s :=
    Place.isPart_side (isPart_place placed)
  cases Place.path_injective (fun s hs => .of_part (parts s hs)) (isSegment_place placed') at_path
  refine samePackage_of_place placed placed' ?_
  simp

end Layout

namespace ArtifactStore

/-- A write through a locator of a file leaves the files of all other packages as they are. -/
def SparesOthers {σ : Type} [ArtifactStore σ] (s : σ) (c : Coordinate) (kind : Kind) (l : Locator) :
    Prop :=
  ∀ b c' kind' g' l', locate s c' (some kind') g' = .ok l' →
    ¬ Layout.SamePackage c c' (some kind) (some kind') →
    ∀ x, read (write s l b).2 l' = .ok x ↔ read s l' = .ok x

end ArtifactStore

section

variable {c : Coordinate} {kind : Kind} {g : Option Signature} {l : Locator}

theorem MemoryStore.sparesOthers {s : MemoryStore} (at_path : Layout.path c (some kind) g = .ok l.path) :
    ArtifactStore.SparesOthers s c kind l := by
  intro b c' kind' g' l' located apart x
  obtain ⟨-, at_path', -, -⟩ := path_of_locate located
  have elsewhere : l'.path ≠ l.path := fun here =>
    apart (Layout.samePackage_of_path at_path (here ▸ at_path'))
  have same : (ArtifactStore.write s l b).2.available = s.available ∧
      (ArtifactStore.write s l b).2.contents.find? l'.path = s.contents.find? l'.path := by
    change (s.write l b).2.available = _ ∧ (s.write l b).2.contents.find? _ = _
    unfold write
    split
    · exact ⟨rfl, Contents.find?_insert_of_ne elsewhere b s.contents⟩
    · exact ⟨rfl, rfl⟩
  rw [read_congr same.1 same.2]

theorem FileStore.sparesOthers {s : FileStore} (tree : s.tree.IsTree) (filed : l.scheme = scheme)
    (writable : l.writable = true) (at_path : Layout.path c (some kind) g = .ok l.path) :
    ArtifactStore.SparesOthers s c kind l := by
  intro b c' kind' g' l' located apart
  obtain ⟨filed', -, at_path'⟩ := locator_eq_ok located
  obtain ⟨dir, name, here, parts⟩ := Layout.exists_segments_path at_path
  by_cases there : ∃ r, s.tree.entry s.root = .ok (r, .directory)
  · obtain ⟨r, rooted⟩ := there
    obtain ⟨same, written⟩ := write_written rooted filed writable here parts (rfl : s.write l b = _)
    refine readsAlike [dir ++ [name], dir ++ [name ++ ".part"]] tree rooted same written.changes
      ⟨filed', c', kind', g', at_path'⟩ ?_
    rw [List.forall_mem_cons, List.forall_mem_singleton, ← here, ← Place.path_append, ← here]
    exact ⟨fun h => apart (Layout.samePackage_of_path at_path (h ▸ at_path')),
      fun h => apart (Layout.samePackage_of_side at_path (h ▸ at_path'))⟩
  · obtain ⟨e, unchanged⟩ := write_refused (l := l) (b := b) there
    intro x
    change (s.write l b).2.read l' = _ ↔ _
    rw [unchanged]
    exact Iff.rfl

end

/-- Different packages have different paths, signatures included. So the path of a manifest is that
of one version, and a write to either store, through whatever locator was obtained for it, is not
noticed by any file of another package. -/
theorem Layout.packages_apart :
    (∀ (c c' : Coordinate) (kind kind' : Option Kind) (g g' : Option Signature) (p : String),
      path c kind g = .ok p → path c' kind' g' = .ok p → SamePackage c c' kind kind') ∧
    (∀ c c' : Coordinate, path c (some .manifest) none = path c' (some .manifest) none ↔
      c.group = c'.group ∧ c.artifact = c'.artifact ∧ c.version = c'.version) ∧
    (∀ (s₀ s : MemoryStore) (c : Coordinate) (kind : Kind) (g : Option Signature) (l : Locator),
      (ArtifactStore.prepare s₀ c (some kind) g).1 = .ok l →
        ArtifactStore.SparesOthers s c kind l) ∧
    (∀ (s₀ s : FileStore) (c : Coordinate) (kind : Kind) (g : Option Signature) (l : Locator),
      (ArtifactStore.prepare s₀ c (some kind) g).1 = .ok l → s.tree.IsTree →
        ArtifactStore.SparesOthers s c kind l) := by
  refine ⟨fun c c' kind kind' g g' p => samePackage_of_path, fun c c' => ?_, ?_, ?_⟩
  · constructor
    · intro same
      have package := samePackage_of_path (path_manifest c) (same ▸ path_manifest c)
      obtain ⟨metadata, -⟩ | ⟨-, -, version⟩ := package.version
      · cases metadata
      · exact ⟨package.group, package.artifact, version⟩
    · rintro ⟨group, artifact, version⟩
      have same : c.manifestOf = c'.manifestOf := Coordinate.ext group artifact version rfl
      change path c.manifestOf (some .manifest) none = path c'.manifestOf (some .manifest) none
      rw [same]
  · intro s₀ s c kind g l located
    exact MemoryStore.sparesOthers (MemoryStore.path_of_locate located).2.1
  · intro s₀ s c kind g l located tree
    obtain ⟨filed, writable, at_path⟩ := FileStore.locator_eq_ok (FileStore.locator_of_prepare located)
    exact FileStore.sparesOthers tree filed writable at_path

open Sample in
/-- The directory of `app` is also that of an artifact whose group goes on with `app`. The metadata of
that artifact has a name of its own in it, and to store a jar below it leaves the files of `app` as
they are. -/
theorem Layout.packages_apart_sample :
    path nested (some .metadata) none = .ok "/org/demo/app/1/metadata.toml" ∧
    (∀ kind g, path app kind g ≠ .ok "/org/demo/app/1/metadata.toml") ∧
    (ArtifactStore.prepare cabinet nested (some .jar) none).1 =
      .ok ⟨"file", "/org/demo/app/1/2/1-2.jar", true⟩ ∧
    (cabinet.write ⟨"file", "/org/demo/app/1/2/1-2.jar", true⟩ [2]).2.read
      ⟨"file", "/org/demo/app/1/app-1.jar.part", false⟩ = .ok [1] ∧
    ((stocked "/org/demo/app/1/app-1.jar").write ⟨"mem", "/org/demo/app/1/2/1-2.jar", true⟩ [2]).2.read
      ⟨"mem", "/org/demo/app/1/app-1.jar", false⟩ = .ok [] := by
  have apart : ∀ {kind kind'}, ¬ SamePackage nested app kind kind' := fun same =>
    absurd same.group (by decide)
  have metadata : path nested (some .metadata) none = .ok "/org/demo/app/1/metadata.toml" := by rfl
  have prepared : (ArtifactStore.prepare cabinet nested (some .jar) none).1 =
      .ok ⟨"file", "/org/demo/app/1/2/1-2.jar", true⟩ := by decide +kernel
  obtain ⟨unshared, -, memory, file⟩ := packages_apart
  refine ⟨metadata, fun kind g same => ?_, prepared, ?_, ?_⟩
  · exact apart (unshared nested app _ kind _ g _ metadata same)
  · refine (file cabinet cabinet nested .jar none _ prepared isTree_cabinet [2] app
      (.other "jar.part") none _ ?_ apart [1]).mpr ?_ <;> decide +kernel
  · exact (memory .empty (stocked "/org/demo/app/1/app-1.jar") nested .jar none _ rfl [2] app .jar none
      _ rfl apart []).mpr rfl

end Depot
