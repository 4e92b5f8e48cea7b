import Depot.Proofs.Resolution.Table
import Depot.Proofs.Store.Manifests
import Depot.Proofs.Store.Probe

/-!
# Existence in a memory store

A version is there if anything lies in its directory. But files of another coordinate may lie further
down in the same directory, when its group goes on with the artifact and the version that are asked
for, and these are found as well.
-/

namespace Depot

open Text

/-! ### Files in directories -/

theorem splitOn_flatMap_cons_append {sep : Char} (cs : List Char) (ds : List (List Char))
    (rest : List Char) (hc : sep ∉ cs) (hd : ∀ d ∈ ds, sep ∉ d) :
    (cs ++ ds.flatMap (sep :: ·) ++ sep :: rest).splitOn sep = cs :: ds ++ rest.splitOn sep := by
  induction ds generalizing cs with
  | nil => simpa using List.splitOn_append_cons_self_of_not_mem hc rest
  | cons d ds ih =>
    rw [List.flatMap_cons, List.cons_append, List.append_assoc, List.cons_append,
      List.splitOn_append_cons_self_of_not_mem hc,
      ih d (hd d List.mem_cons_self) fun e he => hd e (List.mem_cons_of_mem d he)]
    rfl

/-- A file lies in a directory, or further down in it, if its segments begin with the directory's
and go on. -/
theorem Place.startsWith_path {dirs segments : List String} {name : String}
    (hd : ∀ s ∈ dirs, IsSegment s) (hs : ∀ s ∈ segments ++ [name], IsSegment s) :
    startsWith (Place.mk (segments ++ [name]) false).path (Place.mk dirs true).path = true ↔
      dirs <+: segments := by
  rw [startsWith_iff]
  constructor
  · rintro ⟨rest, whole⟩
    have pieces : split '/' (Place.mk (segments ++ [name]) false).path =
        "" :: dirs ++ split '/' (String.ofList rest) := by
      have clean : ∀ cs ∈ dirs.map String.toList, '/' ∉ cs := by
        intro cs hc
        obtain ⟨s, hs, rfl⟩ := List.mem_map.mp hc
        exact (hd s hs).no_slash
      have parts := splitOn_flatMap_cons_append [] (dirs.map String.toList) rest (by simp) clean
      rw [split, ← whole, toList_path]
      simp only [Place.pieces, if_true, List.map_append, List.map_singleton, List.flatMap_append,
        List.flatMap_singleton, List.append_assoc, List.nil_append, List.cons_append] at parts ⊢
      rw [show "".toList = [] from rfl, List.nil_append, parts]
      simp [split]
    rw [split_path hs] at pieces
    simp only [Place.pieces, Bool.false_eq_true, if_false, List.append_nil, List.cons_append,
      List.cons.injEq, true_and] at pieces
    have below : dirs <+: segments ++ [name] := ⟨_, pieces.symm⟩
    refine (List.prefix_concat_iff.mp below).resolve_left ?_
    rintro rfl
    have none := List.append_right_eq_self.mp pieces.symm
    simp [split] at none
  · rintro ⟨more, rfl⟩
    obtain ⟨s, rest, last⟩ := List.exists_cons_of_ne_nil (List.append_ne_nil_of_right_ne_nil more
      (List.cons_ne_nil name []))
    simp only [toList_path, pieces, Bool.false_eq_true, if_false, if_true, List.append_nil,
      List.map_append, List.flatMap_append, List.append_assoc]
    refine (List.prefix_append_right_inj _).mpr ?_
    rw [← List.flatMap_append, ← List.map_append, last]
    simp

namespace Layout

/-- The directory in which a file lies. -/
def home (c : Coordinate) (kind : Kind) : List String :=
  if kind.versioned then versionSegments c else artifactSegments c

variable {c c' : Coordinate} {kind : Kind} {g : Option Signature} {p : String}

theorem exists_place_of_path (h : path c (some kind) g = .ok p) : ∃ name,
    place c (some kind) g = .ok ⟨home c kind ++ [name], false⟩ ∧
      p = (Place.mk (home c kind ++ [name]) false).path := by
  have lies : ∀ q, place c (some kind) g = .ok q → ∃ name, q = ⟨home c kind ++ [name], false⟩ := by
    intro q hq
    cases kind with
    | jar | source | manifest | metadata =>
      cases hq
      exact ⟨_, rfl⟩
    | other e =>
      simp only [place] at hq
      split at hq
      · cases hq
        exact ⟨_, rfl⟩
      · cases hq
  obtain ⟨q, placed, rfl⟩ := exists_place h
  obtain ⟨name, rfl⟩ := lies q placed
  exact ⟨name, placed, rfl⟩

theorem versionSegments_congr (h : c.manifestOf = c'.manifestOf) :
    versionSegments c = versionSegments c' := by
  have same : versionSegments c.manifestOf = versionSegments c'.manifestOf := by rw [h]
  exact same

/-- A file that lies in the directory of a version or below is one of the version itself, or of a
coordinate whose own directory is there. -/
theorem versionSegments_prefix_home : versionSegments c <+: home c' kind ↔
    (kind.versioned = true ∧ c'.manifestOf = c.manifestOf) ∨
      versionSegments c <+: artifactSegments c' := by
  unfold home
  by_cases versioned : kind.versioned = true
  · rw [if_pos versioned, versionSegments.eq_1 c', List.prefix_concat_iff]
    refine or_congr_left ?_
    rw [← versionSegments.eq_1 c']
    constructor
    · exact fun same => ⟨versioned, (manifestOf_eq_of_versionSegments same).symm⟩
    · exact fun same => versionSegments_congr same.2.symm
  · simp [versioned]

theorem startsWith_path (h : path c' (some kind) g = .ok p) :
    startsWith p (Place.mk (versionSegments c) true).path = true ↔
      (kind.versioned = true ∧ c'.manifestOf = c.manifestOf) ∨
        versionSegments c <+: artifactSegments c' := by
  obtain ⟨name, placed, rfl⟩ := exists_place_of_path h
  rw [Place.startsWith_path (isSegment_versionSegments c) (isSegment_place placed),
    versionSegments_prefix_home]

end Layout

namespace MemoryStore

/-- What is written: a file of a coordinate or a signature of one. -/
structure Write where
  coordinate : Coordinate
  kind : Kind
  signature : Option Signature
  bytes : Bytes

/-- A write through a locator that is obtained for it. -/
def put (s : MemoryStore) (w : Write) : Except StoreError MemoryStore := do
  let l ← s.locate w.coordinate (some w.kind) w.signature true
  match s.write l w.bytes with
  | (.ok (), t) => .ok t
  | (.error e, _) => .error e

def puts (s : MemoryStore) (ws : List Write) : Except StoreError MemoryStore := ws.foldlM put s

def Write.path (w : Write) : Except LayoutFault String :=
  Layout.path w.coordinate (some w.kind) w.signature

variable {s t : MemoryStore} {w : Write} {ws : List Write}

/-- A write that succeeds puts one path in. -/
theorem paths_put (h : s.put w = .ok t) : t.available = s.available ∧ ∃ path, w.path = .ok path ∧
    ∀ p, p ∈ t.contents.paths ↔ p = path ∨ p ∈ s.contents.paths := by
  obtain ⟨l, located, h⟩ := exists_ok_of_bind h
  obtain ⟨-, path, -, -⟩ := path_of_locate located
  unfold write at h
  cases checked : s.checkWrite l with
  | ok =>
    simp only [checked, Except.ok.injEq] at h
    subst h
    exact ⟨rfl, _, path, fun p => Contents.mem_paths_insert⟩
  | error e => simp [checked] at h

theorem paths_puts (h : s.puts ws = .ok t) : t.available = s.available ∧
    (∀ w ∈ ws, ∃ p, w.path = .ok p) ∧
    ∀ p, p ∈ t.contents.paths ↔ p ∈ s.contents.paths ∨ ∃ w ∈ ws, w.path = .ok p := by
  induction ws generalizing s with
  | nil =>
    cases h
    simp
  | cons w ws ih =>
    obtain ⟨u, first, rest⟩ := exists_ok_of_bind h
    obtain ⟨same, path, at_path, added⟩ := paths_put first
    obtain ⟨same', have_paths, added'⟩ := ih rest
    refine ⟨same'.trans same, ?_, fun p => ?_⟩
    · rintro v (_ | ⟨_, hv⟩)
      · exact ⟨path, at_path⟩
      · exact have_paths v hv
    · have here : w.path = .ok p ↔ p = path := by
        rw [at_path, Except.ok.injEq, eq_comm]
      simp only [added', added, List.exists_mem_cons_iff, here]
      tauto

theorem directory_path (segments : List String) (writable : Bool) :
    (Locator.mk scheme (Place.mk segments true).path writable).directory = true := by
  unfold Locator.directory endsWith Place.path
  simp [List.suffix_append]

/-- A version is found if its directory is the beginning of a stored path. -/
theorem exists_of_available (online : s.available = true) (c : Coordinate) :
    ∃ found, ArtifactStore.exists s c = .ok found ∧
      (found = true ↔ ∃ p ∈ s.contents.paths,
        startsWith p (Place.mk (Layout.versionSegments c) true).path = true) := by
  refine ⟨s.holds ⟨scheme, (Place.mk (Layout.versionSegments c) true).path, false⟩, ?_,
    (holds_iff (directory_path _ _)).trans Contents.startsWith_firstFrom?⟩
  change (s.locate c none none false >>= fun l => s.hasContent l) = _
  simp only [locate, hasContent, MemoryStore.online, online, if_true, locator, Layout.path,
    Layout.place, owned, Except.map]
  rfl

/-- After any writes to an empty store, `exists` answers for every coordinate, and it tells whether
anything of the version was written, or a file of a coordinate whose group goes on with the artifact
and the version that are asked for. -/
theorem exists_after_writes (stored : empty.puts ws = .ok s) (c : Coordinate) :
    ∃ found, ArtifactStore.exists s c = .ok found ∧
      (found = true ↔ ∃ w ∈ ws,
        (w.kind.versioned = true ∧ w.coordinate.manifestOf = c.manifestOf) ∨
          Layout.versionSegments c <+: Layout.artifactSegments w.coordinate) := by
  obtain ⟨same, have_paths, paths⟩ := paths_puts stored
  obtain ⟨found, answer, probe⟩ := exists_of_available (s := s) (same.trans rfl) c
  refine ⟨found, answer, probe.trans ?_⟩
  constructor
  · rintro ⟨p, hp, starts⟩
    rcases (paths p).mp hp with none | ⟨w, hw, at_path⟩
    · cases none
    · exact ⟨w, hw, (Layout.startsWith_path at_path).mp starts⟩
  · rintro ⟨w, hw, near⟩
    obtain ⟨p, at_path⟩ := have_paths w hw
    exact ⟨p, (paths p).mpr (.inr ⟨w, hw, at_path⟩), (Layout.startsWith_path at_path).mpr near⟩

end MemoryStore

namespace Sample

/-- A package whose group goes on with what names `app`. -/
def nested : Coordinate :=
  ⟨"org.demo.app", "1", "2", none, by decide +kernel, app.version_ok, nextApp.version_ok,
    unclassified⟩

def jar (c : Coordinate) : MemoryStore.Write := ⟨c, .jar, none, []⟩

def stocked (p : String) : MemoryStore := ⟨Contents.empty.insert p [], true⟩

end Sample

open Sample in
theorem MemoryStore.exists_after_writes_sample :
    empty.puts [jar lib] = .ok (stocked "/org/demo/lib/1/lib-1.jar") ∧
    ArtifactStore.exists (stocked "/org/demo/lib/1/lib-1.jar") lib = .ok true ∧
    ArtifactStore.exists (stocked "/org/demo/lib/1/lib-1.jar") app = .ok false := by
  have stored : empty.puts [jar lib] = .ok (stocked "/org/demo/lib/1/lib-1.jar") := by rfl
  obtain ⟨found, answer, there⟩ := exists_after_writes stored lib
  obtain ⟨found', answer', there'⟩ := exists_after_writes stored app
  refine ⟨stored, ?_, ?_⟩
  · rw [answer, there.mpr ⟨_, List.mem_singleton_self _, .inl ⟨rfl, rfl⟩⟩]
  · have absent : ¬ found' = true := by
      rw [there']
      decide +kernel
    rw [answer', Bool.eq_false_of_not_eq_true absent]

open Sample in
/-- A version is found although nothing of it was written. -/
theorem MemoryStore.exists_of_nested :
    empty.puts [jar nested] = .ok (stocked "/org/demo/app/1/2/1-2.jar") ∧
    (∀ w ∈ [jar nested], w.coordinate.manifestOf ≠ app.manifestOf) ∧
    ArtifactStore.exists (stocked "/org/demo/app/1/2/1-2.jar") app = .ok true := by
  refine ⟨rfl, by decide +kernel, rfl⟩

end Depot
