import Depot.Store.File
import Depot.Proofs.Resolution.Table
import Depot.Proofs.Tree.Lookup

/-!
# Paths stay in the store

Whatever coordinate, kind and signature a path is made of, each of its segments leads one level
down. So a file store that joins them to its directory gets a place strictly below it.
-/

namespace Depot

open Text

/-- What a part cannot be and cannot have in it. -/
theorem IsPart.leads_down {s : String} (h : IsPart s) : s ≠ "" ∧ s ≠ "." ∧ s ≠ ".." ∧
    ∀ x ∈ s.toList, x ≠ '/' ∧ x ≠ '\\' ∧ isBlank x = false := by
  refine ⟨h.nonempty, h.not_relative.1, h.not_relative.2, fun x hx => ?_⟩
  have separates := List.any_eq_false.mp h.no_separator x hx
  have blank := List.any_eq_false.mp h.no_blank x hx
  simp only [isSeparator, Bool.or_eq_true, beq_iff_eq, not_or] at separates
  exact ⟨separates.1.2, separates.2, Bool.eq_false_iff.mpr blank⟩

theorem Place.not_endsWith_slash {q : Place} {dir : List String} {name : String}
    (segments : ∀ t ∈ q.segments, IsSegment t) (last : q.segments = dir ++ [name])
    (file : q.directory = false) : endsWith q.path "/" = false := by
  have pieces : split '/' q.path = ("" :: dir) ++ [name] := by
    rw [split_path segments, Place.pieces, file, last]
    simp
  exact Path.not_endsWith_slash pieces (segments name (by simp [last])).nonempty

namespace Layout

variable {c : Coordinate} {kind : Option Kind} {g : Option Signature} {p : String}

/-- Only the directory of a version is asked for without a kind. -/
theorem directory_place {q : Place} (h : place c kind g = .ok q) : q.directory = kind.isNone := by
  unfold place at h
  split at h
  all_goals try cases h; rfl
  split at h
  · cases h
    rfl
  · cases h

/-- Every place has a last segment. -/
theorem exists_segments_place {q : Place} (h : place c kind g = .ok q) :
    ∃ dir name, q.segments = dir ++ [name] := by
  unfold place at h
  split at h
  all_goals try cases h; exact ⟨_, _, rfl⟩
  split at h
  · cases h
    exact ⟨_, _, rfl⟩
  · cases h

/-- Only the path of a directory ends in a slash. -/
theorem not_endsWith_slash {kind : Kind} (h : path c (some kind) g = .ok p) :
    endsWith p "/" = false := by
  obtain ⟨q, placed, rfl⟩ := exists_place h
  obtain ⟨dir, name, last⟩ := exists_segments_place placed
  exact Place.not_endsWith_slash (isSegment_place placed) last (directory_place placed)

end Layout

namespace FileStore

variable {s : FileStore} {q : Place}

/-- The segments of a place are joined to the directory of the store, none left out. -/
theorem resolvePath_place (segments : ∀ t ∈ q.segments, IsSegment t) (writable : Bool) :
    s.resolvePath ⟨scheme, q.path, writable⟩ = .ok (q.segments.foldl Path.join s.root) := by
  have kept : (q.pieces.filter (· ≠ "")) = q.segments := by
    have whole : q.segments.filter (· ≠ "") = q.segments :=
      List.filter_eq_self.mpr fun t ht => by simpa using (segments t ht).nonempty
    unfold Place.pieces
    rw [List.filter_append, whole]
    cases q.directory <;> simp
  rw [resolvePath, if_pos rfl, Place.split_path segments,
    List.filter_cons_of_neg (by simp), kept]

end FileStore

/-- No path of the layout leads out of a store. It is absolute, all that its slashes separate are
segments that lead one level down, and a file store makes of it the path of its own directory
followed by these segments, none left out. Wherever that path leads, it leads strictly below the
directory of the store. -/
theorem Layout.contained {c : Coordinate} {kind : Option Kind} {g : Option Signature} {p : String}
    (h : path c kind g = .ok p) :
    startsWith p "/" = true ∧ ∃ segments : List String, segments ≠ [] ∧
      split '/' p = "" :: segments ++ (if kind = none then [""] else []) ∧
      (∀ s ∈ segments, s ≠ "" ∧ s ≠ "." ∧ s ≠ ".." ∧
        ∀ x ∈ s.toList, x ≠ '/' ∧ x ≠ '\\' ∧ isBlank x = false) ∧
      ∀ (store : FileStore) (writable : Bool), ∃ q,
        store.resolvePath ⟨FileStore.scheme, p, writable⟩ = .ok q ∧
        Path.isAbsolute q = Path.isAbsolute store.root ∧
        Path.names q = Path.names store.root ++ segments ∧
        ∀ root, store.tree.entry store.root = .ok (root, .directory) →
          ∀ there, store.tree.locate q = .ok there → there = root ++ segments := by
  obtain ⟨q, placed, rfl⟩ := exists_place h
  obtain ⟨dir, name, last⟩ := exists_segments_place placed
  have parts := isPart_place placed
  have segments := isSegment_place placed
  refine ⟨?_, q.segments, ?_, ?_, fun s hs => (parts s hs).leads_down, fun store writable => ?_⟩
  · obtain ⟨t, rest, first⟩ := List.exists_cons_of_ne_nil
      (show q.pieces ≠ [] by simp [Place.pieces, last])
    simp [startsWith, Place.toList_path, first]
  · simp [last]
  · rw [Place.split_path segments, Place.pieces, directory_place placed]
    cases kind <;> rfl
  · refine ⟨_, FileStore.resolvePath_place segments writable, Path.isAbsolute_joinAll _ segments,
      Path.names_joinAll _ segments, fun root rooted there located => ?_⟩
    have resolved : q.segments.foldl Path.join store.root = FileTree.below store.root dir name := by
      rw [last, List.foldl_append]
      rfl
    rw [resolved, FileTree.locate_below rooted (last ▸ segments), ← last] at located
    obtain ⟨_, -, walked⟩ := exists_ok_of_bind located
    exact (FileTree.walk_names (fun s hs => (parts s hs).isName) walked).1

open Sample in
/-- The signature of an archive, and where it lies in a store. -/
theorem Layout.contained_sample :
    path app (some (.other "tar.gz")) (some .pgp) = .ok "/org/demo/app/1/app-1.tar.gz.asc" ∧
    (FileStore.mk "/store" .empty).resolvePath
      ⟨FileStore.scheme, "/org/demo/app/1/app-1.tar.gz.asc", true⟩ =
        .ok "/store/org/demo/app/1/app-1.tar.gz.asc" ∧
    ∃ segments, segments ≠ [] ∧
      Path.names "/store/org/demo/app/1/app-1.tar.gz.asc" = Path.names "/store" ++ segments := by
  have placed : path app (some (.other "tar.gz")) (some .pgp) =
      .ok "/org/demo/app/1/app-1.tar.gz.asc" := by rfl
  have resolved : (FileStore.mk "/store" .empty).resolvePath
      ⟨FileStore.scheme, "/org/demo/app/1/app-1.tar.gz.asc", true⟩ =
        .ok "/store/org/demo/app/1/app-1.tar.gz.asc" := by rfl
  obtain ⟨-, segments, some, -, -, inside⟩ := contained placed
  obtain ⟨q, made, -, names, -⟩ := inside ⟨"/store", .empty⟩ true
  cases resolved.symm.trans made
  exact ⟨placed, resolved, segments, some, names⟩

end Depot
