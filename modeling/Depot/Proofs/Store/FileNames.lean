import Mathlib.Data.String.Basic
import Depot.Proofs.Cache.Writes
import Depot.Proofs.Store.Packages
import Depot.Proofs.Text.Kinds

/-!
# File names of one version

What follows the version in the name of a file is the classifier, the suffix of sources and the
extension, with hyphens and dots between them. Both may stand in a classifier and in an extension
as well, so some names can be read in two ways: the suffix of sources as the end of a classifier,
and the front of an extension as the end of one. These are all. Apart from them, the files of one
version are stored side by side.
-/

namespace Depot

/-! ### Texts with a dot in them -/

theorem exists_of_append_eq_append {a b x y : String} (h : a ++ x = b ++ y) :
    (∃ m, b = a ++ m ∧ x = m ++ y) ∨ ∃ m, a = b ++ m ∧ y = m ++ x := by
  have hl := congrArg String.toList h
  rw [String.toList_append, String.toList_append] at hl
  rcases List.append_eq_append_iff.mp hl with ⟨m, hb, hx⟩ | ⟨m, ha, hy⟩
  · exact .inl ⟨String.ofList m, by simp [← String.toList_inj, hb, hx]⟩
  · exact .inr ⟨String.ofList m, by simp [← String.toList_inj, ha, hy]⟩

theorem exists_of_dot_eq {m x y : String} (h : "." ++ x = m ++ ("." ++ y)) :
    (m = "" ∧ x = y) ∨ ∃ m', m = "." ++ m' ∧ x = m' ++ "." ++ y := by
  cases hm : m.toList with
  | nil =>
    obtain rfl : m = "" := by rwa [String.toList_eq_nil_iff] at hm
    exact .inl ⟨rfl, by simpa using h⟩
  | cons c cs =>
    have hl : '.' :: x.toList = c :: (cs ++ '.' :: y.toList) := by
      simpa [hm] using congrArg String.toList h
    obtain ⟨rfl, hx⟩ := List.cons.inj hl
    exact .inr ⟨String.ofList cs, by simp [← String.toList_inj, hm], by simp [← String.toList_inj, hx]⟩

/-- Two texts with a dot in them are the same only if their dots are, or the dot of one is found
behind that of the other. -/
theorem exists_of_dots {a b x y : String} (h : a ++ "." ++ x = b ++ "." ++ y) :
    (a = b ∧ x = y) ∨ (∃ m, b = a ++ "." ++ m ∧ x = m ++ "." ++ y) ∨
      ∃ m, a = b ++ "." ++ m ∧ y = m ++ "." ++ x := by
  rw [String.append_assoc, String.append_assoc] at h
  rcases exists_of_append_eq_append h with ⟨m, rfl, hx⟩ | ⟨m, rfl, hy⟩
  · rcases exists_of_dot_eq hx with ⟨rfl, rfl⟩ | ⟨m, rfl, rfl⟩
    · exact .inl ⟨by simp, rfl⟩
    · exact .inr (.inl ⟨m, by simp [String.append_assoc], rfl⟩)
  · rcases exists_of_dot_eq hy with ⟨rfl, rfl⟩ | ⟨m, rfl, rfl⟩
    · exact .inl ⟨by simp, rfl⟩
    · exact .inr (.inr ⟨m, by simp [String.append_assoc], rfl⟩)

/-- An end without a dot lies behind every dot. -/
theorem exists_of_dot_of_end {a b x z : String} (h : b ++ z = a ++ "." ++ x) (dotless : '.' ∉ z.toList) :
    ∃ m, b = a ++ "." ++ m ∧ x = m ++ z := by
  rcases exists_of_append_eq_append h with ⟨m, whole, rfl⟩ | ⟨m, rfl, rfl⟩
  · have none : m.toList = [] := by
      by_contra some
      have last := congrArg (fun s : String => s.toList.getLast?) whole
      simp only [String.toList_append, List.getLast?_append_of_ne_nil _ some] at last
      refine dotless ?_
      rw [String.toList_append]
      exact List.mem_append_left _ (List.mem_of_getLast? (last.symm.trans (by simp)))
    obtain rfl : m = "" := by rwa [String.toList_eq_nil_iff] at none
    exact ⟨"", by simpa using whole.symm, by simp⟩
  · exact ⟨m, rfl, rfl⟩

/-! ### Readings of a name -/

namespace Kind

/-- A kind that a type can name, other than those of manifests and of metadata. -/
structure IsPlain (kind : Kind) : Prop where
  typed : ∃ t, ofType t = kind
  not_manifest : kind ≠ .manifest
  not_metadata : kind ≠ .metadata

/-- A type that is the extension of jars names the jar. -/
theorem IsPlain.cases {kind : Kind} (h : kind.IsPlain) :
    kind = .jar ∨ kind = .source ∨ ∃ e, kind = .other e ∧ e ≠ "jar" := by
  cases kind with
  | jar => exact .inl rfl
  | source => exact .inr (.inl rfl)
  | manifest => exact absurd rfl h.not_manifest
  | metadata => exact absurd rfl h.not_metadata
  | other e =>
    refine .inr (.inr ⟨e, rfl, ?_⟩)
    rintro rfl
    exact (exists_ofType_eq_other_iff.mp h.typed).unreserved (by simp [reserved])

end Kind

namespace Layout

/-- How the name of a file can be read in another way: as that of a jar whose classifier ends like
the name of sources, or as that of a file whose classifier takes in the front of the extension. -/
inductive Rereads : Option String → Kind → Option String → Kind → Prop
  | sources : Rereads none .source (some "sources") .jar
  | classified_sources (k : String) : Rereads (some k) .source (some (k ++ "-sources")) .jar
  | jar (k y : String) : Rereads (some k) (.other (y ++ ".jar")) (some (k ++ "." ++ y)) .jar
  | source (k y : String) :
    Rereads (some k) (.other (y ++ "-sources.jar")) (some (k ++ "." ++ y)) .source
  | other (k y e : String) :
    Rereads (some k) (.other (y ++ "." ++ e)) (some (k ++ "." ++ y)) (.other e)

def classifierPart : Option String → String
  | none => ""
  | some k => "-" ++ k

/-- What stands between the version and the extension. -/
def qualifier (classifier : Option String) : Kind → String
  | .source => classifierPart classifier ++ "-sources"
  | _ => classifierPart classifier

/-- What follows the version in the name of a file. -/
def ending (classifier : Option String) (kind : Kind) : String :=
  qualifier classifier kind ++ "." ++ kind.extension

variable {k k' : Option String} {kind kind' : Kind} {y : String}

theorem classifierPart_inj (h : classifierPart k = classifierPart k') : k = k' := by
  cases k <;> cases k' <;> simp_all [classifierPart]

theorem rereads_sources (h : classifierPart k' = classifierPart k ++ "-sources") :
    Rereads k .source k' .jar := by
  cases k' with
  | none => cases k <;> simp [classifierPart] at h
  | some j' =>
    cases k with
    | none =>
      have h : "-" ++ j' = "-" ++ "sources" := h
      obtain rfl := (String.append_right_inj _).mp h
      exact .sources
    | some j =>
      obtain rfl : j' = j ++ "-sources" := by
        simpa [classifierPart, String.append_assoc] using h
      exact .classified_sources j

/-- Only a classifier can go on with a dot. -/
theorem exists_of_classifierPart (h : classifierPart k' = classifierPart k ++ "." ++ y) :
    ∃ j, k = some j ∧ k' = some (j ++ "." ++ y) := by
  have hl := congrArg String.toList h
  cases k' with
  | none => simp [classifierPart] at hl
  | some j' =>
    cases k with
    | none => simp [classifierPart] at hl
    | some j =>
      refine ⟨j, rfl, ?_⟩
      rw [← String.toList_inj.mp (show j'.toList = (j ++ "." ++ y).toList by
        simpa [classifierPart] using hl)]

theorem rereads_of_dot (plain : kind.IsPlain) (plain' : kind'.IsPlain)
    (h : qualifier k' kind' = qualifier k kind ++ "." ++ y)
    (extension : kind.extension = y ++ "." ++ kind'.extension) : Rereads k kind k' kind' := by
  -- only a kind that is known by its extension can have a dot in it
  have not_jar : "jar" ≠ y ++ "." ++ kind'.extension := by
    intro same
    have dot : '.' ∈ "jar".toList := by simp [same]
    exact absurd dot (by decide)
  obtain rfl | rfl | ⟨e, rfl, -⟩ := plain.cases
  · exact absurd extension not_jar
  · exact absurd extension not_jar
  · obtain rfl : e = y ++ "." ++ kind'.extension := extension
    obtain rfl | rfl | ⟨e', rfl, -⟩ := plain'.cases
    · obtain ⟨j, rfl, rfl⟩ := exists_of_classifierPart h
      rw [String.append_assoc]
      exact .jar j y
    · obtain ⟨m, h, rfl⟩ := exists_of_dot_of_end h (by decide)
      obtain ⟨j, rfl, rfl⟩ := exists_of_classifierPart h
      rw [String.append_assoc, String.append_assoc]
      exact .source j m
    · obtain ⟨j, rfl, rfl⟩ := exists_of_classifierPart h
      exact .other j y e'

theorem eq_or_rereads (plain : kind.IsPlain) (plain' : kind'.IsPlain)
    (h : qualifier k kind = qualifier k' kind') (extension : kind.extension = kind'.extension) :
    (k = k' ∧ kind = kind') ∨ Rereads k kind k' kind' ∨ Rereads k' kind' k kind := by
  obtain rfl | rfl | ⟨e, rfl, unnamed⟩ := plain.cases <;>
    obtain rfl | rfl | ⟨e', rfl, unnamed'⟩ := plain'.cases
  · exact .inl ⟨classifierPart_inj h, rfl⟩
  · exact .inr (.inr (rereads_sources h))
  · exact absurd extension.symm unnamed'
  · exact .inr (.inl (rereads_sources h.symm))
  · exact .inl ⟨classifierPart_inj ((String.append_left_inj _).mp h), rfl⟩
  · exact absurd extension.symm unnamed'
  · exact absurd extension unnamed
  · exact absurd extension unnamed
  · exact .inl ⟨classifierPart_inj h, congrArg Kind.other extension⟩

theorem ending_of_rereads (h : Rereads k kind k' kind') : ending k kind = ending k' kind' := by
  cases h <;> simp [ending, qualifier, classifierPart, Kind.extension, String.append_assoc]

/-- Two files of a version have one name only if they are the same or one name can be read in both
ways. -/
theorem ending_eq_iff (plain : kind.IsPlain) (plain' : kind'.IsPlain) :
    ending k kind = ending k' kind' ↔
      (k = k' ∧ kind = kind') ∨ Rereads k kind k' kind' ∨ Rereads k' kind' k kind := by
  constructor
  · intro h
    -- the dots before the two extensions are one dot, or one of them is in the other extension
    rcases exists_of_dots h with ⟨same, extension⟩ | ⟨m, longer, extension⟩ | ⟨m, longer, extension⟩
    · exact eq_or_rereads plain plain' same extension
    · exact .inr (.inl (rereads_of_dot plain plain' longer extension))
    · exact .inr (.inr (rereads_of_dot plain' plain longer extension))
  · rintro (⟨rfl, rfl⟩ | h | h)
    · rfl
    · exact ending_of_rereads h
    · exact (ending_of_rereads h).symm

/-! ### Files in one place -/

variable {c c' : Coordinate} {p : String}

theorem storable_of_path (h : path c (some kind) none = .ok p) : kind.isStorable = true := by
  cases kind with
  | jar | source | manifest | metadata => rfl
  | other e =>
    obtain ⟨q, placed, -⟩ := exists_place h
    simp only [place] at placed
    split at placed
    · assumption
    · cases placed

theorem place_plain (plain : kind.IsPlain) (storable : kind.isStorable = true) (c : Coordinate) :
    place c (some kind) none = .ok ⟨versionSegments c ++
      [c.artifact ++ "-" ++ c.version ++ ending c.classifier kind], false⟩ := by
  have base : baseName c = c.artifact ++ "-" ++ c.version ++ classifierPart c.classifier := by
    unfold baseName classifierPart
    cases c.classifier <;> rfl
  obtain rfl | rfl | ⟨e, rfl, -⟩ := plain.cases
  · simp [place, signed, base, ending, qualifier, Kind.extension, String.append_assoc]
  · simp [place, signed, base, ending, qualifier, Kind.extension, String.append_assoc]
  · have extension : Kind.isExtension e = true := storable
    simp [place, extension, signed, base, ending, qualifier, Kind.extension, String.append_assoc]

/-- Two files that lie in one place and are not the same: they are of one version, and the name of
one can be read as that of the other. -/
structure Alias (c c' : Coordinate) (kind kind' : Kind) : Prop where
  version : c.manifestOf = c'.manifestOf
  storable : kind'.isStorable = true
  rereads : Rereads c.classifier kind c'.classifier kind' ∨
    Rereads c'.classifier kind' c.classifier kind

theorem path_eq_iff (plain : kind.IsPlain) (plain' : kind'.IsPlain)
    (h : path c (some kind) none = .ok p) :
    path c' (some kind') none = .ok p ↔ (c, kind) = (c', kind') ∨ Alias c c' kind kind' := by
  have placed := place_plain plain (storable_of_path h) c
  constructor
  · intro h'
    have storable := storable_of_path h'
    have placed' := (place_eq_of_path_eq h h').trans (place_plain plain' storable c')
    simp only [placed, Except.ok.injEq, Place.mk.injEq, and_true] at placed'
    -- the directory tells the version, and behind the version the names have one ending
    obtain ⟨directory, name⟩ := List.append_inj' placed' rfl
    have version := manifestOf_eq_of_versionSegments directory
    obtain ⟨artifact, number⟩ : c.artifact = c'.artifact ∧ c.version = c'.version :=
      ⟨(Coordinate.mk.inj version).2.1, (Coordinate.mk.inj version).2.2.1⟩
    rw [List.singleton_inj, artifact, number, String.append_right_inj, ending_eq_iff plain plain']
      at name
    refine name.imp ?_ fun rereads => ⟨version, storable, rereads⟩
    rintro ⟨classifier, rfl⟩
    have same : c = c' :=
      Coordinate.ext (Coordinate.mk.inj version).1 artifact number classifier
    rw [same]
  · rintro (same | ⟨version, storable, rereads⟩)
    · cases same
      exact h
    · have ends : ending c.classifier kind = ending c'.classifier kind' :=
        (ending_eq_iff plain plain').mpr (.inr rereads)
      obtain ⟨artifact, number⟩ : c.artifact = c'.artifact ∧ c.version = c'.version :=
        ⟨(Coordinate.mk.inj version).2.1, (Coordinate.mk.inj version).2.2.1⟩
      rw [← h, path, path, placed, place_plain plain' storable, versionSegments_congr version,
        artifact, number, ends]

end Layout

namespace Repository

variable {r : Repository MemoryStore} {c c' : Coordinate} {kind kind' : Kind} {b : Bytes} {l : Locator}

theorem readArtifact_congr {s : MemoryStore} (same : s.available = r.store.available)
    (content : ∀ p, Layout.path c (some kind) none = .ok p →
      s.contents.find? p = r.store.contents.find? p) :
    ({ r with store := s } : Repository MemoryStore).readArtifact c kind = r.readArtifact c kind := by
  change (ArtifactStore.locate s c (some kind) none >>= ArtifactStore.read s) =
    (ArtifactStore.locate r.store c (some kind) none >>= ArtifactStore.read r.store)
  rw [MemoryStore.locate_congr same]
  cases located : ArtifactStore.locate r.store c (some kind) none with
  | error e => rfl
  | ok l => exact MemoryStore.read_congr same (content _ (MemoryStore.path_of_locate located).2.1)

theorem readArtifact_eq_ok {p : String} (online : r.store.available = true)
    (h : Layout.path c (some kind) none = .ok p) (there : r.store.contents.find? p = some b) :
    r.readArtifact c kind = .ok b := by
  change (r.store.locate c (some kind) none false >>= r.store.read) = _
  simp only [MemoryStore.locate, MemoryStore.online, online, if_true, MemoryStore.locator, h, bind,
    Except.bind, MemoryStore.read, MemoryStore.owned, there]

/-- To store a file leaves every other file as it is, whatever version it is of, unless the two have
one name because it can be read as that of either. Then the other file has the bytes that were
stored. -/
theorem readArtifact_after_write (online : r.store.available = true) (plain : kind.IsPlain)
    (plain' : kind'.IsPlain) (other : (c, kind) ≠ (c', kind'))
    (stored : (r.writeArtifact c kind b).1 = .ok l) :
    (¬ Layout.Alias c c' kind kind' →
      (r.writeArtifact c kind b).2.readArtifact c' kind' = r.readArtifact c' kind') ∧
    (Layout.Alias c c' kind kind' →
      (r.writeArtifact c kind b).2.readArtifact c' kind' = .ok b) := by
  obtain ⟨at_path, written⟩ := writeArtifact_of_ne stored plain.not_manifest
  have shared {p : String} (h : Layout.path c' (some kind') none = .ok p) :
      p = l.path ↔ Layout.Alias c c' kind kind' := by
    have here : Layout.path c' (some kind') none = .ok l.path ↔ _ :=
      Layout.path_eq_iff plain plain' at_path
    rw [h, Except.ok.injEq, or_iff_right other] at here
    exact here
  rw [written]
  constructor
  · intro distinct
    refine readArtifact_congr rfl fun p h => Contents.find?_insert_of_ne ?_ b r.store.contents
    exact fun here => distinct ((shared h).mp here)
  · intro together
    exact readArtifact_eq_ok online ((Layout.path_eq_iff plain plain' at_path).mpr (.inr together))
      (Contents.find?_insert_self l.path b r.store.contents)

end Repository

namespace Sample

/-- The files of `app` that are classified as its sources. -/
def appSources : Coordinate :=
  ⟨"org.demo", "app", "1", some "sources", app.group_ok, app.artifact_ok, app.version_ok,
    by rintro c ⟨⟩; decide +kernel⟩

/-- The sources of `app` have been stored. -/
def sourced : Repository MemoryStore := ((Repository.new .empty .default).writeArtifact app .source [1]).2

theorem isPlain_jar : Kind.jar.IsPlain := ⟨⟨none, rfl⟩, nofun, nofun⟩

theorem isPlain_source : Kind.source.IsPlain := ⟨⟨some "source", by decide +kernel⟩, nofun, nofun⟩

theorem write_appSources : (sourced.writeArtifact appSources .jar [2]).1 =
    .ok ⟨"mem", "/org/demo/app/1/app-1-sources.jar", true⟩ := by rfl

end Sample

open Sample in
theorem Repository.readArtifact_after_write_sample :
    (sourced.writeArtifact app .jar [2]).2.readArtifact app .source = .ok [1] ∧
    (sourced.writeArtifact appSources .jar [2]).2.readArtifact app .source = .ok [2] := by
  have jar : (sourced.writeArtifact app .jar [2]).1 =
      .ok ⟨"mem", "/org/demo/app/1/app-1.jar", true⟩ := by rfl
  have other : (app, Kind.jar) ≠ (app, Kind.source) := by decide
  have other' : (appSources, Kind.jar) ≠ (app, Kind.source) := by decide
  obtain ⟨spared, -⟩ := readArtifact_after_write rfl isPlain_jar isPlain_source other jar
  obtain ⟨-, replaced⟩ :=
    readArtifact_after_write rfl isPlain_jar isPlain_source other' write_appSources
  refine ⟨(spared ?_).trans rfl, replaced ⟨rfl, rfl, .inr .sources⟩⟩
  rintro ⟨-, -, rereads | rereads⟩ <;> nomatch rereads

open Sample in
/-- The jar that is classified as the sources is stored in their place. -/
theorem Repository.sources_overwritten :
    sourced.store.available = true ∧
    (∃ t, Kind.ofType t = .jar) ∧ (∃ t, Kind.ofType t = .source) ∧
    ¬ Layout.IsManifestFile appSources .jar ∧ ¬ Layout.IsManifestFile app .source ∧
    (appSources, Kind.jar) ≠ (app, Kind.source) ∧ sourced.readArtifact app .source = .ok [1] ∧
    (sourced.writeArtifact appSources .jar [2]).1 =
      .ok ⟨"mem", "/org/demo/app/1/app-1-sources.jar", true⟩ ∧
    (sourced.writeArtifact appSources .jar [2]).2.readArtifact app .source = .ok [2] := by
  refine ⟨rfl, isPlain_jar.typed, isPlain_source.typed, ?_, ?_, by decide, rfl, write_appSources, rfl⟩ <;>
    simp [Layout.IsManifestFile]

end Depot
