import Depot.Store.Layout

/-!
# Paths and places

A path can be taken apart into the segments that it was made of, because no segment of the layout
is empty or has a slash in it. So equal paths are equal places, and the path of a manifest tells
group, artifact and version; no other file lies there but one that has the same name.
-/

namespace Depot

open Text

/-- A text that a slash can follow: it is not empty and has no slash itself. -/
structure IsSegment (s : String) : Prop where
  nonempty : s ≠ ""
  no_slash : '/' ∉ s.toList

namespace IsSegment

theorem of_part {s : String} (h : IsPart s) : IsSegment s where
  nonempty := h.nonempty
  no_slash hm := by
    have hs := List.any_eq_false.mp h.no_separator '/' hm
    simp [isSeparator] at hs

end IsSegment

/-- No separator and no blank: what can stand anywhere in a part. -/
def IsClean (s : String) : Prop :=
  s.toList.any isSeparator = false ∧ s.toList.any isBlank = false

instance (s : String) : Decidable (IsClean s) := inferInstanceAs (Decidable (_ ∧ _))

theorem IsPart.clean {s : String} (h : IsPart s) : IsClean s := ⟨h.no_separator, h.no_blank⟩

theorem IsClean.append {s t : String} (hs : IsClean s) (ht : IsClean t) : IsClean (s ++ t) := by
  simp only [IsClean, String.toList_append, List.any_append, Bool.or_eq_false_iff] at *
  exact ⟨⟨hs.1, ht.1⟩, hs.2, ht.2⟩

/-- A clean text with anything but dots in it is a part. -/
theorem IsClean.part {s : String} (h : IsClean s) {c : Char} (hc : c ∈ s.toList) (named : c ≠ '.') :
    IsPart s where
  nonempty := by
    rintro rfl
    cases hc
  no_separator := h.1
  no_blank := h.2
  not_relative := by
    constructor <;> rintro rfl <;> simp [named] at hc

theorem mem_intercalate {α : Type} {sep cs : List α} {ds : List (List α)} {c : α} (hd : cs ∈ ds)
    (hc : c ∈ cs) : c ∈ sep.intercalate ds := by
  induction ds with
  | nil => simp at hd
  | cons d ds ih =>
    cases ds with
    | nil =>
      rw [List.mem_singleton.mp hd] at hc
      rwa [List.intercalate_singleton]
    | cons e ds =>
      rw [List.intercalate_cons_cons, List.mem_append]
      rcases List.mem_cons.mp hd with rfl | hd
      · exact .inl (List.mem_append_left _ hc)
      · exact .inr (ih hd)

theorem mem_of_mem_split {sep c : Char} {s t : String} (ht : t ∈ split sep s) (hc : c ∈ t.toList) :
    c ∈ s.toList := by
  obtain ⟨cs, hcs, rfl⟩ := List.mem_map.mp ht
  rw [String.toList_ofList] at hc
  have h : c ∈ [sep].intercalate (s.toList.splitOn sep) := mem_intercalate hcs hc
  rwa [List.intercalate_splitOn] at h

theorem not_mem_of_mem_splitOn {α : Type} [DecidableEq α] {sep : α} {l cs : List α}
    (h : cs ∈ l.splitOn sep) : sep ∉ cs := by
  induction l generalizing cs with
  | nil =>
    rw [List.splitOn_nil, List.mem_singleton] at h
    simp [h]
  | cons a l ih =>
    rw [List.splitOn_cons_eq_if_modifyHead] at h
    by_cases ha : a = sep
    · rw [if_pos (by simpa using ha)] at h
      rcases List.mem_cons.mp h with rfl | h
      · simp
      · exact ih h
    · rw [if_neg (by simpa using ha)] at h
      cases hl : l.splitOn sep with
      | nil => exact absurd hl (List.splitOn_ne_nil sep l)
      | cons d ds =>
        rw [hl] at h ih
        rcases List.mem_cons.mp h with rfl | h
        · rw [List.mem_cons, not_or]
          exact ⟨Ne.symm ha, ih List.mem_cons_self⟩
        · exact ih (List.mem_cons_of_mem d h)

theorem split_injective {sep : Char} {s t : String} (h : split sep s = split sep t) : s = t := by
  have hl := (List.map_inj_right fun _ _ => String.ofList_injective).mp h
  rw [← String.toList_inj, ← @List.intercalate_splitOn _ s.toList _ _ sep, hl,
    List.intercalate_splitOn]

/-- Splitting undoes the joining of segments that have no separator in them. -/
theorem splitOn_flatMap_cons {sep : Char} (cs : List Char) (ds : List (List Char)) (hc : sep ∉ cs)
    (hd : ∀ d ∈ ds, sep ∉ d) : (cs ++ ds.flatMap (sep :: ·)).splitOn sep = cs :: ds := by
  induction ds generalizing cs with
  | nil => simpa using List.splitOn_eq_singleton hc
  | cons d ds ih =>
    rw [List.flatMap_cons, List.cons_append, List.splitOn_append_cons_self_of_not_mem hc,
      ih d (hd d List.mem_cons_self) fun e he => hd e (List.mem_cons_of_mem d he)]

namespace Place

/-- All that a path is made of: the segments, and nothing after the last slash of a directory. -/
def pieces (p : Place) : List String := p.segments ++ if p.directory then [""] else []

theorem toList_path (p : Place) : p.path.toList = (p.pieces.map String.toList).flatMap ('/' :: ·) := by
  unfold path pieces
  cases p.directory <;> simp [List.flatMap_map, String.toList_join]

theorem no_slash_pieces {p : Place} (h : ∀ s ∈ p.segments, IsSegment s) :
    ∀ s ∈ p.pieces, '/' ∉ s.toList := by
  intro s hs
  rcases List.mem_append.mp hs with hs | hs
  · exact (h s hs).no_slash
  · cases hd : p.directory <;> simp_all

/-- Taking a path apart gives its segments, after nothing before the first slash. -/
theorem split_path {p : Place} (h : ∀ s ∈ p.segments, IsSegment s) :
    split '/' p.path = "" :: p.pieces := by
  have hs : ∀ cs ∈ p.pieces.map String.toList, '/' ∉ cs := by
    intro cs hc
    obtain ⟨s, hs, rfl⟩ := List.mem_map.mp hc
    exact no_slash_pieces h s hs
  have hl := splitOn_flatMap_cons [] (p.pieces.map String.toList) (by simp) hs
  rw [List.nil_append, ← toList_path] at hl
  rw [split, hl, List.map_cons, List.map_map]
  simp

theorem path_injective {p q : Place} (hp : ∀ s ∈ p.segments, IsSegment s)
    (hq : ∀ s ∈ q.segments, IsSegment s) (h : p.path = q.path) : p = q := by
  have hs := congrArg (split '/') h
  rw [split_path hp, split_path hq, List.cons.injEq] at hs
  obtain ⟨ss, d⟩ := p
  obtain ⟨tt, e⟩ := q
  have last : ∀ {ss tt : List String}, ss ++ [""] = tt → ¬ ∀ t ∈ tt, IsSegment t := by
    rintro ss tt rfl h
    exact (h "" (by simp)).nonempty rfl
  cases d <;> cases e
  · simpa [pieces] using hs.2
  · exact absurd hp (last (by simpa [pieces] using hs.2.symm))
  · exact absurd hq (last (by simpa [pieces] using hs.2))
  · simpa [pieces] using hs.2

end Place

namespace Layout

theorem clean_baseName (c : Coordinate) : IsClean (baseName c) := by
  have h : IsClean (c.artifact ++ "-" ++ c.version) :=
    (c.artifact_ok.clean.append (by decide)).append c.version_ok.clean
  unfold baseName
  cases hk : c.classifier with
  | none => exact h.append (by decide)
  | some k => exact h.append (.append (by decide) (c.classifier_ok k hk).clean)

theorem hyphen_mem_baseName (c : Coordinate) : '-' ∈ (baseName c).toList := by simp [baseName]

theorem clean_signed {name : String} (h : IsClean name) (g : Option Signature) :
    IsClean (signed name g) := by
  cases g with
  | none => exact h
  | some g => exact h.append (by cases g <;> decide)

theorem mem_signed {name : String} {c : Char} (h : c ∈ name.toList) (g : Option Signature) :
    c ∈ (signed name g).toList := by
  cases g with
  | none => exact h
  | some g =>
    rw [signed, String.toList_append]
    exact List.mem_append_left _ h

theorem clean_extension {e : String} (h : Kind.isExtension e = true) : IsClean e := by
  have harmless : ∀ c : Char, (c.isAlphanum || c == '.' || c == '-' || c == '_') = true →
      isSeparator c = false ∧ isBlank c = false := by
    intro c hc
    have letters : c.isAlphanum = (decide (c.val ≥ 'A'.val ∧ c.val ≤ 'Z'.val) ||
        decide (c.val ≥ 'a'.val) && decide (c.val ≤ 'z'.val) || c.isDigit) := rfl
    simp only [letters, Char.isDigit, isSeparator, isBlank, Bool.or_eq_true, Bool.and_eq_true,
      Bool.or_eq_false_iff, Bool.and_eq_false_iff, decide_eq_true_eq, decide_eq_false_iff_not,
      beq_iff_eq, beq_eq_false_iff_ne, ne_eq, ← Char.toNat_inj, UInt32.le_iff_toNat_le, ge_iff_le,
      Char.toNat_val, Char.reduceToNat] at *
    omega
  have hall := List.all_eq_true.mp (Bool.and_eq_true_iff.mp h).2
  constructor <;> refine List.any_eq_false.mpr fun c hc => ?_ <;> simp [harmless c (hall c hc)]

/-- A segment of a group is a part, and so are artifacts and versions. -/
theorem isPart_artifactSegments (c : Coordinate) : ∀ s ∈ artifactSegments c, IsPart s := by
  intro s hs
  rcases List.mem_append.mp hs with hs | hs
  · have clean : IsClean s := by
      constructor <;> refine List.any_eq_false.mpr fun ch hc => ?_
      · exact List.any_eq_false.mp c.group_ok.no_separator ch (mem_of_mem_split hs hc)
      · exact List.any_eq_false.mp c.group_ok.no_blank ch (mem_of_mem_split hs hc)
    have dotless : '.' ∉ s.toList := by
      obtain ⟨cs, hcs, rfl⟩ := List.mem_map.mp hs
      rw [String.toList_ofList]
      exact not_mem_of_mem_splitOn hcs
    have nonempty : s.toList ≠ [] := by
      intro none
      rw [String.toList_eq_nil_iff] at none
      exact c.group_ok.segments (none ▸ hs)
    obtain ⟨ch, hc⟩ := List.exists_mem_of_ne_nil _ nonempty
    exact clean.part hc fun dot => dotless (dot ▸ hc)
  · rw [List.mem_singleton.mp hs]
    exact c.artifact_ok

theorem isPart_versionSegments (c : Coordinate) : ∀ s ∈ versionSegments c, IsPart s := by
  intro s hs
  rcases List.mem_append.mp hs with hs | hs
  · exact isPart_artifactSegments c s hs
  · rw [List.mem_singleton.mp hs]
    exact c.version_ok

/-- The layout makes paths of parts only. -/
theorem isPart_place {c : Coordinate} {kind : Option Kind} {g : Option Signature} {p : Place}
    (h : place c kind g = .ok p) : ∀ s ∈ p.segments, IsPart s := by
  have file : ∀ {ss : List String} {name : String} {x : Char}, (∀ s ∈ ss, IsPart s) →
      IsClean name → x ∈ name.toList → x ≠ '.' → ∀ s ∈ ss ++ [signed name g], IsPart s := by
    intro ss name x hss clean hx named s hs
    rcases List.mem_append.mp hs with hs | hs
    · exact hss s hs
    · rw [List.mem_singleton.mp hs]
      exact (clean_signed clean g).part (mem_signed hx g) named
  have version : ∀ {name : String}, IsClean name →
      ∀ s ∈ versionSegments c ++ [signed (baseName c ++ name) g], IsPart s := by
    intro name clean
    refine file (isPart_versionSegments c) ((clean_baseName c).append clean) (x := '-') ?_ (by decide)
    rw [String.toList_append]
    exact List.mem_append_left _ (hyphen_mem_baseName c)
  unfold place at h
  split at h
  · cases h
    exact isPart_versionSegments c
  · cases h
    exact file (isPart_artifactSegments c) (x := 'm') (by decide) (by decide) (by decide)
  · cases h
    have clean : IsClean (manifestName c) :=
      ((c.artifact_ok.clean.append (by decide)).append c.version_ok.clean).append (by decide)
    exact file (isPart_versionSegments c) clean (x := '-') (by simp [manifestName]) (by decide)
  · cases h
    exact version (by decide)
  · cases h
    exact version (by decide)
  · split at h
    · rename_i he
      cases h
      rw [String.append_assoc]
      exact version (.append (by decide) (clean_extension he))
    · simp at h

theorem isSegment_versionSegments (c : Coordinate) : ∀ s ∈ versionSegments c, IsSegment s :=
  fun s hs => .of_part (isPart_versionSegments c s hs)

theorem isSegment_place {c : Coordinate} {kind : Option Kind} {g : Option Signature} {p : Place}
    (h : place c kind g = .ok p) : ∀ s ∈ p.segments, IsSegment s :=
  fun s hs => .of_part (isPart_place h s hs)

theorem exists_place {c : Coordinate} {kind : Option Kind} {g : Option Signature} {p : String}
    (h : path c kind g = .ok p) : ∃ q, place c kind g = .ok q ∧ p = q.path := by
  unfold path at h
  cases hq : place c kind g with
  | error f => simp [hq, Except.map] at h
  | ok q =>
    rw [hq] at h
    exact ⟨q, rfl, (Except.ok.inj h).symm⟩

/-- Two files of the layout have the same path only if they are at the same place. -/
theorem place_eq_of_path_eq {c c' : Coordinate} {kind kind' : Option Kind}
    {g g' : Option Signature} {s : String} (h : path c kind g = .ok s)
    (h' : path c' kind' g' = .ok s) : place c kind g = place c' kind' g' := by
  obtain ⟨p, hp, at_p⟩ := exists_place h
  obtain ⟨q, hq, at_q⟩ := exists_place h'
  rw [hp, hq, Place.path_injective (isSegment_place hp) (isSegment_place hq) (at_p.symm.trans at_q)]

/-- The directory of an artifact tells the group and the artifact. -/
theorem eq_of_artifactSegments {c x : Coordinate} (h : artifactSegments c = artifactSegments x) :
    c.group = x.group ∧ c.artifact = x.artifact := by
  obtain ⟨hg, ha⟩ := List.append_inj' h rfl
  exact ⟨split_injective hg, List.singleton_inj.mp ha⟩

/-- The directory of a version tells the version, and with it the manifest. -/
theorem manifestOf_eq_of_versionSegments {c x : Coordinate}
    (h : versionSegments c = versionSegments x) : c.manifestOf = x.manifestOf := by
  obtain ⟨ha, hv⟩ := List.append_inj' h rfl
  obtain ⟨hg, ha⟩ := eq_of_artifactSegments ha
  exact Coordinate.ext hg ha (List.singleton_inj.mp hv) rfl

theorem manifestName_congr {c x : Coordinate} (h : c.manifestOf = x.manifestOf) :
    manifestName c = manifestName x := by
  have ha : c.manifestOf.artifact = x.manifestOf.artifact := congrArg Coordinate.artifact h
  have hv : c.manifestOf.version = x.manifestOf.version := congrArg Coordinate.version h
  simp only [Coordinate.manifestOf] at ha hv
  rw [manifestName, manifestName, ha, hv]

/-- A classifier shows right after the version, where the name of a manifest ends. -/
theorem classifier_eq_none_of_manifestName {c : Coordinate} {e : String}
    (h : baseName c ++ e = manifestName c) : c.classifier = none ∧ e = ".toml" := by
  have hl := congrArg String.toList h
  unfold baseName manifestName at hl
  cases hk : c.classifier with
  | none =>
    simp only [hk, String.toList_append, List.append_assoc, List.append_cancel_left_eq] at hl
    exact ⟨rfl, String.toList_inj.mp hl⟩
  | some k =>
    simp only [hk, String.toList_append, List.append_assoc, List.append_cancel_left_eq] at hl
    exact absurd (congrArg List.head? hl) (by simp)

/-- A file that lies where the manifest of its version lies: the manifest, or the file without
a classifier whose extension is that of manifests. -/
def IsManifestFile (c : Coordinate) (kind : Kind) : Prop :=
  kind = .manifest ∨ (kind = .other "toml" ∧ c.classifier = none)

/-- A file of a version in the place of a manifest has the name of its own manifest. -/
theorem manifestName_of_place {c x : Coordinate} {name : String}
    (h : place x (some .manifest) none = .ok ⟨versionSegments c ++ [name], false⟩) :
    c.manifestOf = x.manifestOf ∧ name = manifestName c := by
  simp only [place, signed, Except.ok.injEq, Place.mk.injEq, and_true] at h
  obtain ⟨hs, hn⟩ := List.append_inj' h rfl
  have hm := manifestOf_eq_of_versionSegments hs.symm
  exact ⟨hm, (List.singleton_inj.mp hn).symm.trans (manifestName_congr hm).symm⟩

/-- No other file lies at the path of a manifest, and of manifests only the same one. -/
theorem isManifestFile_of_path {c x : Coordinate} {kind : Kind} {s : String}
    (h : path c (some kind) none = .ok s) (h' : path x (some .manifest) none = .ok s) :
    IsManifestFile c kind ∧ c.manifestOf = x.manifestOf := by
  have hp := place_eq_of_path_eq h' h
  cases kind with
  | manifest => exact ⟨.inl rfl, (manifestName_of_place hp).1⟩
  | jar =>
    have hn := (manifestName_of_place hp).2
    exact absurd (classifier_eq_none_of_manifestName hn).2 (by decide)
  | source =>
    have hn := (manifestName_of_place hp).2
    exact absurd (classifier_eq_none_of_manifestName hn).2 (by decide)
  | metadata =>
    -- the name of a manifest has a hyphen
    simp only [place, signed, Except.ok.injEq, Place.mk.injEq, and_true] at hp
    have hn := List.singleton_inj.mp (List.append_inj' hp rfl).2
    have hm : '-' ∈ (manifestName x).toList := by simp [manifestName]
    rw [hn] at hm
    exact absurd hm (by decide)
  | other e =>
    by_cases hx : Kind.isExtension e = true
    · have hc : place c (some (.other e)) none =
          .ok ⟨versionSegments c ++ [baseName c ++ ("." ++ e)], false⟩ := by
        simp [place, hx, signed, String.append_assoc]
      obtain ⟨hm, hn⟩ := manifestName_of_place (hp.trans hc)
      obtain ⟨hk, he⟩ := classifier_eq_none_of_manifestName hn
      have hl := congrArg String.toList (he.trans (show ".toml" = "." ++ "toml" by decide))
      rw [String.toList_append, String.toList_append] at hl
      have he : e = "toml" := String.toList_inj.mp (List.append_cancel_left hl)
      exact ⟨.inr ⟨by rw [he], hk⟩, hm⟩
    · simp [path, place, hx, Except.map] at h

end Layout

end Depot
