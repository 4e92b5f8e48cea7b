import Depot.Json.Dependency
import Depot.Proofs.Store.Manifests
import Depot.Proofs.Text.Trim

/-!
# Coordinates as texts

A coordinate is written as its parts with colons between them. What can be read as a coordinate is a
text of three or four pieces between colons that are good as parts once the blanks around them are
gone, and it is read as these pieces. So the written form of a coordinate is read as that coordinate,
and no two coordinates have the same.
-/

namespace Depot

open Text

/-- What can stand between two colons of a coordinate. -/
structure IsPiece (s : String) : Prop where
  nonempty : s ≠ ""
  no_slash : '/' ∉ s.toList
  no_backslash : '\\' ∉ s.toList
  no_blank : ∀ c ∈ s.toList, isBlank c = false
  not_here : s ≠ "."
  not_above : s ≠ ".."

/-- Pieces that make a coordinate: three or four, and a group has no empty segment. -/
structure AreParts (pieces : List String) : Prop where
  count : pieces.length = 3 ∨ pieces.length = 4
  piece : ∀ p ∈ pieces, IsPiece p
  segments : ∀ g ∈ pieces.head?, "" ∉ split '.' g

theorem isPart_iff {s : String} : IsPart s ↔ IsPiece s ∧ ':' ∉ s.toList := by
  have separators : s.toList.any isSeparator = false ↔
      ':' ∉ s.toList ∧ '/' ∉ s.toList ∧ '\\' ∉ s.toList := by
    simp only [List.any_eq_false, isSeparator, Bool.or_eq_true, beq_iff_eq, not_or]
    constructor
    · intro h
      exact ⟨fun hm => (h _ hm).1.1 rfl, fun hm => (h _ hm).1.2 rfl, fun hm => (h _ hm).2 rfl⟩
    · rintro ⟨colon, slash, backslash⟩ c hc
      exact ⟨⟨fun e => colon (e ▸ hc), fun e => slash (e ▸ hc)⟩, fun e => backslash (e ▸ hc)⟩
  have blanks : s.toList.any isBlank = false ↔ ∀ c ∈ s.toList, isBlank c = false := by
    simp only [List.any_eq_false, Bool.not_eq_true]
  constructor
  · intro h
    obtain ⟨colon, slash, backslash⟩ := separators.mp h.no_separator
    exact ⟨⟨h.nonempty, slash, backslash, blanks.mp h.no_blank, h.not_relative.1, h.not_relative.2⟩,
      colon⟩
  · rintro ⟨h, colon⟩
    exact ⟨h.nonempty, separators.mpr ⟨colon, h.no_slash, h.no_backslash⟩, blanks.mpr h.no_blank,
      h.not_here, h.not_above⟩

theorem IsPart.trim_eq {s : String} (h : IsPart s) : trim s = s := trim_of_no_blank h.no_blank

/-! ### Parts that are checked -/

/-- A part is what is left of the text when it is trimmed. -/
theorem part_eq_ok_iff {f : Field} {raw : String} {p : { s : String // IsPart s }} :
    part f raw = .ok p ↔ trim raw = p.val := by
  obtain ⟨s, h⟩ := p
  constructor
  · intro read
    simp only [part] at read
    split at read
    · cases read
    split at read
    · cases read
    split at read
    · cases read
    split at read
    · cases read
    exact congrArg Subtype.val (Except.ok.inj read)
  · rintro (rfl : trim raw = s)
    have relative : ¬ (trim raw = "." ∨ trim raw = "..") := not_or.mpr h.not_relative
    simp only [part]
    rw [dif_neg h.nonempty, dif_neg (Bool.eq_false_iff.mp h.no_separator),
      dif_neg (Bool.eq_false_iff.mp h.no_blank), dif_neg relative]

theorem groupPart_eq_ok_iff {raw : String} {g : { s : String // IsGroup s }} :
    groupPart raw = .ok g ↔ trim raw = g.val := by
  obtain ⟨s, h⟩ := g
  unfold groupPart
  constructor
  · intro read
    obtain ⟨p, checked, read⟩ := exists_ok_of_bind read
    split at read
    · cases read
    · cases read
      exact part_eq_ok_iff.mp checked
  · intro same
    have checked : part .group raw = .ok ⟨s, h.toIsPart⟩ := part_eq_ok_iff.mpr same
    simp [checked, bind, Except.bind, h.segments]

namespace Coordinate

/-- The parts in the order in which they are written. -/
def parts (c : Coordinate) : List String :=
  [c.group, c.artifact, c.version] ++ c.classifier.toList

theorem new_eq_ok_iff {g a v : String} {c : Coordinate} :
    new g a v = .ok c ↔
      trim g = c.group ∧ trim a = c.artifact ∧ trim v = c.version ∧ c.classifier = none := by
  unfold new
  constructor
  · intro built
    obtain ⟨g', group, built⟩ := exists_ok_of_bind built
    obtain ⟨a', artifact, built⟩ := exists_ok_of_bind built
    obtain ⟨v', version, built⟩ := exists_ok_of_bind built
    cases built
    exact ⟨groupPart_eq_ok_iff.mp group, part_eq_ok_iff.mp artifact, part_eq_ok_iff.mp version, rfl⟩
  · rintro ⟨group, artifact, version, plain⟩
    have group : groupPart g = .ok ⟨c.group, c.group_ok⟩ := groupPart_eq_ok_iff.mpr group
    have artifact : part .artifact a = .ok ⟨c.artifact, c.artifact_ok⟩ := part_eq_ok_iff.mpr artifact
    have version : part .version v = .ok ⟨c.version, c.version_ok⟩ := part_eq_ok_iff.mpr version
    simp only [group, artifact, version, bind, Except.bind, pure, Except.pure, Except.ok.injEq]
    exact ext rfl rfl rfl plain.symm

/-- A coordinate is built exactly from texts that are its parts but for blanks around them. -/
theorem build_eq_ok_iff {g a v : String} {k : Option String} {c : Coordinate} :
    build g a v k = .ok c ↔
      trim g = c.group ∧ trim a = c.artifact ∧ trim v = c.version ∧ k.map trim = c.classifier := by
  unfold build
  cases k with
  | none =>
    constructor
    · intro built
      obtain ⟨d, plain, built⟩ := exists_ok_of_bind built
      cases built
      obtain ⟨group, artifact, version, none⟩ := new_eq_ok_iff.mp plain
      exact ⟨group, artifact, version, none.symm⟩
    · rintro ⟨group, artifact, version, none⟩
      have plain : new g a v = .ok c := new_eq_ok_iff.mpr ⟨group, artifact, version, none.symm⟩
      simp [plain, bind, Except.bind, pure, Except.pure]
  | some k =>
    constructor
    · intro built
      obtain ⟨d, plain, built⟩ := exists_ok_of_bind built
      obtain ⟨k', checked, built⟩ := exists_ok_of_bind built
      cases built
      obtain ⟨group, artifact, version, -⟩ := new_eq_ok_iff.mp plain
      exact ⟨group, artifact, version, congrArg some (part_eq_ok_iff.mp checked)⟩
    · rintro ⟨group, artifact, version, classified⟩
      have plain : new g a v = .ok c.manifestOf :=
        new_eq_ok_iff.mpr ⟨group, artifact, version, rfl⟩
      have checked : part .classifier k = .ok ⟨trim k, c.classifier_ok _ classified.symm⟩ :=
        part_eq_ok_iff.mpr rfl
      simp only [plain, withClassifier, checked, bind, Except.bind, pure, Except.pure,
        Except.ok.injEq]
      exact ext rfl rfl rfl classified

/-! ### Reading and writing -/

/-- The pieces between the colons of a text, without the blanks around them. -/
def pieces (s : String) : List String := (split ':' (trim s)).map trim

/-- A text is read as the coordinate that has its pieces for parts. -/
theorem parse_eq_ok_iff {s : String} {c : Coordinate} : parse s = .ok c ↔ pieces s = c.parts := by
  unfold parse pieces parts
  rcases split ':' (trim s) with _ | ⟨g, _ | ⟨a, _ | ⟨v, _ | ⟨k, _ | ⟨x, rest⟩⟩⟩⟩⟩ <;>
    cases hk : c.classifier <;> simp [build_eq_ok_iff, hk]

theorem text_eq (c : Coordinate) : c.text = join ":" c.parts := by
  rw [← String.toList_inj]
  unfold text parts join
  cases c.classifier <;> simp [classifierText]

theorem isPart_of_mem {c : Coordinate} {p : String} (h : p ∈ c.parts) : IsPart p := by
  rcases List.mem_append.mp h with h | h
  · simp only [List.mem_cons, List.not_mem_nil, or_false] at h
    rcases h with rfl | rfl | rfl
    · exact c.group_ok.toIsPart
    · exact c.artifact_ok
    · exact c.version_ok
  · exact c.classifier_ok p (by simpa using h)

theorem no_blank_text (c : Coordinate) : c.text.toList.any isBlank = false := by
  have colon : ":".toList.any isBlank = false := by decide
  have classified : (classifierText c.classifier).toList.any isBlank = false := by
    cases hk : c.classifier with
    | none => rfl
    | some k =>
      rw [classifierText, String.toList_append, List.any_append, colon,
        (c.classifier_ok k hk).no_blank]
      rfl
  simp only [text, String.toList_append, List.any_append, c.group_ok.no_blank, colon,
    c.artifact_ok.no_blank, c.version_ok.no_blank, classified, Bool.or_false]

/-- The written form has the parts for its pieces. -/
theorem pieces_text (c : Coordinate) : pieces c.text = c.parts := by
  have cut : split ':' c.text = c.parts := by
    rw [text_eq]
    exact split_join (by simp [parts]) fun p hp => (isPart_iff.mp (isPart_of_mem hp)).2
  have trimmed : c.parts.map trim = c.parts.map id :=
    List.map_congr_left fun p hp => (isPart_of_mem hp).trim_eq
  rw [pieces, trim_of_no_blank (no_blank_text c), cut, trimmed, List.map_id]

theorem areParts_parts (c : Coordinate) : AreParts c.parts where
  count := by
    unfold parts
    cases c.classifier <;> simp
  piece p hp := (isPart_iff.mp (isPart_of_mem hp)).1
  segments g hg := by
    obtain rfl : c.group = g := by simpa [parts] using hg
    exact c.group_ok.segments

theorem no_colon_pieces {s p : String} (h : p ∈ pieces s) : ':' ∉ p.toList := by
  obtain ⟨q, hq, rfl⟩ := List.mem_map.mp h
  obtain ⟨cs, hcs, rfl⟩ := List.mem_map.mp hq
  intro colon
  have colon : ':' ∈ cs := by simpa using mem_of_mem_trim colon
  exact not_mem_of_mem_splitOn hcs colon

/-- Pieces that are good as parts are the parts of a coordinate. -/
theorem exists_of_areParts {ps : List String} (h : AreParts ps) (colonless : ∀ p ∈ ps, ':' ∉ p.toList) :
    ∃ c : Coordinate, ps = c.parts := by
  have part : ∀ p ∈ ps, IsPart p := fun p hp => isPart_iff.mpr ⟨h.piece p hp, colonless p hp⟩
  have count := h.count
  have segments := h.segments
  rcases ps with _ | ⟨g, _ | ⟨a, _ | ⟨v, _ | ⟨k, _ | ⟨x, rest⟩⟩⟩⟩⟩ <;>
    simp only [List.length_cons, List.length_nil] at count <;> try omega
  · exact ⟨⟨g, a, v, none, ⟨part g (by simp), segments g rfl⟩, part a (by simp), part v (by simp),
      by simp⟩, rfl⟩
  · refine ⟨⟨g, a, v, some k, ⟨part g (by simp), segments g rfl⟩, part a (by simp), part v (by simp),
      fun x hx => ?_⟩, rfl⟩
    obtain rfl := Option.some.inj hx
    exact part k (by simp)

/-- A coordinate is written as its parts with colons between them. This is read as that coordinate,
in JSON as well, so no two coordinates are written alike. A text is read at all exactly if the pieces
between its colons are good as parts, and then as the coordinate that has these parts. -/
theorem parse_faithful :
    (∀ c : Coordinate, c.text = join ":" c.parts) ∧ (∀ c, parse c.text = .ok c) ∧
    (∀ c, Json.toCoordinate (.string c.text) = .ok c) ∧
    (∀ c d : Coordinate, c.text = d.text ↔ c = d) ∧
    (∀ s, (∃ c, parse s = .ok c) ↔ AreParts (pieces s)) ∧
    ∀ s c, parse s = .ok c ↔ pieces s = c.parts := by
  have reads (c : Coordinate) : parse c.text = .ok c := parse_eq_ok_iff.mpr (pieces_text c)
  refine ⟨text_eq, reads, fun c => ?_, fun c d => ⟨fun same => ?_, fun same => same ▸ rfl⟩,
    fun s => ⟨?_, fun good => ?_⟩, fun s c => parse_eq_ok_iff⟩
  · simp only [Json.toCoordinate, reads]
  · exact Except.ok.inj ((reads c).symm.trans (same ▸ reads d))
  · rintro ⟨c, read⟩
    exact parse_eq_ok_iff.mp read ▸ areParts_parts c
  · obtain ⟨c, same⟩ := exists_of_areParts good fun p hp => no_colon_pieces hp
    exact ⟨c, parse_eq_ok_iff.mpr same⟩

end Coordinate

end Depot
