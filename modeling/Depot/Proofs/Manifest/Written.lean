import Mathlib.Data.List.Forall2
import Depot.Proofs.Manifest.Entries
import Depot.Proofs.Resolution.Table
import Depot.Proofs.Text.Kinds

/-!
# Written manifests

How a coordinate and its dependencies are written down as a document: a project with a field for each
part, and an entry for each dependency with its fields and its exclusions. A document may say more
than that in children of other names and put the children of different names in any order, texts may
have blanks around them, and an exclusion may be repeated. It is read back as the same coordinate and
the same dependencies, and nothing of it is left out.
-/

namespace Depot

open Text

namespace Element

/-- The text of an element, with blanks around it or without. -/
def Says (e : Element) (t : String) : Prop :=
  ∃ before after, Blank before ∧ Blank after ∧ e.text = some (before ++ t ++ after)

/-- A single child of a name, which says the text; no such child for no text. -/
def Holds (e : Element) (n : String) : Option String → Prop
  | none => e.named n = []
  | some t => ∃ x, e.named n = [x] ∧ x.Says t

def WritesCoordinate (e : Element) (c : Coordinate) : Prop :=
  ∀ f : Field, e.Holds f.name (c.part? f)

structure WritesExclusion (e : Element) (k : ArtifactKey) : Prop where
  group : e.Holds "group" (some k.group)
  artifact : e.Holds "artifact" (some k.artifact)

structure WritesDependency (e : Element) (d : Dependency) : Prop where
  coordinate : e.WritesCoordinate d.coordinate
  scope : e.Holds "scope" (some d.scope.name)
  kind : e.Holds "type" (some d.kind.name)
  exclusion : ∀ x ∈ e.named "exclusion", ∃ k ∈ d.exclusions, x.WritesExclusion k
  exclusions : ∀ k ∈ d.exclusions, ∃ x ∈ e.named "exclusion", x.WritesExclusion k

/-- A document with one project for a coordinate and one entry for each dependency, in order. -/
structure WritesManifest (root : Element) (c : Coordinate) (ds : List Dependency) : Prop where
  project : ∃ p, root.named "project" = [p] ∧ p.WritesCoordinate c
  dependencies : List.Forall₂ WritesDependency (root.named "dependency") ds

end Element

/-- A text that is still the same when it is read as a field. -/
structure IsFieldText (s : String) : Prop where
  nonempty : s ≠ ""
  trimmed : trim s = s

instance (s : String) : Decidable (IsFieldText s) :=
  decidable_of_iff (s ≠ "" ∧ trim s = s) ⟨fun ⟨a, b⟩ => ⟨a, b⟩, fun ⟨a, b⟩ => ⟨a, b⟩⟩

theorem IsPart.isFieldText {s : String} (h : IsPart s) : IsFieldText s := ⟨h.nonempty, h.trim_eq⟩

/-- A dependency that keeps its kind and its exclusions when it is written. -/
structure Dependency.Writable (d : Dependency) : Prop where
  kind : Kind.ofType (some d.kind.name) = d.kind
  extension : Kind.isExtension d.kind.extension = true
  exclusions : ∀ k ∈ d.exclusions, IsFieldText k.group ∧ IsFieldText k.artifact

/-! ### A document for every manifest -/

def Coordinate.leaves (c : Coordinate) : List Element :=
  [.leaf "group" c.group, .leaf "artifact" c.artifact, .leaf "version" c.version] ++
    (c.classifier.map (Element.leaf "classifier")).toList

def ArtifactKey.element (k : ArtifactKey) : Element :=
  .branch "exclusion" [.leaf "group" k.group, .leaf "artifact" k.artifact]

def Dependency.element (d : Dependency) : Element :=
  .branch "dependency" (d.coordinate.leaves ++
    [.leaf "scope" d.scope.name, .leaf "type" d.kind.name] ++
    d.exclusions.toList.map ArtifactKey.element)

/-- The document that says a coordinate and dependencies and nothing else. -/
def Manifest.document (c : Coordinate) (ds : List Dependency) : Element :=
  .branch "document" (.branch "project" c.leaves :: ds.map Dependency.element)

namespace Element

theorem holds_leaf {e : Element} {n t : String} (h : e.named n = [leaf n t]) :
    e.Holds n (some t) :=
  ⟨_, h, "", "", blank_empty, blank_empty, by simp [text, leaf]⟩

theorem named_branch (m n : String) (es : List Element) :
    (branch m es).named n = es.filter (·.name = n) := rfl

@[simp] theorem name_leaf (n t : String) : (leaf n t).name = n := rfl

@[simp] theorem name_branch (n : String) (es : List Element) : (branch n es).name = n := rfl

@[simp] theorem name_element (k : ArtifactKey) : k.element.name = "exclusion" := rfl

@[simp] theorem name_dependency (d : Dependency) : d.element.name = "dependency" := rfl

/-- The leaves of a coordinate are of use among elements that have other names. -/
theorem writesCoordinate_leaves (n : String) (c : Coordinate) {es : List Element}
    (other : ∀ f : Field, es.filter (·.name = f.name) = []) :
    (branch n (c.leaves ++ es)).WritesCoordinate c := by
  intro f
  have found : (branch n (c.leaves ++ es)).named f.name =
      ((c.part? f).map (leaf f.name)).toList := by
    rw [named_branch, List.filter_append, other f, List.append_nil]
    cases f <;> cases hk : c.classifier <;> simp [Coordinate.leaves, Coordinate.part?, Field.name, hk]
  cases hp : c.part? f with
  | none => exact found.trans (by rw [hp]; rfl)
  | some p => exact holds_leaf (found.trans (by rw [hp]; rfl))

theorem writesExclusion_element (k : ArtifactKey) : k.element.WritesExclusion k :=
  ⟨holds_leaf rfl, holds_leaf rfl⟩

/-- An element of another name is not among the leaves of a coordinate. -/
theorem filter_leaves (c : Coordinate) {n : String} (other : ∀ f : Field, f.name ≠ n) :
    c.leaves.filter (·.name = n) = [] := by
  have group : "group" ≠ n := other .group
  have artifact : "artifact" ≠ n := other .artifact
  have version : "version" ≠ n := other .version
  have classifier : "classifier" ≠ n := other .classifier
  cases hk : c.classifier <;> simp [Coordinate.leaves, *]

theorem named_element (d : Dependency) {n : String} (other : ∀ f : Field, f.name ≠ n) :
    d.element.named n =
      ([leaf "scope" d.scope.name, leaf "type" d.kind.name] ++
        d.exclusions.toList.map ArtifactKey.element).filter (·.name = n) := by
  rw [Dependency.element, named_branch, List.append_assoc, List.filter_append,
    filter_leaves _ other, List.nil_append]

theorem named_exclusion (d : Dependency) :
    d.element.named "exclusion" = d.exclusions.toList.map ArtifactKey.element := by
  rw [named_element d fun f => by cases f <;> decide]
  simp

theorem writesDependency_element (d : Dependency) : d.element.WritesDependency d where
  coordinate := by
    rw [Dependency.element, List.append_assoc]
    refine writesCoordinate_leaves _ _ fun f => ?_
    cases f <;> simp [Field.name]
  scope := by
    refine holds_leaf ?_
    rw [named_element d fun f => by cases f <;> decide]
    simp
  kind := by
    refine holds_leaf ?_
    rw [named_element d fun f => by cases f <;> decide]
    simp
  exclusion x hx := by
    rw [named_exclusion] at hx
    obtain ⟨k, hk, rfl⟩ := List.mem_map.mp hx
    exact ⟨k, hk, writesExclusion_element k⟩
  exclusions k hk :=
    ⟨k.element, named_exclusion d ▸ List.mem_map_of_mem hk, writesExclusion_element k⟩

/-- There is a document for every coordinate with any dependencies. -/
theorem writesManifest_document (c : Coordinate) (ds : List Dependency) :
    (Manifest.document c ds).WritesManifest c ds where
  project := by
    refine ⟨.branch "project" c.leaves, ?_, ?_⟩
    · simp [Manifest.document, named_branch]
    · rw [← List.append_nil c.leaves]
      exact writesCoordinate_leaves "project" c fun _ => rfl
  dependencies := by
    have entries : (Manifest.document c ds).named "dependency" = ds.map Dependency.element := by
      simp [Manifest.document, named_branch]
    rw [entries, List.forall₂_map_left_iff, List.forall₂_same]
    exact fun d _ => writesDependency_element d

end Element

/-! ### Fields -/

namespace Element

variable {e : Element} {n t : String}

theorem child?_eq_head? (e : Element) (n : String) : e.child? n = (e.named n).head? :=
  List.head?_filter.symm

/-- Whatever blanks there are, the field has the trimmed text, if there is one. -/
theorem childText?_of_holds (h : e.Holds n (some t)) :
    e.childText? n = if trim t = "" then none else some (trim t) := by
  obtain ⟨x, only, before, after, front, back, text⟩ := h
  simp only [childText?, child?_eq_head?, only, List.head?_cons, text, bind, Option.bind_some,
    trim_pad front back]

theorem childText?_of_holds_none (h : e.Holds n none) : e.childText? n = none := by
  have only : e.named n = [] := h
  simp only [childText?, child?_eq_head?, only, List.head?_nil, bind, Option.bind_none]

theorem childText?_of_isFieldText (h : e.Holds n (some t)) (field : IsFieldText t) :
    e.childText? n = some t := by
  rw [childText?_of_holds h, field.trimmed, if_neg field.nonempty]

/-- Every text says what is left of it when it is trimmed. -/
theorem holds_of_texts (h : (e.named n).map (·.text.map trim) = [some t]) : e.Holds n (some t) := by
  obtain ⟨x, only, said⟩ := List.map_eq_singleton_iff.mp h
  obtain ⟨raw, text, rfl⟩ := Option.map_eq_some_iff.mp said
  obtain ⟨before, after, front, back, whole⟩ := exists_pad_trim raw
  exact ⟨x, only, before, after, front, back, text.trans (congrArg some whole)⟩

theorem WritesCoordinate.spells {c : Coordinate} (h : e.WritesCoordinate c) : e.Spells c := by
  intro f
  have written := h f
  cases hp : c.part? f with
  | none => exact childText?_of_holds_none (hp ▸ written)
  | some p =>
    exact childText?_of_isFieldText (hp ▸ written) (Coordinate.isPart_of_part? hp).isFieldText

theorem WritesExclusion.excludes {k : ArtifactKey} (h : e.WritesExclusion k)
    (fields : IsFieldText k.group ∧ IsFieldText k.artifact) : e.Excludes k :=
  ⟨childText?_of_isFieldText h.group fields.1, childText?_of_isFieldText h.artifact fields.2⟩

end Element

namespace Scope

theorem isFieldText_name (s : Scope) : IsFieldText s.name := by cases s <;> decide +kernel

theorem parseOrDefault_name (s : Scope) : parseOrDefault (some s.name) = s := by
  cases s <;> decide +kernel

end Scope

namespace Kind

/-- A type is trimmed anyway, and blanks are as good as none. -/
theorem ofType_trim (t : String) :
    ofType (if trim t = "" then none else some (trim t)) = ofType (some t) := by
  refine ofType_congr ?_
  split
  · rename_i empty
    have none : trim "" = "" := rfl
    simp [key, empty, none]
  · simp [key]

theorem isStorable_of_extension {k : Kind} (h : isExtension k.extension = true) :
    k.isStorable = true := by
  cases k with
  | other e => exact h
  | jar | source | manifest | metadata => rfl

end Kind

/-! ### Entries -/

namespace Element

variable {e : Element} {d : Dependency}

theorem WritesDependency.declares (h : e.WritesDependency d) (writable : d.Writable) :
    e.Declares d where
  coordinate := h.coordinate.spells
  scope := by
    rw [childText?_of_isFieldText h.scope (Scope.isFieldText_name d.scope)]
    exact Scope.parseOrDefault_name d.scope
  kind := by rw [childText?_of_holds h.kind, Kind.ofType_trim, writable.kind]
  storable := Kind.isStorable_of_extension writable.extension
  exclusions k := by
    constructor
    · intro hk
      obtain ⟨x, hx, written⟩ := h.exclusions k hk
      exact ⟨x, hx, written.excludes (writable.exclusions k hk)⟩
    · rintro ⟨x, hx, excluded⟩
      obtain ⟨k', hk, written⟩ := h.exclusion x hx
      have excluded' := written.excludes (writable.exclusions k' hk)
      rw [← Manifest.exclusionKey?_eq_some_iff] at excluded excluded'
      exact Option.some.inj (excluded'.symm.trans excluded) ▸ hk

/-- No exclusion that is written is incomplete. -/
theorem WritesDependency.incomplete (h : e.WritesDependency d) (writable : d.Writable) :
    Manifest.incomplete e = [] := by
  refine List.eq_nil_iff_forall_not_mem.mpr fun j hj => ?_
  obtain ⟨x, place, none⟩ := Manifest.mem_incomplete.mp hj
  obtain ⟨k, hk, written⟩ := h.exclusion x (List.mem_of_getElem? place)
  exact none k (written.excludes (writable.exclusions k hk))

theorem WritesDependency.contribution (h : e.WritesDependency d) (writable : d.Writable) (i : Nat) :
    Manifest.contribution i e = ([d], []) := by
  have read := Manifest.entryDependency_eq_ok_iff.mpr (h.declares writable)
  simp only [Manifest.contribution, read, Manifest.skippedExclusions_eq, h.incomplete writable,
    List.map_nil]

end Element

namespace Manifest

theorem contributions_of_written {root : Element} {ds : List Dependency}
    (h : List.Forall₂ Element.WritesDependency (root.named "dependency") ds)
    (writable : ∀ d ∈ ds, d.Writable) : contributions root = ds.map fun d => ([d], []) := by
  unfold contributions
  generalize root.named "dependency" = entries at h
  -- the places do not matter, because nothing is noted
  generalize 0 = i
  induction h generalizing i with
  | nil => rfl
  | @cons e d entries ds first _ ih =>
    have rest := ih (fun d hd => writable d (List.mem_cons_of_mem _ hd)) (i + 1)
    rw [List.zipIdx_cons, List.map_cons, List.map_cons, rest]
    exact congrArg (List.cons · _) (first.contribution (writable d List.mem_cons_self) i)

/-- Every manifest can be written, and however it is written, it is read as it was: the coordinate,
the dependencies in their order, and nothing left out. -/
theorem ofElement_written {ds : List Dependency} (writable : ∀ d ∈ ds, d.Writable)
    (c : Coordinate) :
    (document c ds).WritesManifest c ds ∧
      ∀ root : Element, root.WritesManifest c ds → ofElement c root = .ok ⟨c, ds, []⟩ := by
  refine ⟨Element.writesManifest_document c ds, fun root h => ?_⟩
  obtain ⟨p, only, written⟩ := h.project
  have first : root.child? "project" = some p := by
    rw [Element.child?_eq_head?, only, List.head?_cons]
  have given := contributions_of_written h.dependencies writable
  refine ofElement_eq_ok_iff.mpr ⟨⟨p, first, written.spells⟩, ?_⟩
  rw [given, List.flatMap_map, List.flatMap_map]
  simp

end Manifest

namespace Sample

/-- The sources of a part of `core`. -/
def coreApi : Dependency :=
  ⟨{ core with classifier := some "api", classifier_ok := by decide +kernel }, .compile, .source, ∅⟩

def libWithoutUtil : Dependency := ⟨lib, .runtime, .jar, .ofList [util.artifactKey]⟩

/-- The fields are out of order, the exclusion is repeated, there are blanks around the texts, and
there is more than is read. -/
def libEntry : Element := .branch "dependency" [
  .branch "exclusion" [.leaf "artifact" "util", .leaf "group" " org.demo"],
  .leaf "version" "1\n", .leaf "scope" "\truntime", .leaf "type" " jar ", .leaf "note" "soon",
  .leaf "artifact" "lib",
  .branch "exclusion" [.leaf "group" "org.demo", .leaf "reason" "", .leaf "artifact" "util\t"],
  .leaf "group" "org.demo"]

def coreEntry : Element := .branch "dependency" [
  .leaf "type" "source", .leaf "classifier" " api", .leaf "scope" "compile",
  .leaf "artifact" "core", .leaf "group" "org.demo", .leaf "version" "1"]

/-- The entries surround the project. -/
def letter : Element := .branch "document" [
  libEntry, .leaf "title" "app",
  .branch "project" [.leaf "version" "1", .leaf "group" " org.demo ", .leaf "artifact" "app"],
  coreEntry]

theorem libEntry_writes : libEntry.WritesDependency libWithoutUtil where
  coordinate f := by
    cases f with
    | group | artifact | version => exact Element.holds_of_texts (by decide +kernel)
    | classifier => rfl
  scope := Element.holds_of_texts (by decide +kernel)
  kind := Element.holds_of_texts (by decide +kernel)
  exclusion x hx := by
    refine ⟨util.artifactKey, by decide +kernel, ?_⟩
    obtain rfl | rfl := List.mem_pair.mp hx <;>
      exact ⟨Element.holds_of_texts (by decide +kernel), Element.holds_of_texts (by decide +kernel)⟩
  exclusions k hk := by
    obtain rfl := List.mem_singleton.mp hk
    exact ⟨_, List.mem_cons_self, Element.holds_of_texts (by decide +kernel),
      Element.holds_of_texts (by decide +kernel)⟩

theorem coreEntry_writes : coreEntry.WritesDependency coreApi where
  coordinate f := by
    cases f with
    | group | artifact | version | classifier => exact Element.holds_of_texts (by decide +kernel)
  scope := Element.holds_of_texts (by decide +kernel)
  kind := Element.holds_of_texts (by decide +kernel)
  exclusion := by simp [show coreEntry.named "exclusion" = [] from rfl]
  exclusions := by simp [coreApi]

theorem letter_writes : letter.WritesManifest app [libWithoutUtil, coreApi] where
  project := by
    refine ⟨_, rfl, fun f => ?_⟩
    cases f with
    | group | artifact | version => exact Element.holds_of_texts (by decide +kernel)
    | classifier => rfl
  dependencies := .cons libEntry_writes (.cons coreEntry_writes .nil)

end Sample

/-- The document is as untidy as it may be, and still is read as what it was written for. -/
theorem Manifest.ofElement_written_sample :
    (∀ d ∈ [Sample.libWithoutUtil, Sample.coreApi], d.Writable) ∧
    Sample.letter.WritesManifest Sample.app [Sample.libWithoutUtil, Sample.coreApi] ∧
    ofElement Sample.app Sample.letter =
      .ok ⟨Sample.app, [Sample.libWithoutUtil, Sample.coreApi], []⟩ := by
  have writable : ∀ d ∈ [Sample.libWithoutUtil, Sample.coreApi], d.Writable := by
    intro d hd
    obtain rfl | rfl := List.mem_pair.mp hd
    · exact ⟨by decide +kernel, by decide +kernel, by decide +kernel⟩
    · exact ⟨by decide +kernel, by decide +kernel, by decide +kernel⟩
  exact ⟨writable, Sample.letter_writes,
    (ofElement_written writable Sample.app).2 Sample.letter Sample.letter_writes⟩

end Depot
