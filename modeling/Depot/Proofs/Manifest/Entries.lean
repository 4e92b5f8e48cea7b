import Mathlib.Data.List.Basic
import Depot.Proofs.Resolution.Table
import Depot.Proofs.Text.Coordinates

/-!
# What a manifest has of its document

Whether a document is a manifest of a coordinate is seen from its project alone: the fields of the
project must be the parts of the coordinate. Of the entries, each gives what it gives by itself: a
dependency, with a note for each exclusion that is incomplete, or no dependency and a single note
that it is left out. So an entry that is wrong costs nothing but itself.
-/

namespace Depot

open Text

namespace Coordinate

/-- The part of a coordinate that a field is for. -/
def part? (c : Coordinate) : Field → Option String
  | .group => some c.group
  | .artifact => some c.artifact
  | .version => some c.version
  | .classifier => c.classifier

theorem isPart_of_part? {c : Coordinate} {f : Field} {p : String} (h : c.part? f = some p) :
    IsPart p := by
  cases f with
  | group => exact Option.some.inj h ▸ c.group_ok.toIsPart
  | artifact => exact Option.some.inj h ▸ c.artifact_ok
  | version => exact Option.some.inj h ▸ c.version_ok
  | classifier => exact c.classifier_ok p h

end Coordinate

namespace Element

/-- The fields of an element, trimmed, are the parts of a coordinate. -/
def Spells (e : Element) (c : Coordinate) : Prop := ∀ f, Manifest.fieldText? e f = c.part? f

/-- An exclusion that has both of its fields. -/
def Excludes (e : Element) (k : ArtifactKey) : Prop :=
  Manifest.fieldText? e .group = some k.group ∧ Manifest.fieldText? e .artifact = some k.artifact

/-- What an entry must be to declare a dependency. -/
structure Declares (e : Element) (d : Dependency) : Prop where
  coordinate : e.Spells d.coordinate
  scope : Scope.parseOrDefault (e.childText? "scope") = d.scope
  kind : Kind.ofType (e.childText? "type") = d.kind
  storable : d.kind.isStorable = true
  exclusions : ∀ k, k ∈ d.exclusions ↔ ∃ x ∈ e.named "exclusion", x.Excludes k

/-- The text of a field is that of the first child of the name, without the blanks around it, and
there is none if nothing else stands in that child. Later children of the name do not count. -/
theorem childText?_eq_some_iff {e : Element} {n t : String} : e.childText? n = some t ↔
    ∃ before x after raw, e.children = before ++ x :: after ∧ (∀ y ∈ before, y.name ≠ n) ∧
      x.name = n ∧ x.text = some raw ∧ ¬ Blank raw ∧ trim raw = t := by
  have first : ∀ x, e.child? n = some x ↔
      ∃ before after, e.children = before ++ x :: after ∧ (∀ y ∈ before, y.name ≠ n) ∧ x.name = n := by
    intro x
    rw [child?, List.find?_eq_some_iff_append]
    simp only [decide_eq_true_eq, Bool.not_eq_true', decide_eq_false_iff_not]
    constructor
    · rintro ⟨named, before, after, children, others⟩
      exact ⟨before, after, children, others, named⟩
    · rintro ⟨before, after, children, others, named⟩
      exact ⟨named, before, after, children, others⟩
  constructor
  · intro h
    obtain ⟨x, found, h⟩ := Option.bind_eq_some_iff.mp h
    obtain ⟨raw, text, h⟩ := Option.bind_eq_some_iff.mp h
    obtain ⟨before, after, children, others, named⟩ := (first x).mp found
    split at h
    · cases h
    · rename_i stands
      cases h
      exact ⟨before, x, after, raw, children, others, named, text, mt trim_eq_empty_iff.mpr stands,
        rfl⟩
  · rintro ⟨before, x, after, raw, children, others, named, text, stands, rfl⟩
    have found := (first x).mpr ⟨before, after, children, others, named⟩
    simp only [childText?, found, text, bind, Option.bind_some,
      if_neg (mt trim_eq_empty_iff.mp stands)]

theorem trim_of_childText? {e : Element} {n t : String} (h : e.childText? n = some t) :
    trim t = t := by
  obtain ⟨-, -, -, raw, -, -, -, -, -, rfl⟩ := childText?_eq_some_iff.mp h
  exact trim_trim raw

/-- Fields that have been trimmed already are built into the coordinate that they spell. -/
theorem spells_iff {e : Element} {c : Coordinate} :
    e.Spells c ↔ ∃ g a v, Manifest.fieldText? e .group = some g ∧
      Manifest.fieldText? e .artifact = some a ∧ Manifest.fieldText? e .version = some v ∧
      Coordinate.build g a v (Manifest.fieldText? e .classifier) = .ok c := by
  have trimmed : ∀ {f t}, Manifest.fieldText? e f = some t → trim t = t := trim_of_childText?
  have classified : (Manifest.fieldText? e .classifier).map trim =
      Manifest.fieldText? e .classifier := by
    cases hk : Manifest.fieldText? e .classifier with
    | none => rfl
    | some k => rw [Option.map_some, trimmed hk]
  constructor
  · intro h
    refine ⟨c.group, c.artifact, c.version, h .group, h .artifact, h .version, ?_⟩
    rw [Coordinate.build_eq_ok_iff, classified]
    exact ⟨trimmed (h .group), trimmed (h .artifact), trimmed (h .version), h .classifier⟩
  · rintro ⟨g, a, v, hg, ha, hv, built⟩
    rw [Coordinate.build_eq_ok_iff, classified, trimmed hg, trimmed ha, trimmed hv] at built
    obtain ⟨rfl, rfl, rfl, hk⟩ := built
    intro f
    cases f with
    | group => exact hg
    | artifact => exact ha
    | version => exact hv
    | classifier => exact hk

end Element

namespace Manifest

variable {requested c : Coordinate} {project entry root : Element}

theorem declaredIdentity_eq_ok_iff :
    declaredIdentity requested project = .ok c ↔ project.Spells c := by
  rw [Element.spells_iff]
  unfold declaredIdentity identityField
  cases fieldText? project .group <;> cases fieldText? project .artifact <;>
    cases fieldText? project .version <;> simp [bind, Except.bind]
  split <;> simp_all

theorem entryCoordinate_eq_ok_iff : entryCoordinate entry = .ok c ↔ entry.Spells c := by
  rw [Element.spells_iff]
  unfold entryCoordinate
  cases fieldText? entry .group <;> cases fieldText? entry .artifact <;>
    cases fieldText? entry .version <;> simp
  split <;> simp_all

theorem exclusionKey?_eq_some_iff {x : Element} {k : ArtifactKey} :
    exclusionKey? x = some k ↔ x.Excludes k := by
  obtain ⟨g, a⟩ := k
  unfold exclusionKey? Element.Excludes
  cases fieldText? x .group <;> cases fieldText? x .artifact <;> simp

theorem mem_entryExclusions {k : ArtifactKey} :
    k ∈ entryExclusions entry ↔ ∃ x ∈ entry.named "exclusion", x.Excludes k := by
  simp only [entryExclusions, OrderedSet.mem_ofList, List.mem_filterMap, exclusionKey?_eq_some_iff]

theorem entryKind_eq_ok_iff {k : Kind} :
    entryKind entry = .ok k ↔ Kind.ofType (entry.childText? "type") = k ∧ k.isStorable = true := by
  simp only [entryKind]
  split
  · rename_i storable
    constructor
    · intro read
      cases read
      exact ⟨rfl, storable⟩
    · rintro ⟨rfl, -⟩
      rfl
  · rename_i unstorable
    constructor
    · intro read
      cases read
    · rintro ⟨rfl, storable⟩
      exact absurd storable unstorable

/-- An entry is read as the dependency that it declares. -/
theorem entryDependency_eq_ok_iff {d : Dependency} :
    entryDependency entry = .ok d ↔ entry.Declares d := by
  unfold entryDependency
  constructor
  · intro read
    obtain ⟨c, coordinate, read⟩ := exists_ok_of_bind read
    obtain ⟨k, kind, read⟩ := exists_ok_of_bind read
    cases read
    obtain ⟨kind, storable⟩ := entryKind_eq_ok_iff.mp kind
    exact ⟨entryCoordinate_eq_ok_iff.mp coordinate, rfl, kind, storable, fun _ => mem_entryExclusions⟩
  · intro h
    have coordinate := entryCoordinate_eq_ok_iff.mpr h.coordinate
    have kind : entryKind entry = .ok d.kind := entryKind_eq_ok_iff.mpr ⟨h.kind, h.storable⟩
    have exclusions : entryExclusions entry = d.exclusions :=
      OrderedSet.ext_mem fun k => mem_entryExclusions.trans (h.exclusions k).symm
    rw [coordinate, kind, h.scope, exclusions]
    rfl

/-! ### One entry -/

/-- The places of the incomplete exclusions of an entry. -/
def incomplete (entry : Element) : List Nat :=
  ((entry.named "exclusion").zipIdx.filter fun x => (exclusionKey? x.1).isNone).map (·.2)

theorem mem_incomplete {j : Nat} :
    j ∈ incomplete entry ↔
      ∃ x, (entry.named "exclusion")[j]? = some x ∧ ∀ k, ¬ x.Excludes k := by
  simp only [incomplete, List.mem_map, List.mem_filter, List.mem_zipIdx_iff_getElem?,
    Option.isNone_iff_eq_none, Option.eq_none_iff_forall_ne_some, ne_eq, exclusionKey?_eq_some_iff]
  constructor
  · rintro ⟨⟨x, i⟩, ⟨place, none⟩, rfl⟩
    exact ⟨x, place, none⟩
  · rintro ⟨x, place, none⟩
    exact ⟨(x, j), ⟨place, none⟩, rfl⟩

theorem pairwise_incomplete (entry : Element) : (incomplete entry).Pairwise (· < ·) := by
  have places : ((entry.named "exclusion").zipIdx.map (·.2)).Pairwise (· < ·) := by
    rw [List.zipIdx_map_snd]
    exact List.pairwise_lt_range'
  exact places.sublist (List.filter_sublist.map _)

theorem skippedExclusions_eq (i : Nat) (entry : Element) :
    skippedExclusions i entry = (incomplete entry).map (.exclusion i) := by
  rw [skippedExclusions, incomplete, List.map_map, ← List.filterMap_eq_map, List.filterMap_filter]
  rfl

/-- All that an entry can give: the dependency that it declares, with a note for each exclusion that
is incomplete, or a note that it is left out. -/
inductive Gives (i : Nat) (entry : Element) : List Dependency × List Skipped → Prop where
  | dependency {d : Dependency} (declared : entry.Declares d) {js : List Nat}
      (ordered : js.Pairwise (· < ·))
      (incomplete : ∀ j, j ∈ js ↔
        ∃ x, (entry.named "exclusion")[j]? = some x ∧ ∀ k, ¬ x.Excludes k) :
      Gives i entry ([d], js.map (.exclusion i))
  | skipped (undeclared : ∀ d, ¬ entry.Declares d) (fault : EntryFault) :
      Gives i entry ([], [.dependency i fault])

theorem gives_contribution (i : Nat) (entry : Element) : Gives i entry (contribution i entry) := by
  unfold contribution
  cases read : entryDependency entry with
  | ok d =>
    simp only [skippedExclusions_eq]
    exact .dependency (entryDependency_eq_ok_iff.mp read) (pairwise_incomplete entry)
      fun _ => mem_incomplete
  | error fault =>
    refine .skipped (fun d declared => ?_) fault
    cases read.symm.trans (entryDependency_eq_ok_iff.mpr declared)

/-- The dependency that an entry declares, wherever in a document it stands. -/
def dependency? (entry : Element) : Option Dependency := (entryDependency entry).toOption

theorem dependencies_contribution (i : Nat) (entry : Element) :
    (contribution i entry).1 = (dependency? entry).toList := by
  unfold contribution dependency?
  cases entryDependency entry <;> rfl

theorem dependency?_eq_some_iff {d : Dependency} : dependency? entry = some d ↔ entry.Declares d := by
  rw [← entryDependency_eq_ok_iff, dependency?]
  cases entryDependency entry <;> simp [Except.toOption]

/-! ### The whole document -/

/-- The dependencies are those that the entries declare, each by itself. -/
theorem dependencies_contributions (root : Element) :
    (contributions root).flatMap (·.1) = (root.named "dependency").filterMap dependency? := by
  have alone : ∀ x : Element × Nat, (contribution x.2 x.1).1 = (dependency? x.1).toList :=
    fun x => dependencies_contribution x.2 x.1
  have entries := congrArg (List.flatMap fun e => (dependency? e).toList)
    (List.zipIdx_map_fst 0 (root.named "dependency"))
  rw [List.flatMap_map] at entries
  simp only [contributions, List.flatMap_map, alone]
  rw [entries, List.filterMap_eq_flatMap_toList]

/-- A document is a manifest of the coordinate that its project spells. -/
theorem ofElement_eq_ok_iff {m : Manifest} :
    ofElement requested root = .ok m ↔
      (∃ project, root.child? "project" = some project ∧ project.Spells requested) ∧
        m = ⟨requested, (contributions root).flatMap (·.1), (contributions root).flatMap (·.2)⟩ := by
  constructor
  · intro read
    unfold ofElement at read
    split at read
    · cases read
    · rename_i project first
      split at read
      · cases read
      · rename_i identity declared
        split at read
        · rename_i same
          cases read
          subst same
          exact ⟨⟨project, first, declaredIdentity_eq_ok_iff.mp declared⟩, rfl⟩
        · cases read
  · rintro ⟨⟨project, first, spelled⟩, rfl⟩
    have declared : declaredIdentity requested project = .ok requested :=
      declaredIdentity_eq_ok_iff.mpr spelled
    simp [ofElement, first, declared]

/-- Nothing but the project decides whether a document is a manifest, and why not. -/
theorem identity_ofElement {root root' : Element}
    (same : root.child? "project" = root'.child? "project") (requested : Coordinate) :
    (ofElement requested root).map identity = (ofElement requested root').map identity := by
  unfold ofElement
  rw [same]
  split
  · rfl
  · split
    · rfl
    · split <;> rfl

/-- A document is a manifest exactly if the fields of its first project are the parts of the
coordinate that is asked for, and no other part of the document decides that, or the error. What is
read from it is what its entries give, in their order. An entry gives a dependency with a note for
each of its incomplete exclusions, or a single note; the dependency is decided by the entry alone and
the notes by the entry and its place. So whatever stands between some entries of a document leaves
the dependencies of these as they are. -/
theorem ofElement_local :
    (∀ requested root root', root.child? "project" = root'.child? "project" →
      (ofElement requested root).map identity = (ofElement requested root').map identity) ∧
    (∀ requested root, (∃ m, ofElement requested root = .ok m) ↔
      ∃ project, root.child? "project" = some project ∧ project.Spells requested) ∧
    (∀ i entry, Gives i entry (contribution i entry)) ∧
    (∀ requested root m, ofElement requested root = .ok m → m.identity = requested ∧
      m.dependencies =
        ((root.named "dependency").zipIdx.map fun (e, i) => contribution i e).flatMap (·.1) ∧
      m.skipped =
        ((root.named "dependency").zipIdx.map fun (e, i) => contribution i e).flatMap (·.2)) ∧
    (∀ entry d, dependency? entry = some d ↔ entry.Declares d) ∧
    ∀ requested root m before now after, ofElement requested root = .ok m →
      root.named "dependency" = before ++ now ++ after →
      m.dependencies = before.filterMap dependency? ++ now.filterMap dependency? ++
        after.filterMap dependency? := by
  refine ⟨fun requested root root' same => identity_ofElement same requested, ?_, gives_contribution,
    ?_, fun _ _ => dependency?_eq_some_iff, ?_⟩
  · intro requested root
    constructor
    · rintro ⟨m, read⟩
      exact (ofElement_eq_ok_iff.mp read).1
    · intro spelled
      exact ⟨_, ofElement_eq_ok_iff.mpr ⟨spelled, rfl⟩⟩
  · intro requested root m read
    obtain ⟨-, rfl⟩ := ofElement_eq_ok_iff.mp read
    exact ⟨rfl, rfl, rfl⟩
  · intro requested root m before now after read entries
    obtain ⟨-, rfl⟩ := ofElement_eq_ok_iff.mp read
    simp only [dependencies_contributions, entries, List.filterMap_append]

end Manifest

namespace Sample

/-- A table of fields. -/
def record (name : String) (fields : List (String × String)) (more : List Element) : Element :=
  .branch name (fields.map (fun f => .leaf f.1 f.2) ++ more)

def soundEntry : Element :=
  record "dependency" [("group", " org.demo "), ("artifact", "lib"), ("version", "1")] []

/-- There is no version. -/
def brokenEntry : Element := record "dependency" [("group", "org.demo"), ("artifact", "lib")] []

/-- The first exclusion has no artifact. -/
def patchyEntry : Element :=
  record "dependency"
    [("group", "org.demo"), ("artifact", "core"), ("version", "1"), ("scope", " Test ")]
    [record "exclusion" [("group", "org.demo")] [],
      record "exclusion" [("group", "org.demo"), ("artifact", "util")] []]

def appProject : Element :=
  record "project" [("group", "org.demo"), ("artifact", " app "), ("version", "1")] []

/-- A second project does not count. -/
def ledger (entries : List Element) : Element :=
  .branch "document" (appProject :: entries ++ [record "project" [] []])

end Sample

open Sample in
/-- A broken entry between two others is left out and noted, and so is an incomplete exclusion. Without
the broken one the others declare the same. -/
theorem Manifest.ofElement_local_sample :
    ∃ m m', ofElement app (ledger [soundEntry, brokenEntry, patchyEntry]) = .ok m ∧
      ofElement app (ledger [soundEntry, patchyEntry]) = .ok m' ∧
      m.dependencies =
        [⟨lib, .compile, .jar, ∅⟩, ⟨core, .test, .jar, .ofList [util.artifactKey]⟩] ∧
      m.skipped = [.dependency 1 (.missing [.version]), .exclusion 2 0] ∧
      m'.dependencies = m.dependencies ∧ m'.skipped = [.exclusion 1 0] := by
  obtain ⟨-, reads, -, whole, -, around⟩ := ofElement_local
  have spelled : appProject.Spells app := by
    intro f
    cases f <;> decide +kernel
  obtain ⟨m, read⟩ := (reads app (ledger [soundEntry, brokenEntry, patchyEntry])).mpr
    ⟨appProject, rfl, spelled⟩
  obtain ⟨m', read'⟩ := (reads app (ledger [soundEntry, patchyEntry])).mpr ⟨appProject, rfl, spelled⟩
  have between := around app _ m [soundEntry] [brokenEntry] [patchyEntry] read rfl
  have without := around app _ m' [soundEntry] [] [patchyEntry] read' rfl
  have nothing : [brokenEntry].filterMap dependency? = [] := by decide +kernel
  rw [nothing] at between
  refine ⟨m, m', read, read', ?_, ?_, without.trans between.symm, ?_⟩
  · rw [(whole app _ m read).2.1]
    decide +kernel
  · rw [(whole app _ m read).2.2]
    decide +kernel
  · rw [(whole app _ m' read').2.2]
    decide +kernel

end Depot
