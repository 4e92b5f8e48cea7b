import Depot.Resolution.Basic

/-!
# Catalogs as tables

A catalog that is written down row by row, and a small one to look at. In the small one `app`
needs `lib` and `core` and must not get `util` through `lib`; `lib` asks for `util`, for another
version of `core`, and for `app` itself; `core` asks for `util`, too.
-/

namespace Depot

namespace Catalog

/-- A coordinate whose manifest has no row is not found. -/
def fetchRow (rows : List Manifest) (c : Coordinate) : Except FetchError Manifest :=
  match rows.find? fun m => m.identity = c.manifestOf with
  | some m => .ok m
  | none => .error (.store (.notFound ⟨"mem", "/" ++ c.manifestOf.text, false⟩))

theorem mem_of_fetchRow {rows : List Manifest} {c : Coordinate} {m : Manifest}
    (h : fetchRow rows c = .ok m) : m ∈ rows := by
  unfold fetchRow at h
  split at h
  · rename_i found
    cases h
    exact List.mem_of_find?_eq_some found
  · simp at h

/-- The catalog that has these manifests and no others. -/
def ofRows (rows : List Manifest) : Catalog where
  fetch := fetchRow rows
  finite := by
    refine ⟨rows.flatMap fun m => m.dependencies.map fun d => d.coordinate.identity, ?_⟩
    intro c m hm d hd
    exact List.mem_flatMap.mpr ⟨m, mem_of_fetchRow hm, List.mem_map_of_mem hd⟩

end Catalog

namespace Sample

theorem unclassified : ∀ k ∈ (none : Option String), IsPart k := by simp

def package (artifact version : String) (named : IsPart artifact) (numbered : IsPart version) :
    Coordinate :=
  ⟨"org.demo", artifact, version, none, by decide +kernel, named, numbered, unclassified⟩

def app : Coordinate := package "app" "1" (by decide +kernel) (by decide +kernel)
def nextApp : Coordinate := package "app" "2" (by decide +kernel) (by decide +kernel)
def lib : Coordinate := package "lib" "1" (by decide +kernel) (by decide +kernel)
def core : Coordinate := package "core" "1" (by decide +kernel) (by decide +kernel)
def nextCore : Coordinate := package "core" "2" (by decide +kernel) (by decide +kernel)
def util : Coordinate := package "util" "1" (by decide +kernel) (by decide +kernel)

def needs (c : Coordinate) (exclusions : List ArtifactKey) : Dependency :=
  ⟨c, .compile, .jar, .ofList exclusions⟩

def catalog : Catalog := .ofRows [
  ⟨app, [needs lib [util.artifactKey], needs core []], []⟩,
  ⟨lib, [needs util [], needs nextCore [], needs nextApp []], []⟩,
  ⟨core, [needs util []], []⟩,
  ⟨util, [], []⟩]

/-- `util` comes through `core`, and the other versions that `lib` asks for are omitted. -/
def resolution : Resolution where
  entries := [⟨app, 0, .jar, none⟩, ⟨lib, 1, .jar, some app⟩, ⟨core, 1, .jar, some app⟩,
    ⟨util, 2, .jar, some core⟩]
  conflicts := [⟨core, 1, [⟨"2", 2, some lib⟩]⟩, ⟨app, 0, [⟨"2", 2, some lib⟩]⟩]

end Sample

end Depot
