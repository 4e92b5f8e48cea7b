import Depot.FileError
import Depot.Path
import Depot.Utf8

/-!
# File trees

Directories and files as a finite map from lists of names, with the calls that the program
makes on them. A path is followed name by name: a missing name, a file in the middle and a
name that is too long each have their own error, and whichever comes first is answered. A
directory or a file may also refuse a call whose names are right, and a write may stop when
only part of a file is written.
-/

namespace Depot

open Text

inductive FileNode where
  | directory
  | file (bytes : Bytes)
  deriving DecidableEq, Repr

/-- What is refused at a directory or a file, to whoever runs the program. -/
structure Refusals where
  /-- To look up a name in the directory. -/
  search : Option Refusal := none
  /-- To read the file, or to list the directory. -/
  read : Option Refusal := none
  /-- To open the file for writing, or to give and take names in the directory. -/
  write : Option Refusal := none
  /-- To write more than so many bytes to a file in the directory. -/
  room : Option (Nat × Refusal) := none
  deriving DecidableEq, Repr

/-- Stop where something is refused. -/
def allow : Option Refusal → Except FileError Unit
  | none => .ok ()
  | some why => .error (.refused why)

/-- The root is always there and is not listed. Relative paths start from the current
directory. Only what is listed as refused is. -/
structure FileTree where
  nodes : List (List String × FileNode)
  current : List String
  refused : List (List String × Refusals) := []
  deriving Repr

/-- The last name of a path, in the directory that it is looked up in. The root has an empty
last name. Slashes may follow. -/
structure LastName where
  directory : List String
  name : String
  slash : Bool
  deriving DecidableEq, Repr

namespace LastName

def path (p : LastName) : List String := p.directory ++ [p.name]

/-- A name that stands for a directory and can be neither given nor taken away. -/
def isFixed (p : LastName) : Bool := p.name = "" ∨ p.name = "." ∨ p.name = ".."

end LastName

namespace FileTree

def empty : FileTree := { nodes := [], current := [] }

def find? (t : FileTree) (path : List String) : Option FileNode :=
  if path = [] then some .directory else t.nodes.lookup path

def refusals (t : FileTree) (path : List String) : Refusals := (t.refused.lookup path).getD {}

/-- Why no name can be looked up in a directory. -/
def closed? (t : FileTree) (path : List String) : Option Refusal :=
  if t.find? path = some .directory then (t.refusals path).search else none

/-- Put a node in a place, with what is refused there from now on. -/
def set (path : List String) (n : FileNode) (m : Refusals) (t : FileTree) : FileTree :=
  { t with
    nodes := (path, n) :: t.nodes.filter (·.1 ≠ path)
    refused := (path, m) :: t.refused.filter (·.1 ≠ path) }

def erase (path : List String) (t : FileTree) : FileTree :=
  { t with
    nodes := t.nodes.filter (·.1 ≠ path)
    refused := t.refused.filter (·.1 ≠ path) }

/-- Take a node away with everything below it. -/
def eraseBelow (path : List String) (t : FileTree) : FileTree :=
  { t with
    nodes := t.nodes.filter fun n => !path.isPrefixOf n.1
    refused := t.refused.filter fun n => !path.isPrefixOf n.1 }

def maxName : Nat := 255

def maxPath : Nat := 4096

/-- Follow names from a directory. Each one has to be looked up, dots too. -/
def walk (t : FileTree) (here : List String) : List String → Except FileError (List String)
  | [] => .ok here
  | name :: rest =>
    if name = "" then walk t here rest
    else match t.closed? here with
      | some why => .error (.refused why)
      | none =>
        if name = "." then walk t here rest
        else if name = ".." then walk t here.dropLast rest
        else if name.utf8ByteSize > maxName then .error .nameTooLong
        else
          let there := here ++ [name]
          match t.find? there with
          | some .directory => walk t there rest
          | some (.file _) => if rest.isEmpty then .ok there else .error .notDirectory
          | none => .error .noEntry

/-- Some texts are no paths at all. -/
def checkPath (p : String) : Except FileError Unit :=
  if contains p '\x00' then .error .nulByte
  else if p = "" then .error .noEntry
  else if p.utf8ByteSize ≥ maxPath then .error .nameTooLong
  else .ok ()

/-- Where a path begins. -/
def base (t : FileTree) (p : String) : List String := if Path.isAbsolute p then [] else t.current

def locate (t : FileTree) (p : String) : Except FileError (List String) := do
  checkPath p
  t.walk (t.base p) (split '/' p)

/-- The node that a path leads to, with its place. -/
def entry (t : FileTree) (p : String) : Except FileError (List String × FileNode) :=
  match t.locate p with
  | .error e => .error e
  | .ok path =>
    match t.find? path with
    | some n => .ok (path, n)
    | none => .error .noEntry

/-- Follow a path up to its last name, which need not be there. -/
def lastName (t : FileTree) (p : String) : Except FileError LastName := do
  checkPath p
  let names := (split '/' p).filter (· ≠ "")
  let directory ← t.walk (t.base p) names.dropLast
  if t.find? directory = some .directory then
    match names.getLast? with
    | none => return ⟨directory, "", endsWith p "/"⟩
    | some name =>
      allow (t.closed? directory)
      return ⟨directory, name, endsWith p "/"⟩
  else throw .notDirectory

def checkName (p : LastName) : Except FileError Unit :=
  if p.name.utf8ByteSize > maxName then .error .nameTooLong else .ok ()

def isDirectory (t : FileTree) (p : String) : Bool :=
  match t.entry p with
  | .ok (_, .directory) => true
  | _ => false

def isFile (t : FileTree) (p : String) : Bool :=
  match t.entry p with
  | .ok (_, .file _) => true
  | _ => false

/-- A path leads somewhere, as far as can be seen. -/
def isThere (t : FileTree) (p : String) : Bool :=
  match t.entry p with
  | .ok _ => true
  | .error _ => false

def read (t : FileTree) (p : String) : Except FileError Bytes :=
  match t.entry p with
  | .error e => .error e
  | .ok (path, n) =>
    match (t.refusals path).read, n with
    | some why, _ => .error (.refused why)
    | none, .directory => .error .isDirectory
    | none, .file b => .ok b

/-- The names in a directory. -/
def list (t : FileTree) (p : String) : Except FileError (List String) :=
  match t.entry p with
  | .error e => .error e
  | .ok (_, .file _) => .error .notDirectory
  | .ok (path, .directory) => do
    allow (t.refusals path).read
    return t.nodes.filterMap fun n => if n.1.dropLast = path then n.1.getLast? else none

/-- Make one directory in a directory that is there. -/
def makeDir (t : FileTree) (p : String) : Except FileError FileTree := do
  let new ← t.lastName p
  if new.isFixed then throw .alreadyExists
  checkName new
  if (t.find? new.path).isSome then throw .alreadyExists
  allow (t.refusals new.directory).write
  return t.set new.path .directory {}

/-- Make a directory and those above it. The fuel is at least the number of segments. -/
def makeDirsWith : Nat → FileTree → String → Except FileError Unit × FileTree
  | 0, t, _ => (.error .noEntry, t)
  | fuel + 1, t, p =>
    if p = "" then (.ok (), t)
    else match t.makeDir p with
      | .ok t => (.ok (), t)
      | .error .noEntry =>
        match Path.parent? p with
        | none => (.error (.other "failed to create whole tree"), t)
        | some q =>
          match makeDirsWith fuel t q with
          | (.error e, t) => (.error e, t)
          | (.ok (), t) =>
            match t.makeDir p with
            | .ok t => (.ok (), t)
            | .error e => (if t.isDirectory p then .ok () else .error e, t)
      | .error e => (if t.isDirectory p then .ok () else .error e, t)

def makeDirs (t : FileTree) (p : String) : Except FileError Unit × FileTree :=
  makeDirsWith (p.length + 1) t p

/-- Open a file for writing, new or not. What is refused of an old one goes on being refused. -/
def openFile (t : FileTree) (p : String) : Except FileError (LastName × Refusals) := do
  let new ← t.lastName p
  if new.isFixed || new.slash then throw .isDirectory
  checkName new
  match t.find? new.path with
  | some .directory => throw .isDirectory
  | some (.file _) =>
    allow (t.refusals new.path).write
    return (new, t.refusals new.path)
  | none =>
    allow (t.refusals new.directory).write
    return (new, {})

/-- A write that failed, and the tree as it left it. -/
structure Stopped where
  error : FileError
  left : FileTree

/-- Write a whole file, new or not. What was in an old one is lost as soon as it is open, so a
write that stops later leaves the bytes up to there, and nothing else, in the file. -/
def write (t : FileTree) (p : String) (b : Bytes) : Except Stopped FileTree :=
  match t.openFile p with
  | .error e => .error ⟨e, t⟩
  | .ok (new, m) =>
    match (t.refusals new.directory).room.filter (·.1 < b.length) with
    | some (n, why) => .error ⟨.refused why, t.set new.path (.file (b.take n)) m⟩
    | none => .ok (t.set new.path (.file b) m)

/-- Give a file a new place, in which there may be a file but no directory. Both directories
are looked up first, then the names are checked, and then what is there. -/
def rename (t : FileTree) (source target : String) : Except FileError FileTree := do
  let old ← t.lastName source
  let new ← t.lastName target
  if old.isFixed || new.isFixed then throw .busy
  checkName old
  match t.find? old.path with
  | none => throw .noEntry
  | some .directory => throw .isDirectory
  | some (.file b) =>
    checkName new
    if old.slash || new.slash then throw .notDirectory
    allow (t.refusals old.directory).write
    allow (t.refusals new.directory).write
    if t.find? new.path = some .directory then throw .isDirectory
    return (t.erase old.path).set new.path (.file b) (t.refusals old.path)

/-- Take a file away, or a directory with all that is in it. -/
def remove (t : FileTree) (p : String) : Except FileError FileTree :=
  match t.entry p with
  | .error e => .error e
  | .ok (path, _) => .ok (t.eraseBelow path)

/-- All bytes in files. -/
def contents (t : FileTree) : List Bytes :=
  t.nodes.filterMap fun n => match n.2 with
    | .file b => some b
    | .directory => none

theorem mem_of_lookup {α β : Type} [BEq α] {k : α} {v : β} {es : List (α × β)}
    (h : es.lookup k = some v) : v ∈ es.map (·.2) := by
  induction es with
  | nil => simp at h
  | cons e es ih =>
    rw [List.lookup_cons] at h
    split at h
    · simp_all
    · exact List.mem_cons_of_mem _ (ih h)

variable {t : FileTree}

theorem mem_contents_of_find? {path : List String} {b : Bytes}
    (h : t.find? path = some (.file b)) : b ∈ t.contents := by
  unfold find? at h
  split at h
  · simp at h
  · obtain ⟨n, hn, hb⟩ := List.mem_map.mp (mem_of_lookup h)
    exact List.mem_filterMap.mpr ⟨n, hn, by rw [hb]⟩

theorem find?_of_entry {p : String} {path : List String} {n : FileNode}
    (h : t.entry p = .ok (path, n)) : t.find? path = some n := by
  unfold entry at h
  split at h
  · cases h
  · split at h
    · cases h
      assumption
    · cases h

theorem mem_contents_of_read {p : String} {b : Bytes} (h : t.read p = .ok b) :
    b ∈ t.contents := by
  unfold read at h
  split at h
  · cases h
  · split at h
    · cases h
    · cases h
    · cases h
      exact mem_contents_of_find? (find?_of_entry (by assumption))

end FileTree

end Depot
