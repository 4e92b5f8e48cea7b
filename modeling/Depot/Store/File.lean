import Depot.Store.Basic
import Depot.FileTree

/-!
# The file store

A store in a directory. Every call first looks at the directory itself, which is never made
here. A file is written under another name and then renamed, so that nobody who reads its place
sees half of it.
-/

namespace Depot

open Text

structure FileStore where
  root : String
  tree : FileTree
  deriving Repr

namespace FileStore

def scheme : String := "file"

def checkRoot (s : FileStore) : Except StoreError Unit :=
  match s.tree.entry s.root with
  | .ok (_, .directory) => .ok ()
  | .ok (_, .file _) => .error (.unavailable ("store root " ++ s.root ++ " is not a directory"))
  | .error .noEntry => .error (.unavailable ("store root " ++ s.root ++ " does not exist"))
  | .error e => .error (.io e)

/-- The place of a locator in the file tree. -/
def resolvePath (s : FileStore) (l : Locator) : Except StoreError String :=
  if l.scheme = scheme then
    .ok (((split '/' l.path).filter (· ≠ "")).foldl Path.join s.root)
  else .error (.foreignLocator l)

def locator (s : FileStore) (c : Coordinate) (kind : Option Kind) (signature : Option Signature)
    (writable : Bool) : Except StoreError Locator := do
  s.checkRoot
  match Layout.path c kind signature with
  | .ok p => .ok ⟨scheme, p, writable⟩
  | .error f => .error (.invalidCoordinate f.message)

def makeDirs (s : FileStore) (p : String) : Except StoreError Unit × FileStore :=
  match s.tree.makeDirs p with
  | (.ok (), t) => (.ok (), { s with tree := t })
  | (.error e, t) => (.error (.io e), { s with tree := t })

/-- The directory that a locator is, or lies in. -/
def directoryOf (l : Locator) (p : String) : Option String :=
  if l.directory then some p else Path.parent? p

def prepare (s : FileStore) (c : Coordinate) (kind : Option Kind)
    (signature : Option Signature) : Except StoreError Locator × FileStore :=
  match s.locator c kind signature true with
  | .error e => (.error e, s)
  | .ok l =>
    match s.resolvePath l with
    | .error e => (.error e, s)
    | .ok p =>
      match directoryOf l p with
      | none => (.ok l, s)
      | some d =>
        match s.makeDirs d with
        | (.ok (), s) => (.ok l, s)
        | (.error e, s) => (.error e, s)

def hasContent (s : FileStore) (l : Locator) : Except StoreError Bool := do
  s.checkRoot
  let p ← s.resolvePath l
  if l.directory then
    match s.tree.list p with
    | .ok names => .ok !names.isEmpty
    | .error .noEntry => .ok false
    | .error e => .error (.io e)
  else
    match s.tree.entry p with
    | .ok (_, .file _) => .ok true
    | .ok (_, .directory) => .ok false
    | .error .noEntry => .ok false
    | .error e => .error (.io e)

def read (s : FileStore) (l : Locator) : Except StoreError Bytes := do
  s.checkRoot
  let p ← s.resolvePath l
  match s.tree.read p with
  | .ok b => .ok b
  | .error .noEntry => .error (.notFound l)
  | .error e => .error (.io e)

def checkWrite (s : FileStore) (l : Locator) : Except StoreError String := do
  s.checkRoot
  if l.writable && !l.directory then s.resolvePath l else .error (.readOnlyLocator l)

/-- Write beside the place and rename. What a step that fails has done is not undone. -/
def replace (s : FileStore) (p : String) (b : Bytes) : Except StoreError Unit × FileStore :=
  let side := p ++ ".part"
  match s.tree.write side b with
  | .error stopped => (.error (.io stopped.error), { s with tree := stopped.left })
  | .ok t =>
    match t.rename side p with
    | .error e => (.error (.io e), { s with tree := t })
    | .ok t => (.ok (), { s with tree := t })

def write (s : FileStore) (l : Locator) (b : Bytes) : Except StoreError Unit × FileStore :=
  match s.checkWrite l with
  | .error e => (.error e, s)
  | .ok p =>
    match Path.parent? p with
    | none => s.replace p b
    | some d =>
      match s.makeDirs d with
      | (.error e, s) => (.error e, s)
      | (.ok (), s) => s.replace p b

theorem contents_finite (s : FileStore) :
    ∃ bs : List Bytes, ∀ l b, s.read l = .ok b → b ∈ bs := by
  refine ⟨s.tree.contents, fun l b h => ?_⟩
  unfold read at h
  cases hr : s.checkRoot with
  | error e => simp [hr, bind, Except.bind] at h
  | ok u =>
    cases hp : s.resolvePath l with
    | error e => simp [hr, hp, bind, Except.bind] at h
    | ok p =>
      simp only [hr, hp, bind, Except.bind] at h
      split at h
      · simp only [Except.ok.injEq] at h
        subst h
        exact FileTree.mem_contents_of_read (by assumption)
      · simp at h
      · simp at h

instance : ArtifactStore FileStore where
  locate s c k g := s.locator c k g false
  prepare := prepare
  hasContent := hasContent
  read := read
  write := write
  contents_finite := contents_finite

end FileStore

end Depot
